import Fudge.Call.Run

/-!
# Views that do not interfere

An object made of parts is seen through one view for each part. If every call belongs to one part,
reads only that part and writes only that part, then what happens to a part in a run is what would
have happened without the calls on the others: the calls on one part can be taken out of the run and
made alone, with the same results. The run then depends on the order of the calls on each part only,
and not on how these orders are interleaved.
-/

namespace Fudge

namespace Call

variable {σ ε ρ ω ι : Type} {V : ι → Type}

/-! ## Calls on one part -/

section Reads

variable {τ δ α β γ : Type} {f : σ → γ}

/-- What the call returns, and what it makes of `f`, depends on `f` alone. -/
def Reads (f : σ → γ) (c : Call σ ε α) : Prop :=
  ∀ s t, f s = f t → (c s).1 = (c t).1 ∧ f (c s).2 = f (c t).2

namespace Reads

variable {c : Call σ ε α}

protected theorem pure (a : α) : Reads f (pure a : Call σ ε α) := fun _ _ h ↦ ⟨rfl, h⟩

protected theorem fail (e : ε) : Reads f (fail e : Call σ ε α) := fun _ _ h ↦ ⟨rfl, h⟩

protected theorem query (a : Except δ α) (mk : δ → ε) : Reads f (query (fun _ ↦ a) mk) := by
  intro s t h
  rw [query, query]
  cases a with
  | ok a => exact ⟨rfl, h⟩
  | error e => exact ⟨rfl, h⟩

protected theorem mapErr {g : ε → δ} (h : Reads f c) : Reads f (mapErr g c) := by
  intro s t hst
  obtain ⟨hresult, hview⟩ := h s t hst
  refine ⟨?_, ?_⟩
  · rw [mapErr, mapErr]
    rcases hs : c s with ⟨_ | _ | _, u⟩ <;> rcases ht : c t with ⟨_ | _ | _, v⟩ <;>
      rw [hs, ht] at hresult <;> cases hresult <;> rfl
  · rw [mapErr_snd, mapErr_snd]
    exact hview

protected theorem zoom {get : τ → σ} {set : σ → τ → τ} {f : τ → γ}
    (hget : ∀ s t, f s = f t → get s = get t)
    (hset : ∀ a s t, f s = f t → f (set a s) = f (set a t)) : Reads f (zoom get set c) := by
  intro s t h
  rw [zoom, zoom, hget s t h]
  exact ⟨rfl, hset _ s t h⟩

protected theorem bind {g : α → Call σ ε β} (hc : Reads f c) (hg : ∀ a, Reads f (g a)) :
    Reads f (c >>= g) := by
  intro s t hst
  obtain ⟨hresult, hview⟩ := hc s t hst
  rcases hs : c s with ⟨_ | _ | _, u⟩ <;> rcases ht : c t with ⟨_ | _ | _, v⟩ <;>
    rw [hs, ht] at hresult hview <;> cases hresult
  · rw [bind_of_ok hs, bind_of_ok ht]
    exact hg _ u v hview
  · rw [bind_of_err hs, bind_of_err ht]
    exact ⟨rfl, hview⟩
  · rw [bind_of_panic hs, bind_of_panic ht]
    exact ⟨rfl, hview⟩

protected theorem map {g : α → β} (h : Reads f c) : Reads f (map g c) := by
  intro s t hst
  obtain ⟨hresult, hview⟩ := h s t hst
  exact ⟨congrArg (Outcome.map g) hresult, hview⟩

protected theorem forEach {g : β → Call σ ε α} (h : ∀ b, Reads f (g b)) (l : List β) :
    Reads f (forEach g l) := by
  induction l with
  | nil => exact Reads.pure ()
  | cons b l ih => exact Reads.bind (h b) fun _ ↦ ih

end Reads

end Reads

/-! ## Runs -/

/-- The calls of a run with what they returned, up to a panic. -/
def trace (step : ω → Call σ ε ρ) : List ω → σ → List (ω × Outcome ε ρ)
  | [], _ => []
  | op :: ops, s =>
    (op, (step op s).1) :: if (step op s).1.isPanic then [] else trace step ops (step op s).2

/-- **The calls that are not seen may be left out**: if they do not change the view, and the others
depend on nothing else, then a run without them leaves the same view, and the others return the
same. -/
theorem run_seen {γ : Type} {step : ω → Call σ ε ρ} {ok : ω → Prop} {I : σ → Prop}
    {seen : ω → Bool} {f : σ → γ} (hI : ∀ op, ok op → ∀ s, I s → I (step op s).2)
    (hread : ∀ op, ok op → seen op = true → Reads f (step op))
    (hunseen : ∀ op, ok op → seen op = false →
      ∀ s, I s → (step op s).1.isPanic = false ∧ f (step op s).2 = f s) :
    ∀ (ops : List ω), (∀ op ∈ ops, ok op) → ∀ {s t : σ}, I s → I t → f s = f t →
      f (run step ops s) = f (run step (ops.filter seen) t) ∧
        (trace step ops s).filter (seen ·.1) = trace step (ops.filter seen) t := by
  intro ops
  induction ops with
  | nil => exact fun _ _ _ _ _ hview ↦ ⟨hview, rfl⟩
  | cons op ops ih =>
    intro hops s t hs ht hview
    obtain ⟨hok, hrest⟩ := List.forall_mem_cons.mp hops
    rw [run, trace]
    cases hseen : seen op with
    | true =>
      -- the call is made in both runs, and ends both if it panics
      obtain ⟨hresult, hview'⟩ := hread op hok hseen s t hview
      rw [List.filter_cons_of_pos hseen, List.filter_cons_of_pos (by simpa using hseen), run, trace,
        hresult]
      cases hpanic : (step op t).1.isPanic with
      | true => exact ⟨hview', rfl⟩
      | false =>
        obtain ⟨hrun, htrace⟩ := ih hrest (hI op hok s hs) (hI op hok t ht) hview'
        exact ⟨hrun, congrArg _ htrace⟩
    | false =>
      obtain ⟨hquiet, hsame⟩ := hunseen op hok hseen s hs
      have hno : ¬ seen op = true := Bool.eq_false_iff.mp hseen
      rw [hquiet, List.filter_cons_of_neg hno, List.filter_cons_of_neg (by simpa using hno)]
      exact ih hrest (hI op hok s hs) ht (hsame.trans hview)

/-- Every call that is `ok` belongs to the part `owner` says, or to none and changes nothing. -/
structure Separated (ok : ω → Prop) (step : ω → Call σ ε ρ) (view : ∀ i, σ → V i)
    (owner : ω → Option ι) : Prop where
  /-- A call changes no part but its own. -/
  frame : ∀ op i, ok op → owner op ≠ some i → Keeps (view i) (step op)
  /-- A call depends on its part alone. -/
  reads : ∀ op i, ok op → owner op = some i → Reads (view i) (step op)

namespace Separated

variable {ok : ω → Prop} {step : ω → Call σ ε ρ} {view : ∀ i, σ → V i} {owner : ω → Option ι}
  {I : σ → Prop} [DecidableEq ι]

/-- **Noninterference**: seen through one view, a run is the run of the calls on that part, made in
any state that looks the same, and those calls return the same. -/
theorem run_filter (h : Separated ok step view owner) (hI : ∀ op, ok op → Safe I (step op))
    (i : ι) (ops : List ω) {s t : σ} (hops : ∀ op ∈ ops, ok op) (hs : I s) (ht : I t)
    (hview : view i s = view i t) :
    view i (run step ops s) = view i (run step (ops.filter (owner · = some i)) t) ∧
      (trace step ops s).filter (owner ·.1 = some i) =
        trace step (ops.filter (owner · = some i)) t :=
  run_seen (fun op hop s hs ↦ (hI op hop s hs).2)
    (fun op hop hi ↦ h.reads op i hop (of_decide_eq_true hi))
    (fun op hop hi s hs ↦ ⟨(hI op hop s hs).1, h.frame op i hop (of_decide_eq_false hi) s⟩)
    ops hops hs ht hview

/-- **Interleaving does not matter**: two runs with the same calls on each part, in the same order,
end in states that look the same through every view, and the calls on each part return the same. -/
theorem run_congr (h : Separated ok step view owner) (hI : ∀ op, ok op → Safe I (step op))
    {ops ops' : List ω} (hok : ∀ op ∈ ops, ok op) (hok' : ∀ op ∈ ops', ok op) {s : σ} (hs : I s)
    (hops : ∀ i, ops.filter (owner · = some i) = ops'.filter (owner · = some i)) (i : ι) :
    view i (run step ops s) = view i (run step ops' s) ∧
      (trace step ops s).filter (owner ·.1 = some i) =
        (trace step ops' s).filter (owner ·.1 = some i) := by
  obtain ⟨hrun, htrace⟩ := h.run_filter hI i ops hok hs hs rfl
  obtain ⟨hrun', htrace'⟩ := h.run_filter hI i ops' hok' hs hs rfl
  rw [hrun, hrun', htrace, htrace', hops i]
  exact ⟨rfl, rfl⟩

end Separated

end Call

end Fudge
