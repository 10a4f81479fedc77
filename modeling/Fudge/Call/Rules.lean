import Fudge.Call.Basic

/-!
# Rules for calls

Two judgements about a call, both closed under sequencing and loops.

* `Triple P c Q E`: from a state with `P`, a call that returns `a` leaves a state with `Q a`, and a
  call that gives up, by an error or by a panic, leaves a state with `E`. The separate `E` is the
  point: an early return is where invariants that span several writes are lost.
* `Keeps f c`: whatever the outcome, the call does not change the observation `f` of the state.
  This is the frame rule, and most of a large call is discharged by it.

`Preserves I c` is the triple in which all three assertions are `I`. `NoPanic c` and `Safe I c` are
about failing assertions: the one for calls without any, the other for calls whose assertions hold
under an invariant.
-/

namespace Fudge

namespace Call

variable {σ τ ε δ α β γ : Type}

/-! ## Triples -/

/-- From a state with `P` the call ends in a state with `Q` of its value, or gives up in a state
with `E`. -/
def Triple (P : σ → Prop) (c : Call σ ε α) (Q : α → σ → Prop) (E : σ → Prop) : Prop :=
  ∀ s, P s → (∀ a t, c s = (.ok a, t) → Q a t) ∧ ((c s).1.isOk = false → E (c s).2)

namespace Triple

variable {P : σ → Prop} {Q : α → σ → Prop} {E : σ → Prop} {c : Call σ ε α}

theorem ok (h : Triple P c Q E) {s t : σ} {a : α} (hs : P s) (hc : c s = (.ok a, t)) : Q a t :=
  (h s hs).1 a t hc

theorem stopped (h : Triple P c Q E) {s : σ} (hs : P s) (hc : (c s).1.isOk = false) :
    E (c s).2 :=
  (h s hs).2 hc

/-- However the call ends, one of the two assertions is left. -/
theorem final (h : Triple P c Q E) {s : σ} (hs : P s) : (∃ a, Q a (c s).2) ∨ E (c s).2 := by
  rcases hc : c s with ⟨_ | _ | _, t⟩
  · exact Or.inl ⟨_, h.ok hs hc⟩
  · have := h.stopped hs (by rw [hc]; rfl)
    rw [hc] at this
    exact Or.inr this
  · have := h.stopped hs (by rw [hc]; rfl)
    rw [hc] at this
    exact Or.inr this

theorem of_returned {s t : σ} {a : α} (h : c s = (.ok a, t)) (hQ : Q a t) :
    (∀ a t, c s = (.ok a, t) → Q a t) ∧ ((c s).1.isOk = false → E (c s).2) := by
  refine ⟨fun a' t' h' ↦ ?_, fun hno ↦ ?_⟩
  · obtain ⟨⟨⟩, rfl⟩ := Prod.mk.inj (h.symm.trans h')
    exact hQ
  · simp [h, Outcome.isOk] at hno

theorem of_stopped {s : σ} (hno : (c s).1.isOk = false) (hE : E (c s).2) :
    (∀ a t, c s = (.ok a, t) → Q a t) ∧ ((c s).1.isOk = false → E (c s).2) := by
  refine ⟨fun a t h ↦ ?_, fun _ ↦ hE⟩
  simp [h, Outcome.isOk] at hno

protected theorem pure (a : α) (h : ∀ s, P s → Q a s) : Triple P (pure a : Call σ ε α) Q E := by
  intro s hs
  refine ⟨fun b t hc ↦ ?_, fun hc ↦ by cases hc⟩
  obtain ⟨rfl, rfl⟩ : a = b ∧ s = t := by simpa using hc
  exact h s hs

protected theorem bind {f : α → Call σ ε β} {M : α → σ → Prop} {R : β → σ → Prop}
    (hc : Triple P c M E) (hf : ∀ a, Triple (M a) (f a) R E) : Triple P (c >>= f) R E := by
  intro s hs
  rcases h : c s with ⟨_ | _ | _, t⟩
  · rw [bind_of_ok h]
    exact hf _ t (hc.ok hs h)
  · have hE := hc.stopped hs (by rw [h]; rfl)
    rw [bind_of_err h]
    rw [h] at hE
    exact ⟨fun a t h' ↦ (by cases h'), fun _ ↦ hE⟩
  · have hE := hc.stopped hs (by rw [h]; rfl)
    rw [bind_of_panic h]
    rw [h] at hE
    exact ⟨fun a t h' ↦ (by cases h'), fun _ ↦ hE⟩

/-- A loop invariant: `I done rest` holds before the rest of the list is run. -/
protected theorem forEach {f : β → Call σ ε α} {I : List β → List β → σ → Prop}
    (h : ∀ done b rest, Triple (I done (b :: rest)) (f b) (fun _ ↦ I (done ++ [b]) rest) E) :
    ∀ (rest done : List β),
      Triple (I done rest) (forEach f rest) (fun _ ↦ I (done ++ rest) []) E := by
  intro rest
  induction rest with
  | nil =>
    intro done
    rw [List.append_nil]
    exact Triple.pure () fun s hs ↦ hs
  | cons b rest ih =>
    intro done
    rw [forEach_cons, show done ++ b :: rest = (done ++ [b]) ++ rest from by simp]
    exact Triple.bind (h done b rest) fun _ ↦ ih (done ++ [b])

end Triple

/-! ## Preservation -/

/-- Whatever the outcome, the call preserves `I`. -/
def Preserves (I : σ → Prop) (c : Call σ ε α) : Prop := ∀ s, I s → I (c s).2

namespace Preserves

variable {I : σ → Prop} {c : Call σ ε α}

theorem triple (h : Preserves I c) : Triple I c (fun _ ↦ I) I := by
  intro s hs
  refine ⟨fun a t hc ↦ ?_, fun _ ↦ h s hs⟩
  have := h s hs
  rwa [hc] at this

theorem of_triple (h : Triple I c (fun _ ↦ I) I) : Preserves I c := by
  intro s hs
  rcases h.final hs with ⟨-, h'⟩ | h'
  · exact h'
  · exact h'

protected theorem bind {f : α → Call σ ε β} (hc : Preserves I c) (hf : ∀ a, Preserves I (f a)) :
    Preserves I (c >>= f) :=
  of_triple (Triple.bind hc.triple fun a ↦ (hf a).triple)

protected theorem modify {f : σ → σ} (h : ∀ s, I s → I (f s)) :
    Preserves I (modify f : Call σ ε Unit) := h

protected theorem map {f : α → β} (h : Preserves I c) : Preserves I (map f c) := h

protected theorem forEach {f : β → Call σ ε α} {l : List β}
    (h : ∀ b ∈ l, Preserves I (f b)) : Preserves I (forEach f l) := by
  induction l with
  | nil => exact fun s hs ↦ hs
  | cons b l ih =>
    rw [forEach_cons]
    exact Preserves.bind (h b List.mem_cons_self)
      fun _ ↦ ih fun b' hb' ↦ h b' (List.mem_cons_of_mem b hb')

end Preserves

/-! ## Frames -/

/-- Whatever the outcome, the call leaves the observation `f` as it was. -/
def Keeps (f : σ → γ) (c : Call σ ε α) : Prop := ∀ s, f (c s).2 = f s

namespace Keeps

variable {f : σ → γ} {c : Call σ ε α}

theorem eq_of_ok (h : Keeps f c) {s t : σ} {a : α} (hc : c s = (.ok a, t)) : f t = f s := by
  have := h s
  rwa [hc] at this

theorem preserves (h : Keeps f c) {I : σ → Prop} (hI : ∀ s t, f t = f s → I s → I t) :
    Preserves I c :=
  fun s hs ↦ hI s _ (h s) hs

protected theorem pure (a : α) : Keeps f (pure a : Call σ ε α) := fun _ ↦ rfl

protected theorem read (g : σ → α) : Keeps f (read g : Call σ ε α) := fun _ ↦ rfl

protected theorem modify {g : σ → σ} (h : ∀ s, f (g s) = f s) :
    Keeps f (modify g : Call σ ε Unit) := h

protected theorem assert (p : σ → Bool) : Keeps f (assert p : Call σ ε Unit) := by
  intro s
  rw [assert]
  split <;> rfl

protected theorem query (q : σ → Except δ α) (mk : δ → ε) : Keeps f (query q mk) := by
  intro s
  rw [query]
  split <;> rfl

protected theorem require (e : ε) (o : Option α) : Keeps f (require e o) := by
  intro s
  cases o <;> rfl

protected theorem returned (o : Outcome ε α) : Keeps f (returned o) := fun _ ↦ rfl

protected theorem mapErr {g : ε → δ} (h : Keeps f c) : Keeps f (mapErr g c) := by
  intro s
  rw [← h s, mapErr]
  split <;> simp_all

protected theorem map {g : α → β} (h : Keeps f c) : Keeps f (map g c) := h

protected theorem zoom {get : τ → σ} {set : σ → τ → τ} {f : τ → γ} {c : Call σ ε α}
    (h : ∀ a s, f (set a s) = f s) : Keeps f (zoom get set c) :=
  fun s ↦ h _ s

protected theorem zoom_of_read {get : τ → σ} {set : σ → τ → τ} {f : τ → γ} {c : Call σ ε α}
    (hset : ∀ t, set (get t) t = t) (h : Keeps id c) : Keeps f (zoom get set c) := by
  intro t
  have hc : (c (get t)).2 = get t := h (get t)
  rw [zoom, hc, hset]

protected theorem bind {g : α → Call σ ε β} (hc : Keeps f c) (hg : ∀ a, Keeps f (g a)) :
    Keeps f (c >>= g) := by
  intro s
  rw [← hc s]
  rcases h : c s with ⟨_ | _ | _, t⟩
  · rw [bind_of_ok h]
    exact hg _ t
  · rw [bind_of_err h]
  · rw [bind_of_panic h]

protected theorem forEach {g : β → Call σ ε α} (h : ∀ b, Keeps f (g b)) (l : List β) :
    Keeps f (forEach g l) := by
  induction l with
  | nil => exact fun s ↦ rfl
  | cons b l ih => exact Keeps.bind (h b) fun _ ↦ ih

end Keeps

theorem Preserves.of_read {c : Call σ ε α} {I : σ → Prop} (h : Keeps id c) : Preserves I c := by
  intro s hs
  have hsame : (c s).2 = s := h s
  rwa [hsame]

theorem Keeps.triple {f : σ → γ} {c : Call σ ε α} {I E : σ → Prop} (h : Keeps f c)
    (hI : ∀ s t, f t = f s → I s → I t) (hE : ∀ s, I s → E s) : Triple I c (fun _ ↦ I) E :=
  fun s hs ↦ ⟨fun _ t hc ↦ hI s t (h.eq_of_ok hc) hs, fun _ ↦ hE _ (hI s _ (h s) hs)⟩

/-! ## Calls without assertions -/

def NoPanic (c : Call σ ε α) : Prop := ∀ s, (c s).1.isPanic = false

namespace NoPanic

variable {c : Call σ ε α}

protected theorem pure (a : α) : NoPanic (pure a : Call σ ε α) := fun _ ↦ rfl

protected theorem read (g : σ → α) : NoPanic (read g : Call σ ε α) := fun _ ↦ rfl

protected theorem modify (g : σ → σ) : NoPanic (modify g : Call σ ε Unit) := fun _ ↦ rfl

protected theorem query (q : σ → Except δ α) (mk : δ → ε) : NoPanic (query q mk) := by
  intro s
  rw [query]
  split <;> rfl

protected theorem require (e : ε) (o : Option α) : NoPanic (require e o : Call σ ε α) := by
  intro s
  cases o <;> rfl

protected theorem fail (e : ε) : NoPanic (fail e : Call σ ε α) := fun _ ↦ rfl

protected theorem mapErr {g : ε → δ} (h : NoPanic c) : NoPanic (mapErr g c) := by
  intro s
  rw [mapErr_isPanic]
  exact h s

protected theorem zoom {get : τ → σ} {set : σ → τ → τ} (h : NoPanic c) :
    NoPanic (zoom get set c) := fun t ↦ h (get t)

protected theorem bind {g : α → Call σ ε β} (hc : NoPanic c) (hg : ∀ a, NoPanic (g a)) :
    NoPanic (c >>= g) := by
  intro s
  rcases h : c s with ⟨_ | _ | _, t⟩
  · rw [bind_of_ok h]
    exact hg _ t
  · rw [bind_of_err h]
    rfl
  · have := hc s
    rw [h] at this
    cases this

end NoPanic

/-- Started in `s`, the call does not panic, and if it gives up it leaves a state with `I`. -/
def StopsIn (I : σ → Prop) (c : Call σ ε α) (s : σ) : Prop :=
  (c s).1.isPanic = false ∧ ((c s).1.isOk = false → I (c s).2)

namespace StopsIn

variable {I : σ → Prop} {c : Call σ ε α} {s : σ}

protected theorem mapErr {g : ε → δ} (h : StopsIn I c s) : StopsIn I (mapErr g c) s := by
  rw [StopsIn, mapErr_isPanic, mapErr_isOk, mapErr_snd]
  exact h

protected theorem bind {g : α → Call σ ε β} (hc : StopsIn I c s)
    (hg : ∀ a t, c s = (.ok a, t) → StopsIn I (g a) t) : StopsIn I (c >>= g) s := by
  obtain ⟨hpanic, hstop⟩ := hc
  rcases h : c s with ⟨_ | _ | _, t⟩
  · rw [StopsIn, bind_of_ok h]
    exact hg _ t h
  · rw [StopsIn, bind_of_err h]
    rw [h] at hstop
    exact ⟨rfl, fun _ ↦ hstop rfl⟩
  · rw [h] at hpanic
    cases hpanic

theorem ends {g : α → Call σ ε β} (hc : StopsIn I c s)
    (hg : ∀ a t, c s = (.ok a, t) → (g a t).1.isPanic = false ∧ I (g a t).2) :
    ((c >>= g) s).1.isPanic = false ∧ I ((c >>= g) s).2 := by
  obtain ⟨hpanic, hstop⟩ := hc
  rcases h : c s with ⟨_ | _ | _, t⟩
  · rw [bind_of_ok h]
    exact hg _ t h
  · rw [bind_of_err h]
    rw [h] at hstop
    exact ⟨rfl, hstop rfl⟩
  · rw [h] at hpanic
    cases hpanic

end StopsIn

/-- Started in `s`, the call gives up without a trace, or it ends as `Q` says. -/
def RefusedOr (s : σ) (Q : Outcome ε α × σ → Prop) (c : Call σ ε α) : Prop :=
  ((c s).1.isOk = false ∧ (c s).2 = s) ∨ Q (c s)

/-- A part that only reads refuses the whole call or passes it on. -/
theorem RefusedOr.bind {s : σ} {c : Call σ ε α} {g : α → Call σ ε β}
    {Q : Outcome ε β × σ → Prop} (hc : Keeps id c)
    (hg : ∀ a, c s = (.ok a, s) → RefusedOr s Q (g a)) : RefusedOr s Q (c >>= g) := by
  have hsame : (c s).2 = s := hc s
  rcases bind_cases c g s with ⟨a, ha, h⟩ | ⟨-, hno, h⟩
  · rw [hsame] at ha h
    rw [RefusedOr, h]
    exact hg a ha
  · exact Or.inl ⟨hno, h.trans hsame⟩

/-- Started in `s`, the call only reads: it returns what `o` holds, or gives up if it holds
nothing. -/
def Finds (s : σ) (o : Option α) (c : Call σ ε α) : Prop :=
  match o with
  | some a => c s = (.ok a, s)
  | none => (c s).1.isOk = false ∧ (c s).2 = s

namespace Finds

variable {s : σ} {o : Option α} {c : Call σ ε α}

protected theorem query (q : σ → Except δ α) (mk : δ → ε) :
    Finds s (q s).toOption (query q mk) := by
  rcases hq : q s with e | a
  · refine ⟨?_, ?_⟩
    · rw [Call.query, hq]
      rfl
    · rw [Call.query, hq]
  · exact query_eq_ok.mpr ⟨hq, rfl⟩

protected theorem require (e : ε) (o : Option α) : Finds s o (require e o) := by
  cases o with
  | none => exact ⟨rfl, rfl⟩
  | some a => exact rfl

protected theorem read_bind {f : σ → β} {g : β → Call σ ε α} (h : Finds s o (g (f s))) :
    Finds s o (read f >>= g) := h

protected theorem bind {g : α → Option β} {f : α → Call σ ε β} (hc : Finds s o c)
    (hf : ∀ a, o = some a → Finds s (g a) (f a)) : Finds s (o.bind g) (c >>= f) := by
  cases o with
  | none =>
    obtain ⟨hno, hsame⟩ := hc
    obtain ⟨hstop, hstate⟩ := bind_of_not_ok (f := f) hno
    exact ⟨hstop, hstate.trans hsame⟩
  | some a =>
    have hrest : (c >>= f) s = f a s := bind_of_ok hc
    have hnext : Finds s (g a) (f a) := hf a rfl
    change Finds s (g a) (c >>= f)
    unfold Finds at hnext ⊢
    rwa [hrest]

end Finds

/-- From a state with `I` the call does not panic, and whatever the outcome it preserves `I`. -/
def Safe (I : σ → Prop) (c : Call σ ε α) : Prop :=
  ∀ s, I s → (c s).1.isPanic = false ∧ I (c s).2

namespace Safe

variable {I : σ → Prop} {c : Call σ ε α}

theorem of_noPanic (hc : NoPanic c) (hI : Preserves I c) : Safe I c :=
  fun s hs ↦ ⟨hc s, hI s hs⟩

theorem stopsIn (h : Safe I c) {s : σ} (hs : I s) : StopsIn I c s :=
  ⟨(h s hs).1, fun _ ↦ (h s hs).2⟩

theorem ok (h : Safe I c) {s t : σ} {a : α} (hs : I s) (hc : c s = (.ok a, t)) : I t := by
  have hI := (h s hs).2
  rwa [hc] at hI

protected theorem mapErr {g : ε → δ} (h : Safe I c) : Safe I (mapErr g c) := by
  intro s hs
  rw [mapErr_isPanic, mapErr_snd]
  exact h s hs

protected theorem map {g : α → β} (h : Safe I c) : Safe I (map g c) := by
  intro s hs
  rw [map_isPanic]
  exact h s hs

protected theorem zoom {get : τ → σ} {set : σ → τ → τ} (hset : ∀ a t, get (set a t) = a)
    (h : Safe I c) : Safe (fun t ↦ I (get t)) (zoom get set c) := by
  intro t ht
  refine ⟨(h (get t) ht).1, ?_⟩
  change I (get (set (c (get t)).2 t))
  rw [hset]
  exact (h (get t) ht).2

protected theorem bind {g : α → Call σ ε β} (hc : Safe I c)
    (hg : ∀ s a t, c s = (.ok a, t) → I t → (g a t).1.isPanic = false ∧ I (g a t).2) :
    Safe I (c >>= g) := by
  intro s hs
  exact (hc.stopsIn hs).ends fun a t h ↦ hg s a t h (hc.ok hs h)

protected theorem seq {g : α → Call σ ε β} (hc : Safe I c) (hg : ∀ a, Safe I (g a)) :
    Safe I (c >>= g) :=
  Safe.bind hc fun _ a t _ ht ↦ hg a t ht

protected theorem forEach {g : β → Call σ ε α} (h : ∀ b, Safe I (g b)) (l : List β) :
    Safe I (forEach g l) := by
  induction l with
  | nil => exact fun s hs ↦ ⟨rfl, hs⟩
  | cons b l ih => exact Safe.seq (h b) fun _ ↦ ih

end Safe

end Call

end Fudge
