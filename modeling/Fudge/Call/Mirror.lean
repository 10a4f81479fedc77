import Fudge.Call.Run

/-!
# Calls that mirror each other, and batches

One object may be another one with more around it. Seen through `view`, a call of the larger object
then *mirrors* a call of the smaller one: it returns alike, an error up to a wrapping, and it leaves
what the other leaves. Where a call of the larger object makes several calls of the smaller one, it
follows a *batch* of them, made one after the other up to the first that gives up.

A run of the larger object is so a run of batches (`run_batches`). The converse fails on purpose:
the larger object may give up for reasons of its own, after a batch that returned.
-/

namespace Fudge

namespace Outcome

variable {ε δ α β : Type}

/-- The outcomes are alike: values related by `V`, the same error up to `wrap`, or two panics. -/
inductive Like (wrap : δ → ε) (V : α → β → Prop) : Outcome ε α → Outcome δ β → Prop where
  | ok {a : α} {b : β} (h : V a b) : Like wrap V (ok a) (ok b)
  | err (e : δ) : Like wrap V (err (wrap e)) (err e)
  | panic : Like wrap V panic panic

namespace Like

variable {wrap : δ → ε} {V V' : α → β → Prop} {o : Outcome ε α} {o' : Outcome δ β}

theorem mono (h : Like wrap V o o') (hV : ∀ a b, V a b → V' a b) : Like wrap V' o o' := by
  cases h with
  | ok h => exact ok (hV _ _ h)
  | err e => exact err e
  | panic => exact panic

theorem map_left {γ : Type} {f : α → γ} (h : Like wrap V o o') :
    Like wrap (fun _ _ ↦ True) (o.map f) o' := by
  cases h with
  | ok h => exact ok trivial
  | err e => exact err e
  | panic => exact panic

theorem map_right {γ : Type} {g : β → γ} (h : Like wrap V o o') :
    Like wrap (fun _ _ ↦ True) o (o'.map g) := by
  cases h with
  | ok h => exact ok trivial
  | err e => exact err e
  | panic => exact panic

theorem toOption {o : Outcome ε α} {o' : Outcome δ α} (h : Like wrap (· = ·) o o') :
    o.toOption = o'.toOption := by
  cases h with
  | ok h => exact congrArg some h
  | err e => rfl
  | panic => rfl

theorem isPanic (h : Like wrap V o o') : o.isPanic = o'.isPanic := by
  cases h <;> rfl

theorem isOk (h : Like wrap V o o') : o.isOk = o'.isOk := by
  cases h <;> rfl

end Like

end Outcome

namespace Call

open Outcome

variable {σ τ ε δ η α β : Type}

/-! ## Mirrors -/

/-- `c` does what `d` does on what `view` shows, with values related by `V`. -/
def Mirrors (view : τ → σ) (wrap : δ → ε) (V : α → β → Prop) (c : Call τ ε α) (d : Call σ δ β) :
    Prop :=
  ∀ s, Like wrap V (c s).1 (d (view s)).1 ∧ view (c s).2 = (d (view s)).2

namespace Mirrors

variable {view : τ → σ} {wrap : δ → ε} {V : α → β → Prop} {c : Call τ ε α} {d : Call σ δ β}

protected theorem refl (c : Call σ δ α) : Mirrors id id (· = ·) c c := by
  intro s
  refine ⟨?_, rfl⟩
  change Like id (· = ·) (c s).1 (c s).1
  rcases (c s).1 with a | e | _
  · exact Like.ok rfl
  · exact Like.err e
  · exact Like.panic

protected theorem pure {a : α} {b : β} (h : V a b) :
    Mirrors view wrap V (pure a : Call τ ε α) (pure b : Call σ δ β) :=
  fun _ ↦ ⟨Like.ok h, rfl⟩

protected theorem read {f : τ → α} {g : σ → β} (h : ∀ s, V (f s) (g (view s))) :
    Mirrors view wrap V (read f : Call τ ε α) (read g : Call σ δ β) :=
  fun s ↦ ⟨Like.ok (h s), rfl⟩

protected theorem modify {f : τ → τ} {g : σ → σ} (h : ∀ s, view (f s) = g (view s)) :
    Mirrors view wrap (fun _ _ ↦ True) (modify f : Call τ ε Unit) (modify g : Call σ δ Unit) :=
  fun s ↦ ⟨Like.ok trivial, h s⟩

protected theorem assert {p : τ → Bool} {q : σ → Bool} (h : ∀ s, p s = q (view s)) :
    Mirrors view wrap (fun _ _ ↦ True) (assert p : Call τ ε Unit) (assert q : Call σ δ Unit) := by
  intro s
  rw [assert, assert, h s]
  cases q (view s) with
  | true => exact ⟨Like.ok trivial, rfl⟩
  | false => exact ⟨Like.panic, rfl⟩

protected theorem query {f : τ → Except η α} {g : σ → Except η α} {mk : η → ε} {mk' : η → δ}
    (h : ∀ s, f s = g (view s)) (hmk : ∀ e, mk e = wrap (mk' e)) :
    Mirrors view wrap (· = ·) (query f mk) (query g mk') := by
  intro s
  rw [query, query, h s]
  cases g (view s) with
  | ok a => exact ⟨Like.ok rfl, rfl⟩
  | error e =>
    refine ⟨?_, rfl⟩
    change Like wrap _ (err (mk e)) (err (mk' e))
    rw [hmk e]
    exact Like.err _

protected theorem require (e : δ) (o : Option α) :
    Mirrors view wrap (· = ·) (require (wrap e) o : Call τ ε α) (require e o : Call σ δ α) := by
  cases o with
  | some a => exact Mirrors.pure rfl
  | none => exact fun _ ↦ ⟨Like.err e, rfl⟩

protected theorem bind {γ ζ : Type} {V' : γ → ζ → Prop} {f : α → Call τ ε γ} {g : β → Call σ δ ζ}
    (h : Mirrors view wrap V c d) (hf : ∀ a b, V a b → Mirrors view wrap V' (f a) (g b)) :
    Mirrors view wrap V' (c >>= f) (d >>= g) := by
  intro s
  obtain ⟨hlike, hview⟩ := h s
  rcases hc : c s with ⟨a | e | _, t⟩ <;> rcases hd : d (view s) with ⟨b | e' | _, u⟩ <;>
    rw [hc, hd] at hlike hview <;> cases hlike <;> obtain rfl : view t = u := hview
  · rw [bind_of_ok hc, bind_of_ok hd]
    exact hf a b ‹V a b› t
  · rw [bind_of_err hc, bind_of_err hd]
    exact ⟨Like.err e', rfl⟩
  · rw [bind_of_panic hc, bind_of_panic hd]
    exact ⟨Like.panic, rfl⟩

theorem map_left {γ : Type} {f : α → γ} (h : Mirrors view wrap V c d) :
    Mirrors view wrap (fun _ _ ↦ True) (map f c) d :=
  fun s ↦ ⟨(h s).1.map_left, (h s).2⟩

theorem map_right {γ : Type} {g : β → γ} (h : Mirrors view wrap V c d) :
    Mirrors view wrap (fun _ _ ↦ True) c (map g d) :=
  fun s ↦ ⟨(h s).1.map_right, (h s).2⟩

/-- What is done afterwards fails never and is not seen. -/
theorem bind_quiet {γ : Type} {f : α → Call τ ε γ} (h : Mirrors view wrap V c d)
    (hf : ∀ a s, (f a s).1.isOk = true ∧ view (f a s).2 = view s) :
    Mirrors view wrap (fun _ _ ↦ True) (c >>= f) d := by
  intro s
  obtain ⟨hlike, hview⟩ := h s
  rcases hc : c s with ⟨a | e | _, t⟩ <;> rcases hd : d (view s) with ⟨b | e' | _, u⟩ <;>
    rw [hc, hd] at hlike hview <;> cases hlike
  · obtain ⟨hok, hsame⟩ := hf a t
    obtain ⟨x, hx⟩ := Outcome.isOk_iff.mp hok
    rw [bind_of_ok hc, hx]
    exact ⟨Like.ok trivial, hsame.trans hview⟩
  · rw [bind_of_err hc]
    exact ⟨Like.err e', hview⟩
  · rw [bind_of_panic hc]
    exact ⟨Like.panic, hview⟩

theorem forEach_singleton {ω : Type} {step : ω → Call σ δ β} {op : ω}
    (h : Mirrors view wrap V c (step op)) :
    Mirrors view wrap (fun _ _ ↦ True) c (forEach step [op]) := by
  intro s
  obtain ⟨hlike, hview⟩ := h s
  rw [forEach_singleton_eq]
  exact ⟨hlike.map_right, hview⟩

protected theorem mapErr {ε' δ' : Type} {f : ε → ε'} {g : δ → δ'} {wrap' : δ' → ε'}
    (h : Mirrors view wrap V c d) (hfg : ∀ e, f (wrap e) = wrap' (g e)) :
    Mirrors view wrap' V (mapErr f c) (mapErr g d) := by
  intro s
  obtain ⟨hlike, hview⟩ := h s
  rw [mapErr_snd, mapErr_snd]
  refine ⟨?_, hview⟩
  rw [mapErr, mapErr]
  rcases hc : c s with ⟨a | e | _, t⟩ <;> rcases hd : d (view s) with ⟨b | e' | _, u⟩ <;>
    rw [hc, hd] at hlike <;> cases hlike
  · exact Like.ok ‹V a b›
  · change Like wrap' V (err (f (wrap e'))) (err (g e'))
    rw [hfg e']
    exact Like.err _
  · exact Like.panic

protected theorem zoom {τ' σ' : Type} {view' : τ' → σ'} {get : τ → τ'} {set : τ' → τ → τ}
    {get' : σ → σ'} {set' : σ' → σ → σ} {c : Call τ' ε α} {d : Call σ' δ β}
    (h : Mirrors view' wrap V c d) (hget : ∀ s, view' (get s) = get' (view s))
    (hset : ∀ t s, view (set t s) = set' (view' t) (view s)) :
    Mirrors view wrap V (zoom get set c) (zoom get' set' d) := by
  intro s
  obtain ⟨hlike, hview⟩ := h (get s)
  rw [zoom, zoom, hset, ← hget s, hview]
  exact ⟨hlike, rfl⟩

theorem zoom_left {τ' : Type} {view' : τ' → σ} {get : τ → τ'} {set : τ' → τ → τ} {c : Call τ' ε α}
    (h : Mirrors view' wrap V c d) (hget : ∀ s, view' (get s) = view s)
    (hset : ∀ t s, view (set t s) = view' t) : Mirrors view wrap V (zoom get set c) d := by
  intro s
  obtain ⟨hlike, hview⟩ := h (get s)
  rw [zoom, hset, ← hget s]
  exact ⟨hlike, hview⟩

end Mirrors

/-! ## Batches -/

section Batch

variable {ω ρ : Type} {step : ω → Call σ δ ρ} {view : τ → σ} {wrap : δ → ε} {c : Call τ ε α}
  {s : τ}

/-- Made in `s`, the call leaves what the batch leaves, and it gives up as the batch does, if the
batch gives up. -/
def FollowsIn (step : ω → Call σ δ ρ) (view : τ → σ) (wrap : δ → ε) (batch : List ω)
    (c : Call τ ε α) (s : τ) : Prop :=
  view (c s).2 = (forEach step batch (view s)).2 ∧
    ((forEach step batch (view s)).1.isOk = false →
      Like wrap (fun _ _ ↦ True) (c s).1 (forEach step batch (view s)).1)

theorem forEach_append (l l' : List ω) :
    forEach step (l ++ l') = forEach step l >>= fun _ ↦ forEach step l' := by
  induction l with
  | nil => rfl
  | cons b l ih => rw [List.cons_append, forEach_cons, forEach_cons, ih, bind_assoc]

namespace FollowsIn

theorem congr {c' : Call τ ε α} {l : List ω} (h : FollowsIn step view wrap l c s)
    (hc : c' s = c s) : FollowsIn step view wrap l c' s := by
  rw [FollowsIn, hc]
  exact h

protected theorem map {f : α → β} {l : List ω} (h : FollowsIn step view wrap l c s) :
    FollowsIn step view wrap l (Call.map f c) s :=
  ⟨h.1, fun hno ↦ (h.2 hno).map_left⟩

/-- A call that leaves alone what is seen follows the empty batch. -/
theorem of_keeps (h : view (c s).2 = view s) : FollowsIn step view wrap [] c s :=
  ⟨h, fun hno ↦ (Bool.noConfusion hno)⟩

theorem of_mirrors {V : α → Unit → Prop} {l : List ω} (h : Mirrors view wrap V c (forEach step l)) :
    FollowsIn step view wrap l c s :=
  ⟨(h s).2, fun _ ↦ (h s).1.mono fun _ _ _ ↦ trivial⟩

theorem batch_eq_ok {l : List ω} {t : τ} {a : α} (h : FollowsIn step view wrap l c s)
    (hc : c s = (.ok a, t)) : forEach step l (view s) = (.ok (), view t) := by
  obtain ⟨hview, hstop⟩ := h
  rw [hc] at hview hstop
  rcases hb : forEach step l (view s) with ⟨_ | _ | _, u⟩
  · rw [hb] at hview
    exact Prod.ext rfl hview.symm
  · rw [hb] at hstop
    cases hstop rfl
  · rw [hb] at hstop
    cases hstop rfl

/-- If the call gave up, then what would have come after it does not matter. -/
theorem of_stopped {g : α → Call τ ε β} {l : List ω} (h : FollowsIn step view wrap l c s)
    (hno : (c s).1.isOk = false) : FollowsIn step view wrap l (c >>= g) s := by
  obtain ⟨hview, hstop⟩ := h
  rcases hc : c s with ⟨a | e | _, t⟩ <;> rw [hc] at hno hview hstop
  · cases hno
  · rw [FollowsIn, bind_of_err hc]
    refine ⟨hview, fun hb ↦ ?_⟩
    have hlike := hstop hb
    generalize (forEach step l (view s)).1 = o at hlike ⊢
    cases hlike
    exact Like.err _
  · rw [FollowsIn, bind_of_panic hc]
    refine ⟨hview, fun hb ↦ ?_⟩
    have hlike := hstop hb
    generalize (forEach step l (view s)).1 = o at hlike ⊢
    cases hlike
    exact Like.panic

protected theorem bind {g : α → Call τ ε β} {l : List ω} (l' : List ω)
    (h : FollowsIn step view wrap l c s)
    (hg : ∀ a t, c s = (.ok a, t) → FollowsIn step view wrap l' (g a) t) :
    FollowsIn step view wrap (l ++ if (c s).1.isOk then l' else []) (c >>= g) s := by
  by_cases hok : (c s).1.isOk = true
  · obtain ⟨a, ha⟩ := Outcome.isOk_iff.mp hok
    have hc : c s = (.ok a, (c s).2) := eq_of_fst ha
    have hbatch : forEach step (l ++ l') (view s) = forEach step l' (view (c s).2) := by
      rw [forEach_append, bind_of_ok (h.batch_eq_ok hc)]
    rw [if_pos hok, FollowsIn, bind_of_ok hc, hbatch]
    exact hg a _ hc
  · rw [if_neg hok, List.append_nil]
    exact h.of_stopped (by simpa using hok)

end FollowsIn

/-! ## Runs -/

variable {ω' : Type} {step' : ω' → Call τ ε α}

/-- The batches of a run, up to a panic. -/
def batches (step' : ω' → Call τ ε α) (batch : ω' → τ → List ω) : List ω' → τ → List (List ω)
  | [], _ => []
  | op :: ops, s =>
    batch op s :: if (step' op s).1.isPanic then [] else batches step' batch ops (step' op s).2

/-- **A run of calls that follow batches is a run of batches.** -/
theorem run_batches {batch : ω' → τ → List ω}
    (h : ∀ op s, FollowsIn step view wrap (batch op s) (step' op) s) :
    ∀ (ops : List ω') (s : τ), view (run step' ops s) =
      run (forEach step) (batches step' batch ops s) (view s) := by
  intro ops
  induction ops with
  | nil => exact fun _ ↦ rfl
  | cons op ops ih =>
    intro s
    obtain ⟨hview, hstop⟩ := h op s
    rw [run, batches, run]
    by_cases hp : (step' op s).1.isPanic = true
    · -- the larger object may have panicked on its own, and then nothing is left of the run
      rw [if_pos hp, if_pos hp, run, ite_self]
      exact hview
    · have hquiet : ¬ (forEach step (batch op s) (view s)).1.isPanic = true := by
        intro hpanic
        refine hp ?_
        rcases hb : forEach step (batch op s) (view s) with ⟨_ | _ | _, u⟩ <;> rw [hb] at hpanic
        · cases hpanic
        · cases hpanic
        · rw [hb] at hstop
          exact (hstop rfl).isPanic
      rw [if_neg hp, if_neg hp, if_neg hquiet, ← hview]
      exact ih _

end Batch

end Call

end Fudge
