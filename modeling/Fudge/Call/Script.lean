import Fudge.Call.Run

/-!
# Calls that follow a script

A call of one object is often nothing but a few calls of another interface of the same object, one
after the other, each with arguments that may depend on what the ones before returned. `Scripted`
says that of a call: from every state it ends where some run of admissible calls of that interface
ends, and it panics only if that run does. Loops and sequences of scripted calls are scripted, so a
run of an object with such methods *is* a run of the interface below, and every invariant of the
interface is one of the object.
-/

namespace Fudge

namespace Call

variable {σ ε δ ρ α β ω ω' : Type} {step : ω → Call σ δ ρ} {ok : ω → σ → Prop}

/-- No call of the run panics. -/
def Quiet (step : ω → Call σ δ ρ) (ops : List ω) (s : σ) : Prop :=
  Along step (fun op s ↦ (step op s).1.isPanic = false) ops s

/-! ## Runs one after the other -/

theorem run_append : ∀ {ops ops' : List ω} {s : σ}, Quiet step ops s →
    run step (ops ++ ops') s = run step ops' (run step ops s) := by
  intro ops
  induction ops with
  | nil => exact fun _ ↦ rfl
  | cons op ops ih =>
    intro ops' s h
    rw [List.cons_append, run, run, if_neg (by simp [h.1]), if_neg (by simp [h.1])]
    exact ih (h.2 h.1)

theorem Along.append {p : ω → σ → Prop} : ∀ {ops ops' : List ω} {s : σ}, Quiet step ops s →
    Along step p ops s → Along step p ops' (run step ops s) → Along step p (ops ++ ops') s := by
  intro ops
  induction ops with
  | nil => exact fun _ _ h ↦ h
  | cons op ops ih =>
    intro ops' s hq h h'
    rw [run, if_neg (by simp [hq.1])] at h'
    exact ⟨h.1, fun hp ↦ ih (hq.2 hp) (h.2 hp) h'⟩

/-! ## Scripted calls -/

/-- Two calls ended in one state, both with a panic or both without. -/
def SameEnd (x : Outcome ε α × σ) (y : Outcome δ β × σ) : Prop :=
  x.2 = y.2 ∧ x.1.isPanic = y.1.isPanic

theorem SameEnd.mapErr (f : δ → ε) (c : Call σ δ α) (s : σ) : SameEnd (mapErr f c s) (c s) :=
  ⟨mapErr_snd f c s, mapErr_isPanic f c s⟩

theorem SameEnd.map (f : α → β) (c : Call σ ε α) (s : σ) : SameEnd (map f c s) (c s) :=
  ⟨map_snd f c s, map_isPanic f c s⟩

theorem SameEnd.trans {γ ζ : Type} {x : Outcome ε α × σ} {y : Outcome δ β × σ}
    {z : Outcome ζ γ × σ} (h : SameEnd x y) (h' : SameEnd y z) : SameEnd x z :=
  ⟨h.1.trans h'.1, h.2.trans h'.2⟩

theorem SameEnd.symm {x : Outcome ε α × σ} {y : Outcome δ β × σ} (h : SameEnd x y) :
    SameEnd y x := ⟨h.1.symm, h.2.symm⟩

/-- Made in `s`, the call ends where a run of admissible calls ends, and panics only if it does. -/
def ScriptedIn (ok : ω → σ → Prop) (step : ω → Call σ δ ρ) (c : Call σ ε α) (s : σ) : Prop :=
  ∃ ops, Along step ok ops s ∧ run step ops s = (c s).2 ∧
    ((c s).1.isPanic = false → Quiet step ops s)

/-- The call does so wherever it is made. -/
def Scripted (ok : ω → σ → Prop) (step : ω → Call σ δ ρ) (c : Call σ ε α) : Prop :=
  ∀ s, ScriptedIn ok step c s

namespace Scripted

variable {c : Call σ ε α}

theorem of_keeps (h : Keeps id c) : Scripted ok step c :=
  fun s ↦ ⟨[], trivial, (h s).symm, fun _ ↦ trivial⟩

theorem of_step (op : ω) (hok : ∀ s, ok op s) (h : ∀ s, SameEnd (step op s) (c s)) :
    Scripted ok step c := by
  intro s
  obtain ⟨hstate, hpanic⟩ := h s
  refine ⟨[op], ⟨hok s, fun _ ↦ trivial⟩, ?_, fun h ↦ ⟨hpanic.trans h, fun _ ↦ trivial⟩⟩
  rw [← hstate, run]
  split <;> rfl

protected theorem map {g : α → β} (h : Scripted ok step c) : Scripted ok step (map g c) := by
  intro s
  obtain ⟨ops, halong, hrun, hquiet⟩ := h s
  refine ⟨ops, halong, hrun, fun hp ↦ hquiet ?_⟩
  rwa [map_isPanic] at hp

protected theorem bind {g : α → Call σ ε β} (hc : Scripted ok step c)
    (hg : ∀ a, Scripted ok step (g a)) : Scripted ok step (c >>= g) := by
  intro s
  obtain ⟨ops, halong, hrun, hquiet⟩ := hc s
  rcases h : c s with ⟨a | e | _, t⟩
  · -- the script of the second part goes on where that of the first ended
    rw [h] at hrun hquiet
    obtain ⟨ops', halong', hrun', hquiet'⟩ := hg a t
    have hq : Quiet step ops s := hquiet rfl
    have hrun : run step ops s = t := hrun
    rw [← hrun] at halong'
    refine ⟨ops ++ ops', halong.append hq halong', ?_, fun hp ↦ ?_⟩
    · rw [bind_of_ok h, run_append hq, hrun]
      exact hrun'
    · rw [bind_of_ok h] at hp
      have hrest : Quiet step ops' (run step ops s) := hrun ▸ hquiet' hp
      exact Along.append hq hq hrest
  · rw [h] at hrun hquiet
    refine ⟨ops, halong, ?_, fun _ ↦ hquiet rfl⟩
    rw [bind_of_err h]
    exact hrun
  · rw [h] at hrun
    refine ⟨ops, halong, ?_, fun hp ↦ ?_⟩
    · rw [bind_of_panic h]
      exact hrun
    · rw [bind_of_panic h] at hp
      cases hp

protected theorem forEach {g : β → Call σ ε α} {l : List β}
    (h : ∀ b ∈ l, Scripted ok step (g b)) : Scripted ok step (forEach g l) := by
  induction l with
  | nil => exact of_keeps (Keeps.pure ())
  | cons b l ih =>
    exact Scripted.bind (h b List.mem_cons_self)
      fun _ ↦ ih fun b' hb' ↦ h b' (List.mem_cons_of_mem b hb')

/-- What the calls of the interface preserve, a scripted call preserves. -/
theorem preserves {I : σ → Prop} (h : Scripted ok step c)
    (hI : ∀ op s, ok op s → I s → I (step op s).2) : Preserves I c := by
  intro s hs
  obtain ⟨ops, halong, hrun, -⟩ := h s
  rw [← hrun]
  exact run_invariant hI ops halong hs

/-- **A run of scripted calls is a run of the interface below.** -/
theorem exists_script {step' : ω' → Call σ ε α} {ops' : List ω'}
    (h : ∀ op ∈ ops', Scripted ok step (step' op)) : ∀ s,
      ∃ ops, Along step ok ops s ∧ run step ops s = run step' ops' s := by
  induction ops' with
  | nil => exact fun s ↦ ⟨[], trivial, rfl⟩
  | cons op ops' ih =>
    intro s
    obtain ⟨ops, halong, hrun, hquiet⟩ := h op List.mem_cons_self s
    rw [run]
    by_cases hp : (step' op s).1.isPanic = true
    · rw [if_pos hp]
      exact ⟨ops, halong, hrun⟩
    · rw [if_neg hp, ← hrun]
      have hq : Quiet step ops s := hquiet (by simpa using hp)
      obtain ⟨more, halong', hrun'⟩ :=
        ih (fun op' hop' ↦ h op' (List.mem_cons_of_mem op hop')) (run step ops s)
      exact ⟨ops ++ more, halong.append hq halong', (run_append hq).trans hrun'⟩

end Scripted

end Call

end Fudge
