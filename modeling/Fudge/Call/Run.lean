import Fudge.Call.Rules

/-!
# Runs

A run of an object is a list of calls made one after the other by somebody else. An error is
returned to that somebody, who may go on; a panic ends the run. A side condition on a run is a
condition on every call, in the state in which that call is made.

A history is the list of what happened, oldest first. `Justified J` says of a history that `J` holds
of each of its events together with the part of the history before it; it is proved one event at a
time.
-/

namespace Fudge

namespace Call

variable {σ ε ρ : Type}

section Run

variable {ω : Type*} (step : ω → Call σ ε ρ)

/-- The state after a run: the calls are made in order, up to a panic. -/
def run : List ω → σ → σ
  | [], s => s
  | op :: ops, s => if (step op s).1.isPanic then (step op s).2 else run ops (step op s).2

/-- Every call of the run is made in a state in which `ok` holds of it. -/
def Along (ok : ω → σ → Prop) : List ω → σ → Prop
  | [], _ => True
  | op :: ops, s => ok op s ∧ ((step op s).1.isPanic = false → Along ok ops (step op s).2)

instance {ok : ω → σ → Prop} [∀ op s, Decidable (ok op s)] :
    ∀ (ops : List ω) (s : σ), Decidable (Along step ok ops s) :=
  let rec decide : ∀ (ops : List ω) (s : σ), Decidable (Along step ok ops s)
    | [], _ => inferInstanceAs (Decidable True)
    | op :: ops, s =>
      have := decide ops (step op s).2
      inferInstanceAs (Decidable
        (ok op s ∧ ((step op s).1.isPanic = false → Along step ok ops (step op s).2)))
  decide

variable {step}

/-- An invariant of every admissible call is an invariant of every admissible run. -/
theorem run_invariant {ok : ω → σ → Prop} {I : σ → Prop}
    (h : ∀ op s, ok op s → I s → I (step op s).2) :
    ∀ (ops : List ω) {s : σ}, Along step ok ops s → I s → I (run step ops s) := by
  intro ops
  induction ops with
  | nil => intro s _ hs; exact hs
  | cons op ops ih =>
    intro s hal hs
    rw [run]
    by_cases hp : (step op s).1.isPanic = true
    · rw [if_pos hp]
      exact h op s hal.1 hs
    · rw [if_neg hp]
      exact ih (hal.2 (by simpa using hp)) (h op s hal.1 hs)

theorem run_take_invariant {ok : ω → σ → Prop} {I : σ → Prop}
    (h : ∀ op s, ok op s → I s → I (step op s).2) :
    ∀ (ops : List ω) {s : σ}, Along step ok ops s → I s → ∀ n, I (run step (ops.take n) s) := by
  intro ops
  induction ops with
  | nil => intro s _ hs n; rwa [List.take_nil]
  | cons op ops ih =>
    intro s hal hs n
    cases n with
    | zero => exact hs
    | succ n =>
      rw [List.take_succ_cons, run]
      by_cases hp : (step op s).1.isPanic = true
      · rw [if_pos hp]
        exact h op s hal.1 hs
      · rw [if_neg hp]
        exact ih (hal.2 (by simpa using hp)) (h op s hal.1 hs) n

theorem along_of_invariant {adm ok : ω → σ → Prop} {I : σ → Prop}
    (h : ∀ op s, adm op s → I s → ok op s ∧ I (step op s).2) :
    ∀ (ops : List ω) {s : σ}, Along step adm ops s → I s → Along step ok ops s := by
  intro ops
  induction ops with
  | nil => intro s _ _; trivial
  | cons op ops ih =>
    intro s hadm hs
    obtain ⟨hok, hnext⟩ := h op s hadm.1 hs
    exact ⟨hok, fun hp ↦ ih (hadm.2 hp) hnext⟩

/-- If `ok` says of each admissible call whether it keeps the invariant, then the invariant holds in
every state of an admissible run exactly if every call is `ok`. -/
theorem run_invariant_iff {adm ok : ω → σ → Prop} {I : σ → Prop}
    (h : ∀ op s, adm op s → I s → (I (step op s).2 ↔ ok op s)) :
    ∀ (ops : List ω) {s : σ}, Along step adm ops s → I s →
      ((∀ n, I (run step (ops.take n) s)) ↔ Along step ok ops s) := by
  intro ops
  induction ops with
  | nil => intro s _ hs; simpa [run, Along] using hs
  | cons op ops ih =>
    intro s hadm hs
    have hone : run step ([op].take 1) s = (step op s).2 := by
      rw [List.take_one, List.head?_cons, Option.toList_some, run]
      by_cases hp : (step op s).1.isPanic = true
      · rw [if_pos hp]
      · rw [if_neg hp, run]
    -- a prefix of the run is its first call and a prefix of the rest
    have hcons : ∀ n, (step op s).1.isPanic = false →
        run step ((op :: ops).take (n + 1)) s = run step (ops.take n) (step op s).2 := by
      intro n hp
      rw [List.take_succ_cons, run, if_neg (by simp [hp])]
    constructor
    · intro hall
      have hstep : I (step op s).2 := hone ▸ hall 1
      refine ⟨(h op s hadm.1 hs).mp hstep, fun hp ↦ ?_⟩
      exact (ih (hadm.2 hp) hstep).mp fun n ↦ hcons n hp ▸ hall (n + 1)
    · rintro ⟨hok, hrest⟩ n
      have hstep : I (step op s).2 := (h op s hadm.1 hs).mpr hok
      cases n with
      | zero => exact hs
      | succ n =>
        by_cases hp : (step op s).1.isPanic = true
        · rw [List.take_succ_cons, run, if_pos hp]
          exact hstep
        · have hp : (step op s).1.isPanic = false := by simpa using hp
          rw [hcons n hp]
          exact (ih (hadm.2 hp) hstep).mpr (hrest hp) n

theorem along_of_forall {ok : ω → σ → Prop} : ∀ {ops : List ω} {s : σ},
    (∀ op ∈ ops, ∀ s, ok op s) → Along step ok ops s := by
  intro ops
  induction ops with
  | nil => intro s _; trivial
  | cons op ops ih =>
    intro s h
    refine ⟨h op List.mem_cons_self s, fun _ ↦ ih fun op' hop' ↦ ?_⟩
    exact h op' (List.mem_cons_of_mem op hop')

theorem along_true (ops : List ω) (s : σ) : Along step (fun _ _ ↦ True) ops s :=
  along_of_forall fun _ _ _ ↦ trivial

theorem Along.mono {ok ok' : ω → σ → Prop} {ops : List ω} {s : σ} (hal : Along step ok ops s)
    (h : ∀ op s, ok op s → ok' op s) : Along step ok' ops s :=
  along_of_invariant (I := fun _ ↦ True) (fun op s hop _ ↦ ⟨h op s hop, trivial⟩) ops hal trivial

theorem Along.and {ok ok' : ω → σ → Prop} : ∀ {ops : List ω} {s : σ}, Along step ok ops s →
    Along step ok' ops s → Along step (fun op s ↦ ok op s ∧ ok' op s) ops s := by
  intro ops
  induction ops with
  | nil => intro s _ _; trivial
  | cons op ops ih =>
    intro s h h'
    exact ⟨⟨h.1, h'.1⟩, fun hp ↦ ih (h.2 hp) (h'.2 hp)⟩

/-- An account kept beside a run: each call changes it by `effect`, in the state in which the call
is made. No call reads it. -/
def ledger {τ : Type*} (step : ω → Call σ ε ρ) (effect : ω → σ → τ → τ) : List ω → σ → τ → τ
  | [], _, t => t
  | op :: ops, s, t =>
    if (step op s).1.isPanic then effect op s t
    else ledger step effect ops (step op s).2 (effect op s t)

/-- What every admissible call keeps between the state and the account holds after every admissible
run. -/
theorem run_ledger {τ : Type*} {ok : ω → σ → Prop} {effect : ω → σ → τ → τ} {I : σ → τ → Prop}
    (h : ∀ op s t, ok op s → I s t → I (step op s).2 (effect op s t)) :
    ∀ (ops : List ω) {s : σ} {t : τ}, Along step ok ops s → I s t →
      I (run step ops s) (ledger step effect ops s t) := by
  intro ops
  induction ops with
  | nil => intro s t _ hI; exact hI
  | cons op ops ih =>
    intro s t hal hI
    rw [run, ledger]
    by_cases hp : (step op s).1.isPanic = true
    · rw [if_pos hp, if_pos hp]
      exact h op s t hal.1 hI
    · rw [if_neg hp, if_neg hp]
      exact ih (hal.2 (by simpa using hp)) (h op s t hal.1 hI)

/-- The system together with an account of it, for conditions that are about both. -/
def tracked {τ : Type} (step : ω → Call σ ε ρ) (effect : ω → σ → τ → τ) (op : ω) :
    Call (σ × τ) ε ρ :=
  fun x ↦ ((step op x.1).1, ((step op x.1).2, effect op x.1 x.2))

theorem ledger_append {β : Type*} (step : ω → Call σ ε ρ) (gain : ω → σ → List β) :
    ∀ (ops : List ω) (s : σ) (l : List β), ledger step (fun op s l ↦ l ++ gain op s) ops s l =
      l ++ ledger step (fun op s l ↦ l ++ gain op s) ops s [] := by
  intro ops
  induction ops with
  | nil => intro s l; simp [ledger]
  | cons op ops ih =>
    intro s l
    rw [ledger, ledger]
    by_cases hp : (step op s).1.isPanic = true
    · simp [hp]
    · rw [if_neg hp, if_neg hp, ih, ih _ ([] ++ _)]
      simp

/-- What is asked of an account that is a list, and what can only be lost when the list grows: it
holds of the account of a run exactly if it is never lost, where `ok` says of each call whether it
loses it. -/
theorem ledger_iff {β : Type} {gain : ω → σ → List β} {adm : ω → σ → Prop} {G : List β → Prop}
    {ok : ω → σ × List β → Prop} (hpre : ∀ l m, G (l ++ m) → G l)
    (h : ∀ op s l, adm op s → G l → (G (l ++ gain op s) ↔ ok op (s, l))) :
    ∀ (ops : List ω) {s : σ} {l : List β}, Along step adm ops s → G l →
      (G (ledger step (fun op s l ↦ l ++ gain op s) ops s l) ↔
        Along (tracked step fun op s l ↦ l ++ gain op s) ok ops (s, l)) := by
  intro ops
  induction ops with
  | nil => exact fun _ hl ↦ iff_of_true hl trivial
  | cons op ops ih =>
    intro s l hadm hl
    rw [ledger, Along, ← h op s l hadm.1 hl]
    change _ ↔ G (l ++ gain op s) ∧ ((step op s).1.isPanic = false → _)
    by_cases hp : (step op s).1.isPanic = true
    · rw [if_pos hp]
      exact (and_iff_left fun hno ↦ by simp [hp] at hno).symm
    · rw [if_neg hp]
      have hp : (step op s).1.isPanic = false := by simpa using hp
      constructor
      · intro hall
        have hone : G (l ++ gain op s) := by
          rw [ledger_append] at hall
          exact hpre _ _ hall
        exact ⟨hone, fun _ ↦ (ih (hadm.2 hp) hone).mp hall⟩
      · exact fun hall ↦ (ih (hadm.2 hp) hall.1).mpr (hall.2 hp)

theorem along_tracked {τ : Type} (ok : ω → σ → Prop) {effect : ω → σ → τ → τ} :
    ∀ (ops : List ω) {x : σ × τ},
      Along (tracked step effect) (fun op x ↦ ok op x.1) ops x ↔ Along step ok ops x.1 := by
  intro ops
  induction ops with
  | nil => exact Iff.rfl
  | cons op ops ih => exact and_congr_right fun _ ↦ forall_congr' fun _ ↦ ih

theorem forall_ledger_iff {β : Type} {gain : ω → σ → List β} {Q : β → Prop} (ops : List ω) {s : σ}
    {l : List β} (hl : ∀ x ∈ l, Q x) :
    (∀ x ∈ ledger step (fun op s l ↦ l ++ gain op s) ops s l, Q x) ↔
      Along step (fun op s ↦ ∀ x ∈ gain op s, Q x) ops s := by
  have htracked : Along (tracked step fun op s l ↦ l ++ gain op s)
      (fun op x ↦ ∀ y ∈ gain op x.1, Q y) ops (s, l) ↔
        Along step (fun op s ↦ ∀ x ∈ gain op s, Q x) ops s :=
    along_tracked (fun op s ↦ ∀ x ∈ gain op s, Q x) ops
  rw [← htracked]
  refine ledger_iff (G := fun l ↦ ∀ x ∈ l, Q x)
    (fun l m h x hx ↦ h x (List.mem_append_left m hx)) (fun op s l _ hl ↦ ?_) ops
    (along_true ops s) hl
  rw [List.forall_mem_append]
  exact and_iff_right hl

end Run

/-! ## Histories -/

section History

variable {ω : Type*} {J : List ω → ω → Prop}

/-- Every event is justified by what happened before it. -/
def Justified (J : List ω → ω → Prop) (history : List ω) : Prop :=
  ∀ past event rest, history = past ++ event :: rest → J past event

theorem Justified.nil : Justified J [] := by
  intro past event rest h
  simp at h

theorem Justified.concat {history : List ω} {event : ω} (h : Justified J history)
    (hevent : J history event) : Justified J (history ++ [event]) := by
  intro past event' rest hsplit
  -- the split is at the new event, or it is one of the old history
  rcases List.eq_nil_or_concat rest with rfl | ⟨rest, last, rfl⟩
  · obtain ⟨rfl, hlast⟩ := List.append_inj_left' hsplit rfl, List.append_inj_right' hsplit rfl
    obtain rfl : event = event' := by simpa using hlast
    exact hevent
  · rw [List.concat_eq_append, ← List.cons_append, ← List.append_assoc] at hsplit
    exact h past event' rest (List.append_inj_left' hsplit rfl)

end History

end Call

end Fudge
