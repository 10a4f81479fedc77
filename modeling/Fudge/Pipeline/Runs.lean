import Fudge.Call.Run
import Fudge.Pipeline.Basic

/-!
# Objects that hold a pipeline

If every call of an object does to its pipeline what some events do, then a run of the object does
what all these events do, one after the other. What was put in and what was lost in the run is the
account of what each call put in and lost, and the books of the run balance.
-/

namespace Fudge

namespace Pipeline

open Call

variable {σ ε ρ ω α : Type}

/-- The items there were and those put in are still there, in order, but for those that are gone. -/
def Conserved (before after put gone : List α) : Prop :=
  after.Sublist (before ++ put) ∧ (after ++ gone).Perm (before ++ put) ∧
    (after = before ++ put ↔ gone = [])

theorem losses_append (es es' : List (Event α)) : ∀ p : Pipeline α,
    losses (es ++ es') p = losses es p ++ losses es' (run es p) := by
  induction es with
  | nil => exact fun _ ↦ rfl
  | cons e es ih =>
    intro p
    rw [List.cons_append, losses, losses, run, ih, List.append_assoc]

theorem losses_through (first : Option α) (out : List α) :
    losses [.advance, .take] ⟨first, none, out⟩ = [] := by
  cases first with
  | none => rfl
  | some a => rfl

theorem run_conserves (es : List (Event α)) (p : Pipeline α) :
    Conserved p.content (run es p).content (es.flatMap gained) (losses es p) :=
  ⟨run_sublist es p, run_perm es p, run_complete_iff es p⟩

variable {step : ω → Call σ ε ρ} {pipe : σ → Pipeline α} {events : ω → σ → List (Event α)}

/-- The events of a run, what they put in and what they lose are the accounts of its calls. -/
theorem run_events (hstep : ∀ op s, pipe (step op s).2 = run (events op s) (pipe s))
    (ops : List ω) : ∀ {s : σ} {p : Pipeline α} {es : List (Event α)}, pipe s = run es p →
      ∃ es', pipe (Call.run step ops s) = run es' p ∧
        es'.flatMap gained = ledger step (fun op s l ↦ l ++ (events op s).flatMap gained) ops s
          (es.flatMap gained) ∧
        losses es' p = ledger step (fun op s l ↦ l ++ losses (events op s) (pipe s)) ops s
          (losses es p) := by
  induction ops with
  | nil => exact fun {_ _ es} h ↦ ⟨es, h, rfl, rfl⟩
  | cons op ops ih =>
    intro s p es h
    have hnext : pipe (step op s).2 = run (es ++ events op s) p := by
      rw [hstep, run_append, h]
    have hgained : (es ++ events op s).flatMap gained =
        es.flatMap gained ++ (events op s).flatMap gained := List.flatMap_append
    have hlost : losses (es ++ events op s) p = losses es p ++ losses (events op s) (pipe s) := by
      rw [losses_append, h]
    simp only [Call.run, ledger]
    by_cases hp : (step op s).1.isPanic = true
    · rw [if_pos hp, if_pos hp, if_pos hp]
      exact ⟨_, hnext, hgained, hlost⟩
    · rw [if_neg hp, if_neg hp, if_neg hp, ← hgained, ← hlost]
      exact ih hnext

/-- **The books of a run balance.** -/
theorem run_conserved {put gone : ω → σ → List α}
    (hstep : ∀ op s, pipe (step op s).2 = run (events op s) (pipe s))
    (hput : ∀ op s, (events op s).flatMap gained = put op s)
    (hgone : ∀ op s, losses (events op s) (pipe s) = gone op s) (ops : List ω) (s : σ) :
    Conserved (pipe s).content (pipe (Call.run step ops s)).content
      (ledger step (fun op s l ↦ l ++ put op s) ops s [])
      (ledger step (fun op s l ↦ l ++ gone op s) ops s []) := by
  have hstart : pipe s = run [] (pipe s) := rfl
  obtain ⟨es, hrun, hgained, hlost⟩ := run_events hstep ops hstart
  simp only [hput, hgone] at hgained hlost
  have h := run_conserves es (pipe s)
  rw [← hrun, hgained, hlost] at h
  exact h

end Pipeline

end Fudge
