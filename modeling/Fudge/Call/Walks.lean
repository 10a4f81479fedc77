import Mathlib.Logic.Relation
import Fudge.Call.Run

/-!
# Calls as walks of small changes

A large call changes what it owns by a few kinds of small changes, made one after the other, and it
may give up between any two of them. `Walks R f c s` says that much: whatever the outcome of `c`,
the observation `f` went from what it was to what it is by changes `R`. The judgement is closed
under sequencing, so an invariant of the small changes is one of every call that is made of them,
however the call ends.
-/

namespace Fudge

namespace Call

open Relation (ReflTransGen)

variable {σ τ ε δ α β γ ω : Type}

/-- Made in `s`, the call changes the observation `f` by changes `R` only. -/
def Walks (R : γ → γ → Prop) (f : σ → γ) (c : Call σ ε α) (s : σ) : Prop :=
  ReflTransGen R (f s) (f (c s).2)

namespace Walks

variable {R : γ → γ → Prop} {f : σ → γ} {c : Call σ ε α} {s : σ}

/-- A call that leaves the observation alone makes no change. -/
theorem of_keeps (h : Keeps f c) : Walks R f c s := by
  rw [Walks, h s]

protected theorem bind {g : α → Call σ ε β} (hc : Walks R f c s)
    (hg : ∀ a t, c s = (.ok a, t) → Walks R f (g a) t) : Walks R f (c >>= g) s := by
  rcases bind_cases c g s with ⟨a, ha, h⟩ | ⟨-, -, h⟩
  · rw [Walks, h]
    exact hc.trans (hg a _ ha)
  · rw [Walks, h]
    exact hc

protected theorem read_bind {g : α → Call σ ε β} (hc : Keeps id c)
    (hg : ∀ a, c s = (.ok a, s) → Walks R f (g a) s) : Walks R f (c >>= g) s := by
  refine Walks.bind (of_keeps fun t ↦ congrArg f (hc t)) fun a t h ↦ ?_
  obtain rfl : t = s := hc.eq_of_ok h
  exact hg a h

protected theorem mapErr {g : ε → δ} (h : Walks R f c s) : Walks R f (mapErr g c) s := by
  rw [Walks, mapErr_snd]
  exact h

protected theorem map {g : α → β} (h : Walks R f c s) : Walks R f (map g c) s := h

protected theorem zoom {get : τ → σ} {set : σ → τ → τ} {f : τ → γ} {f' : σ → γ} {t : τ}
    (h : Walks R f' c (get t)) (hget : f t = f' (get t)) (hset : ∀ a t, f (set a t) = f' a) :
    Walks R f (zoom get set c) t := by
  rw [Walks, hget]
  change ReflTransGen R _ (f (set (c (get t)).2 t))
  rw [hset]
  exact h

protected theorem forEach {g : β → Call σ ε α} (h : ∀ b s, Walks R f (g b) s) :
    ∀ (l : List β) (s : σ), Walks R f (forEach g l) s := by
  intro l
  induction l with
  | nil => exact fun _ ↦ ReflTransGen.refl
  | cons b l ih => exact fun s ↦ Walks.bind (h b s) fun _ t _ ↦ ih t

end Walks

/-- **A run of such calls is such a walk**. -/
theorem run_walks {R : γ → γ → Prop} {f : σ → γ} {step : ω → Call σ ε α}
    {ok : ω → σ → Prop} (h : ∀ op s, ok op s → Walks R f (step op) s) (ops : List ω) {s : σ}
    (hops : Along step ok ops s) : ReflTransGen R (f s) (f (run step ops s)) :=
  run_invariant (I := fun t ↦ ReflTransGen R (f s) (f t))
    (fun op t hop ht ↦ ht.trans (h op t hop)) ops hops ReflTransGen.refl

end Call

end Fudge
