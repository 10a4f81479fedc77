import Fudge.Core.Pending

/-!
# What holds of every stored state

A call that fails after its revert leaves the chain on an older block, whose state was made by a
call long before. What is to hold of the best state in every run, whatever fails in it, is therefore
shown of all states the chain stores. There are two ways a state gets there: a mutation commits what
its closure made of the best state, and an import executes a block on the state of its parent.
Reverting takes states away and adds none.
-/

namespace Fudge

open Call

namespace Chain

variable {S : Type} {Q Q' : S → Prop} {c c' : Chain S}

/-- Every state that is stored has the property. -/
def AllStates (Q : S → Prop) (c : Chain S) : Prop := ∀ h s, c.states h = some s → Q s

theorem AllStates.mono (h : c.AllStates Q) (hQ : ∀ s, Q s → Q' s) : c.AllStates Q' :=
  fun k s hs ↦ hQ s (h k s hs)

theorem AllStates.revertedBy (h : c.AllStates Q) {n : ℕ} (hr : RevertedBy n c c') :
    c'.AllStates Q :=
  fun k s hs ↦ h k s (hr.states hs)

theorem AllStates.store (h : c.AllStates Q) {k : Hash} {s : S} (hs : Q s)
    (hstates : c'.states = Function.update c.states k (some s)) : c'.AllStates Q := by
  intro j t ht
  rw [hstates] at ht
  by_cases hj : j = k
  · rw [hj, Function.update_self] at ht
    exact Option.some.inj ht ▸ hs
  · rw [Function.update_of_ne hj] at ht
    exact h j t ht

end Chain

namespace Builder

variable {S R : Type} {P : Primitives S} {H : Host S} {Q : S → Prop}

/-- **A mutation**, whatever it returns, if its closure keeps the property. -/
theorem commit_allStates (hL : H.Lawful P) {exec : S → R × S} (hQ : ∀ s, Q s → Q (exec s).2) :
    Preserves (fun b ↦ b.chain.AllStates Q) (withState P H .commit none exec) := by
  intro b hb
  change (commit P H none exec b).2.chain.AllStates Q
  by_cases hok : (commit P H none exec b).1.isOk = true
  · obtain ⟨r, hr⟩ := Outcome.isOk_iff.mp hok
    obtain ⟨s, hs, hstates⟩ := commit_states hL (eq_of_fst hr)
    intro k t ht
    rcases hstates k t ht with rfl | hold
    · exact hQ s (hb _ s hs)
    · exact hb k t hold
  · rcases commit_of_not_ok hL (by simpa using hok) with
      ⟨h, -⟩ | ⟨_, _, d, ⟨_, _, _, _, _, hrev⟩, h⟩
    · rw [h]
      exact hb
    · rw [h]
      exact hb.revertedBy (hL.revert hrev)

/-- **An import**, whatever the client says, if executing a block keeps the property. -/
theorem importBlock_allStates (hL : H.Lawful P) (hQ : ∀ s block, Q s → Q (P.execute s block))
    (params : BlockImportParams) :
    Preserves (fun b ↦ b.chain.AllStates Q)
      (importBlock H params : Call (Builder S) Error Unit) := by
  intro b hb
  rw [importBlock_chain]
  rcases hi : H.importBlock b.chain params with ⟨result, c⟩
  by_cases hr : result = .ok .imported
  · subst hr
    obtain ⟨s, hs, hstates⟩ := (hL.importBlock hi).states
    exact hb.store (hQ s _ (hb _ s hs)) hstates
  · rw [show c = b.chain from hL.importBlock_refused hi hr]
    exact hb

end Builder

end Fudge
