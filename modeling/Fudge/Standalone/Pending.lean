import Fudge.Core.Pending
import Fudge.Standalone.Builder

/-!
# The pending block of the stand-alone builder

While a block waits in the slot, the assertions keep every call but an import away from the chain,
so the block stays on the best block it was built on. The best state is then the fold of the
committed mutations and the accepted blocks, in the order in which they were made (`effect`). An
accepted block extends it and takes nothing back.
-/

namespace Fudge

namespace StandAloneBuilder

open Call Chain
open Builder (commitEffect importEffect CommitSafe)

variable {S A : Type} (P : Primitives S)

/-- What an operation does to the best state: a committed mutation applies its closure, and a block
that the client takes is executed. -/
def effect : StandAloneOp S A → StandAloneBuilder S → S → S
  | .withMutState H exec, a, s =>
    if a.next.isSome then s else commitEffect P H exec a.builder s
  | .importBlock H, a, s => match a.next with
    | some next => importEffect P H (nextParams next.1) a.builder s
    | none => s
  | _, _, s => s

/-- A mutation that the host refuses is refused before the tip is reverted. -/
def MutatesSafely : StandAloneOp S A → StandAloneBuilder S → Prop
  | .withMutState H exec, a =>
    a.next = none → CommitSafe P H a.builder.chain none exec
  | _, _ => True

variable {P}

theorem pendingOn_of_keeps {c : Call (StandAloneBuilder S) Error (Reply A)}
    (hc : Keeps (fun a ↦ (a.builder.chain, a.next, a.imports)) c) {a : StandAloneBuilder S}
    (h : PendingOn P a.builder.chain a.next) :
    PendingOn P (c a).2.builder.chain (c a).2.next ∧ (c a).2.builder.chain = a.builder.chain := by
  obtain ⟨hchain, hrest⟩ := Prod.mk.inj (hc a)
  obtain ⟨hnext, -⟩ := Prod.mk.inj hrest
  rw [hchain, hnext]
  exact ⟨h, rfl⟩

theorem standAloneStep_keeps (op : StandAloneOp S A) :
    (∃ H, op = .buildBlock H) ∨ (∃ H, op = .importBlock H) ∨ (∃ H exec, op = .withMutState H exec) ∨
      (Keeps (fun a ↦ (a.builder.chain, a.next, a.imports)) (standAloneStep P op) ∧
        ∀ a s, effect P op a s = s) := by
  cases op with
  | buildBlock H => exact Or.inl ⟨H, rfl⟩
  | importBlock H => exact Or.inr (Or.inl ⟨H, rfl⟩)
  | withMutState H exec => exact Or.inr (Or.inr (Or.inl ⟨H, exec, rfl⟩))
  | withState H exec =>
    exact Or.inr (Or.inr (Or.inr ⟨Keeps.map (withState_keeps _), fun _ _ ↦ rfl⟩))
  | withStateAt H at_ exec =>
    exact Or.inr (Or.inr (Or.inr ⟨Keeps.map (withStateAt_keeps _ _), fun _ _ ↦ rfl⟩))
  | appendExtrinsic H xt =>
    exact Or.inr (Or.inr (Or.inr
      ⟨appendExtrinsic_keeps xt, fun _ _ ↦ rfl⟩))
  | appendExtrinsics H xts =>
    exact Or.inr (Or.inr (Or.inr
      ⟨appendExtrinsics_keeps xts, fun _ _ ↦ rfl⟩))
  | appendTransition aux =>
    exact Or.inr (Or.inr (Or.inr ⟨appendTransition_keeps aux, fun _ _ ↦ rfl⟩))

/-! ## One operation -/

theorem buildBlock_pendingOn {H : Host S} (hL : H.Lawful P) {a : StandAloneBuilder S}
    (h : PendingOn P a.builder.chain a.next) :
    PendingOn P (buildBlock P H a).2.builder.chain (buildBlock P H a).2.next ∧
      (buildBlock P H a).2.builder.chain = a.builder.chain := by
  rcases buildBlock_cases (P := P) (H := H) a with
    hsame | ⟨-, hd, inherents, digest, proposal, hhd, hprop, hbuilt⟩
  · rw [hsame]
    exact ⟨h, rfl⟩
  · rw [hbuilt]
    exact ⟨Builder.proposal_on_tip hL h.hashed hhd hprop, rfl⟩

theorem standAloneStep_buildBlock (H : Host S) (a : StandAloneBuilder S) :
    (standAloneStep (A := A) P (.buildBlock H) a).2 = (buildBlock P H a).2 := rfl

/-- **Every operation keeps the pending block on the best block**, whatever it returns. -/
theorem standAloneStep_pendingOn (op : StandAloneOp S A) (a : StandAloneBuilder S)
    (hop : op.Lawful P) (h : PendingOn P a.builder.chain a.next) :
    PendingOn P (standAloneStep P op a).2.builder.chain (standAloneStep P op a).2.next := by
  rcases standAloneStep_keeps (P := P) op with
    ⟨H, rfl⟩ | ⟨H, rfl⟩ | ⟨H, exec, rfl⟩ | ⟨hkeep, -⟩
  · rw [standAloneStep_buildBlock]
    exact (buildBlock_pendingOn hop h).1
  · rcases importBlock_cases (H := H) a with ⟨-, -, hsame⟩ | ⟨next, -, -, himport⟩
    · change PendingOn P (importBlock H a).2.builder.chain (importBlock H a).2.next
      rw [hsame]
      exact h
    · change PendingOn P (importBlock H a).2.builder.chain (importBlock H a).2.next
      rw [himport]
      exact ⟨Builder.importBlock_hashed hop _ a.builder h.hashed, fun b hb ↦ (by cases hb)⟩
  · change PendingOn P (withMutState P H _ a).2.builder.chain (withMutState P H _ a).2.next
    rcases withMutState_cases (P := P) (H := H) exec a with
      ⟨-, hpanic⟩ | ⟨hnext, -, hmut⟩
    · rw [hpanic]
      exact h
    · rw [hmut]
      refine ⟨Builder.commit_hashed hop _ a.builder h.hashed, fun b hb ↦ ?_⟩
      rw [show a.next = some b from hb] at hnext
      cases hnext
  · exact (pendingOn_of_keeps hkeep h).1

theorem standAloneStep_chain (op : StandAloneOp S A) (a : StandAloneBuilder S)
    (hop : ∀ H, op ≠ .importBlock H) (hnext : a.next.isSome = true) :
    (standAloneStep P op a).2.builder.chain = a.builder.chain := by
  rcases standAloneStep_keeps (P := P) op with
    ⟨H, rfl⟩ | ⟨H, rfl⟩ | ⟨H, exec, rfl⟩ | ⟨hkeep, -⟩
  · rw [standAloneStep_buildBlock]
    rcases buildBlock_cases (P := P) (H := H) a with hsame | ⟨hnone, -⟩
    · rw [hsame]
    · rw [hnone] at hnext
      cases hnext
  · exact absurd rfl (hop H)
  · rcases withMutState_cases (P := P) (H := H) exec a with
      ⟨-, hpanic⟩ | ⟨hnone, -⟩
    · change (withMutState P H _ a).2.builder.chain = a.builder.chain
      rw [hpanic]
    · rw [hnone] at hnext
      cases hnext
  · exact (Prod.mk.inj (hkeep a)).1

theorem standAloneStep_state (op : StandAloneOp S A)
    (a : StandAloneBuilder S) {s : S} (hop : op.Lawful P ∧ MutatesSafely P op a)
    (h : PendingOn P a.builder.chain a.next ∧ BestState a.builder.chain s) :
    PendingOn P (standAloneStep P op a).2.builder.chain (standAloneStep P op a).2.next ∧
      BestState (standAloneStep P op a).2.builder.chain (effect P op a s) := by
  obtain ⟨hL, hsafe⟩ := hop
  obtain ⟨htip, hs⟩ := h
  refine ⟨standAloneStep_pendingOn op a hL htip, ?_⟩
  rcases standAloneStep_keeps (P := P) op with
    ⟨H, rfl⟩ | ⟨H, rfl⟩ | ⟨H, exec, rfl⟩ | ⟨hkeep, heffect⟩
  · rw [standAloneStep_buildBlock, (buildBlock_pendingOn hL htip).2]
    exact hs
  · change BestState (importBlock H a).2.builder.chain _
    rcases importBlock_cases (H := H) a with ⟨hnone, -, hsame⟩ | ⟨next, hnext, -, himport⟩
    · rw [hsame, effect, hnone]
      exact hs
    · rw [himport, effect, hnext]
      exact Builder.importBlock_state hL hs (htip.tip next hnext) rfl
  · change BestState (withMutState P H _ a).2.builder.chain _
    rcases withMutState_cases (P := P) (H := H) exec a with
      ⟨hnext, hpanic⟩ | ⟨hnone, -, hmut⟩
    · rw [hpanic, effect, if_pos hnext]
      exact hs
    · rw [hmut, effect, hnone]
      exact Builder.commit_state hL hs (hsafe hnone)
  · rw [(Prod.mk.inj (hkeep a)).1, heffect]
    exact hs

end StandAloneBuilder

end Fudge
