import Fudge.Relay.Pending
import Fudge.Relay.Reference
import Fudge.Standalone.Pending

/-!
# Imports extend the tip

The stand-alone and the relay chain builder, over all runs of their public operations. That a
pending block sits on the best block, and that only its import moves the chain, holds in every run.
That its import extends what the committed mutations left behind holds in every run in which no
mutation fails after its revert: such a failure takes the tip away, with the mutations made to it,
and the next block is built on its parent.
-/

namespace Fudge

open Call Chain
open StandAloneBuilder (standAloneStep StandAloneOp)
open World (publicStep PublicOp)

/-- **An import extends the tip.** In every run a pending block sits on the best block, and only its
own import changes the chain; and if no mutation fails after its revert, the best state is what the
committed mutations and the accepted blocks lead to. -/
theorem import_extends_tip {S κ W ε A : Type} (P : Primitives S) (R : RelayPrimitives) :
    (∀ (a₀ : StandAloneBuilder S) (ops : List (StandAloneOp S A)),
      a₀.next = none → a₀.builder.chain.Hashed P →
      Along (standAloneStep P) (fun op _ ↦ op.Lawful P) ops a₀ →
      let a := run (standAloneStep P) ops a₀
      (∀ b, a.next = some b → b.1.header.parentHash = a.builder.chain.bestHash) ∧
      (∀ op : StandAloneOp S A, (∀ H, op ≠ .importBlock H) → a.next.isSome = true →
        (standAloneStep P op a).2.builder.chain = a.builder.chain) ∧
      (∀ s₀, BestState a₀.builder.chain s₀ →
        Along (standAloneStep P) (StandAloneBuilder.MutatesSafely P) ops a₀ →
        BestState a.builder.chain
          (ledger (standAloneStep P) (StandAloneBuilder.effect P) ops a₀ s₀))) ∧
    (∀ (w₀ : World κ W) (ops : List (PublicOp κ W ε A)),
      w₀.relay.next = none → w₀.relay.builder.chain.Hashed R.toPrimitives →
      Along (publicStep R) (fun op _ ↦ op.Lawful R) ops w₀ →
      let w := run (publicStep R) ops w₀
      (∀ b, w.relay.next = some b → b.1.header.parentHash = w.relay.builder.chain.bestHash) ∧
      (∀ op : PublicOp κ W ε A, (∀ H C, op ≠ .relay (.importBlock H C)) →
        w.relay.next.isSome = true →
        (publicStep R op w).2.relay.builder.chain = w.relay.builder.chain) ∧
      (∀ s₀, BestState w₀.relay.builder.chain s₀ →
        Along (publicStep R) (World.MutatesSafely R) ops w₀ →
        BestState w.relay.builder.chain
          (ledger (publicStep R) (World.effect R) ops w₀ s₀))) := by
  constructor
  · intro a₀ ops hnext hhashed hL a
    have h₀ : PendingOn P a₀.builder.chain a₀.next :=
      ⟨hhashed, fun b hb ↦ by rw [hnext] at hb; cases hb⟩
    have ha : PendingOn P a.builder.chain a.next :=
      run_invariant (I := fun a ↦ PendingOn P a.builder.chain a.next)
        (fun op a hop h ↦ StandAloneBuilder.standAloneStep_pendingOn op a hop h) ops hL h₀
    refine ⟨ha.tip, fun op hop hsome ↦ StandAloneBuilder.standAloneStep_chain op a hop hsome, ?_⟩
    intro s₀ hs₀ hsafe
    exact (run_ledger (I := fun a s ↦ PendingOn P a.builder.chain a.next ∧
        BestState a.builder.chain s)
      (fun op a s hop h ↦ StandAloneBuilder.standAloneStep_state op a hop h) ops (hL.and hsafe)
      ⟨h₀, hs₀⟩).2
  · intro w₀ ops hnext hhashed hL w
    have h₀ : RelaychainBuilder.Pending R w₀.relay :=
      ⟨hhashed, fun b hb ↦ by rw [hnext] at hb; cases hb⟩
    have hw : RelaychainBuilder.Pending R w.relay :=
      run_invariant (I := fun w ↦ RelaychainBuilder.Pending R w.relay)
        (fun op w hop h ↦ World.publicStep_pending op w hop h) ops hL h₀
    refine ⟨hw.tip, fun op hop hsome ↦ World.publicStep_chain op w hop hsome, ?_⟩
    intro s₀ hs₀ hsafe
    exact (run_ledger (I := fun w s ↦ RelaychainBuilder.Pending R w.relay ∧
        BestState w.relay.builder.chain s)
      (fun op w s hop h ↦ World.publicStep_state op w hop h) ops (hL.and hsafe) ⟨h₀, hs₀⟩).2

/-! ## A mutation that is lost -/

/-- A counting chain of height `n` under a stand-alone builder. -/
def StandAloneBuilder.counterBuilder (n : ℕ) : StandAloneBuilder ℕ where
  builder := { chain := counterChain n }

/-- The reference host, whose backend does not take the block data. -/
def refusingHost : Host ℕ :=
  { Host.reference counter with setBlockData := fun _ ↦ .error "refused" }

def mutateTwice : List (StandAloneOp ℕ Unit) :=
  [.withMutState (.reference counter) fun s ↦ ((), s + 10),
    .withMutState refusingHost fun s ↦ ((), s + 100)]

/-- The block that is built next is imported on the parent of the mutated block. -/
theorem import_loses_mutation :
    let a₀ := StandAloneBuilder.counterBuilder 1
    let a₁ := run (standAloneStep counter) (mutateTwice.take 1) a₀
    let a := run (standAloneStep counter) (mutateTwice ++
      [.appendExtrinsic (.reference counter) [1], .buildBlock (.reference counter)]) a₀
    let imported := standAloneStep (A := Unit) counter (.importBlock (.reference counter)) a
    a₁.builder.chain.states a₁.builder.chain.bestHash = some 11 ∧
      a.next.isSome = true ∧
      a.next.all (fun b ↦ a₁.builder.chain.bestHash != b.1.header.parentHash) = true ∧
      imported.1 = .ok .done ∧
      imported.2.builder.chain.states imported.2.builder.chain.bestHash = some 1 := by
  decide +kernel

/-- A round of a stand-alone builder: the state is mutated before the block is built and after it
is imported. -/
def standAloneRound : List (StandAloneOp ℕ Unit) :=
  [.withMutState (.reference counter) fun s ↦ ((), s + 10),
    .appendExtrinsic (.reference counter) [1], .buildBlock (.reference counter),
    .importBlock (.reference counter), .withMutState (.reference counter) fun s ↦ ((), s + 100)]

/-- A round of a relay chain builder: a head is written before the block is built. -/
def relayHeadRound : List (PublicOp ℕ Unit Unit Unit) :=
  [.relay (.updateParaHead .reference 1 [7]), .relay (.buildBlock .reference),
    .relay (.importBlock .reference ⟨fun _ _ ↦ pure none, fun _ _ ↦ pure ()⟩)]

theorem import_extends_tip_rounds :
    BestState (run (standAloneStep counter) standAloneRound
        (StandAloneBuilder.counterBuilder 0)).builder.chain 111 ∧
      ∃ s, BestState (run (publicStep RelayPrimitives.reference) relayHeadRound
        { relay := .genesis ℕ, collators := () }).relay.builder.chain s ∧ s.heads 1 = some [7] := by
  have hsafe : ∀ {S : Type} {P : Primitives S} {H : Host S} (hL : H.Lawful P) (b : Builder S)
      (exec : S → Unit × S),
      (Builder.withState P H .commit none exec b).1.isErr = false →
      Builder.CommitSafe P H b.chain none exec := fun hL b exec hno ↦
    (Builder.withState_commit_atomic_iff hL b none _).mp fun herr ↦ by rw [hno] at herr; cases herr
  constructor
  · have hL := Host.reference_lawful counter
    have hlawful : ∀ op ∈ standAloneRound, op.Lawful counter := by
      simp [standAloneRound, StandAloneOp.Lawful, hL]
    have hrun := ((import_extends_tip (κ := ℕ) (W := Unit) (ε := Unit) counter .reference).1
      (StandAloneBuilder.counterBuilder 0) standAloneRound rfl (hashed_genesis counter 0)
      (along_of_forall fun op hop _ ↦ hlawful op hop)).2.2 0 (bestState_genesis counter 0)
      ⟨fun _ ↦ hsafe hL _ _ (by decide +kernel), fun _ ↦ ⟨trivial, fun _ ↦ ⟨trivial, fun _ ↦
        ⟨trivial, fun _ ↦ ⟨fun _ ↦ hsafe hL _ _ (by decide +kernel), fun _ ↦ trivial⟩⟩⟩⟩⟩
    have hledger : ledger (standAloneStep counter) (StandAloneBuilder.effect counter)
        standAloneRound (StandAloneBuilder.counterBuilder 0) 0 = 111 := by decide +kernel
    rwa [hledger] at hrun
  · have hL : RelayHost.reference.toHost.Lawful RelayPrimitives.reference.toPrimitives :=
      Host.reference_lawful _
    have hlawful : ∀ op ∈ relayHeadRound, op.Lawful RelayPrimitives.reference := by
      simp [relayHeadRound, PublicOp.Lawful, hL]
    exact ⟨_, ((import_extends_tip counter RelayPrimitives.reference).2
      { relay := .genesis ℕ, collators := () } relayHeadRound rfl (hashed_genesis _ _)
      (along_of_forall fun op hop _ ↦ hlawful op hop)).2.2 .empty (bestState_genesis _ _)
      ⟨fun _ ↦ hsafe hL _ _ (by decide +kernel), fun _ ↦ ⟨trivial, fun _ ↦
        ⟨World.ImportSafe.of_empty (by decide +kernel), fun _ ↦ trivial⟩⟩⟩, by decide +kernel⟩

end Fudge
