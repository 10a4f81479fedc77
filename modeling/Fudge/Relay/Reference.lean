import Fudge.Core.Reference
import Fudge.Relay.Builder

/-!
# A reference relay chain

The relay chain on which concrete runs are evaluated: the host in memory, with a runtime whose
blocks change nothing and whose force-enactment moves the head of the pending candidate into
`Heads`. The storage root covers the heads of the onboarded parachains, so mutations change hashes.
-/

namespace Fudge

def RelayStorage.empty : RelayStorage where
  paraLifecycles _ := none
  parachains := []
  heads _ := none
  currentCodeHash _ := none
  codeByHash _ := none
  codeByHashRefs _ := 0
  pastCodeHash _ := none
  pendingAvailability _ := none
  pendingAvailabilityCommitments _ := none
  other _ := none

/-- The validation data of a parachain with a known head. -/
def RelayStorage.validationData (s : RelayStorage) (id : Id) : Option PersistedValidationData :=
  (s.heads id).map fun head ↦ ⟨head, 0, 0, 0⟩

/-- `force_enact`: the head of the pending candidate becomes the head of the parachain. -/
def RelayStorage.forceEnactPending (id : Id) (s : RelayStorage) : RelayStorage :=
  match s.pendingAvailability id, s.pendingAvailabilityCommitments id with
  | some _, some commitments =>
    { insertHead id commitments.headData s with
      pendingAvailability := Function.update s.pendingAvailability id none
      pendingAvailabilityCommitments := Function.update s.pendingAvailabilityCommitments id none }
  | _, _ => s

/-- The root of a relay chain storage: its heads as digits to the base 257, a zero before each. -/
def RelayStorage.root (s : RelayStorage) : Hash :=
  s.parachains.foldl (fun n id ↦
    ((s.heads id).getD []).foldl (fun n b ↦ 257 * n + b.toNat + 1) (257 * n)) 1

def RelayPrimitives.reference : RelayPrimitives where
  toPrimitives := Primitives.reference RelayStorage.root fun s _ ↦ s
  codeHash code := code.length + 1
  commitmentsHash _ := 0
  pvdHash _ := 0
  povHash _ := 0
  headHash _ := 0
  blockNumber _ := 0
  includedValidationData id s :=
    ((s.forceEnactPending id).validationData id, s.forceEnactPending id)

def RelayHost.reference : RelayHost where
  toHost := Host.reference RelayPrimitives.reference.toPrimitives
  persistedValidationData c parent id :=
    .ok ((c.states parent).bind fun s ↦ s.validationData id)
  validationCodeHash _ _ := .ok (some 1)
  decodeCandidate cpa := .ok cpa

theorem RelayPrimitives.reference_enactsHeads : RelayPrimitives.reference.EnactsHeads := by
  intro id s cpa commitments hp hc
  simp only [RelayPrimitives.reference, RelayStorage.forceEnactPending, hp, hc]
  rfl

theorem RelayPrimitives.reference_takesCandidates : RelayPrimitives.reference.TakesCandidates := by
  intro id s cpa commitments hp hc
  simp only [RelayPrimitives.reference, RelayStorage.forceEnactPending, hp, hc]
  exact ⟨Function.update_self _ _ _, Function.update_self _ _ _⟩

theorem RelayPrimitives.reference_keepsHeads : RelayPrimitives.reference.KeepsHeads :=
  fun _ _ ↦ rfl

/-- A relay chain at genesis, with nothing onboarded. -/
def RelaychainBuilder.genesis (κ : Type) : RelaychainBuilder κ where
  builder := { chain := Chain.genesis RelayPrimitives.reference.toPrimitives .empty }

end Fudge
