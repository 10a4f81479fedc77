import Mathlib.Algebra.Group.Nat.Defs
import Mathlib.Data.List.Sort
import Fudge.Parachain.Builder

/-!
# Relay chain storage

The part of a relay chain's state that FUDGE writes by hand: the storage items of the `Paras` and
`ParaInclusion` pallets that `builder/relay_chain.rs` recreates in its `types` module. What is left
of the state is kept as raw key-value data.

Two closures are run on it inside `with_mut_state`. `onboard` registers a parachain. `enact` writes
a candidate with its commitments and then asks the runtime for the validation data under the
assumption that the candidate is included, which force-enacts it. A closure of the source returns a
`Result` *and* leaves its writes; `with_mut_state` commits them whatever the result is. Both
closures are therefore calls on the storage, with the state left by each early return.
-/

namespace Fudge

inductive ParaLifecycle where
  | onboarding
  | parathread
  | parachain
  | upgradingParathread
  | downgradingParachain
  | offboardingParathread
  | offboardingParachain
deriving DecidableEq, Repr

structure CandidateCommitments where
  upwardMessages : List Bytes
  horizontalMessages : List (Id × Bytes)
  newValidationCode : Option ValidationCode
  headData : HeadData
  processedDownwardMessages : ℕ
  hrmpWatermark : ℕ
deriving DecidableEq, Repr

structure CandidateDescriptor where
  paraId : Id
  relayParent : Hash
  collator : Bytes
  persistedValidationDataHash : Hash
  povHash : Hash
  erasureRoot : Hash
  signature : Bytes
  paraHead : Hash
  validationCodeHash : Hash
deriving DecidableEq, Repr

structure CandidateReceipt where
  descriptor : CandidateDescriptor
  commitmentsHash : Hash
deriving DecidableEq, Repr

/-- `FudgeCandidatePendingAvailability`, and the type of the same shape it is decoded into. -/
structure CandidatePendingAvailability where
  core : ℕ
  hash : Hash
  descriptor : CandidateDescriptor
  availabilityVotes : List Bool
  backers : List Bool
  relayParentNumber : ℕ
  backedInNumber : ℕ
  backingGroup : ℕ
deriving DecidableEq, Repr

/-- The state of a relay chain. -/
structure RelayStorage where
  paraLifecycles : Id → Option ParaLifecycle
  parachains : List Id
  heads : Id → Option HeadData
  currentCodeHash : Id → Option Hash
  codeByHash : Hash → Option ValidationCode
  codeByHashRefs : Hash → ℕ
  pastCodeHash : Id × ℕ → Option Hash
  pendingAvailability : Id → Option CandidatePendingAvailability
  pendingAvailabilityCommitments : Id → Option CandidateCommitments
  other : Bytes → Option Bytes

structure FudgeParaChain where
  id : Id
  head : HeadData
  code : ValidationCode
deriving DecidableEq, Repr

/-- The fixed functions of a relay chain and of its native runtime. -/
structure RelayPrimitives extends Primitives RelayStorage where
  /-- `ValidationCode::hash`. -/
  codeHash : ValidationCode → Hash
  /-- `CandidateCommitments::hash`. -/
  commitmentsHash : CandidateCommitments → Hash
  /-- `PersistedValidationData::hash`. -/
  pvdHash : PersistedValidationData → Hash
  /-- `proof_of_validity.into_compressed().hash()`. -/
  povHash : ParachainBlockData → Hash
  /-- `HeadData::hash`. -/
  headHash : HeadData → Hash
  /-- `frame_system::Pallet::block_number()`. -/
  blockNumber : RelayStorage → ℕ
  /-- The runtime's `persisted_validation_data(id, OccupiedCoreAssumption::Included)`, which enacts
  the pending candidate of `id` before it looks the data up. -/
  includedValidationData : Id → RelayStorage → Option PersistedValidationData × RelayStorage

/-- The answers of the node libraries during one call of a relay chain builder. -/
structure RelayHost extends Host RelayStorage where
  /-- `api.persisted_validation_data(parent, id, OccupiedCoreAssumption::TimedOut)`. -/
  persistedValidationData :
    Chain RelayStorage → Hash → Id → Except InnerError (Option PersistedValidationData)
  /-- `api.validation_code_hash(parent, id, OccupiedCoreAssumption::TimedOut)`. -/
  validationCodeHash : Hash → Id → Except InnerError (Option Hash)
  /-- `CandidatePendingAvailability::decode` of the encoded candidate. -/
  decodeCandidate : CandidatePendingAvailability → Except InnerError CandidatePendingAvailability

/-- The runtime enacts a pending candidate by making its head the head of the parachain. -/
def RelayPrimitives.EnactsHeads (P : RelayPrimitives) : Prop :=
  ∀ {id s cpa commitments}, s.pendingAvailability id = some cpa →
    s.pendingAvailabilityCommitments id = some commitments →
      (P.includedValidationData id s).2.heads =
        Function.update s.heads id (some commitments.headData)

/-- The runtime takes a pending candidate and its commitments out of the storage to enact them. -/
def RelayPrimitives.TakesCandidates (P : RelayPrimitives) : Prop :=
  ∀ {id s cpa commitments}, s.pendingAvailability id = some cpa →
    s.pendingAvailabilityCommitments id = some commitments →
      (P.includedValidationData id s).2.pendingAvailability id = none ∧
        (P.includedValidationData id s).2.pendingAvailabilityCommitments id = none

/-- Executing a block leaves all heads alone: candidates do not come in blocks. -/
def RelayPrimitives.KeepsHeads (P : RelayPrimitives) : Prop :=
  ∀ s b, (P.execute s b).heads = s.heads

namespace RelaychainBuilder

/-- `relay_chain::Error`; `ε` is the boxed error of a collator. -/
inductive Error (ε : Type) where
  | coreBuilder (e : Builder.Error)
  | initiator (e : InnerError)
  | parachainJudgeError (e : ε)
  | parachainMutation
  | paraLifecyclesMutation
  | persistedValidationDataRetrieval (e : InnerError)
  | persistedValidationDataNotFound
  | validationCodeHashRetrieval (e : InnerError)
  | validationCodeHashNotFound
  | inherentDataProvidersCreation (e : InnerError)
  | inherentDataCreation (e : InnerError)
  | digestCreation (e : InnerError)
  | candidatePendingAvailabilityDecoding (e : InnerError)
  | parachainNotOnboarded
  | parachainCoreIndexCreation (e : InnerError)
  | parachainNotFound
  | parachainInherentDataCreation
  | nextBlockNotFound
  | parachainCollation (id : Id) (e : ε)
deriving DecidableEq, Repr

end RelaychainBuilder

namespace RelayStorage

open RelaychainBuilder (Error)

variable {ε : Type} (P : RelayPrimitives) (H : RelayHost)

/-- `Heads::insert(&id, head)`. -/
def insertHead (id : Id) (head : HeadData) (s : RelayStorage) : RelayStorage :=
  { s with heads := Function.update s.heads id (some head) }

/-! ## Onboarding -/

/-- The entry of `Parachains`; the list stays sorted. -/
def pushParachain (id : Id) (s : RelayStorage) : RelayStorage :=
  if id ∈ s.parachains then s
  else { s with parachains := (s.parachains ++ [id]).insertionSort (· ≤ ·) }

/-- The code hash that was current before, noted as a past one; zero if there was none. -/
def retireCode (id : Id) (currentBlock : ℕ) (s : RelayStorage) : Hash × RelayStorage :=
  match s.currentCodeHash id with
  | some h =>
    (h, { s with pastCodeHash := Function.update s.pastCodeHash (id, currentBlock) (some h) })
  | none => (0, s)

/-- The new code under its hash. The reference count is set to one if it was zero. -/
def insertCode (id : Id) (codeHash : Hash) (code : ValidationCode) (s : RelayStorage) :
    RelayStorage :=
  { s with
    currentCodeHash := Function.update s.currentCodeHash id (some codeHash)
    codeByHash := Function.update s.codeByHash codeHash (some code)
    codeByHashRefs := Function.update s.codeByHashRefs codeHash
      (if s.codeByHashRefs codeHash = 0 then 1 else s.codeByHashRefs codeHash) }

/-- `ParaLifecycles::try_mutate(id, ..)`, which overwrites whatever was there. -/
def markParachain (id : Id) (s : RelayStorage) : RelayStorage :=
  { s with paraLifecycles := Function.update s.paraLifecycles id (some .parachain) }

/-- The closure of `onboard_para`. Its two `try_mutate`s are given closures that return `Ok`, so the
errors they are mapped to do not occur. -/
def onboard (para : FudgeParaChain) (s : RelayStorage) : RelayStorage :=
  let codeHash := P.codeHash para.code
  let (currCodeHash, t) := retireCode para.id (P.blockNumber s) (pushParachain para.id s)
  let t := if currCodeHash ≠ codeHash then insertCode para.id codeHash para.code t else t
  insertHead para.id para.head (markParachain para.id t)

/-! ## Enacting -/

def commitmentsOf (c : Collation) : CandidateCommitments where
  upwardMessages := c.upwardMessages
  horizontalMessages := c.horizontalMessages
  newValidationCode := c.newValidationCode
  headData := c.headData
  processedDownwardMessages := c.processedDownwardMessages
  hrmpWatermark := c.hrmpWatermark

/-- `validation_code_hash(&mut rt_api, parent, id, OccupiedCoreAssumption::TimedOut)`. -/
def validationCodeHash (parent : Hash) (id : Id) : Call RelayStorage (Error ε) Hash := do
  let h ← Call.query (fun _ ↦ H.validationCodeHash parent id) .validationCodeHashRetrieval
  Call.require .validationCodeHashNotFound h

/-- The receipt of a candidate, with the default signature, collator and erasure root. -/
def candidateReceipt (parent : Hash) (pvd : PersistedValidationData) (id : Id) (c : Collation)
    (codeHash : Hash) : CandidateReceipt where
  commitmentsHash := P.commitmentsHash (commitmentsOf c)
  descriptor :=
    { paraId := id, relayParent := parent, collator := List.replicate 32 0,
      persistedValidationDataHash := P.pvdHash pvd, povHash := P.povHash c.proofOfValidity,
      erasureRoot := 0, signature := List.replicate 64 0,
      paraHead := P.headHash (commitmentsOf c).headData, validationCodeHash := codeHash }

/-- The position of a parachain in `Parachains`, as a `u32`. -/
def coreIndex (id : Id) : Call RelayStorage (Error ε) ℕ := do
  let parachains ← Call.read (·.parachains)
  let index ← Call.require .parachainNotOnboarded (parachains.idxOf? id)
  Call.require (.parachainCoreIndexCreation "out of range integral type conversion attempted")
    (if index < 2 ^ 32 then some index else none)

/-- The closure of `force_enact_collations` up to the candidate's entry in `PendingAvailability`. -/
def insertCandidate (parent : Hash) (parentNumber : ℕ) (pvd : PersistedValidationData) (id : Id)
    (c : Collation) (generationParent : Header) : Call RelayStorage (Error ε) Unit := do
  Call.modify fun s ↦ { s with
    pendingAvailabilityCommitments :=
      Function.update s.pendingAvailabilityCommitments id (some (commitmentsOf c)) }
  let codeHash ← validationCodeHash H parent id
  let ccr := candidateReceipt P parent pvd id c codeHash
  let core ← coreIndex id
  let cpa : CandidatePendingAvailability :=
    { core := core, hash := 0, descriptor := ccr.descriptor, availabilityVotes := [],
      backers := [], relayParentNumber := parentNumber, backedInNumber := generationParent.number,
      backingGroup := 0 }
  let cpa ← Call.query (fun _ ↦ H.decodeCandidate cpa) .candidatePendingAvailabilityDecoding
  Call.modify fun s ↦ { s with
    pendingAvailability := Function.update s.pendingAvailability id (some cpa) }

/-- The lookup that force-enacts the candidate. -/
def forceEnact (id : Id) : Call RelayStorage (Error ε) Unit := fun s ↦
  match P.includedValidationData id s with
  | (some _, s') => (.ok (), s')
  | (none, s') => (.err .persistedValidationDataNotFound, s')

/-- The closure of `force_enact_collations`. -/
def enact (parent : Hash) (parentNumber : ℕ) (pvd : PersistedValidationData) (id : Id)
    (c : Collation) (generationParent : Header) : Call RelayStorage (Error ε) Unit := do
  insertCandidate P H parent parentNumber pvd id c generationParent
  forceEnact P id

/-- The closure as `with_mut_state` runs it. The flag is history: it says whether the closure got as
far as the force-enactment. -/
def recordedEnact (parent : Hash) (parentNumber : ℕ) (pvd : PersistedValidationData) (id : Id)
    (c : Collation) (generationParent : Header) (s : RelayStorage) :
    (Bool × Outcome (Error ε) Unit) × RelayStorage :=
  let enacted := enact P H parent parentNumber pvd id c generationParent s
  let reached := insertCandidate (ε := ε) P H parent parentNumber pvd id c generationParent s
  ((reached.1.isOk, enacted.1), enacted.2)

end RelayStorage

end Fudge
