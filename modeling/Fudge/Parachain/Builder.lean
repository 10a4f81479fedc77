import Fudge.Core.Builder

/-!
# The parachain builder and its collator

`ParachainBuilder` builds parachain blocks and imports those the relay chain approved. Between the
two lie the slots of a `BlockStorage`, shared with the `FudgeCollator` that the relay chain builder
polls and judges:

```text
build_block ─▶ next_block ──(approve)─▶ next_import ─▶ import_block ─▶ imports
                   │
                   └──(reject)─▶ dropped
```

Every arrow overwrites its target without looking at it. The definitions follow
`builder/parachain.rs`.

The collator shares the builder's client, backend and block storage behind `Arc`s, so its methods
are calls on the builder it was made from. The block data of a collation is the SCALE encoding of
the block and its proof; SCALE is injective, and the model keeps the value that is encoded.
-/

namespace Fudge

/-- A parachain id. -/
abbrev Id := ℕ

/-- The encoded head of a parachain. -/
abbrev HeadData := Bytes

/-- A parachain's code. -/
abbrev ValidationCode := Bytes

structure PersistedValidationData where
  parentHead : HeadData
  relayParentNumber : ℕ
  relayParentStorageRoot : Hash
  maxPovSize : ℕ
deriving DecidableEq, Repr

/-- `ParachainBlockData`, the value behind the bytes of a proof of validity. -/
structure ParachainBlockData where
  header : Header
  extrinsics : List Extrinsic
  compactProof : StorageProof
deriving DecidableEq, Repr

/-- `CollationInfoV1`, which does not carry the head. -/
structure CollationInfoV1 where
  upwardMessages : List Bytes
  horizontalMessages : List (Id × Bytes)
  newValidationCode : Option ValidationCode
  processedDownwardMessages : ℕ
  hrmpWatermark : ℕ
deriving DecidableEq, Repr

structure CollationInfo extends CollationInfoV1 where
  headData : HeadData
deriving DecidableEq, Repr

/-- `CollationInfoV1::into_latest`. -/
def CollationInfoV1.intoLatest (info : CollationInfoV1) (head : HeadData) : CollationInfo :=
  { info with headData := head }

structure Collation where
  upwardMessages : List Bytes
  newValidationCode : Option ValidationCode
  processedDownwardMessages : ℕ
  horizontalMessages : List (Id × Bytes)
  hrmpWatermark : ℕ
  headData : HeadData
  proofOfValidity : ParachainBlockData
deriving DecidableEq, Repr

inductive CollationJudgement where
  | approved
  | rejected
deriving DecidableEq, Repr

/-- `BlockStorage`: one built block and one approved block. -/
structure BlockStorage where
  nextBlock : Option (Block × StorageProof) := none
  nextImport : Option (Block × StorageProof) := none
deriving DecidableEq, Repr

structure ParachainBuilder (T : Type) where
  id : Id
  builder : Builder T
  blockStorage : BlockStorage := {}
  imports : List (Block × StorageProof) := []

structure FudgeParaBuild where
  parentHead : HeadData
  block : Block
  code : ValidationCode
deriving DecidableEq, Repr

/-- The answers of the node libraries during one call of a parachain builder or its collator. -/
structure ParaHost (T : Type) extends Host T where
  /-- `block_storage.lock()`: a poisoned lock is an error. -/
  lock : Except InnerError Unit
  /-- `proof.into_compact_proof(state_root)`. -/
  intoCompactProof : StorageProof → Hash → Except InnerError StorageProof
  /-- `runtime_api.api_version::<CollectCollationInfo>(hash)`. -/
  apiVersion : Chain T → Hash → Except InnerError (Option ℕ)
  /-- `runtime_api.collect_collation_info_before_version_2(hash)`. -/
  collectCollationInfoBeforeVersion2 : Chain T → Hash → Except InnerError CollationInfoV1
  /-- `runtime_api.collect_collation_info(hash, header)`. -/
  collectCollationInfo : Chain T → Hash → Header → Except InnerError CollationInfo
  /-- The bound of the upward messages of a candidate. -/
  maxUpwardMessages : ℕ
  /-- The bound of the horizontal messages of a candidate. -/
  maxHorizontalMessages : ℕ

/-- Successful answers mean what the node libraries document; the runtime puts the encoded header of
the block into the collation info. -/
structure ParaHost.Lawful {T : Type} (P : Primitives T) (H : ParaHost T) : Prop where
  host : H.toHost.Lawful P
  collectCollationInfo : ∀ {c h hd info}, H.collectCollationInfo c h hd = .ok info →
    info.headData = P.encode hd

namespace ParachainBuilder

/-- `parachain::Error`. The error that `create_collation` wraps around a failed lookup of the
collation info is `collationInfo`. -/
inductive Error where
  | coreBuilder (e : Builder.Error)
  | apiVersionRetrieval (id : BlockId) (e : InnerError)
  | apiVersionNotFound (id : BlockId)
  | collationInfoCollectionBeforeV2 (id : BlockId) (e : InnerError)
  | collationInfoCollection (id : BlockId) (e : InnerError)
  | collationInfo (id : BlockId) (e : Error)
  | collationInfoNotFound (id : BlockId)
  | inherentDataProvidersCreation (e : InnerError)
  | inherentDataCreation (e : InnerError)
  | digestCreation (e : InnerError)
  | nextBlockLockPoisoned (e : InnerError)
  | nextBlockNotFound
  | nextImportLockPoisoned (e : InnerError)
  | headDataDecoding (e : InnerError)
  | compactProofCreation (e : InnerError)
  | upwardMessagingCasting
  | horizontalMessagingCasting
deriving DecidableEq, Repr

/-- What a collator's methods return: a boxed error, of its own or of something it called. -/
inductive CollatorError where
  | boxed (e : InnerError)
  | parachain (e : Error)
deriving DecidableEq, Repr

variable {T R : Type} (P : Primitives T) (H : ParaHost T)

/-- A call of the core builder, with its error wrapped. -/
def core (c : Call (Builder T) Builder.Error R) : Call (ParachainBuilder T) Error R :=
  Call.mapErr .coreBuilder (Call.zoom (·.builder) (fun b p ↦ { p with builder := b }) c)

/-- `storage.set_next_block(block)`. -/
def setNextBlock (block : Option (Block × StorageProof)) (p : ParachainBuilder T) :
    ParachainBuilder T :=
  { p with blockStorage := { p.blockStorage with nextBlock := block } }

/-- `storage.set_next_import(import)`. -/
def setNextImport (block : Option (Block × StorageProof)) (p : ParachainBuilder T) :
    ParachainBuilder T :=
  { p with blockStorage := { p.blockStorage with nextImport := block } }

/-! ## State access -/

def withState (exec : T → R × T) : Call (ParachainBuilder T) Error R :=
  core (Builder.withState P H.toHost .dryRun none exec)

def withStateAt (at_ : BlockId) (exec : T → R × T) : Call (ParachainBuilder T) Error R :=
  core (Builder.withState P H.toHost .dryRun (some at_) exec)

def withMutState (exec : T → R × T) : Call (ParachainBuilder T) Error R :=
  core (Builder.withState P H.toHost .commit none exec)

def appendExtrinsic (xt : Extrinsic) : Call (ParachainBuilder T) Error Hash :=
  core (Builder.appendExtrinsic H.toHost xt)

/-- `append_extrinsics`: nothing is submitted after a failure. -/
def appendExtrinsics : List Extrinsic → Call (ParachainBuilder T) Error (List Hash)
  | [] => pure []
  | xt :: xts => do
    let h ← appendExtrinsic H xt
    let hs ← appendExtrinsics xts
    pure (h :: hs)

def appendTransition (aux : StoragePair) : Call (ParachainBuilder T) Error Unit :=
  core (Builder.appendTransition aux)

def head : Call (ParachainBuilder T) Error HeadData := do
  let header ← core (Builder.latestHeader H.toHost)
  pure (P.encode header)

def code : Call (ParachainBuilder T) Error ValidationCode := core (Builder.latestCode P H.toHost)

/-! ## Building and importing -/

/-- The proposal of `build_block`: inherents, digest and the block itself. -/
def proposeBlock : Call (ParachainBuilder T) Error Proposal :=
  Call.zoom (·.builder) (fun b p ↦ { p with builder := b })
    (Builder.proposeBlock P H.toHost .coreBuilder .inherentDataProvidersCreation
      .inherentDataCreation .digestCreation)

/-- The end of `build_block`: the block goes into the next-block slot. -/
def storeBlock (proposal : Proposal) : Call (ParachainBuilder T) Error Unit := do
  Call.query (fun _ ↦ H.lock) .nextBlockLockPoisoned
  Call.modify (setNextBlock (some (proposal.block, proposal.proof)))

/-- `build_block`: the block is imported without finalizing, for the collation info, and put into
the next-block slot. -/
def buildBlock : Call (ParachainBuilder T) Error Unit := do
  let proposal ← proposeBlock P H
  core (Builder.importBlock H.toHost
    { origin := .own, header := proposal.block.header, body := some proposal.block.extrinsics,
      forkChoice := some (.custom false) })
  storeBlock H proposal

/-- The import of an approved block: final, best, and over the block `build_block` left. -/
def importApproved (next : Block × StorageProof) : Call (ParachainBuilder T) Error Unit := do
  core (Builder.importBlock H.toHost
    { origin := .networkInitialSync, header := next.1.header, body := some next.1.extrinsics,
      finalized := true, importExisting := true, forkChoice := some (.custom true) })
  Call.modify fun p ↦ { p with imports := p.imports ++ [next] }
  Call.modify (setNextImport none)

/-- `import_block`: without an approved block there is nothing to do. -/
def importBlock : Call (ParachainBuilder T) Error Unit := do
  Call.query (fun _ ↦ H.lock) .nextImportLockPoisoned
  let nextImport ← Call.read (·.blockStorage.nextImport)
  match nextImport with
  | some next => importApproved H next
  | none => pure ()

def nextBuild : Call (ParachainBuilder T) Error (Option FudgeParaBuild) := do
  Call.query (fun _ ↦ H.lock) .nextBlockLockPoisoned
  let nextBlock ← Call.read (·.blockStorage.nextBlock)
  let latest ← core (Builder.latestHeader H.toHost)
  let code ← code P H
  pure (nextBlock.map fun b ↦ ⟨P.encode latest, b.1, code⟩)

/-! ## The collator -/

def fetchCollationInfo (h : Hash) (header : Header) :
    Call (ParachainBuilder T) Error (Option CollationInfo) := do
  let version ← Call.query (fun p ↦ H.apiVersion p.builder.chain h) (.apiVersionRetrieval (.hash h))
  let version ← Call.require (.apiVersionNotFound (.hash h)) version
  if version < 2 then do
    let info ← Call.query (fun p ↦ H.collectCollationInfoBeforeVersion2 p.builder.chain h)
      (.collationInfoCollectionBeforeV2 (.hash h))
    pure (some (info.intoLatest (P.encode header)))
  else do
    let info ← Call.query (fun p ↦ H.collectCollationInfo p.builder.chain h header)
      (.collationInfoCollection (.hash h))
    pure (some info)

/-- The collation of a built block, from the head the relay chain has on record. -/
def collate (pvd : PersistedValidationData) (next : Block × StorageProof) :
    Call (ParachainBuilder T) Error Collation := do
  let lastHead ← Call.query (fun _ ↦ P.decode pvd.parentHead) .headDataDecoding
  let compactProof ← Call.query (fun _ ↦ H.intoCompactProof next.2 lastHead.stateRoot)
    .compactProofCreation
  let b : ParachainBlockData := ⟨next.1.header, next.1.extrinsics, compactProof⟩
  let h := P.hash b.header
  let info ← Call.mapErr (.collationInfo (.hash h)) (fetchCollationInfo P H h b.header)
  let info ← Call.require (.collationInfoNotFound (.hash h)) info
  let upwardMessages ← Call.require .upwardMessagingCasting
    (if info.upwardMessages.length ≤ H.maxUpwardMessages then some info.upwardMessages else none)
  let horizontalMessages ← Call.require .horizontalMessagingCasting
    (if info.horizontalMessages.length ≤ H.maxHorizontalMessages then some info.horizontalMessages
     else none)
  pure
    { upwardMessages := upwardMessages
      newValidationCode := info.newValidationCode
      processedDownwardMessages := info.processedDownwardMessages
      horizontalMessages := horizontalMessages
      hrmpWatermark := info.hrmpWatermark
      headData := info.headData
      proofOfValidity := b }

/-- `create_collation`: a collation of the block in the next-block slot, if there is one. -/
def createCollation (pvd : PersistedValidationData) :
    Call (ParachainBuilder T) CollatorError (Option Collation) := do
  Call.query (fun _ ↦ H.lock) .boxed
  let nextBlock ← Call.read (·.blockStorage.nextBlock)
  match nextBlock with
  | some next => do
    let collation ← Call.mapErr .parachain (collate P H pvd next)
    pure (some collation)
  | none => pure none

def collation (pvd : PersistedValidationData) :
    Call (ParachainBuilder T) CollatorError (Option Collation) := do
  let _ ← Call.query (fun p ↦ H.stateAt p.builder.chain p.builder.chain.bestHash) .boxed
  createCollation P H pvd

/-- `approve`: whatever is in the next-block slot moves to the next-import slot. -/
def approve : Call (ParachainBuilder T) CollatorError Unit := do
  Call.query (fun _ ↦ H.lock) fun e ↦ .parachain (.nextBlockLockPoisoned e)
  let nextBlock ← Call.read (·.blockStorage.nextBlock)
  let build ← Call.require (.parachain .nextBlockNotFound) nextBlock
  Call.modify (setNextBlock none)
  Call.modify (setNextImport (some build))

/-- `reject`: the next-block slot is emptied. -/
def reject : Call (ParachainBuilder T) CollatorError Unit := do
  Call.query (fun _ ↦ H.lock) fun e ↦ .parachain (.nextBlockLockPoisoned e)
  Call.modify (setNextBlock none)

def judge : CollationJudgement → Call (ParachainBuilder T) CollatorError Unit
  | .approved => approve H
  | .rejected => reject H

end ParachainBuilder

end Fudge
