import Fudge.Call.Rules
import Fudge.Core.Chain

/-!
# The core builder

`Builder` wraps a client, its backend and a transaction pool; the stand-alone, relay chain and
parachain builders are built on it. The definitions follow `builder/core.rs` and
`provider/externalities.rs` step by step: each fallible answer of the host is one `query`, in the
order of the source, with the error it is mapped to.

The one operation with weight is `withState .commit`. It reads the state of the target block,
reverts the best block of the backend if it is finalized, runs the closure, and imports the target
block again under a header with the new storage root. The revert is written at once; everything
else is buffered in a `BlockImportOperation` until the commit.
-/

namespace Fudge

/-- `core::Builder`. The executor, the task manager and the phantom types carry no data. -/
structure Builder (S : Type) where
  chain : Chain S
  pool : Pool := {}
  cache : List StoragePair := []

/-- What a public call of a builder returns: nothing, the value of its closure, or what it made. -/
inductive Reply (A : Type) where
  | done
  | closure (a : A)
  | block (block : Block)
  | hash (hash : Hash)
  | hashes (hashes : List Hash)
deriving DecidableEq, Repr

namespace Builder

inductive ExternalitiesError where
  | storageTransactionCommit
  | storageChangesDraining (e : InnerError)
deriving DecidableEq, Repr

/-- `core::Error`. -/
inductive Error where
  | latestHeaderRetrieval (e : InnerError)
  | latestHeaderNotFound
  | headerRetrieval (id : BlockId) (e : InnerError)
  | headerNotFound (id : BlockId)
  | latestCodeNotFound
  | stateRetrieval (id : BlockId) (e : InnerError)
  | blockIndexedBodyRetrieval (id : BlockId) (e : InnerError)
  | justificationsRetrieval (id : BlockId) (e : InnerError)
  | backendOperationStart (id : BlockId) (e : InnerError)
  | backendStateOperationStart (id : BlockId) (e : InnerError)
  | backendOperationReversal (e : InnerError)
  | backendOperationCommit (id : BlockId) (e : InnerError)
  | stateNotAvailable (id : BlockId) (e : InnerError)
  | blockHashRetrieval (id : BlockId) (e : InnerError)
  | blockHashNotFound (id : BlockId)
  | blockNumberRetrieval (id : BlockId) (e : InnerError)
  | blockNumberNotFound (id : BlockId)
  | externalitiesExecution (id : Option BlockId) (e : ExternalitiesError)
  | storageUpdate (id : Option BlockId) (e : InnerError)
  | dbStorageUpdate (id : Option BlockId) (e : InnerError)
  | transactionIndexUpdate (id : Option BlockId) (e : InnerError)
  | blockDataSet (id : Option BlockId) (e : InnerError)
  | extrinsicSubmission (e : InnerError)
  | factoryInitialization (e : InnerError)
  | blockProposal (e : InnerError)
  | blockImporting (e : InnerError)
  | runtimeVersionRetrieval (e : InnerError)
deriving DecidableEq, Repr

/-- `core::Operation`. -/
inductive Operation where
  | commit
  | dryRun
deriving DecidableEq, Repr

variable {S R : Type} (P : Primitives S) (H : Host S)

def ask {δ α : Type} (q : Chain S → Except δ α) (mk : δ → Error) : Call (Builder S) Error α :=
  Call.query (fun b ↦ q b.chain) mk

/-! ## Reading -/

def latestBlock : Call (Builder S) Error Hash := Call.read (·.chain.bestHash)

def latestHeader : Call (Builder S) Error Header := do
  let h ← latestBlock
  let hd ← ask (H.header · h) .latestHeaderRetrieval
  Call.require .latestHeaderNotFound hd

/-- `get_block_hash`: a hash is taken as it is, only a number is looked up. -/
def getBlockHash : BlockId → Call (Builder S) Error Hash
  | .hash h => pure h
  | .number n => do
    let h ← ask (H.hash · n) (.blockHashRetrieval (.number n))
    Call.require (.blockHashNotFound (.number n)) h

def getBlockHeader (at_ : BlockId) : Call (Builder S) Error Header := do
  let h ← getBlockHash H at_
  let hd ← ask (H.header · h) (.headerRetrieval at_)
  Call.require (.headerNotFound at_) hd

/-- The block a `with_state` is aimed at: the given one, or the best one. -/
def targetHash : Option BlockId → Call (Builder S) Error Hash
  | some id => getBlockHash H id
  | none => latestBlock

/-- The opening of `with_state`: the hash of the target block and its state. -/
def openState (at_ : Option BlockId) : Call (Builder S) Error (Hash × S) := do
  let h ← targetHash H at_
  let s ← ask (H.stateAt · h) (.stateNotAvailable (.hash h))
  pure (h, s)

/-- `with_state(Operation::DryRun, at, exec)`: what the closure writes is dropped. -/
def dryRun (at_ : Option BlockId) (exec : S → R × S) : Call (Builder S) Error R := do
  let (_, s) ← openState H at_
  pure (exec s).1

def latestCode : Call (Builder S) Error Bytes := do
  let code ← dryRun H none fun s ↦ (P.code s, s)
  Call.require .latestCodeNotFound code

/-- `state_version`: the version declared by the code of the block that is best *now*. -/
def stateVersion : Call (Builder S) Error StateVersion := do
  let code ← latestCode P H
  ask (fun _ ↦ H.runtimeVersion code) .runtimeVersionRetrieval

/-! ## Mutating -/

/-- `ExternalitiesProvider::execute_with_mut`. -/
def executeWithMut (id : Option BlockId) (exec : S → R × S) (version : StateVersion) (s : S) :
    Call (Builder S) Error (R × StorageChanges S) := do
  let (r, post) := exec s
  ask (fun _ ↦ H.storageCommitTransaction post)
    fun _ ↦ .externalitiesExecution id .storageTransactionCommit
  ask (fun _ ↦ H.drainStorageChanges post)
    fun e ↦ .externalitiesExecution id (.storageChangesDraining e)
  pure (r, ⟨post, P.storageRoot version post⟩)

def checkBestHashAndRevert (n : ℕ) : Call (Builder S) Error Unit := fun b ↦
  if b.chain.bestHash = b.chain.finalizedHash then
    match H.revert b.chain n with
    | .ok c => (.ok (), { b with chain := c })
    | .error e => (.err (.backendOperationReversal e), b)
  else (.ok (), b)

/-- The three storage updates that both mutation paths make on the operation. -/
def updateOperation (id : Option BlockId) (op : BlockImportOperation S)
    (changes : StorageChanges S) : Call (Builder S) Error (BlockImportOperation S) := do
  ask (fun _ ↦ H.updateDbStorage changes.post) (.dbStorageUpdate id)
  ask (fun _ ↦ H.updateStorage changes.post) (.storageUpdate id)
  ask (fun _ ↦ H.updateTransactionIndex changes.post) (.transactionIndexUpdate id)
  pure { op with dbStorage := some changes.post, storage := some changes.post }

/-- `op.set_block_data(.., NewBlockState::Final)`. -/
def setBlockData (id : Option BlockId) (op : BlockImportOperation S) (block : PendingBlock) :
    Call (Builder S) Error (BlockImportOperation S) := do
  ask (fun _ ↦ H.setBlockData block) (.blockDataSet id)
  pure { op with block := some block }

/-- `mutate_genesis`: the header is made anew, not taken from the chain. -/
def mutateGenesis (op : BlockImportOperation S) (s : S) (exec : S → R × S) :
    Call (Builder S) Error (R × BlockImportOperation S) := do
  let version ← stateVersion P H
  let (r, changes) ← executeWithMut P H (some (.number 0)) exec version s
  let op ← updateOperation H none op changes
  let version ← stateVersion P H
  let header : Header :=
    { parentHash := 0, number := 0, stateRoot := changes.root,
      extrinsicsRoot := P.emptyTrieRoot version, digest := [] }
  let op ← setBlockData H none op ⟨header, ⟨some [], none, none⟩⟩
  pure (r, op)

/-- `mutate_normal`: the block at `at` again, under a header with the new storage root. -/
def mutateNormal (op : BlockImportOperation S) (changes : StorageChanges S) (at_ : BlockId) :
    Call (Builder S) Error (BlockImportOperation S) := do
  let header ← getBlockHeader H at_
  let h := P.hash header
  let op ← updateOperation H (some at_) op changes
  let body ← ask (H.body · h) (.stateRetrieval at_)
  let indexedBody ← ask (H.blockIndexedBody · h) (.blockIndexedBodyRetrieval at_)
  let justifications ← ask (H.justifications · h) (.justificationsRetrieval at_)
  setBlockData H (some at_) op
    ⟨{ header with stateRoot := changes.root }, ⟨body, indexedBody, justifications⟩⟩

/-- `backend.commit_operation(op)`. -/
def commitOperation (h : Hash) (op : BlockImportOperation S) : Call (Builder S) Error Unit :=
  fun b ↦ match H.commitOperation b.chain op with
    | .ok c => (.ok (), { b with chain := c })
    | .error e => (.err (.backendOperationCommit (.hash h) e), b)

/-- `backend.commit_operation(op)`, with the block named in the error as the caller named it. -/
def commitOperationAt (at_ : BlockId) (op : BlockImportOperation S) :
    Call (Builder S) Error Unit :=
  fun b ↦ match H.commitOperation b.chain op with
    | .ok c => (.ok (), { b with chain := c })
    | .error e => (.err (.backendOperationCommit at_ e), b)

/-- The normal path of a committing `with_state`, after the revert. -/
def rebuild (h : Hash) (s : S) (op : BlockImportOperation S) (exec : S → R × S) :
    Call (Builder S) Error (R × BlockImportOperation S) := do
  let version ← stateVersion P H
  let (r, changes) ← executeWithMut P H (some (.hash h)) exec version s
  let op ← mutateNormal P H op changes (.hash h)
  pure (r, op)

/-- The mutation of a committing `with_state`. On the normal path the best block is un-finalized
first, and stays so if anything after it fails. -/
def mutate (number : ℕ) (h : Hash) (s : S) (op : BlockImportOperation S) (exec : S → R × S) :
    Call (Builder S) Error (R × BlockImportOperation S) :=
  if number = 0 then mutateGenesis P H op s exec
  else do
    checkBestHashAndRevert H 1
    rebuild P H h s op exec

/-- The opening of a committing `with_state`: the target block, its state and its number, with a
backend operation begun on it. -/
def beginCommit (at_ : Option BlockId) : Call (Builder S) Error (Hash × S × ℕ) := do
  let (h, s) ← openState H at_
  ask (H.beginOperation ·) (.backendOperationStart (.hash h))
  ask (H.beginStateOperation · h) (.backendStateOperationStart (.hash h))
  let number ← ask (H.blockNumberFromId · h) (.blockNumberRetrieval (.hash h))
  let number ← Call.require (.blockNumberNotFound (.hash h)) number
  pure (h, s, number)

/-- `with_state(Operation::Commit, at, exec)`. -/
def commit (at_ : Option BlockId) (exec : S → R × S) : Call (Builder S) Error R := do
  let (h, s, number) ← beginCommit H at_
  let (r, op) ← mutate P H number h s { oldState := some h } exec
  commitOperation H h op
  pure r

/-- `commit_storage_changes`: changes made elsewhere are put on the block at `at_`. The number of
that block is also the number of blocks that are reverted before. -/
def commitStorageChanges (changes : StorageChanges S) (at_ : BlockId) :
    Call (Builder S) Error Unit := do
  ask (H.beginOperation ·) (.backendOperationStart at_)
  let header ← getBlockHeader H at_
  ask (H.beginStateOperation · (P.hash header)) (.backendStateOperationStart at_)
  checkBestHashAndRevert H header.number
  let op ← mutateNormal P H { oldState := some (P.hash header) } changes at_
  commitOperationAt H at_ op

def withState (op : Operation) (at_ : Option BlockId) (exec : S → R × S) :
    Call (Builder S) Error R :=
  match op with
  | .commit => commit P H at_ exec
  | .dryRun => dryRun H at_ exec

/-! ## Extrinsics, blocks and imports -/

def appendTransition (pair : StoragePair) : Call (Builder S) Error Unit :=
  Call.modify fun b ↦ { b with cache := b.cache ++ [pair] }

def appendExtrinsic (xt : Extrinsic) : Call (Builder S) Error Hash := do
  let h ← ask (H.submitOne · xt) .extrinsicSubmission
  Call.modify fun b ↦ { b with pool := { b.pool with ready := b.pool.ready ++ [xt] } }
  pure h

def buildBlock (inherents : InherentData) (digest : Digest) :
    Call (Builder S) Error Proposal := do
  let h ← latestBlock
  let header ← getBlockHeader H (.hash h)
  ask (fun _ ↦ H.initProposer header) .factoryInitialization
  Call.query (fun b ↦ H.propose b.chain b.pool header inherents digest) .blockProposal

/-- The inherents, the digest and the block that the `build_block` of the stand-alone, relay chain
and parachain builders ask for, in this order. The three differ in the errors the answers are
mapped to. -/
def proposeBlock {ε : Type} (coreBuilder : Error → ε)
    (inherentDataProvidersCreation inherentDataCreation digestCreation : InnerError → ε) :
    Call (Builder S) ε Proposal := do
  let latest ← Call.mapErr coreBuilder latestBlock
  let provider ← Call.mapErr coreBuilder (withState P H .dryRun none fun s ↦
    (H.createInherentDataProviders latest s, s))
  let provider ← Call.query (fun _ ↦ provider) inherentDataProvidersCreation
  let inherents ← Call.query (fun _ ↦ provider) inherentDataCreation
  let parent ← Call.mapErr coreBuilder (latestHeader H)
  let digest ← Call.mapErr coreBuilder (withState P H .dryRun none fun s ↦
    (H.createDigest parent inherents s, s))
  let digest ← Call.query (fun _ ↦ digest) digestCreation
  Call.mapErr coreBuilder (buildBlock H inherents digest)

/-- `client.import_block(params)`. -/
def clientImport (params : BlockImportParams) : Call (Builder S) Error ImportResult := fun b ↦
  match H.importBlock b.chain params with
  | (.ok r, c) => (.ok r, { b with chain := c })
  | (.error e, c) => (.err (.blockImporting e), { b with chain := c })

/-- `pool.maintain(event)`. -/
def maintain (event : ChainEvent) : Call (Builder S) Error Unit :=
  Call.modify fun b ↦ { b with pool := { b.pool with events := b.pool.events ++ [event] } }

/-- The pool maintenance of `import_block`. Both events name the block that is best afterwards. -/
def maintainPool (prevHash : Hash) (result : ImportResult) : Call (Builder S) Error Unit :=
  if result = .imported then do
    let bestHash ← latestBlock
    maintain (.newBestBlock bestHash)
    maintain (.finalized bestHash [prevHash])
  else pure ()

/-- `import_block`: any verdict of the client but an error is `Ok`; only the maintenance of the
pool depends on it. -/
def importBlock (params : BlockImportParams) : Call (Builder S) Error Unit := do
  let prevHash ← latestBlock
  let result ← clientImport H params
  maintainPool prevHash result

end Builder

end Fudge
