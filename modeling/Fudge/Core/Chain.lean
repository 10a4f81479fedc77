import Mathlib.Data.List.Basic
import Mathlib.Logic.Function.Basic

/-!
# Chains, and the node libraries that keep them

FUDGE drives a Substrate client and its database; neither is part of the repository. What the
repository relies on is split into three pieces.

* `Chain` is the data a database holds: headers, states and block contents by hash, the canonical
  hash of each number, and the best and finalized block. `client.info()` is a projection of it.
* `Primitives` are the fixed functions of a chain: header hashing and encoding, the storage root,
  the runtime's state transition.
* `Host` is everything that may answer differently from one call to the next, and fail: backend and
  client operations, runtime APIs, the proposer, the inherent and digest providers. One builder call
  is made against one `Host`, so a run in which any of them fails at any point is a run with
  suitable hosts.

## Success is constrained, failure is free

`Host.Lawful` says what a *successful* answer means and never that an answer succeeds. A backend
operation that fails hands back no chain: `commit_operation` is atomic, which is what lets `Host`
give it the type `Except _ (Chain S)`.

A block's state is a value of an arbitrary type `S`, and a closure run inside externalities is a
function `S → R × S`: it reads the state, may write it, and returns something.
-/

namespace Fudge

/-- A block, state or code hash. -/
abbrev Hash := ℕ

/-- SCALE-encoded data. -/
abbrev Bytes := List UInt8

/-- `Box<dyn std::error::Error>`, as its text. -/
abbrev InnerError := String

/-- An encoded extrinsic. -/
abbrev Extrinsic := Bytes

/-- A header digest, as its encoded items. -/
abbrev Digest := List Bytes

/-- A storage proof, as its trie nodes. -/
abbrev StorageProof := List Bytes

/-- Inherent data by identifier. -/
abbrev InherentData := List (Bytes × Bytes)

/-- `types::StoragePair`: an auxiliary key and value. -/
abbrev StoragePair := Bytes × Option Bytes

/-- `sp_storage::StateVersion`. -/
inductive StateVersion where
  | v0
  | v1
deriving DecidableEq, Repr

/-- `sp_runtime::generic::Header`. -/
structure Header where
  parentHash : Hash
  number : ℕ
  stateRoot : Hash
  extrinsicsRoot : Hash
  digest : Digest
deriving DecidableEq, Repr, Inhabited

/-- A block: `deconstruct` is the pair of its fields. -/
structure Block where
  header : Header
  extrinsics : List Extrinsic
deriving DecidableEq, Repr, Inhabited

/-- `sp_runtime::generic::BlockId`. -/
inductive BlockId where
  | hash (h : Hash)
  | number (n : ℕ)
deriving DecidableEq, Repr

/-- What the database keeps for a block beside its header and state. There are contents under a hash
if and only if the database looks the block up. -/
structure Contents where
  body : Option (List Extrinsic)
  indexedBody : Option (List Bytes)
  justifications : Option (List Bytes)
deriving DecidableEq, Repr

/-- The data a client's database holds. The best and finalized entries are `client.info()`. -/
structure Chain (S : Type) where
  headers : Hash → Option Header
  states : Hash → Option S
  contents : Hash → Option Contents
  canonical : ℕ → Option Hash
  bestHash : Hash
  bestNumber : ℕ
  finalizedHash : Hash
  finalizedNumber : ℕ

/-- `ForkChoiceStrategy`. -/
inductive ForkChoice where
  | longestChain
  | custom (isBest : Bool)
deriving DecidableEq, Repr

/-- `BlockOrigin`, as far as the builders use it. -/
inductive BlockOrigin where
  | own
  | networkInitialSync
deriving DecidableEq, Repr

/-- `BlockImportParams`; the fields keep the defaults of `BlockImportParams::new`. -/
structure BlockImportParams where
  origin : BlockOrigin
  header : Header
  body : Option (List Extrinsic) := none
  finalized : Bool := false
  importExisting : Bool := false
  forkChoice : Option ForkChoice := none
deriving DecidableEq, Repr

inductive ImportResult where
  | imported
  | alreadyInChain
  | knownBad
  | unknownParent
  | missingState
deriving DecidableEq, Repr

/-- A block handed to `set_block_data` with `NewBlockState::Final`, the only state FUDGE uses. -/
structure PendingBlock where
  header : Header
  contents : Contents
deriving DecidableEq, Repr

/-- A `BlockImportOperation`: changes buffered until `commit_operation`. -/
structure BlockImportOperation (S : Type) where
  oldState : Option Hash := none
  dbStorage : Option S := none
  storage : Option S := none
  block : Option PendingBlock := none

/-- `sp_state_machine::StorageChanges`: the state the drained changes lead to, and its root. -/
structure StorageChanges (S : Type) where
  post : S
  root : Hash

/-- `sp_consensus::Proposal`. -/
structure Proposal where
  block : Block
  proof : StorageProof
deriving DecidableEq, Repr

/-- `ChainEvent`, as the builders send it to the transaction pool. -/
inductive ChainEvent where
  | newBestBlock (hash : Hash)
  | finalized (hash : Hash) (treeRoute : List Hash)
deriving DecidableEq, Repr

/-- The transaction pool: what was submitted to it and what it was told. -/
structure Pool where
  ready : List Extrinsic := []
  events : List ChainEvent := []
deriving DecidableEq, Repr

/-! ## The fixed functions of a chain -/

/-- Header hashing and encoding, the storage root and the runtime of one chain. -/
structure Primitives (S : Type) where
  /-- `Header::hash`. -/
  hash : Header → Hash
  /-- `Header::encode`. -/
  encode : Header → Bytes
  /-- `Header::decode`. -/
  decode : Bytes → Except InnerError Header
  /-- The root `drain_storage_changes` computes for the resulting state. -/
  storageRoot : StateVersion → S → Hash
  /-- `Hashing::trie_root(Vec::new(), version)`. -/
  emptyTrieRoot : StateVersion → Hash
  /-- The value under the well-known key `:code`. -/
  code : S → Option Bytes
  /-- The state a block leads to when it is executed on the state of its parent. -/
  execute : S → Block → S

/-! ## The host of one call -/

/-- The answers of the node libraries during one call of a builder. -/
structure Host (S : Type) where
  /-- `backend.state_at(hash)`. -/
  stateAt : Chain S → Hash → Except InnerError S
  /-- `blockchain().hash(number)`. -/
  hash : Chain S → ℕ → Except InnerError (Option Hash)
  /-- `blockchain().header(hash)`. -/
  header : Chain S → Hash → Except InnerError (Option Header)
  /-- `blockchain().block_number_from_id(BlockId::Hash(hash))`. -/
  blockNumberFromId : Chain S → Hash → Except InnerError (Option ℕ)
  /-- `blockchain().body(hash)`. -/
  body : Chain S → Hash → Except InnerError (Option (List Extrinsic))
  /-- `blockchain().block_indexed_body(hash)`. -/
  blockIndexedBody : Chain S → Hash → Except InnerError (Option (List Bytes))
  /-- `blockchain().justifications(hash)`. -/
  justifications : Chain S → Hash → Except InnerError (Option (List Bytes))
  /-- `backend.begin_operation()`. -/
  beginOperation : Chain S → Except InnerError Unit
  /-- `backend.begin_state_operation(op, hash)`. -/
  beginStateOperation : Chain S → Hash → Except InnerError Unit
  /-- `op.update_db_storage(tx)`. -/
  updateDbStorage : S → Except InnerError Unit
  /-- `op.update_storage(main_sc, child_sc)`. -/
  updateStorage : S → Except InnerError Unit
  /-- `op.update_transaction_index(tx_index)`. -/
  updateTransactionIndex : S → Except InnerError Unit
  /-- `op.set_block_data(..)`. -/
  setBlockData : PendingBlock → Except InnerError Unit
  /-- `backend.commit_operation(op)`. -/
  commitOperation : Chain S → BlockImportOperation S → Except InnerError (Chain S)
  /-- `backend.revert(n, true)`. -/
  revert : Chain S → ℕ → Except InnerError (Chain S)
  /-- `client.import_block(params)`. -/
  importBlock : Chain S → BlockImportParams → Except InnerError ImportResult × Chain S
  /-- `RuntimeVersionOf::runtime_version(code)`, of which only the state version is used. -/
  runtimeVersion : Bytes → Except InnerError StateVersion
  /-- `ext.storage_commit_transaction()` after the closure ran. -/
  storageCommitTransaction : S → Except Unit Unit
  /-- `overlay.drain_storage_changes(..)`. -/
  drainStorageChanges : S → Except InnerError Unit
  /-- `pool.submit_one(best, source, xt)`. -/
  submitOne : Chain S → Extrinsic → Except InnerError Hash
  /-- `cidp.create_inherent_data_providers(latest, extra)` and what the provider then creates. -/
  createInherentDataProviders : Hash → S → Except InnerError (Except InnerError InherentData)
  /-- `dp.create_digest(parent, inherents)`. -/
  createDigest : Header → InherentData → S → Except InnerError Digest
  /-- `factory.init(&header)`. -/
  initProposer : Header → Except InnerError Unit
  /-- `proposer.propose(inherents, digest, ..)` of a proposer initialised with the header. -/
  propose : Chain S → Pool → Header → InherentData → Digest → Except InnerError Proposal

/-! ## What a successful answer means -/

namespace Chain

variable {S : Type}

/-- What `c` keeps for a hash, `c'` keeps too. -/
structure SameBlock (c c' : Chain S) (h : Hash) : Prop where
  headers : c'.headers h = c.headers h
  states : c'.states h = c.states h
  contents : c'.contents h = c.contents h

/-- `revert(1, true)` stepped best and finalized back to the parent of the best block. The best
block and what is on top of it lose their lookup entries; whether the header cache and the state
database still answer for them is left open. The blocks below stay. -/
structure Reverted (c c' : Chain S) : Prop where
  headers : ∀ h hd, c'.headers h = some hd → c.headers h = some hd
  states : ∀ h s, c'.states h = some s → c.states h = some s
  contents : ∀ h ct, c'.contents h = some ct → c.contents h = some ct
  contents_best : c'.contents c.bestHash = none
  below : ∀ h hd, c.headers h = some hd → hd.number < c.bestNumber → c.SameBlock c' h
  canonical : ∀ n, n < c.bestNumber → c'.canonical n = c.canonical n
  best : ∀ hd, c.headers c.bestHash = some hd → c'.bestHash = hd.parentHash
  bestNumber : c'.bestNumber = c.bestNumber - 1
  best_stored : ∃ hd, c'.headers c'.bestHash = some hd ∧ hd.number = c'.bestNumber
  finalized : c'.finalizedHash = c'.bestHash
  finalizedNumber : c'.finalizedNumber = c'.bestNumber

/-- `c'` has no other headers than `c`, and all that `c` has below its best block. -/
structure CutBack (c c' : Chain S) : Prop where
  headers : ∀ h hd, c'.headers h = some hd → c.headers h = some hd
  below : ∀ h hd, c.headers h = some hd → hd.number < c.bestNumber → c.SameBlock c' h
  canonical : ∀ n, n < c.bestNumber → c'.canonical n = c.canonical n

theorem CutBack.refl (c : Chain S) : c.CutBack c :=
  ⟨fun _ _ h ↦ h, fun _ _ _ _ ↦ ⟨rfl, rfl, rfl⟩, fun _ _ ↦ rfl⟩

theorem Reverted.cutBack {c c' : Chain S} (h : Reverted c c') : c.CutBack c' :=
  ⟨h.headers, h.below, h.canonical⟩

/-- The `n` topmost blocks were reverted, stopping at genesis. -/
inductive RevertedBy : ℕ → Chain S → Chain S → Prop where
  | zero (c : Chain S) : RevertedBy 0 c c
  | genesis {n : ℕ} {c : Chain S} (h : c.bestNumber = 0) : RevertedBy n c c
  | step {n : ℕ} {c d c' : Chain S} (h : c.bestNumber ≠ 0) (hd : Reverted c d)
      (hr : RevertedBy n d c') : RevertedBy (n + 1) c c'

theorem RevertedBy.headers {n : ℕ} {c c' : Chain S} (h : RevertedBy n c c') {k : Hash} {hd : Header}
    (hk : c'.headers k = some hd) : c.headers k = some hd := by
  induction h with
  | zero => exact hk
  | genesis => exact hk
  | step _ hone _ ih => exact hone.headers k hd (ih hk)

theorem RevertedBy.states {n : ℕ} {c c' : Chain S} (h : RevertedBy n c c') {k : Hash} {s : S}
    (hk : c'.states k = some s) : c.states k = some s := by
  induction h with
  | zero => exact hk
  | genesis => exact hk
  | step _ hone _ ih => exact hone.states k s (ih hk)

/-- The best block is the one that a revert of one block takes away, unless it is genesis. -/
theorem RevertedBy.reverted {c c' : Chain S} (h : RevertedBy 1 c c') (hn : c.bestNumber ≠ 0) :
    Reverted c c' := by
  cases h with
  | genesis h0 => exact absurd h0 hn
  | step _ hd hr =>
    cases hr with
    | zero => exact hd
    | genesis => exact hd

theorem RevertedBy.eq_of_genesis {n : ℕ} {c c' : Chain S} (h : RevertedBy n c c')
    (hn : c.bestNumber = 0) : c' = c := by
  cases h with
  | zero => rfl
  | genesis => rfl
  | step h0 => exact absurd hn h0

/-- A block was committed with `NewBlockState::Final` and the given state: it is best and
finalized, and the rest of the database is as it was, up to the numbers from this block on. -/
structure Committed (P : Primitives S) (c : Chain S) (b : PendingBlock) (s : S) (c' : Chain S) :
    Prop where
  headers : c'.headers = Function.update c.headers (P.hash b.header) (some b.header)
  states : c'.states = Function.update c.states (P.hash b.header) (some s)
  contents : c'.contents = Function.update c.contents (P.hash b.header) (some b.contents)
  canonical : ∀ n, n < b.header.number → c'.canonical n = c.canonical n
  canonical_self : c'.canonical b.header.number = some (P.hash b.header)
  best : c'.bestHash = P.hash b.header
  bestNumber : c'.bestNumber = b.header.number
  finalized : c'.finalizedHash = P.hash b.header
  finalizedNumber : c'.finalizedNumber = b.header.number

/-- The client reported `Imported` for a block: its parent is known, it is stored together with the
state its execution leads to, and it becomes best and finalized as the parameters ask. Numbers up to
the finalized one keep their canonical block. -/
structure Imported (P : Primitives S) (c : Chain S) (p : BlockImportParams) (c' : Chain S) :
    Prop where
  parent : ∃ hd, c.headers p.header.parentHash = some hd ∧ p.header.number = hd.number + 1
  headers : c'.headers = Function.update c.headers (P.hash p.header) (some p.header)
  states : ∃ s, c.states p.header.parentHash = some s ∧ c'.states =
    Function.update c.states (P.hash p.header)
      (some (P.execute s ⟨p.header, p.body.getD []⟩))
  contents : ∃ ct, ct.body = p.body ∧
    c'.contents = Function.update c.contents (P.hash p.header) (some ct)
  canonical : ∀ n, n ≤ c.finalizedNumber → c'.canonical n = c.canonical n
  canonical_sound : ∀ n k, n ≤ c'.bestNumber → c'.canonical n = some k →
    (n ≤ c.bestNumber ∧ c.canonical n = some k) ∨
      ∃ hd, c'.headers k = some hd ∧ hd.number = n ∧ P.hash hd = k
  best : p.forkChoice = some (.custom true) →
    c'.bestHash = P.hash p.header ∧ c'.bestNumber = p.header.number
  notBest : p.forkChoice = some (.custom false) →
    c'.bestHash = c.bestHash ∧ c'.bestNumber = c.bestNumber ∧ c'.canonical = c.canonical
  finalized : p.finalized = true →
    c'.finalizedHash = P.hash p.header ∧ c'.finalizedNumber = p.header.number
  notFinalized : p.finalized = false →
    c'.finalizedHash = c.finalizedHash ∧ c'.finalizedNumber = c.finalizedNumber

end Chain

/-- Successful answers mean what the node libraries document. -/
structure Host.Lawful {S : Type} (P : Primitives S) (H : Host S) : Prop where
  stateAt : ∀ {c h s}, H.stateAt c h = .ok s → c.states h = some s
  hash : ∀ {c n o}, H.hash c n = .ok o → o = c.canonical n
  header : ∀ {c h o}, H.header c h = .ok o → o = c.headers h
  blockNumberFromId : ∀ {c h o}, H.blockNumberFromId c h = .ok o → o = (c.headers h).map (·.number)
  body : ∀ {c h o}, H.body c h = .ok o → o = (c.contents h).bind (·.body)
  blockIndexedBody : ∀ {c h o}, H.blockIndexedBody c h = .ok o →
    o = (c.contents h).bind (·.indexedBody)
  justifications : ∀ {c h o}, H.justifications c h = .ok o →
    o = (c.contents h).bind (·.justifications)
  commitOperation : ∀ {c op b s c'}, op.block = some b → op.dbStorage = some s →
    H.commitOperation c op = .ok c' → Chain.Committed P c b s c'
  revert : ∀ {c n c'}, H.revert c n = .ok c' → Chain.RevertedBy n c c'
  importBlock : ∀ {c p c'}, H.importBlock c p = (.ok .imported, c') → Chain.Imported P c p c'
  importBlock_refused : ∀ {c p r c'}, H.importBlock c p = (r, c') → r ≠ .ok .imported → c' = c
  propose : ∀ {c pool hd i d p}, H.propose c pool hd i d = .ok p →
    p.block.header.parentHash = P.hash hd ∧ p.block.header.number = hd.number + 1

/-- The client has no other verdict on a block on the best one than that it is imported. -/
def Host.ReportsImported {S : Type} (H : Host S) : Prop :=
  ∀ {c p r c'}, p.header.parentHash = c.bestHash → H.importBlock c p = (.ok r, c') → r = .imported

end Fudge
