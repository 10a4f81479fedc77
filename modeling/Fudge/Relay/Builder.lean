import Fudge.Relay.Storage

/-!
# The relay chain builder

`RelaychainBuilder` builds and imports relay chain blocks. Every import enacts the collations that
the previous import collected, judges them, and collects new ones from all onboarded collators. The
definitions follow `builder/relay_chain.rs`.

## Collators

A collator is a trait object behind a shared reference: asking it for a collation or telling it a
verdict may change something outside the builder. `CollationBuilder κ W ε` is the trait, for
collators named by `κ` that share a world `W`; an import is a call on the builder and that world
together.

## History

`World` also keeps a log of what happened between the builder and its collators, and each entry of
the collation table remembers the collator that produced it and its own serial number. All of this
is history: it is written and never read by a definition of this file.
-/

namespace Fudge

/-- The trait `CollationBuilder`. -/
structure CollationBuilder (κ W ε : Type) where
  collation : κ → PersistedValidationData → Call W ε (Option Collation)
  judge : κ → CollationJudgement → Call W ε Unit

/-- An entry of the collation table. -/
structure CollationEntry where
  id : Id
  collation : Collation
  generationParent : Header
  /-- History: the place in `parachains` of the collator that returned the collation. -/
  producer : ℕ
  /-- History: how many collations had been collected before. -/
  ticket : ℕ
deriving DecidableEq, Repr

structure RelaychainBuilder (κ : Type) where
  builder : Builder RelayStorage
  next : Option (Block × StorageProof) := none
  imports : List (Block × StorageProof) := []
  parachains : List (Id × κ) := []
  collations : List CollationEntry := []

/-- What the builder and its collators did, in order. -/
inductive Event (κ W : Type) where
  /-- The collator at the place `reg` of `parachains` was asked for a collation, in `asked`. -/
  | polled (reg : ℕ) (id : Id) (reply : Option Collation) (asked : W)
  /-- A collation was put into the table. -/
  | collected (entry : CollationEntry)
  /-- A collation was force-enacted in a committed mutation, after which `head` is in `Heads`. -/
  | enacted (entry : CollationEntry) (head : Option HeadData)
  /-- The verdict on a collation was given to the collator at the place `reg`. -/
  | judged (reg : ℕ) (entry : CollationEntry) (ok : Bool) (before after : W)
  /-- A collator gave its block up, without being told so by the builder. -/
  | rejected (collator : κ)

/-- A relay chain builder among its collators. -/
structure World (κ W : Type) where
  relay : RelaychainBuilder κ
  collators : W
  /-- History. -/
  log : List (Event κ W) := []
  /-- History: how many collations were collected so far. -/
  tickets : ℕ := 0

namespace RelaychainBuilder

variable {κ W ε R α : Type} (P : RelayPrimitives) (H : RelayHost) (C : CollationBuilder κ W ε)

/-- A call of the core builder, with its error wrapped. -/
def core (c : Call (Builder RelayStorage) Builder.Error R) :
    Call (RelaychainBuilder κ) (Error ε) R :=
  Call.mapErr .coreBuilder (Call.zoom (·.builder) (fun b r ↦ { r with builder := b }) c)

/-! ## State access -/

def withState (exec : RelayStorage → R × RelayStorage) : Call (RelaychainBuilder κ) (Error ε) R :=
  core (Builder.withState P.toPrimitives H.toHost .dryRun none exec)

def withStateAt (at_ : BlockId) (exec : RelayStorage → R × RelayStorage) :
    Call (RelaychainBuilder κ) (Error ε) R :=
  core (Builder.withState P.toPrimitives H.toHost .dryRun (some at_) exec)

def withMutState (exec : RelayStorage → R × RelayStorage) :
    Call (RelaychainBuilder κ) (Error ε) R := do
  Call.assert (·.next.isNone)
  core (Builder.withState P.toPrimitives H.toHost .commit none exec)

def appendExtrinsic (xt : Extrinsic) : Call (RelaychainBuilder κ) (Error ε) Hash :=
  core (Builder.appendExtrinsic H.toHost xt)

/-- `append_extrinsics`: nothing is submitted after a failure. -/
def appendExtrinsics : List Extrinsic → Call (RelaychainBuilder κ) (Error ε) (List Hash)
  | [] => pure []
  | xt :: xts => do
    let h ← appendExtrinsic H xt
    let hs ← appendExtrinsics xts
    pure (h :: hs)

def appendTransition (aux : StoragePair) : Call (RelaychainBuilder κ) (Error ε) Unit :=
  core (Builder.appendTransition aux)

def updateParaHead (id : Id) (head : HeadData) : Call (RelaychainBuilder κ) (Error ε) Unit :=
  withMutState P H fun s ↦ ((), RelayStorage.insertHead id head s)

/-- `onboard_para`. An older registration of the id stays in the list. -/
def onboardPara (para : FudgeParaChain) (collator : κ) :
    Call (RelaychainBuilder κ) (Error ε) Unit := do
  withMutState P H fun s ↦ ((), RelayStorage.onboard P para s)
  Call.modify fun r ↦ { r with parachains := r.parachains ++ [(para.id, collator)] }

/-! ## Building and importing -/

/-- The proposal of `build_block`: inherents, digest and the block itself. -/
def proposeBlock : Call (RelaychainBuilder κ) (Error ε) Proposal :=
  Call.zoom (·.builder) (fun b r ↦ { r with builder := b })
    (Builder.proposeBlock P.toPrimitives H.toHost .coreBuilder .inherentDataProvidersCreation
      .inherentDataCreation .digestCreation)

def buildBlock : Call (RelaychainBuilder κ) (Error ε) Block := do
  Call.assert (·.next.isNone)
  let proposal ← proposeBlock P H
  Call.modify fun r ↦ { r with next := some (proposal.block, proposal.proof) }
  pure proposal.block

/-- The first half of `import_block`: the pending block is taken out of its slot, imported, and
added to the imports. -/
def importNext : Call (RelaychainBuilder κ) (Error ε) Header := do
  let next ← Call.read (·.next)
  Call.modify fun r ↦ { r with next := none }
  let (block, proof) ← Call.require .nextBlockNotFound next
  core (Builder.importBlock H.toHost
    { origin := .networkInitialSync, header := block.header, body := some block.extrinsics,
      finalized := true, forkChoice := some (.custom true) })
  Call.modify fun r ↦ { r with imports := r.imports ++ [(block, proof)] }
  pure block.header

/-- The validation data of a parachain, asked for inside `with_state`. -/
def persistedValidationData (parent : Hash) (id : Id) :
    Call (RelaychainBuilder κ) (Error ε) PersistedValidationData := do
  let chain ← Call.read (·.builder.chain)
  let pvd ← withState P H fun s ↦ (H.persistedValidationData chain parent id, s)
  let pvd ← Call.query (fun _ ↦ pvd) .persistedValidationDataRetrieval
  Call.require .persistedValidationDataNotFound pvd

/-- The collator a verdict goes to: the first one registered under the id, by its place. -/
def collatorFor (id : Id) : Call (RelaychainBuilder κ) (Error ε) (ℕ × κ) := do
  let parachains ← Call.read (·.parachains)
  let index ← Call.require .parachainNotOnboarded
    (parachains.findIdx? fun registration ↦ registration.1 == id)
  let registration ← Call.require .parachainNotFound parachains[index]?
  pure (index, registration.2)

end RelaychainBuilder

namespace World

open RelaychainBuilder (Error)

variable {κ W ε R α : Type} (P : RelayPrimitives) (H : RelayHost) (C : CollationBuilder κ W ε)

def relayCall (c : Call (RelaychainBuilder κ) (Error ε) α) : Call (World κ W) (Error ε) α :=
  Call.zoom (·.relay) (fun r w ↦ { w with relay := r }) c

def note (e : Event κ W) (w : World κ W) : World κ W := { w with log := w.log ++ [e] }

/-- The head of a parachain in the best state of the relay chain. -/
def head (id : Id) (w : World κ W) : Option HeadData :=
  (w.relay.builder.chain.states w.relay.builder.chain.bestHash).bind (·.heads id)

def noteEnacted (entry : CollationEntry) (reached : Bool) : Call (World κ W) (Error ε) Unit :=
  Call.modify fun w ↦ if reached then w.note (.enacted entry (w.head entry.id)) else w

/-- One collation is written and force-enacted. The mutation is committed even if its closure
returned an error. -/
def enactCollation (parent : Hash) (parentNumber : ℕ) (entry : CollationEntry) :
    Call (World κ W) (Error ε) Unit := do
  let pvd ← relayCall (RelaychainBuilder.persistedValidationData P H parent entry.id)
  let mutation ← relayCall (RelaychainBuilder.withMutState P H
    (RelayStorage.recordedEnact P H parent parentNumber pvd entry.id entry.collation
      entry.generationParent))
  noteEnacted entry mutation.1
  Call.returned mutation.2

/-- `collator.judge(CollationJudgement::Approved)`. -/
def judge (reg : ℕ) (collator : κ) (entry : CollationEntry) :
    Call (World κ W) (Error ε) Unit := fun w ↦
  match C.judge collator .approved w.collators with
  | (.ok _, v) =>
    (.ok (), { w with collators := v }.note (.judged reg entry true w.collators v))
  | (.err e, v) =>
    (.err (.parachainJudgeError e),
      { w with collators := v }.note (.judged reg entry false w.collators v))
  | (.panic, v) =>
    (.panic, { w with collators := v }.note (.judged reg entry false w.collators v))

/-- One collation is judged: always approved, by the first collator registered under its id. -/
def judgeCollation (entry : CollationEntry) : Call (World κ W) (Error ε) Unit := do
  let registration ← relayCall (RelaychainBuilder.collatorFor entry.id)
  judge C registration.1 registration.2 entry

/-- The loop body of `force_enact_collations`. -/
def enactAndJudge (parent : Hash) (parentNumber : ℕ) (entry : CollationEntry) :
    Call (World κ W) (Error ε) Unit := do
  enactCollation P H parent parentNumber entry
  judgeCollation C entry

/-- `force_enact_collations`: the loop runs over a copy of the table, which is cleared after it. -/
def forceEnactCollations : Call (World κ W) (Error ε) Unit := do
  let parent ← Call.read (·.relay.builder.chain.bestHash)
  let parentNumber ← Call.read (·.relay.builder.chain.bestNumber)
  let collations ← Call.read (·.relay.collations)
  Call.forEach (enactAndJudge P H C parent parentNumber) collations
  Call.modify fun w ↦ { w with relay := { w.relay with collations := [] } }

/-- `para.collation(pvd)`. -/
def poll (reg : ℕ) (id : Id) (collator : κ) (pvd : PersistedValidationData) :
    Call (World κ W) (Error ε) (Option Collation) := fun w ↦
  match C.collation collator pvd w.collators with
  | (.ok reply, v) => (.ok reply, { w with collators := v }.note (.polled reg id reply w.collators))
  | (.err e, v) => (.err (.parachainCollation id e), { w with collators := v })
  | (.panic, v) => (.panic, { w with collators := v })

/-- `collations.push(entry)`. -/
def push (entry : CollationEntry) (w : World κ W) : World κ W :=
  { w with
    relay := { w.relay with collations := w.relay.collations ++ [entry] }
    tickets := w.tickets + 1 }.note (.collected entry)

/-- A collation enters the table, unless its id is already in it. -/
def collect (parentHead : Header) (reg : ℕ) (id : Id) (c : Collation) (w : World κ W) :
    World κ W :=
  if w.relay.collations.any fun entry ↦ entry.id == id then w
  else w.push ⟨id, c, parentHead, reg, w.tickets⟩

def collectReply (parentHead : Header) (reg : ℕ) (id : Id) :
    Option Collation → Call (World κ W) (Error ε) Unit
  | some c => Call.modify (collect parentHead reg id c)
  | none => pure ()

/-- The loop body of `collect_collations`. -/
def collectFrom (parent : Hash) (parentHead : Header) (registration : (Id × κ) × ℕ) :
    Call (World κ W) (Error ε) Unit := do
  let ((id, collator), reg) := registration
  let pvd ← relayCall (RelaychainBuilder.persistedValidationData P H parent id)
  let reply ← poll C reg id collator pvd
  collectReply parentHead reg id reply

def collectCollations (parentHead : Header) : Call (World κ W) (Error ε) Unit := do
  let parent ← Call.read (·.relay.builder.chain.bestHash)
  let parachains ← Call.read (·.relay.parachains)
  Call.forEach (collectFrom P H C parent parentHead) parachains.zipIdx

def importBlock : Call (World κ W) (Error ε) Unit := do
  let header ← relayCall (RelaychainBuilder.importNext H)
  forceEnactCollations P H C
  collectCollations P H C header

end World

end Fudge
