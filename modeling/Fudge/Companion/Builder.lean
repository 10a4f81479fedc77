import Fudge.System.Builders

/-!
# The companion

`#[fudge::companion]` turns a struct with one relay chain builder and some parachain builders into
an environment that moves all chains forward together. The definitions follow the code that
`companion/src/expand/mod.rs` generates, for a struct with any number of
parachain fields.

Two things identify a parachain in the generated code, and nothing ties them together: the id in the
field's attribute, under which `new` onboards the field and by which calls are dispatched, and the
id the builder was made with, which only `evolve` uses.

A companion is the world of its builders, and of whatever other builders are registered with its
relay chain builder: `new` takes one that may have onboarded parachains before. Fields without an
attribute are carried along by the macro and never touched, so they are left out.
-/

namespace Fudge

open ParachainBuilder (CollatorError)

variable {κ : Type} [DecidableEq κ] {T : κ → Type} {R A α : Type}

/-- The state of a companion: its relay chain builder and its parachain builders, and the builders
beside them that are registered with the relay chain. -/
abbrev Companion {κ : Type} (T : κ → Type) : Type := World κ (Builders T)

/-- `CompanionDef`: the parachain fields in order, and the ids in their attributes. -/
structure CompanionDef (κ : Type) where
  fields : List κ
  nodup : fields.Nodup
  ids : κ → Id

/-- The parachain field that a `match` on an id selects: the first one with that attribute. -/
def CompanionDef.fieldFor (d : CompanionDef κ) (id : Id) : Option κ :=
  d.fields.find? fun k ↦ d.ids k == id

namespace Companion

open RelaychainBuilder (Error)

/-- `primitives::Chain`. -/
inductive Chain where
  | relay
  | para (id : Id)
deriving DecidableEq, Repr

inductive BuilderError where
  | standalone (e : InnerError)
  | parachain (e : ParachainBuilder.Error)
  | relaychain (e : Error CollatorError)
  | extrinsicDecode (e : InnerError)
  | parachainNotFound (id : Id)
deriving DecidableEq, Repr

/-- The answers of the node libraries during one call on a builder of the companion: those of the
relay chain, those of the parachains, whose collators a relay chain import calls, and the decoding
of extrinsics. -/
structure Hosts (T : κ → Type) where
  relay : RelayHost
  paras : ∀ k, ParaHost (T k)
  /-- `Decode::decode` for the extrinsics of the relay chain. -/
  decodeRelay : Bytes → Except InnerError Extrinsic
  /-- `Decode::decode` for the extrinsics of a parachain. -/
  decodePara : κ → Bytes → Except InnerError Extrinsic

/-- A closure, as what it does to the state of each chain. -/
structure Exec (T : κ → Type) (R : Type) where
  relay : RelayStorage → R × RelayStorage
  para : ∀ k, T k → R × T k

variable (Rl : RelayPrimitives) (P : ∀ k, Primitives (T k)) (d : CompanionDef κ)

def onRelay (c : Call (RelaychainBuilder κ) (Error CollatorError) α) :
    Call (Companion T) BuilderError α :=
  Call.mapErr .relaychain (World.relayCall c)

/-- A call of the parachain builder in the field `k`. -/
def onPara (k : κ) (c : Call (ParachainBuilder (T k)) ParachainBuilder.Error α) :
    Call (Companion T) BuilderError α :=
  Call.mapErr .parachain (World.builderCall k c)

/-- `relay.build_block().map(|_| ())`. -/
def buildRelay (hosts : Hosts T) : Call (Companion T) BuilderError Unit := do
  let _ ← onRelay (RelaychainBuilder.buildBlock Rl hosts.relay)
  pure ()

/-- `relay.import_block()`. -/
def importRelay (hosts : Hosts T) : Call (Companion T) BuilderError Unit :=
  Call.mapErr .relaychain (World.importBlock Rl hosts.relay (fudgeCollators P hosts.paras))

/-! ## Creating a companion -/

/-- The hosts of the calls by which `new` onboards a field. -/
structure OnboardHosts (T : κ → Type) where
  head : Hosts T
  code : Hosts T
  onboard : Hosts T

/-- The onboarding of one field: under the id of its attribute, with its collator. -/
def onboardField (hosts : OnboardHosts T) (k : κ) : Call (Companion T) BuilderError Unit := do
  let head ← onPara k (ParachainBuilder.head (P k) (hosts.head.paras k))
  let code ← onPara k (ParachainBuilder.code (P k) (hosts.code.paras k))
  onRelay (RelaychainBuilder.onboardPara Rl hosts.onboard.relay ⟨d.ids k, head, code⟩ k)

/-- `new`, as a call on the struct made of its arguments: all fields are onboarded in order, and one
relay chain block is built and imported. -/
def new (hosts : κ → OnboardHosts T) (build importing : Hosts T) :
    Call (Companion T) BuilderError Unit := do
  Call.forEach (fun k ↦ onboardField Rl P d (hosts k) k) d.fields
  buildRelay Rl build
  importRelay Rl P importing

/-! ## Calls on one chain -/

def appendExtrinsic (hosts : Hosts T) (chain : Chain) (xt : Bytes) :
    Call (Companion T) BuilderError Unit :=
  match chain with
  | .relay => do
    let xt ← Call.query (fun _ ↦ hosts.decodeRelay xt) .extrinsicDecode
    let _ ← onRelay (RelaychainBuilder.appendExtrinsic hosts.relay xt)
    pure ()
  | .para id => match d.fieldFor id with
    | some k => do
      let xt ← Call.query (fun _ ↦ hosts.decodePara k xt) .extrinsicDecode
      let _ ← onPara k (ParachainBuilder.appendExtrinsic (hosts.paras k) xt)
      pure ()
    | none => Call.fail (.parachainNotFound id)

def appendExtrinsics (chain : Chain) (xts : List (Hosts T × Bytes)) :
    Call (Companion T) BuilderError Unit :=
  Call.forEach (fun xt ↦ appendExtrinsic d xt.1 chain xt.2) xts

def withState (hosts : Hosts T) (chain : Chain) (exec : Exec T R) :
    Call (Companion T) BuilderError R :=
  match chain with
  | .relay => onRelay (RelaychainBuilder.withState Rl hosts.relay exec.relay)
  | .para id => match d.fieldFor id with
    | some k => onPara k (ParachainBuilder.withState (P k) (hosts.paras k) (exec.para k))
    | none => Call.fail (.parachainNotFound id)

def withMutState (hosts : Hosts T) (chain : Chain) (exec : Exec T R) :
    Call (Companion T) BuilderError R :=
  match chain with
  | .relay => onRelay (RelaychainBuilder.withMutState Rl hosts.relay exec.relay)
  | .para id => match d.fieldFor id with
    | some k => onPara k (ParachainBuilder.withMutState (P k) (hosts.paras k) (exec.para k))
    | none => Call.fail (.parachainNotFound id)

/-! ## Moving all chains forward -/

/-- The hosts of the calls that `evolve` makes for one field. -/
structure RoundHosts (T : κ → Type) where
  head : Hosts T
  updateParaHead : Hosts T
  buildRelay : Hosts T
  buildPara : Hosts T
  importCollecting : Hosts T
  buildEnacting : Hosts T
  importEnacting : Hosts T
  importPara : Hosts T

/-- The calls before the block of the parachain is built: the relay chain is told the head of the
parachain, under the id of the *builder*, and a relay chain block is built. -/
def prepareField (hosts : RoundHosts T) (k : κ) : Call (Companion T) BuilderError Unit := do
  let paraHead ← onPara k (ParachainBuilder.head (P k) (hosts.head.paras k))
  let id ← Call.read fun w ↦ (w.collators k).id
  onRelay (RelaychainBuilder.updateParaHead Rl hosts.updateParaHead.relay id paraHead)
  buildRelay Rl hosts.buildRelay

/-- The calls after it: one relay chain import collects the block, the next one enacts it, and then
the parachain imports it. -/
def finishField (hosts : RoundHosts T) (k : κ) : Call (Companion T) BuilderError Unit := do
  importRelay Rl P hosts.importCollecting
  buildRelay Rl hosts.buildEnacting
  importRelay Rl P hosts.importEnacting
  onPara k (ParachainBuilder.importBlock (hosts.importPara.paras k))

/-- The part of `evolve` that is generated for one field. -/
def evolveField (hosts : RoundHosts T) (k : κ) : Call (Companion T) BuilderError Unit := do
  prepareField Rl P hosts k
  onPara k (ParachainBuilder.buildBlock (P k) (hosts.buildPara.paras k))
  finishField Rl P hosts k

def evolve (hosts : κ → RoundHosts T) : Call (Companion T) BuilderError Unit :=
  Call.forEach (fun k ↦ evolveField Rl P (hosts k) k) d.fields

/-! ## Runs of a companion -/

/-- A call of a public method; `A` is what the closures return. -/
inductive CompanionOp {κ : Type} (T : κ → Type) (A : Type) where
  | appendExtrinsic (hosts : Hosts T) (chain : Chain) (xt : Bytes)
  | appendExtrinsics (chain : Chain) (xts : List (Hosts T × Bytes))
  | withState (hosts : Hosts T) (chain : Chain) (exec : Exec T A)
  | withMutState (hosts : Hosts T) (chain : Chain) (exec : Exec T A)
  | evolve (hosts : κ → RoundHosts T)

def companionStep : CompanionOp T A → Call (Companion T) BuilderError (Reply A)
  | .appendExtrinsic hosts chain xt => Call.map (fun _ ↦ .done) (appendExtrinsic d hosts chain xt)
  | .appendExtrinsics chain xts => Call.map (fun _ ↦ .done) (appendExtrinsics d chain xts)
  | .withState hosts chain exec => Call.map .closure (withState Rl P d hosts chain exec)
  | .withMutState hosts chain exec => Call.map .closure (withMutState Rl P d hosts chain exec)
  | .evolve hosts => Call.map (fun _ ↦ .done) (evolve Rl P d hosts)

/-! ## A reference companion -/

/-- Hosts in memory, whose clients import every block they could import. -/
def Hosts.reference (κ : Type) : Hosts fun _ : κ ↦ ℕ where
  relay := { RelayHost.reference with toHost := Host.eager RelayPrimitives.reference.toPrimitives }
  paras _ := { ParaHost.reference counter with toHost := Host.eager counter }
  decodeRelay := .ok
  decodePara _ := .ok

def RoundHosts.reference (κ : Type) : RoundHosts fun _ : κ ↦ ℕ :=
  ⟨.reference κ, .reference κ, .reference κ, .reference κ, .reference κ, .reference κ, .reference κ,
    .reference κ⟩

def OnboardHosts.reference (κ : Type) : OnboardHosts fun _ : κ ↦ ℕ :=
  ⟨.reference κ, .reference κ, .reference κ⟩

/-- A relay chain in memory, and counting parachains made with the given ids, all at genesis. -/
def fields (builderIds : κ → Id) : Companion fun _ : κ ↦ ℕ where
  relay := RelaychainBuilder.genesis κ
  collators k := { ParachainBuilder.counterBuilder 0 with id := builderIds k }

/-- The call of `new` on them. -/
def newReference (d : CompanionDef κ) : Call (Companion fun _ : κ ↦ ℕ) BuilderError Unit :=
  new .reference (fun _ ↦ counter) d (fun _ ↦ .reference κ) (.reference κ) (.reference κ)

def reference (d : CompanionDef κ) (builderIds : κ → Id) : Companion fun _ : κ ↦ ℕ :=
  (newReference d (fields builderIds)).2

theorem new_reference {d : CompanionDef κ} {builderIds : κ → Id}
    (h : (newReference d (fields builderIds)).1 = .ok ()) :
    newReference d (fields builderIds) = (.ok (), reference d builderIds) :=
  Prod.ext h rfl

end Companion

end Fudge
