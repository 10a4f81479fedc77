import Fudge.Call.Run
import Fudge.Core.Blocks

/-!
# The stand-alone chain builder

`StandAloneBuilder` drives one chain without a relay chain: it builds a block, holds it in a slot,
and imports it as best and final. The definitions follow `builder/stand_alone.rs`.

The slot is guarded by assertions. A block cannot be built, and the state cannot be mutated, while
another block waits in it; an import empties it before anything else.
-/

namespace Fudge

/-- `StandAloneBuilder`. The inherent data and digest providers are answers of the host. -/
structure StandAloneBuilder (S : Type) where
  builder : Builder S
  next : Option (Block × StorageProof) := none
  imports : List (Block × StorageProof) := []

namespace StandAloneBuilder

/-- `stand_alone::Error`. -/
inductive Error where
  | coreBuilder (e : Builder.Error)
  | initiator (e : InnerError)
  | inherentDataProvidersCreation (e : InnerError)
  | inherentDataCreation (e : InnerError)
  | digestCreation (e : InnerError)
  | nextBlockNotFound
deriving DecidableEq, Repr

variable {S R A : Type} (P : Primitives S) (H : Host S)

/-- A call of the core builder, with its error wrapped. -/
def core (c : Call (Builder S) Builder.Error R) : Call (StandAloneBuilder S) Error R :=
  Call.mapErr .coreBuilder (Call.zoom (·.builder) (fun b a ↦ { a with builder := b }) c)

def appendExtrinsic (xt : Extrinsic) : Call (StandAloneBuilder S) Error Hash :=
  core (Builder.appendExtrinsic H xt)

/-- `append_extrinsics`: nothing is submitted after a failure. -/
def appendExtrinsics : List Extrinsic → Call (StandAloneBuilder S) Error (List Hash)
  | [] => pure []
  | xt :: xts => do
    let h ← appendExtrinsic H xt
    let hs ← appendExtrinsics xts
    pure (h :: hs)

def appendTransition (aux : StoragePair) : Call (StandAloneBuilder S) Error Unit :=
  core (Builder.appendTransition aux)

def withState (exec : S → R × S) : Call (StandAloneBuilder S) Error R :=
  core (Builder.withState P H .dryRun none exec)

def withStateAt (at_ : BlockId) (exec : S → R × S) : Call (StandAloneBuilder S) Error R :=
  core (Builder.withState P H .dryRun (some at_) exec)

def withMutState (exec : S → R × S) : Call (StandAloneBuilder S) Error R := do
  Call.assert (·.next.isNone)
  core (Builder.withState P H .commit none exec)

/-- The proposal of `build_block`: inherents, digest and the block itself. -/
def proposeBlock : Call (StandAloneBuilder S) Error Proposal :=
  Call.zoom (·.builder) (fun b a ↦ { a with builder := b })
    (Builder.proposeBlock P H .coreBuilder .inherentDataProvidersCreation
      .inherentDataCreation .digestCreation)

def buildBlock : Call (StandAloneBuilder S) Error Block := do
  Call.assert (·.next.isNone)
  let proposal ← proposeBlock P H
  Call.modify fun a ↦ { a with next := some (proposal.block, proposal.proof) }
  pure proposal.block

/-- The parameters under which a block is imported. -/
def nextParams (block : Block) : BlockImportParams :=
  { origin := .networkInitialSync, header := block.header, body := some block.extrinsics,
    finalized := true, forkChoice := some (.custom true) }

/-- `import_block`: the pending block is taken out of its slot, imported, and added to the
imports. -/
def importBlock : Call (StandAloneBuilder S) Error Unit := do
  let next ← Call.read (·.next)
  Call.modify fun a ↦ { a with next := none }
  let (block, proof) ← Call.require .nextBlockNotFound next
  core (Builder.importBlock H (nextParams block))
  Call.modify fun a ↦ { a with imports := a.imports ++ [(block, proof)] }

/-! ## Runs -/

inductive StandAloneOp (S A : Type) where
  | buildBlock (H : Host S)
  | importBlock (H : Host S)
  | withState (H : Host S) (exec : S → A × S)
  | withStateAt (H : Host S) (at_ : BlockId) (exec : S → A × S)
  | withMutState (H : Host S) (exec : S → A × S)
  | appendExtrinsic (H : Host S) (xt : Extrinsic)
  | appendExtrinsics (H : Host S) (xts : List Extrinsic)
  | appendTransition (aux : StoragePair)

def standAloneStep : StandAloneOp S A → Call (StandAloneBuilder S) Error (Reply A)
  | .buildBlock H => Call.map .block (buildBlock P H)
  | .importBlock H => Call.map (fun _ ↦ .done) (importBlock H)
  | .withState H exec => Call.map .closure (withState P H exec)
  | .withStateAt H at_ exec => Call.map .closure (withStateAt P H at_ exec)
  | .withMutState H exec => Call.map .closure (withMutState P H exec)
  | .appendExtrinsic H xt => Call.map .hash (appendExtrinsic H xt)
  | .appendExtrinsics H xts => Call.map .hashes (appendExtrinsics H xts)
  | .appendTransition aux => Call.map (fun _ ↦ .done) (appendTransition aux)

def StandAloneOp.Lawful : StandAloneOp S A → Prop
  | .buildBlock H => H.Lawful P
  | .importBlock H => H.Lawful P
  | .withState H _ => H.Lawful P
  | .withStateAt H _ _ => H.Lawful P
  | .withMutState H _ => H.Lawful P
  | .appendExtrinsic H _ => H.Lawful P
  | .appendExtrinsics H _ => H.Lawful P
  | .appendTransition _ => True

/-! ## What the calls do -/

open Call

variable {P H} {γ : Type} {f : StandAloneBuilder S → γ}

theorem core_keeps {c : Call (Builder S) Builder.Error R}
    (hf : ∀ b a, f { a with builder := b } = f a) : Keeps f (core c) :=
  Keeps.mapErr (Keeps.zoom hf)

theorem core_keeps_of_read {c : Call (Builder S) Builder.Error R} (hc : Keeps id c) :
    Keeps f (core c) :=
  Keeps.mapErr (Keeps.zoom_of_read (fun _ ↦ rfl) hc)

theorem core_keeps_chain {c : Call (Builder S) Builder.Error R} (hc : Keeps Builder.chain c) :
    Keeps (fun a ↦ (a.builder.chain, a.next, a.imports)) (core c) :=
  Keeps.mapErr fun a ↦ Prod.ext (hc a.builder) rfl

theorem core_bind_cases {α β : Type} (c : Call (Builder S) Builder.Error α)
    (g : α → Call (StandAloneBuilder S) Error β) (a : StandAloneBuilder S) :
    (∃ x, (c a.builder).1 = .ok x ∧ (core c >>= g) a = g x { a with builder := (c a.builder).2 }) ∨
      ((c a.builder).1.isOk = false ∧ ((core c >>= g) a).1.isOk = false ∧
        ((core c >>= g) a).2 = { a with builder := (c a.builder).2 }) :=
  zoom_bind_cases _ _ _ c g a

theorem withState_keeps (exec : S → R × S) : Keeps f (withState P H exec) :=
  core_keeps_of_read (Builder.withState_dryRun_keeps none exec)

theorem withStateAt_keeps (at_ : BlockId) (exec : S → R × S) :
    Keeps f (withStateAt P H at_ exec) :=
  core_keeps_of_read (Builder.withState_dryRun_keeps (some at_) exec)

theorem appendExtrinsic_keeps (xt : Extrinsic) :
    Keeps (fun a ↦ (a.builder.chain, a.next, a.imports)) (appendExtrinsic H xt) :=
  core_keeps_chain (Builder.appendExtrinsic_keeps xt)

theorem appendExtrinsics_frame (hf : ∀ xt, Keeps f (appendExtrinsic H xt)) (xts : List Extrinsic) :
    Keeps f (appendExtrinsics H xts) := by
  induction xts with
  | nil => exact Keeps.pure []
  | cons xt xts ih => exact Keeps.bind (hf xt) fun _ ↦ Keeps.bind ih fun _ ↦ Keeps.pure _

theorem appendExtrinsics_keeps (xts : List Extrinsic) :
    Keeps (fun a ↦ (a.builder.chain, a.next, a.imports)) (appendExtrinsics H xts) :=
  appendExtrinsics_frame (fun xt ↦ appendExtrinsic_keeps xt) xts

theorem appendTransition_keeps (aux : StoragePair) :
    Keeps (fun a ↦ (a.builder.chain, a.next, a.imports)) (appendTransition (S := S) aux) :=
  core_keeps_chain (Keeps.modify fun _ ↦ rfl)

theorem proposeBlock_keeps : Keeps f (proposeBlock P H) :=
  Keeps.zoom_of_read (fun _ ↦ rfl) (Builder.proposeBlock_keeps _ _ _ _)

theorem withMutState_cases (exec : S → R × S) (a : StandAloneBuilder S) :
    (a.next.isSome = true ∧ withMutState P H exec a = (.panic, a)) ∨
      (a.next = none ∧ (withMutState P H exec a).1.isOk =
          (Builder.withState P H .commit none exec a.builder).1.isOk ∧
        (withMutState P H exec a).2 =
          { a with builder := (Builder.withState P H .commit none exec a.builder).2 }) := by
  rw [withMutState]
  rcases assert_bind_cases (·.next.isNone) (fun _ ↦ core (Builder.withState P H .commit none exec))
    a with ⟨hnext, h⟩ | ⟨hnext, h⟩
  · rw [h, core, mapErr_isOk, mapErr_snd]
    exact Or.inr ⟨by simpa using hnext, rfl, rfl⟩
  · exact Or.inl ⟨by simpa using hnext, h⟩

theorem buildBlock_cases (a : StandAloneBuilder S) : (buildBlock P H a).2 = a ∨
    (a.next = none ∧ ∃ hd inherents digest proposal,
      H.header a.builder.chain a.builder.chain.bestHash = .ok (some hd) ∧
      H.propose a.builder.chain a.builder.pool hd inherents digest = .ok proposal ∧
      (buildBlock P H a).2 = { a with next := some (proposal.block, proposal.proof) }) := by
  rw [buildBlock]
  rcases assert_bind_cases (·.next.isNone) _ a with ⟨hnext, h⟩ | ⟨-, h⟩
  · rw [h]
    have hpropose : (proposeBlock P H a).2 = a := proposeBlock_keeps (f := id) a
    rcases bind_cases (proposeBlock P H) _ a with ⟨proposal, hok, h'⟩ | ⟨-, -, h'⟩
    · obtain ⟨b, hb, -⟩ := zoom_eq_ok.mp hok
      obtain ⟨-, hd, inherents, digest, hhd, hprop⟩ := Builder.proposeBlock_eq_ok hb
      rw [h', hpropose]
      exact Or.inr ⟨by simpa using hnext, hd, inherents, digest, proposal, hhd, hprop, rfl⟩
    · exact Or.inl (h'.trans hpropose)
  · rw [h]
    exact Or.inl rfl

/-- An import empties the slot. Without a pending block that is all; otherwise the block goes to the
client, and to the imports unless the core builder returns an error. -/
theorem importBlock_cases (a : StandAloneBuilder S) :
    (a.next = none ∧ (importBlock H a).1.isOk = false ∧ (importBlock H a).2 = a) ∨
      ∃ next, a.next = some next ∧ (importBlock H a).1.isOk =
          (Builder.importBlock H (nextParams next.1) a.builder).1.isOk ∧
        (importBlock H a).2 = { a with
          builder := (Builder.importBlock H (nextParams next.1) a.builder).2, next := none,
          imports := if (Builder.importBlock H (nextParams next.1) a.builder).1.isOk
            then a.imports ++ [next] else a.imports } := by
  have hread : importBlock H a = (Call.require (α := Block × StorageProof) .nextBlockNotFound
      a.next >>= fun next ↦ core (Builder.importBlock H (nextParams next.1)) >>= fun _ ↦
        Call.modify fun a ↦ { a with imports := a.imports ++ [next] })
      { a with next := none } := rfl
  rw [hread]
  cases hn : a.next with
  | none =>
    refine Or.inl ⟨rfl, rfl, ?_⟩
    change ({ a with next := none } : StandAloneBuilder S) = a
    rw [← hn]
  | some next =>
    refine Or.inr ⟨next, rfl, ?_⟩
    have hrequire : Call.require (σ := StandAloneBuilder S) (ε := Error) .nextBlockNotFound
      (some next) { a with next := none } = (.ok next, { a with next := none }) := rfl
    rw [bind_of_ok hrequire]
    -- the block is taken before the client sees it, so it is gone also if the client refuses
    rcases core_bind_cases (Builder.importBlock H (nextParams next.1)) _ { a with next := none }
      with ⟨u, hok, h⟩ | ⟨hno, hno', h⟩
    · rw [h, hok]
      exact ⟨rfl, rfl⟩
    · rw [h, hno, hno']
      exact ⟨rfl, rfl⟩

end StandAloneBuilder

end Fudge
