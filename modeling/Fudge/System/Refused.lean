import Fudge.Pipeline.Runs
import Fudge.Relay.Refinement

/-!
# What becomes of the blocks of a single chain

The slot of a stand-alone builder is a pipeline with one slot: `build_block` puts a block in, and
`import_block` takes it out, into the imports or nowhere. The assertions keep the slot from being
overwritten, so a block can be lost in one way only: the client does not import it.

The relay chain builder refines the stand-alone builder, and the mutations in the batch of an import
do not touch the slot. So the same is true of it.
-/

namespace Fudge

open Call
open Pipeline (Conserved gained losses)

namespace StandAloneBuilder

variable {S A : Type} {P : Primitives S}

def pipeline (a : StandAloneBuilder S) : Pipeline (Block × StorageProof) :=
  ⟨a.next, none, a.imports⟩

/-- The imported blocks and the pending one, oldest first. -/
def blocks (a : StandAloneBuilder S) : List (Block × StorageProof) := a.imports ++ a.next.toList

theorem content_pipeline (a : StandAloneBuilder S) : a.pipeline.content = a.blocks := by
  simp [pipeline, blocks, Pipeline.content]

/-- The block that an operation builds, as it was proposed. -/
def built (P : Primitives S) (op : StandAloneOp S A) (a : StandAloneBuilder S) :
    List (Block × StorageProof) :=
  match op with
  | .buildBlock H =>
    if (standAloneStep P op a).1.isOk then
      ((proposeBlock P H a).1.toOption.map fun proposal ↦
        (proposal.block, proposal.proof)).toList
    else []
  | _ => []

/-- The block that an operation takes out of the slot, but does not import. -/
def refused (P : Primitives S) (op : StandAloneOp S A) (a : StandAloneBuilder S) :
    List (Block × StorageProof) :=
  match op with
  | .importBlock _ => if (standAloneStep P op a).1.isOk then [] else a.next.toList
  | _ => []

def slotEvents (P : Primitives S) (op : StandAloneOp S A) (a : StandAloneBuilder S) :
    List (Pipeline.Event (Block × StorageProof)) :=
  match op with
  | .buildBlock _ => (built P op a).map .put
  | .importBlock _ => if (standAloneStep P op a).1.isOk then [.advance, .take] else [.drop]
  | _ => []

/-- A build that returns `Ok` returns the proposed block and puts it into the slot, which was empty;
any other changes nothing. -/
theorem buildBlock_slot (H : Host S) (a : StandAloneBuilder S) :
    ((buildBlock P H a).1.isOk = false ∧ (buildBlock P H a).2 = a) ∨
      ∃ proposal, a.next = none ∧ (proposeBlock P H a).1 = .ok proposal ∧ buildBlock P H a =
        (.ok proposal.block, { a with next := some (proposal.block, proposal.proof) }) := by
  rw [buildBlock]
  rcases assert_bind_cases (·.next.isNone) _ a with ⟨hnext, h⟩ | ⟨-, h⟩
  · rw [h]
    have hpropose : (proposeBlock P H a).2 = a := proposeBlock_keeps (f := id) a
    rcases bind_cases (proposeBlock P H) _ a with ⟨proposal, hok, h'⟩ | ⟨-, hno, h'⟩
    · rw [h', hpropose]
      exact Or.inr ⟨proposal, by simpa using hnext, congrArg Prod.fst hok, rfl⟩
    · exact Or.inl ⟨hno, h'.trans hpropose⟩
  · rw [h]
    exact Or.inl ⟨rfl, rfl⟩

theorem standAloneStep_keeps_pipeline {op : StandAloneOp S A} (hbuild : ∀ H, op ≠ .buildBlock H)
    (himport : ∀ H, op ≠ .importBlock H) : Keeps pipeline (standAloneStep P op) := by
  have hcore : ∀ {α : Type} {c : Call (Builder S) Builder.Error α}, Keeps pipeline (core c) :=
    core_keeps fun _ _ ↦ rfl
  cases op with
  | buildBlock H => exact absurd rfl (hbuild H)
  | importBlock H => exact absurd rfl (himport H)
  | withState H exec => exact Keeps.map hcore
  | withStateAt H at_ exec => exact Keeps.map hcore
  | withMutState H exec => exact Keeps.map (Keeps.bind (Keeps.assert _) fun _ ↦ hcore)
  | appendExtrinsic H xt => exact Keeps.map hcore
  | appendExtrinsics H xts => exact Keeps.map (appendExtrinsics_frame (fun _ ↦ hcore) xts)
  | appendTransition aux => exact Keeps.map hcore

/-- **Each operation follows the pipeline.** -/
theorem standAloneStep_pipeline (op : StandAloneOp S A) (a : StandAloneBuilder S) :
    (standAloneStep P op a).2.pipeline = Pipeline.run (slotEvents P op a) a.pipeline := by
  cases op with
  | buildBlock H =>
    rw [slotEvents, built, standAloneStep, map_isOk, map_snd]
    rcases buildBlock_slot (P := P) H a with ⟨hno, hsame⟩ | ⟨proposal, -, hprop, hbuilt⟩
    · rw [hno, hsame]
      rfl
    · rw [hbuilt, hprop]
      rfl
  | importBlock H =>
    rw [slotEvents, standAloneStep, map_isOk, map_snd]
    rcases importBlock_cases (H := H) a with ⟨hnone, hno, hsame⟩ | ⟨next, hnext, hok, himported⟩
    · rw [hno, hsame]
      simp [pipeline, Pipeline.run, Pipeline.apply, hnone]
    · rw [hok, himported]
      split_ifs with hcore
      · simp [pipeline, Pipeline.run, Pipeline.apply, hnext]
      · simp [pipeline, Pipeline.run, Pipeline.apply]
  | _ => exact standAloneStep_keeps_pipeline (by simp) (by simp) a

theorem slotEvents_gained (op : StandAloneOp S A) (a : StandAloneBuilder S) :
    (slotEvents P op a).flatMap gained = built P op a := by
  cases op with
  | buildBlock H =>
    rw [slotEvents]
    simp [List.flatMap_map, gained]
  | importBlock H =>
    rw [slotEvents]
    split_ifs
    · rfl
    · rfl
  | _ => rfl

/-- **A block is lost by an import only.** -/
theorem slotEvents_losses (op : StandAloneOp S A) (a : StandAloneBuilder S) :
    losses (slotEvents P op a) a.pipeline = refused P op a := by
  cases op with
  | buildBlock H =>
    rw [slotEvents, built, standAloneStep, map_isOk]
    rcases buildBlock_slot (P := P) H a with ⟨hno, -⟩ | ⟨proposal, hnext, hprop, hbuilt⟩
    · rw [hno]
      rfl
    · -- the slot was empty
      rw [hbuilt, hprop]
      simp [losses, Pipeline.lost, pipeline, hnext, refused, Outcome.isOk, Outcome.toOption]
  | importBlock H =>
    rw [slotEvents, refused]
    split_ifs
    · exact Pipeline.losses_through _ _
    · simp [losses, Pipeline.lost, pipeline]
  | _ => rfl

/-! ### Batches -/

theorem mutations_keep_pipeline {H : Host S} {l : List (StandAloneOp S A)}
    (hl : ∀ op ∈ l, ∃ exec, op = .withMutState H exec) :
    Keeps pipeline (forEach (standAloneStep P) l) := by
  induction l with
  | nil => exact Keeps.pure ()
  | cons op l ih =>
    obtain ⟨exec, rfl⟩ := hl op List.mem_cons_self
    exact Keeps.bind (standAloneStep_keeps_pipeline (by simp) (by simp))
      fun _ ↦ ih fun op' hop ↦ hl op' (List.mem_cons_of_mem _ hop)

theorem import_then_mutations_pipeline {H : Host S} {l : List (StandAloneOp S A)}
    (hl : ∀ op ∈ l, ∃ exec, op = .withMutState H exec) (a : StandAloneBuilder S) :
    (forEach (standAloneStep P) (.importBlock H :: l) a).2.pipeline =
      (standAloneStep (A := A) P (.importBlock H) a).2.pipeline := by
  rw [forEach_cons]
  rcases bind_cases (standAloneStep P (.importBlock H)) (fun _ ↦ forEach (standAloneStep P) l) a
    with ⟨_, -, h⟩ | ⟨-, -, h⟩
  · rw [h]
    exact mutations_keep_pipeline hl _
  · rw [h]

end StandAloneBuilder

/-! ## The relay chain -/

namespace World

open StandAloneBuilder (StandAloneOp standAloneStep)
open RelaychainBuilder (Error)

variable {κ W ε A : Type} {P : RelayPrimitives}

/-- The imported relay chain blocks and the pending one, oldest first. -/
def relayBlocks (w : World κ W) : List (Block × StorageProof) :=
  w.relay.imports ++ w.relay.next.toList

/-- The relay chain block that an operation builds, as it was proposed. -/
def relayBuilt (P : RelayPrimitives) (op : PublicOp κ W ε A) (w : World κ W) :
    List (Block × StorageProof) :=
  match op with
  | .relay (.buildBlock H) =>
    if (publicStep P op w).1.isOk then
      ((RelaychainBuilder.proposeBlock (ε := ε) P H w.relay).1.toOption.map fun proposal ↦
        (proposal.block, proposal.proof)).toList
    else []
  | _ => []

/-- The relay chain block that an operation takes out of the slot, but does not import. An import
may still fail later, at a collation. -/
def relayRefused (op : PublicOp κ W ε A) (w : World κ W) : List (Block × StorageProof) :=
  match op with
  | .relay (.importBlock H _) =>
    if (relayCall (ε := ε) (RelaychainBuilder.importNext H) w).1.isOk then []
    else w.relay.next.toList
  | _ => []

/-- What an operation does to the slot of the relay chain. -/
def relayEvents (P : RelayPrimitives) (op : PublicOp κ W ε A) (w : World κ W) :
    List (Pipeline.Event (Block × StorageProof)) :=
  match op with
  | .relay (.buildBlock H) =>
    StandAloneBuilder.slotEvents (A := Unit) P.toPrimitives (.buildBlock H.toHost) w.standAlone
  | .relay (.importBlock H _) =>
    StandAloneBuilder.slotEvents (A := Unit) P.toPrimitives (.importBlock H.toHost) w.standAlone
  | _ => []

theorem loopBatch_mutations {H : RelayHost} {C : CollationBuilder κ W ε} (parent : Hash) (n : ℕ) :
    ∀ (l : List CollationEntry) (w : World κ W), ∀ op ∈ loopBatch P H C parent n l w,
      ∃ exec, op = .withMutState H.toHost exec := by
  intro l
  induction l with
  | nil => exact fun w op hop ↦ absurd hop List.not_mem_nil
  | cons e es ih =>
    intro w op hop
    rw [loopBatch, List.mem_append] at hop
    rcases hop with hop | hop
    · rw [enactBatch] at hop
      split at hop
      · exact ⟨_, List.mem_singleton.mp hop⟩
      · exact absurd hop List.not_mem_nil
    · split_ifs at hop
      · exact ih _ op hop
      · exact absurd hop List.not_mem_nil

/-- **Each operation follows the pipeline of the relay chain**, whatever its collators do. -/
theorem publicStep_relayPipeline (op : PublicOp κ W ε A) (w : World κ W) :
    (publicStep P op w).2.standAlone.pipeline =
      Pipeline.run (relayEvents P op w) w.standAlone.pipeline := by
  rw [(publicStep_follows op w).1]
  -- all batches but those of a build and an import are of calls that do not touch the slot
  have hquiet : ∀ op' : StandAloneOp RelayStorage Unit, (∀ H, op' ≠ .buildBlock H) →
      (∀ H, op' ≠ .importBlock H) →
      (forEach (standAloneStep P.toPrimitives) [op'] w.standAlone).2.pipeline =
        w.standAlone.pipeline := by
    intro op' hbuild himport
    exact Keeps.bind (StandAloneBuilder.standAloneStep_keeps_pipeline hbuild himport)
      (fun _ ↦ Keeps.pure ()) w.standAlone
  cases op with
  | relay op =>
    cases op with
    | onboardPara H para C => exact hquiet _ (by simp) (by simp)
    | updateParaHead H id head => exact hquiet _ (by simp) (by simp)
    | withMutState H exec => exact hquiet _ (by simp) (by simp)
    | buildBlock H =>
      rw [batch, forEach_singleton_eq, map_snd]
      exact StandAloneBuilder.standAloneStep_pipeline _ _
    | importBlock H C =>
      rw [batch, importBatch, StandAloneBuilder.import_then_mutations_pipeline]
      · exact StandAloneBuilder.standAloneStep_pipeline _ _
      · intro op' hop
        split_ifs at hop
        · exact loopBatch_mutations _ _ _ _ op' hop
        · exact absurd hop List.not_mem_nil
    | collators f => rfl
  | withState H exec => exact hquiet _ (by simp) (by simp)
  | withStateAt H at_ exec => exact hquiet _ (by simp) (by simp)
  | appendExtrinsic H xt => exact hquiet _ (by simp) (by simp)
  | appendExtrinsics H xts => exact hquiet _ (by simp) (by simp)
  | appendTransition aux => exact hquiet _ (by simp) (by simp)

theorem relayEvents_gained (op : PublicOp κ W ε A) (w : World κ W) :
    (relayEvents P op w).flatMap gained = relayBuilt P op w := by
  cases op with
  | relay op =>
    cases op with
    | buildBlock H =>
      -- both builders propose the same block, and build it or not
      have hbuild := (relayCall_mirrors (κ := κ) (W := W) (ε := ε)
        (RelaychainBuilder.buildBlock_mirrors (P := P) (H := H)) w).1.isOk
      have hpropose := (RelaychainBuilder.proposeBlock_mirrors (ε := ε) (P := P) (H := H)
        w.relay).1.toOption
      rw [relayEvents, StandAloneBuilder.slotEvents_gained, StandAloneBuilder.built, relayBuilt,
        standAloneStep, map_isOk, ← hbuild, publicStep, relayStep, map_isOk, hpropose]
      rfl
    | importBlock H C =>
      rw [relayEvents, StandAloneBuilder.slotEvents_gained]
      rfl
    | _ => rfl
  | _ => rfl

theorem relayEvents_losses (op : PublicOp κ W ε A) (w : World κ W) :
    losses (relayEvents P op w) w.standAlone.pipeline = relayRefused op w := by
  cases op with
  | relay op =>
    cases op with
    | buildBlock H =>
      rw [relayEvents, StandAloneBuilder.slotEvents_losses]
      rfl
    | importBlock H C =>
      have hlike := (relayCall_mirrors (κ := κ) (W := W) (ε := ε)
        (RelaychainBuilder.importNext_mirrors (H := H)) w).1
      rw [relayEvents, StandAloneBuilder.slotEvents_losses, relayRefused, hlike.isOk,
        StandAloneBuilder.refused, standAloneStep, map_isOk]
      rfl
    | _ => rfl
  | _ => rfl

/-! ## Runs -/

/-- **A chain loses a block only if the client refuses it.** In every run of a stand-alone or a
relay chain builder the blocks it had and those it built stay, in order, imported or pending, but
for those whose import failed. -/
theorem only_refused_blocks_are_lost :
    (∀ {S : Type} (P : Primitives S) (ops : List (StandAloneOp S A)) (a : StandAloneBuilder S),
      Conserved a.blocks (run (standAloneStep P) ops a).blocks
        (ledger (standAloneStep P) (fun op a l ↦ l ++ StandAloneBuilder.built P op a) ops a [])
        (ledger (standAloneStep P) (fun op a l ↦ l ++ StandAloneBuilder.refused P op a) ops a [])) ∧
    ∀ (P : RelayPrimitives) (ops : List (PublicOp κ W ε A)) (w : World κ W),
      Conserved w.relayBlocks (run (publicStep P) ops w).relayBlocks
        (ledger (publicStep P) (fun op w l ↦ l ++ relayBuilt P op w) ops w [])
        (ledger (publicStep P) (fun op w l ↦ l ++ relayRefused op w) ops w []) := by
  constructor
  · intro S P ops a
    have h := Pipeline.run_conserved (StandAloneBuilder.standAloneStep_pipeline (P := P))
      StandAloneBuilder.slotEvents_gained StandAloneBuilder.slotEvents_losses ops a
    rwa [StandAloneBuilder.content_pipeline, StandAloneBuilder.content_pipeline] at h
  · intro P ops w
    have h := Pipeline.run_conserved
      (publicStep_relayPipeline (κ := κ) (W := W) (ε := ε) (P := P)) relayEvents_gained
      relayEvents_losses ops w
    rwa [StandAloneBuilder.content_pipeline, StandAloneBuilder.content_pipeline] at h

end World

end Fudge
