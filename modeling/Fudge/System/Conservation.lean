import Fudge.Pipeline.Basic
import Fudge.System.Public

/-!
# Where the blocks of a parachain go

The two block slots of a parachain builder and its imports are a pipeline: `build_block` puts a
block in, an approval advances it, a rejection drops it, and `import_block` takes it out. No other
public call of the builder, of its collator or of the relay chain touches it, and an import of the
relay chain advances a builder's block at most once.

So in every run of all builders, whatever fails in it, the blocks of a parachain are imported in the
order in which they were built, each at most once, and every block that was built is imported, or
pending, or was overwritten or rejected.
-/

namespace Fudge

open Call
open Pipeline (gained losses)
open Relation (ReflTransGen)
open ParachainBuilder (CollatorError)

/-! ## One builder -/

namespace ParachainBuilder

variable {T A R : Type} {P : Primitives T}

def pipeline (p : ParachainBuilder T) : Pipeline (Block × StorageProof) :=
  ⟨p.blockStorage.nextBlock, p.blockStorage.nextImport, p.imports⟩

/-- What an operation does to the pipeline, if it returns `Ok`. What goes in is the block that
`build_block` proposed. -/
def slotEvent (P : Primitives T) (op : PublicOp T A) (p : ParachainBuilder T) :
    Option (Pipeline.Event (Block × StorageProof)) :=
  if (publicStep P op p).1.isOk then
    match op with
    | .para (.buildBlock H) => (proposed P H p).map .put
    | .para (.importBlock _) => some .take
    | .para (.judge _ .approved) => some .advance
    | .para (.judge _ .rejected) => some .drop
    | _ => none
  else none

/-- The pipeline after an event, if there was one. -/
def afterEvent (e : Option (Pipeline.Event (Block × StorageProof)))
    (p : Pipeline (Block × StorageProof)) : Pipeline (Block × StorageProof) :=
  Pipeline.run e.toList p

/-- A build that returns `Ok` puts the block that it proposed into the next-block slot. -/
theorem buildBlock_proposed {H : ParaHost T} {p p' : ParachainBuilder T} {u : Unit}
    (h : buildBlock P H p = (.ok u, p')) :
    ∃ build b, proposed P H p = some build ∧
      p' = setNextBlock (some build) { p with builder := b } := by
  obtain ⟨proposal, q, hprop, h⟩ := bind_eq_ok.mp h
  have hread : (proposeBlock P H p).2 = p := proposeBlock_keeps (f := fun r ↦ r) p
  obtain rfl : p = q := by rw [hprop] at hread; exact hread.symm
  obtain ⟨_, q, himport, hstore⟩ := bind_eq_ok.mp h
  obtain ⟨b, -, rfl⟩ := zoom_eq_ok.mp (mapErr_eq_ok.mp himport)
  obtain ⟨_, _, hlock, hset⟩ := bind_eq_ok.mp hstore
  obtain ⟨-, rfl⟩ := query_eq_ok.mp hlock
  refine ⟨(proposal.block, proposal.proof), b, ?_, (Prod.mk.inj hset).2.symm⟩
  rw [proposed, hprop]
  rfl

theorem buildBlock_pipeline (H : ParaHost T) (p : ParachainBuilder T) :
    (publicStep (A := A) P (.para (.buildBlock H)) p).2.pipeline =
      afterEvent (slotEvent (A := A) P (.para (.buildBlock H)) p) p.pipeline := by
  have hstate : (publicStep (A := A) P (.para (.buildBlock H)) p).2 = (buildBlock P H p).2 :=
    mapErr_snd _ (buildBlock P H) p
  have hok : (publicStep (A := A) P (.para (.buildBlock H)) p).1.isOk =
      (buildBlock P H p).1.isOk := by
    rw [publicStep, map_isOk, paraStep, map_isOk, mapErr_isOk]
  rw [slotEvent, hok, hstate]
  cases hbuilt : (buildBlock P H p).1.isOk with
  | true =>
    obtain ⟨u, hu⟩ := Outcome.isOk_iff.mp hbuilt
    obtain ⟨build, b, hprop, hslot⟩ := buildBlock_proposed (eq_of_fst hu)
    rw [hslot, if_pos rfl, hprop]
    rfl
  | false =>
    rcases buildBlock_cases (P := P) (H := H) p with
      ⟨hsame, -⟩ | ⟨_, _, _, proposal, b, -, -, -, ⟨hsame, -⟩ | ⟨-, hok⟩⟩
    · rw [hsame]
      rfl
    · rw [hsame]
      rfl
    · rw [hok] at hbuilt
      cases hbuilt

theorem importBlock_pipeline (H : ParaHost T) (p : ParachainBuilder T) :
    (publicStep (A := A) P (.para (.importBlock H)) p).2.pipeline =
      afterEvent (slotEvent (A := A) P (.para (.importBlock H)) p) p.pipeline := by
  have hstate : (publicStep (A := A) P (.para (.importBlock H)) p).2 = (importBlock H p).2 :=
    mapErr_snd _ (importBlock H) p
  have hok : (publicStep (A := A) P (.para (.importBlock H)) p).1.isOk =
      (importBlock H p).1.isOk := by
    rw [publicStep, map_isOk, paraStep, map_isOk, mapErr_isOk]
  rw [slotEvent, hok, hstate]
  rcases importBlock_cases (H := H) p with
    ⟨hsame, hidle⟩ | ⟨next, b, hnext, -, ⟨hsame, hno⟩ | ⟨-, hok⟩⟩
  · rw [hsame]
    by_cases hok : (importBlock H p).1.isOk = true
    · -- without an approved block nothing is taken out
      rw [if_pos hok]
      simp [afterEvent, Pipeline.run, Pipeline.apply, pipeline, hidle hok]
    · rw [if_neg hok]
      rfl
  · rw [hno, hsame]
    rfl
  · rw [hok]
    simp [afterEvent, Pipeline.run, Pipeline.apply, pipeline, hnext, importedBuilder, setNextImport,
      Outcome.isOk]

theorem judge_pipeline (H : ParaHost T) (judgement : CollationJudgement) (p : ParachainBuilder T) :
    (publicStep (A := A) P (.para (.judge H judgement)) p).2.pipeline =
      afterEvent (slotEvent (A := A) P (.para (.judge H judgement)) p) p.pipeline := by
  have hstate : (publicStep (A := A) P (.para (.judge H judgement)) p).2 =
      (judge H judgement p).2 := rfl
  have hok : (publicStep (A := A) P (.para (.judge H judgement)) p).1.isOk =
      (judge H judgement p).1.isOk := by
    rw [publicStep, map_isOk, paraStep, map_isOk]
  cases judgement with
  | approved =>
    rw [slotEvent, hok, hstate]
    rcases approve_cases (H := H) p with ⟨hsame, hno⟩ | ⟨build, hslot, hok⟩
    · rw [judge, hno, hsame]
      rfl
    · rw [judge, hok]
      simp [afterEvent, Pipeline.run, Pipeline.apply, pipeline, hslot, approvedBuilder,
        setNextBlock, setNextImport, Outcome.isOk]
  | rejected =>
    rw [slotEvent, hok, hstate]
    rcases reject_cases (H := H) p with ⟨hsame, hno⟩ | hok
    · rw [judge, hno, hsame]
      rfl
    · rw [judge, hok]
      rfl

/-- **The builder's own calls follow the pipeline.** -/
theorem publicStep_pipeline (op : PublicOp T A) (p : ParachainBuilder T) :
    (publicStep P op p).2.pipeline = afterEvent (slotEvent P op p) p.pipeline := by
  have hnone : ∀ {op : PublicOp T A}, slotEvent P op p = none → Keeps pipeline (publicStep P op) →
      (publicStep P op p).2.pipeline = afterEvent (slotEvent P op p) p.pipeline := by
    intro op he hkeep
    rw [he]
    exact hkeep p
  have hcore : ∀ {α : Type} {c : Call (Builder T) Builder.Error α}, Keeps pipeline (core c) :=
    core_keeps fun _ _ ↦ rfl
  cases op with
  | para op =>
    cases op with
    | buildBlock H => exact buildBlock_pipeline H p
    | withMutState H exec =>
      exact hnone (ite_self _) (Keeps.map (Keeps.map (Keeps.mapErr hcore)))
    | importBlock H => exact importBlock_pipeline H p
    | judge H judgement => exact judge_pipeline H judgement p
  | withState H exec => exact hnone (ite_self _) (Keeps.map (Keeps.mapErr hcore))
  | withStateAt H at_ exec => exact hnone (ite_self _) (Keeps.map (Keeps.mapErr hcore))
  | appendExtrinsic H xt => exact hnone (ite_self _) (Keeps.map (Keeps.mapErr hcore))
  | appendExtrinsics H xts =>
    exact hnone (ite_self _) (Keeps.map (Keeps.mapErr
      (appendExtrinsics_frame (fun _ ↦ hcore) xts)))
  | appendTransition aux => exact hnone (ite_self _) (Keeps.map (Keeps.mapErr hcore))
  | nextBuild H =>
    exact hnone (ite_self _) (Keeps.map (Keeps.mapErr (Keeps.bind (Keeps.query _ _) fun _ ↦
      Keeps.bind (Keeps.read _) fun _ ↦ Keeps.bind hcore fun _ ↦
        Keeps.bind code_keeps fun _ ↦ Keeps.pure _)))
  | collation H pvd => exact hnone (ite_self _) (Keeps.map (collation_keeps pvd))

end ParachainBuilder

/-! ## One operation of the system -/

namespace World

variable {κ A : Type} [DecidableEq κ] {T : κ → Type} {R : RelayPrimitives}
  {P : ∀ k, Primitives (T k)}

/-- The slots and the imports of the builder `k`. -/
def pipeline (k : κ) (w : World κ (Builders T)) : Pipeline (Block × StorageProof) :=
  (w.collators k).pipeline

/-- The blocks of the builder `k` that are imported or pending, oldest first. -/
def blocks (k : κ) (w : World κ (Builders T)) : List (Block × StorageProof) :=
  (w.pipeline k).content

def Advances (p p' : Pipeline (Block × StorageProof)) : Prop :=
  p.first.isSome = true ∧ p' = Pipeline.apply .advance p

theorem advances_once {p p' : Pipeline (Block × StorageProof)} (h : ReflTransGen Advances p p') :
    p' = p ∨ Advances p p' := by
  induction h with
  | refl => exact Or.inl rfl
  | @tail b c _ hstep ih =>
    rcases ih with rfl | ⟨hsome, rfl⟩
    · exact Or.inr hstep
    · obtain ⟨build, hbuild⟩ := Option.isSome_iff_exists.mp hsome
      obtain ⟨hfirst, -⟩ := hstep
      simp [Pipeline.apply, hbuild] at hfirst

omit [DecidableEq κ] in
theorem advances_of_keeps {ε α : Type} {c : Call (World κ (Builders T)) ε α} (k : κ)
    (h : Keeps World.collators c) (w : World κ (Builders T)) : Walks Advances (pipeline k) c w :=
  Walks.of_keeps fun w ↦ congrArg (fun v : Builders T ↦ (v k).pipeline) (h w)

theorem enactAndJudge_advances {H : RelayHost} (hosts : ∀ k, ParaHost (T k)) (parent : Hash) (n : ℕ)
    (e : CollationEntry) (k : κ) (w : World κ (Builders T)) :
    Walks Advances (pipeline k) (enactAndJudge R H (fudgeCollators P hosts) parent n e) w := by
  obtain ⟨b, ⟨-, h | ⟨-, h | ⟨reg, h⟩⟩⟩ | ⟨-, reg, l, build, -, hslot, h⟩⟩ :=
    enactAndJudge_fudge_cases (R := R) (P := P) (H := H) hosts parent n e w
  · rw [Walks, h]
    exact ReflTransGen.refl
  · rw [Walks, h]
    exact ReflTransGen.refl
  · rw [Walks, h]
    exact ReflTransGen.refl
  · rw [Walks, h]
    change ReflTransGen Advances _ (Function.update w.collators l _ k).pipeline
    by_cases hk : k = l
    · subst hk
      rw [Function.update_self]
      refine ReflTransGen.single ⟨by simp [pipeline, ParachainBuilder.pipeline, hslot], ?_⟩
      change (ParachainBuilder.approvedBuilder build (w.collators k)).pipeline = _
      simp [pipeline, ParachainBuilder.pipeline, Pipeline.apply, hslot,
        ParachainBuilder.approvedBuilder, ParachainBuilder.setNextBlock,
        ParachainBuilder.setNextImport]
    · rw [Function.update_of_ne hk]
      exact ReflTransGen.refl

theorem forceEnactCollations_advances (H : RelayHost) (hosts : ∀ k, ParaHost (T k)) (k : κ)
    (w : World κ (Builders T)) :
    Walks Advances (pipeline k) (forceEnactCollations R H (fudgeCollators P hosts)) w := by
  refine Walks.read_bind (Keeps.read _) fun parent _ ↦ Walks.read_bind (Keeps.read _) fun n _ ↦
    Walks.read_bind (Keeps.read _) fun collations _ ↦ ?_
  refine Walks.bind (Walks.forEach (enactAndJudge_advances hosts parent n · k) _ w) fun _ v _ ↦ ?_
  -- the table is cleared
  exact advances_of_keeps k (fun _ ↦ rfl) v

/-- **An import of the relay chain advances a block of a builder, at most.** -/
theorem importBlock_advances (H : RelayHost) (hosts : ∀ k, ParaHost (T k)) (k : κ)
    (w : World κ (Builders T)) :
    Walks Advances (pipeline k) (importBlock R H (fudgeCollators P hosts)) w := by
  refine Walks.bind (advances_of_keeps k (relayCall_frame fun _ _ ↦ rfl) w) fun hd u _ ↦ ?_
  refine Walks.bind (forceEnactCollations_advances H hosts k u) fun _ v _ ↦ ?_
  exact advances_of_keeps k (Keeps.bind (Keeps.read _) fun _ ↦ Keeps.bind (Keeps.read _) fun _ ↦
    Keeps.forEach (collectFrom_keeps_collators _ hd) _) v

theorem publicStep_advances {op : PublicOp κ (Builders T) CollatorError A}
    (hop : UsesBuilders P op) (k : κ) (w : World κ (Builders T)) :
    Walks Advances (pipeline k) (publicStep R op) w := by
  have hrelay : ∀ {α : Type} (c : Call (RelaychainBuilder κ)
      (RelaychainBuilder.Error CollatorError) α), Walks Advances (pipeline k) (relayCall c) w :=
    fun _ ↦ advances_of_keeps k (relayCall_frame fun _ _ ↦ rfl) w
  cases op with
  | relay op =>
    cases op with
    | importBlock H C =>
      obtain ⟨hosts, rfl⟩ := hop
      exact importBlock_advances H hosts k w
    | collators f => exact absurd hop id
    | _ => exact hrelay _
  | _ => exact hrelay _

/-- What an operation does to the pipeline of the builder `k`. Of the relay chain it is the approval
of the block that is gone from the first slot. -/
def slotEvent (R : RelayPrimitives) (P : ∀ k, Primitives (T k)) (k : κ) (op : BuilderOp T A)
    (w : World κ (Builders T)) : Option (Pipeline.Event (Block × StorageProof)) :=
  match op with
  | .relay _ =>
    if (w.pipeline k).first.isSome ∧ ((builderStep R P op w).2.pipeline k).first = none then
      some .advance
    else none
  | .para l op => if k = l then ParachainBuilder.slotEvent (P l) op (w.collators l) else none

/-- **One operation is one event, at most.** -/
theorem builderStep_pipeline (k : κ) (op : BuilderOp T A) (w : World κ (Builders T))
    (hop : ∀ r, op = .relay r → UsesBuilders P r) :
    (builderStep R P op w).2.pipeline k = Pipeline.run (slotEvent R P k op w).toList
      (w.pipeline k) := by
  cases op with
  | relay op =>
    have hpath : ReflTransGen Advances (w.pipeline k)
        ((builderStep R P (.relay op) w).2.pipeline k) :=
      Walks.map (Walks.mapErr (publicStep_advances (hop op rfl) k w))
    rw [slotEvent]
    rcases advances_once hpath with hsame | ⟨hsome, hadvanced⟩
    · -- the first slot cannot be both full and empty
      rw [hsame, if_neg]
      · rfl
      · rintro ⟨hsome, hnone⟩
        rw [hnone] at hsome
        cases hsome
    · rw [hadvanced, if_pos]
      · rfl
      · refine ⟨hsome, ?_⟩
        obtain ⟨build, hbuild⟩ := Option.isSome_iff_exists.mp hsome
        simp [Pipeline.apply, hbuild]
  | para l op =>
    have hstep : (builderStep R P (.para l op) w).2 =
        w.withPara l (ParachainBuilder.publicStep (P l) op (w.collators l)).2 := onBuilder_snd _ _ w
    rw [slotEvent, hstep]
    change ((Function.update w.collators l _) k).pipeline = _
    by_cases hk : k = l
    · subst hk
      rw [Function.update_self, if_pos rfl]
      exact ParachainBuilder.publicStep_pipeline op (w.collators k)
    · rw [Function.update_of_ne hk, if_neg hk]
      rfl

/-! ## Runs -/

/-- The events in the pipeline of the builder `k` during a run. -/
def slotEvents (R : RelayPrimitives) (P : ∀ k, Primitives (T k)) (k : κ)
    (ops : List (BuilderOp T A)) (w : World κ (Builders T)) :
    List (Pipeline.Event (Block × StorageProof)) :=
  ledger (builderStep R P) (fun op w l ↦ l ++ (slotEvent R P k op w).toList) ops w []

/-- **A run of the system is a run of each pipeline.** -/
theorem run_pipeline (k : κ) (ops : List (BuilderOp T A)) (w : World κ (Builders T))
    (hops : ∀ r, .relay r ∈ ops → UsesBuilders P r) :
    (run (builderStep R P) ops w).pipeline k =
      Pipeline.run (slotEvents R P k ops w) (w.pipeline k) := by
  have hstep : ∀ (op : BuilderOp T A) (v : World κ (Builders T))
      (l : List (Pipeline.Event (Block × StorageProof))), (∀ r, op = .relay r → UsesBuilders P r) →
      v.pipeline k = Pipeline.run l (w.pipeline k) → (builderStep R P op v).2.pipeline k =
        Pipeline.run (l ++ (slotEvent R P k op v).toList) (w.pipeline k) := by
    intro op v l hop hl
    rw [builderStep_pipeline k op v hop, Pipeline.run_append, hl]
  exact run_ledger hstep ops (along_of_forall fun op hop _ r hr ↦ hops r (hr ▸ hop)) rfl

/-- The blocks that the builder `k` built in a run. -/
def built (R : RelayPrimitives) (P : ∀ k, Primitives (T k)) (k : κ) (ops : List (BuilderOp T A))
    (w : World κ (Builders T)) : List (Block × StorageProof) :=
  (slotEvents R P k ops w).flatMap gained

/-- The blocks of the builder `k` that were overwritten or rejected in a run. -/
def dropped (R : RelayPrimitives) (P : ∀ k, Primitives (T k)) (k : κ) (ops : List (BuilderOp T A))
    (w : World κ (Builders T)) : List (Block × StorageProof) :=
  losses (slotEvents R P k ops w) (w.pipeline k)

/-- **Blocks keep their order and none is made up or forgotten.** In every run of all builders the
imported and pending blocks of a parachain are a subsequence of those it had and those it built, and
what is missing was overwritten or rejected; so nothing is missing exactly if nothing was. -/
theorem blocks_conserved (k : κ) (ops : List (BuilderOp T A)) (w : World κ (Builders T))
    (hops : ∀ r, .relay r ∈ ops → UsesBuilders P r) :
    let w' := run (builderStep R P) ops w
    (w'.blocks k).Sublist (w.blocks k ++ built R P k ops w) ∧
      (w'.blocks k ++ dropped R P k ops w).Perm (w.blocks k ++ built R P k ops w) ∧
      (w'.blocks k = w.blocks k ++ built R P k ops w ↔ dropped R P k ops w = []) := by
  have hrun := run_pipeline (R := R) k ops w hops
  simp only [blocks, hrun]
  exact ⟨Pipeline.run_sublist _ _, Pipeline.run_perm _ _, Pipeline.run_complete_iff _ _⟩

def moveRelay : List (BuilderOp (fun _ : ℕ ↦ ℕ) Unit) :=
  [.relay (.relay (.buildBlock .reference)),
    .relay (.relay (.importBlock .reference
      (fudgeCollators (fun _ ↦ counter) fun _ ↦ .reference counter)))]

/-- A block is built, collated, approved and imported, and then two more are built. -/
def importOne : List (BuilderOp (fun _ : ℕ ↦ ℕ) Unit) :=
  .para 0 (.para (.buildBlock (.reference counter))) :: moveRelay ++ moveRelay ++
    [.para 0 (.para (.importBlock (.reference counter))),
      .para 0 (.para (.buildBlock (.reference counter))),
      .para 0 (.para (.buildBlock (.reference counter)))]

theorem blocks_conserved_importOne :
    (run (builderStep .reference fun _ ↦ counter) importOne reference).blocks 0 ≠
        reference.blocks 0 ++ built .reference (fun _ ↦ counter) 0 importOne reference ∧
      ((run (builderStep .reference fun _ ↦ counter) importOne reference).collators
        0).imports.length = 1 := by
  have hops : ∀ r, .relay r ∈ importOne → UsesBuilders (fun _ ↦ counter) r := by
    intro r hr
    simp only [importOne, moveRelay, List.cons_append, List.nil_append, List.mem_cons,
      List.not_mem_nil, or_false, reduceCtorEq, false_or, BuilderOp.relay.injEq] at hr
    rcases hr with rfl | rfl | rfl | rfl
    · trivial
    · exact ⟨_, rfl⟩
    · trivial
    · exact ⟨_, rfl⟩
  -- the last block was put over the one before it
  have hdropped : dropped .reference (fun _ ↦ counter) 0 importOne reference ≠ [] := by
    decide +kernel
  obtain ⟨-, -, hiff⟩ := blocks_conserved (R := .reference) 0 importOne reference hops
  exact ⟨fun h ↦ hdropped (hiff.mp h), by decide +kernel⟩

end World

end Fudge
