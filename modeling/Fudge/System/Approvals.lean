import Fudge.System.Builders

/-!
# From approval to import

`approve` writes the next-import slot of a builder, and the builder's own `import_block` drains it.
The slot holds one block, and neither side looks at the other: when the relay chain approves a
second block before the first one is imported, the first one is gone.

No block is lost in a run in which the relay chain imports a block only when every builder that is
due a verdict has drained its slot (`DrainsFirst`). Then the books balance at every moment: the
blocks approved for a builder are the ones it imported, in the same order, and the one in its slot.
This holds whatever fails on the way.
-/

namespace Fudge

namespace World

open Call
open RelaychainBuilder (IsFirst firstFor)

variable {κ : Type} [DecidableEq κ] {T : κ → Type} {R : RelayPrimitives}
  {P : ∀ k, Primitives (T k)}

/-- The block that an event approved for the builder `k`: the one in its next-block slot when it
took the verdict. -/
def approval? (regs : List (Id × κ)) (k : κ) : Event κ (Builders T) → Option (Block × StorageProof)
  | .judged reg _ true before _ =>
    if regs[reg]?.map Prod.snd = some k then (before k).blockStorage.nextBlock else none
  | _ => none

/-- The blocks approved for the builder `k`, in order. -/
def approvals (k : κ) (w : World κ (Builders T)) : List (Block × StorageProof) :=
  w.log.filterMap (approval? w.relay.parachains k)

theorem approvals_note (k : κ) (x : Event κ (Builders T)) (w : World κ (Builders T)) :
    (w.note x).approvals k = w.approvals k ++ (approval? w.relay.parachains k x).toList := by
  rw [approvals, note, List.filterMap_append]
  cases h : approval? w.relay.parachains k x <;> simp [approvals, h]

/-- When the relay chain imports a block, every builder that is due a verdict has an empty
next-import slot. -/
def DrainsFirst : SystemOp T → World κ (Builders T) → Prop
  | .relayImportBlock _ _, w => ∀ e ∈ w.relay.collations, ∀ k ∈ firstFor w.relay.parachains e.id,
      (w.collators k).blockStorage.nextImport = none
  | _, _ => True

instance : ∀ (op : SystemOp T) (w : World κ (Builders T)), Decidable (DrainsFirst op w)
  | .relayImportBlock _ _, w => inferInstanceAs (Decidable (∀ e ∈ w.relay.collations,
      ∀ k ∈ firstFor w.relay.parachains e.id, (w.collators k).blockStorage.nextImport = none))
  | .buildBlock _ _, _ => inferInstanceAs (Decidable True)
  | .importBlock _ _, _ => inferInstanceAs (Decidable True)
  | .reject _ _, _ => inferInstanceAs (Decidable True)
  | .relayBuildBlock _, _ => inferInstanceAs (Decidable True)

/-- The approved blocks are the imported ones and the one that waits. -/
structure Balanced (regs : List (Id × κ)) (v₀ : Builders T) (w : World κ (Builders T)) : Prop where
  registered : w.relay.parachains = regs
  balance : ∀ k, ∃ done, (w.collators k).imports = (v₀ k).imports ++ done ∧
    w.approvals k = done ++ (w.collators k).blockStorage.nextImport.toList

section Import

variable {regs : List (Id × κ)} {v₀ : Builders T} {H : RelayHost} {hosts : ∀ k, ParaHost (T k)}
  {w w' : World κ (Builders T)}

theorem Balanced.congr (h : Balanced regs v₀ w) (hp : w'.relay.parachains = w.relay.parachains)
    (ha : ∀ k, w'.approvals k = w.approvals k)
    (hv : ∀ k, (w'.collators k).imports = (w.collators k).imports ∧
      (w'.collators k).blockStorage.nextImport = (w.collators k).blockStorage.nextImport) :
    Balanced regs v₀ w' where
  registered := hp.trans h.registered
  balance k := by
    rw [ha, (hv k).1, (hv k).2]
    exact h.balance k

theorem Balanced.approved (h : Balanced regs v₀ w) {reg : ℕ} {k : κ} {e : CollationEntry}
    {build : Block × StorageProof} (hreg : regs[reg]? = some (e.id, k))
    (hslot : (w.collators k).blockStorage.nextBlock = some build)
    (hempty : (w.collators k).blockStorage.nextImport = none) :
    Balanced regs v₀ (w.approvedWorld reg k e build) where
  registered := h.registered
  balance l := by
    obtain ⟨done, himports, happrovals⟩ := h.balance l
    set v := Function.update w.collators k
      (ParachainBuilder.approvedBuilder build (w.collators k)) with hv
    have hold : approvals l { w with collators := v } = w.approvals l := rfl
    rw [approvedWorld, approvals_note, ← hv, hold, happrovals]
    change ∃ done', (v l).imports = _ ∧ _ = _ ++ (v l).blockStorage.nextImport.toList
    simp only [approval?, h.registered, hreg, Option.map_some, Option.some.injEq]
    rw [hv]
    by_cases hl : l = k
    · subst hl
      rw [if_pos rfl, hslot, hempty, Function.update_self]
      exact ⟨done, himports, by simp [ParachainBuilder.approvedBuilder,
        ParachainBuilder.setNextImport]⟩
    · refine ⟨done, ?_, ?_⟩
      · rw [Function.update_of_ne hl, himports]
      · rw [if_neg fun heq ↦ hl heq.symm, Function.update_of_ne hl]
        simp

/-- Every builder that has an entry in `rest` can take a verdict: its next-import slot is empty, or
there is nothing to approve any more. -/
def Takes (regs : List (Id × κ)) (rest : List CollationEntry) (w : World κ (Builders T)) : Prop :=
  ∀ e ∈ rest, ∀ k ∈ firstFor regs e.id, (w.collators k).blockStorage.nextImport = none ∨
    (w.collators k).blockStorage.nextBlock = none

theorem enactAndJudge_balanced {parent : Hash} {n : ℕ} {e : CollationEntry}
    {rest : List CollationEntry} :
    Triple (fun w ↦ Balanced regs v₀ w ∧ Takes regs (e :: rest) w)
      (enactAndJudge R H (fudgeCollators P hosts) parent n e)
      (fun _ w ↦ Balanced regs v₀ w ∧ Takes regs rest w) (Balanced regs v₀) := by
  rintro w ⟨hw, htakes⟩
  have henacted : ∀ b, Balanced regs v₀ (w.enactedWorld b e) := by
    intro b
    refine hw.congr rfl (fun l ↦ ?_) fun _ ↦ ⟨rfl, rfl⟩
    rw [enactedWorld, approvals_note]
    exact List.append_nil _
  obtain ⟨b, ⟨hno, h⟩ | ⟨-, reg, k, build, hfirst, hslot, hok⟩⟩ :=
    enactAndJudge_fudge_cases (R := R) (P := P) (H := H) hosts parent n e w
  · refine Triple.of_stopped hno ?_
    rcases h with h | ⟨-, h | ⟨reg, h⟩⟩
    · rw [h]
      exact hw.congr rfl (fun _ ↦ rfl) fun _ ↦ ⟨rfl, rfl⟩
    · rw [h]
      exact henacted b
    · rw [h]
      refine (henacted b).congr rfl (fun l ↦ ?_) fun _ ↦ ⟨rfl, rfl⟩
      rw [approvals_note]
      exact List.append_nil _
  · rw [hw.registered] at hfirst
    have hempty : (w.collators k).blockStorage.nextImport = none := by
      refine (htakes e List.mem_cons_self k hfirst.firstFor).resolve_right ?_
      rw [hslot]
      simp
    have happroved : Balanced regs v₀ ((w.enactedWorld b e).approvedWorld reg k e build) :=
      (henacted b).approved hfirst.1 hslot hempty
    refine Triple.of_returned hok ⟨happroved, fun e' he' l hl ↦ ?_⟩
    -- the slot that was just approved is empty now, the others are as they were
    change (Function.update w.collators k _ l).blockStorage.nextImport = none ∨
      (Function.update w.collators k _ l).blockStorage.nextBlock = none
    by_cases hlk : l = k
    · subst hlk
      rw [Function.update_self]
      exact Or.inr rfl
    · rw [Function.update_of_ne hlk]
      exact htakes e' (List.mem_cons_of_mem e he') l hl

theorem enactLoop_balanced (hw : Balanced regs v₀ w) (htakes : Takes regs w.relay.collations w) :
    Balanced regs v₀ (enactLoop R H (fudgeCollators P hosts) w).2 := by
  have hloop := Triple.forEach
    (f := enactAndJudge R H (fudgeCollators P hosts) w.relay.builder.chain.bestHash
      w.relay.builder.chain.bestNumber)
    (I := fun _ rest v ↦ Balanced regs v₀ v ∧ Takes regs rest v) (E := Balanced regs v₀)
    (fun _ _ _ ↦ enactAndJudge_balanced) w.relay.collations []
  rcases hloop.final ⟨hw, htakes⟩ with ⟨-, h, -⟩ | h
  · exact h
  · exact h

/-- The second loop approves nothing and leaves the builders alone. -/
theorem collectLoop_balanced (hd : Header) (hw : Balanced regs v₀ w) :
    Balanced regs v₀ (collectLoop R H (fudgeCollators P hosts) hd w).2 := by
  have hcollators : Keeps World.collators (forEach (collectFrom R H (fudgeCollators P hosts)
      w.relay.builder.chain.bestHash hd) w.relay.parachains.zipIdx) :=
    Keeps.forEach (fun q ↦ collectFrom_keeps_collators _ hd q) _
  have hbooks : Keeps (fun u : World κ (Builders T) ↦ (u.relay.parachains, fun k ↦ u.approvals k))
      (forEach (collectFrom R H (fudgeCollators P hosts) w.relay.builder.chain.bestHash hd)
        w.relay.parachains.zipIdx) := by
    refine Keeps.forEach (fun q ↦ collectFrom_keeps (fun _ _ ↦ rfl) ?_ ?_ _ hd q) _
    · intro reg id reply v u
      simp only [approvals_note]
      simp [note, approval?]
    · intro e u
      simp only [push, approvals_note]
      simp [note, approval?, approvals]
  obtain ⟨hp, ha⟩ := Prod.mk.inj (hbooks w)
  refine hw.congr hp (fun k ↦ congrFun ha k) fun k ↦ ?_
  have hv : (collectLoop R H (fudgeCollators P hosts) hd w).2.collators = w.collators :=
    hcollators w
  rw [hv]
  exact ⟨rfl, rfl⟩

theorem importBlock_balanced (hw : Balanced regs v₀ w)
    (hdrains : DrainsFirst (.relayImportBlock H hosts) w) :
    Balanced regs v₀ (importBlock R H (fudgeCollators P hosts) w).2 := by
  have hnext : ∀ u, (relayCall (RelaychainBuilder.importNext (ε := ParachainBuilder.CollatorError)
      H) w).2 = u → Balanced regs v₀ u ∧ Takes regs u.relay.collations u := by
    rintro u rfl
    obtain ⟨hp, hc⟩ := Prod.mk.inj
      (importNext_keeps_tables (ε := ParachainBuilder.CollatorError) (H := H) w)
    refine ⟨hw.congr hp (fun k ↦ ?_) fun _ ↦ ⟨rfl, rfl⟩, ?_⟩
    · rw [approvals, hp]
      rfl
    · rw [hc]
      intro e he k hk
      rw [← hw.registered] at hk
      exact Or.inl (hdrains e he k hk)
  rcases importBlock_cases (P := R) (H := H) (C := fudgeCollators P hosts) w with
    ⟨-, h⟩ | ⟨hd, u, hu, hcase⟩
  · rw [h]
    exact (hnext _ rfl).1
  · obtain ⟨hbalanced, htakes⟩ := hnext u (by rw [hu])
    have hloop : Balanced regs v₀ (enactLoop R H (fudgeCollators P hosts) u).2 :=
      enactLoop_balanced hbalanced htakes
    rcases hcase with ⟨-, -, h⟩ | ⟨-, h⟩
    · rw [h]
      exact hloop
    · rw [h]
      exact collectLoop_balanced hd (hloop.congr rfl (fun _ ↦ rfl) fun _ ↦ ⟨rfl, rfl⟩)

theorem Balanced.withPara (hw : Balanced regs v₀ w) {k : κ} {p : ParachainBuilder (T k)}
    (himports : p.imports = (w.collators k).imports)
    (hslot : p.blockStorage.nextImport = (w.collators k).blockStorage.nextImport) :
    Balanced regs v₀ (w.withPara k p) := by
  refine hw.congr rfl (fun _ ↦ rfl) fun l ↦ ?_
  rw [World.withPara]
  by_cases hl : l = k
  · subst hl
    simpa using And.intro himports hslot
  · simp only [Function.update_of_ne hl, and_self]

theorem Balanced.imported (hw : Balanced regs v₀ w) {k : κ} {next : Block × StorageProof}
    (hnext : (w.collators k).blockStorage.nextImport = some next) (b : Builder (T k)) :
    Balanced regs v₀ (w.withPara k (ParachainBuilder.importedBuilder next b (w.collators k))) where
  registered := hw.registered
  balance l := by
    obtain ⟨done, himports, happrovals⟩ := hw.balance l
    have hold : approvals l (w.withPara k
        (ParachainBuilder.importedBuilder next b (w.collators k))) = w.approvals l := rfl
    rw [hold, happrovals, World.withPara]
    by_cases hl : l = k
    · subst hl
      refine ⟨done ++ [next], ?_, ?_⟩
      · simp [ParachainBuilder.importedBuilder, ParachainBuilder.setNextImport, himports]
      · simp [ParachainBuilder.importedBuilder, ParachainBuilder.setNextImport, hnext]
    · refine ⟨done, ?_, ?_⟩
      · simp only [Function.update_of_ne hl, himports]
      · simp only [Function.update_of_ne hl]

theorem systemStep_balanced (op : SystemOp T) (w : World κ (Builders T)) (hop : DrainsFirst op w)
    (hw : Balanced regs v₀ w) : Balanced regs v₀ (systemStep R P op w).2 := by
  cases op with
  | buildBlock k H =>
    rw [buildBlock_snd]
    rcases ParachainBuilder.buildBlock_cases (P := P k) (H := H) (w.collators k) with
      ⟨hsame, -⟩ | ⟨_, _, _, _, b, -, -, -, ⟨hsame, -⟩ | ⟨-, hok⟩⟩
    · rw [hsame]
      exact hw.withPara rfl rfl
    · rw [hsame]
      exact hw.withPara rfl rfl
    · rw [hok]
      exact hw.withPara rfl rfl
  | importBlock k H =>
    rw [importBlock_snd]
    rcases ParachainBuilder.importBlock_cases (H := H) (w.collators k) with
      ⟨hsame, -⟩ | ⟨next, b, hnext, -, ⟨hsame, -⟩ | ⟨-, hok⟩⟩
    · rw [hsame]
      exact hw.withPara rfl rfl
    · rw [hsame]
      exact hw.withPara rfl rfl
    · rw [hok]
      exact hw.imported hnext b
  | reject k H =>
    rcases reject_snd_cases k H w with h | ⟨-, h⟩
    · rw [systemStep, h]
      exact hw
    · rw [systemStep, h]
      have hdropped : Balanced regs v₀
          (w.withPara k (ParachainBuilder.setNextBlock none (w.collators k))) :=
        hw.withPara rfl rfl
      refine hdropped.congr rfl (fun l ↦ ?_) fun _ ↦ ⟨rfl, rfl⟩
      rw [approvals_note]
      exact List.append_nil _
  | relayBuildBlock H =>
    obtain ⟨r, h, hp, -⟩ := relayBuildBlock_snd (R := R) (P := P) H w
    rw [h]
    refine hw.congr hp (fun k ↦ ?_) fun _ ↦ ⟨rfl, rfl⟩
    rw [approvals, hp]
    rfl
  | relayImportBlock H hosts =>
    rw [relayImportBlock_snd]
    exact importBlock_balanced hw hop

end Import

/-- **No approved block is lost or imported twice**, in every run in which the relay chain imports a
block only when the builders that are due a verdict have drained their slots: the blocks approved
for a builder are those it has imported since, in order, and the one that still waits. -/
theorem approved_blocks_imported {w₀ : World κ (Builders T)} (hlog : w₀.log = [])
    (hslots : ∀ k, (w₀.collators k).blockStorage.nextImport = none) (ops : List (SystemOp T))
    (h : Along (systemStep R P) DrainsFirst ops w₀) (k : κ) :
    ∃ done, ((run (systemStep R P) ops w₀).collators k).imports =
        (w₀.collators k).imports ++ done ∧
      (run (systemStep R P) ops w₀).approvals k =
        done ++ ((run (systemStep R P) ops w₀).collators k).blockStorage.nextImport.toList := by
  have hstart : Balanced w₀.relay.parachains w₀.collators w₀ := by
    refine ⟨rfl, fun l ↦ ⟨[], (List.append_nil _).symm, ?_⟩⟩
    rw [approvals, hlog, hslots]
    rfl
  exact (run_invariant systemStep_balanced ops h hstart).balance k

/-! ## An approved block that is lost -/

/-- A counting parachain that has imported a block. -/
def ahead : ParachainBuilder ℕ :=
  let built := (ParachainBuilder.buildBlock counter (.reference counter) (.counterBuilder 1)).2
  let approved := (ParachainBuilder.judge (.reference counter) .approved built).2
  (ParachainBuilder.importBlock (.reference counter) approved).2

/-- One parachain with two builders, of which number 0 is a block ahead of number 1. Both are
onboarded under the id 1 and the second one also under the id 2, each time with the head of the
second one. -/
def twoBuilders : World ℕ (Builders fun _ : ℕ ↦ ℕ) where
  relay := run (fun q : Id × ℕ ↦ RelaychainBuilder.onboardPara (ε := ParachainBuilder.CollatorError)
      .reference .reference
      ⟨q.1, ((ParachainBuilder.counterBuilder 1).bestHead counter).getD [], []⟩ q.2)
    [(1, 0), (1, 1), (2, 1)] (RelaychainBuilder.genesis ℕ)
  collators k := if k = 0 then ahead else .counterBuilder 1

/-- The second builder catches up. Its block is enacted under the id 1 too, where the verdict goes
to the first builder: so the relay chain takes another block on the same parent from the first
builder, before that has imported the block that was approved. -/
def approveTwice : List (SystemOp fun _ : ℕ ↦ ℕ) :=
  buildMarked 1 [] :: relayRound ++ buildMarked 0 [] :: relayRound ++
    buildMarked 0 [[1]] :: relayRound ++ relayRound ++ [.importBlock 0 (.reference counter)]

/-- Every call returns `Ok`, and the first block approved for the first builder is never
imported. -/
theorem approved_block_lost :
    let w := run (systemStep .reference fun _ ↦ counter) approveTwice twoBuilders
    Along (systemStep .reference fun _ ↦ counter)
        (fun op w ↦ (systemStep .reference (fun _ ↦ counter) op w).1.isOk = true)
        approveTwice twoBuilders ∧
      ∀ done, (w.collators 0).imports = (twoBuilders.collators 0).imports ++ done →
        ¬ done <+: w.approvals 0 := by
  intro w
  refine ⟨by decide +kernel, fun done hdone ↦ ?_⟩
  have himports : (w.collators 0).imports.drop (twoBuilders.collators 0).imports.length = done := by
    rw [hdone, List.drop_left]
  rw [← himports]
  decide +kernel

/-- The first block is imported before the second one is approved. -/
def importBetween : List (SystemOp fun _ : ℕ ↦ ℕ) :=
  buildMarked 0 [] :: relayRound ++ relayRound ++ [.importBlock 0 (.reference counter)] ++
    buildMarked 0 [[1]] :: relayRound ++ relayRound

/-- One of the two approved blocks is imported and the other one waits. -/
theorem approved_blocks_imported_importBetween :
    ((referenceRun importBetween).approvals 0).length = 2 ∧
      ∃ done, ((referenceRun importBetween).collators 0).imports =
          (reference.collators 0).imports ++ done ∧
        (referenceRun importBetween).approvals 0 =
          done ++ ((referenceRun importBetween).collators 0).blockStorage.nextImport.toList := by
  have hops : Along (systemStep .reference fun _ ↦ counter) DrainsFirst importBetween
      reference := by
    decide +kernel
  have hslots : ∀ k, (reference.collators k).blockStorage.nextImport = none := fun _ ↦ rfl
  refine ⟨by decide +kernel, ?_⟩
  rw [referenceRun]
  beta_reduce
  exact approved_blocks_imported rfl hslots importBetween hops 0

end World

end Fudge
