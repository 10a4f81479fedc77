import Fudge.Call.Run
import Fudge.Relay.Heads
import Fudge.System.Builders

/-!
# Agreement between the relay chain and its parachains

A collation is a snapshot of the block in a builder's next-block slot. It waits in the table of the
relay chain builder until the next import enacts it, and then `approve` moves *whatever is in the
slot by then*. In between, anybody may build another block over the one in the slot, or reject it.

The two sides agree in every run in which a slot is left alone while its builder is due a verdict
(`Guarded`): the invariant is that the slot of a due builder is empty or still holds the block the
collation was made of. The runs may fail at any point; a relay chain import that stops half way
leaves due builders with empty slots, which is why the invariant does not promise the block.

## Two builders under one id

The verdict goes to the first builder registered under an id. If only a later one has a block to
offer, the wrong slot is moved, so `Guarded` also asks that the first one has a block whenever a
later one does.
-/

namespace Fudge

namespace World

open Call
open RelaychainBuilder (IsFirst firstFor)
open ParachainBuilder (Collates CollatorError)

variable {κ : Type} {T : κ → Type} (R : RelayPrimitives)
  (P : ∀ k, Primitives (T k))

/-! ## The condition on a run -/

/-- The builder `k` is due a verdict: it is the first one registered for an id of the table. -/
def Due (w : World κ (Builders T)) (k : κ) : Prop :=
  ∃ e ∈ w.relay.collations, firstFor w.relay.parachains e.id = some k

instance [DecidableEq κ] (w : World κ (Builders T)) (k : κ) : Decidable (Due w k) := by
  unfold Due
  infer_instance

/-- The builder `k` has a block that no collation of the table stands for. -/
def Offers (w : World κ (Builders T)) (k : κ) : Prop :=
  (w.collators k).blockStorage.nextBlock.isSome = true ∧ ¬ Due w k

instance [DecidableEq κ] (w : World κ (Builders T)) (k : κ) : Decidable (Offers w k) := by
  unfold Offers
  infer_instance

/-- While a builder is due, no block of it is built or rejected; and when the relay chain imports a
block, the first builder under an id has a block to offer if any builder under it has. -/
def Guarded : SystemOp T → World κ (Builders T) → Prop
  | .buildBlock k H, w => Due w k →
      (ParachainBuilder.buildBlock (P k) H (w.collators k)).1.isOk = false
  | .reject k _, w => Due w k → (w.collators k).blockStorage.nextBlock = none
  | .relayImportBlock _ _, w => ∀ q ∈ w.relay.parachains, Offers w q.2 →
      ∀ k ∈ firstFor w.relay.parachains q.1, Offers w k
  | _, _ => True

instance [DecidableEq κ] : ∀ (op : SystemOp T) (w : World κ (Builders T)),
    Decidable (Guarded P op w)
  | .buildBlock k H, w => inferInstanceAs (Decidable (Due w k →
      (ParachainBuilder.buildBlock (P k) H (w.collators k)).1.isOk = false))
  | .importBlock _ _, _ => inferInstanceAs (Decidable True)
  | .reject k _, w =>
    inferInstanceAs (Decidable (Due w k → (w.collators k).blockStorage.nextBlock = none))
  | .relayBuildBlock _, _ => inferInstanceAs (Decidable True)
  | .relayImportBlock _ _, w => inferInstanceAs (Decidable (∀ q ∈ w.relay.parachains,
      Offers w q.2 → ∀ k ∈ firstFor w.relay.parachains q.1, Offers w k))

/-- The hosts of an operation keep the laws the agreement rests on. -/
def SystemOp.Lawful : SystemOp T → Prop
  | .relayImportBlock H hosts => H.toHost.Lawful R.toPrimitives ∧ ∀ k, (hosts k).Lawful (P k)
  | _ => True

/-! ## The invariant -/

/-- The collation of `e` was made of the block `build` when `k` had it in its slot, and `k` has not
rejected its block since. -/
def MadeOf (history : List (Event κ (Builders T))) (e : CollationEntry) (k : κ)
    (build : Block × StorageProof) : Prop :=
  ∃ before asked after,
    history = before ++ .polled e.producer e.id (some e.collation) asked :: after ∧
    (asked k).blockStorage.nextBlock = some build ∧ Collates (P k) build e.collation ∧
    .rejected k ∉ after

/-- What must have happened before an enactment, and before a verdict that was taken. -/
def Accounted (regs : List (Id × κ)) (past : List (Event κ (Builders T))) :
    Event κ (Builders T) → Prop
  | .enacted e head => ∃ k build, IsFirst regs e.id e.producer k ∧ MadeOf P past e k build ∧
      head = some ((P k).encode build.1.header)
  | .judged reg e true before after => ∃ k build, regs[reg]? = some (e.id, k) ∧
      MadeOf P past e k build ∧ (before k).blockStorage.nextBlock = some build ∧
      (after k).blockStorage.nextImport = some build ∧
      ∃ earlier, past = earlier ++ [.enacted e (some ((P k).encode build.1.header))]
  | _ => True

/-- The relay chain and the parachains agree. -/
structure Agreed (regs : List (Id × κ)) (w : World κ (Builders T)) : Prop where
  registered : w.relay.parachains = regs
  pending : ∀ e ∈ w.relay.collations, ∃ k build, IsFirst regs e.id e.producer k ∧
    MadeOf P w.log e k build ∧ ∀ b, (w.collators k).blockStorage.nextBlock = some b → b = build
  history : Justified (Accounted P regs) w.log

variable {R P}

theorem MadeOf.concat {history : List (Event κ (Builders T))} {e : CollationEntry} {k : κ}
    {build : Block × StorageProof} (h : MadeOf P history e k build) {x : Event κ (Builders T)}
    (hx : x ≠ .rejected k) : MadeOf P (history ++ [x]) e k build := by
  obtain ⟨before, asked, after, rfl, hslot, hcollates, hquiet⟩ := h
  refine ⟨before, asked, after ++ [x], by simp, hslot, hcollates, ?_⟩
  simp [hquiet, hx.symm]

namespace Agreed

variable {regs : List (Id × κ)} {w w' : World κ (Builders T)}

theorem due (h : Agreed P regs w) {e : CollationEntry} (he : e ∈ w.relay.collations) {k : κ}
    (hk : IsFirst regs e.id e.producer k) : Due w k :=
  ⟨e, he, by rw [h.registered]; exact hk.firstFor⟩

theorem note (h : Agreed P regs w) {x : Event κ (Builders T)} (hx : Accounted P regs w.log x)
    (hquiet : ∀ k, Due w k → x ≠ .rejected k) : Agreed P regs (w.note x) where
  registered := h.registered
  pending e he := by
    obtain ⟨k, build, hk, hmade, hslot⟩ := h.pending e he
    exact ⟨k, build, hk, hmade.concat (hquiet k (h.due he hk)), hslot⟩
  history := h.history.concat hx

/-- The slot of a due builder may be emptied, and the other slots may change in any way. -/
theorem slots (h : Agreed P regs w) (hp : w'.relay.parachains = w.relay.parachains)
    (hc : w'.relay.collations = w.relay.collations) (hl : w'.log = w.log)
    (hs : ∀ k, Due w k → (w'.collators k).blockStorage.nextBlock = none ∨
      (w'.collators k).blockStorage.nextBlock = (w.collators k).blockStorage.nextBlock) :
    Agreed P regs w' where
  registered := hp.trans h.registered
  pending e he := by
    rw [hc] at he
    obtain ⟨k, build, hk, hmade, hslot⟩ := h.pending e he
    refine ⟨k, build, hk, by rw [hl]; exact hmade, fun b hb ↦ ?_⟩
    rcases hs k (h.due he hk) with hnone | hsame
    · rw [hnone] at hb
      cases hb
    · exact hslot b (hsame ▸ hb)
  history := by
    rw [hl]
    exact h.history

theorem congr (h : Agreed P regs w) (hp : w'.relay.parachains = w.relay.parachains)
    (hc : w'.relay.collations = w.relay.collations) (hl : w'.log = w.log)
    (hv : w'.collators = w.collators) : Agreed P regs w' :=
  h.slots hp hc hl fun k _ ↦ Or.inr (by rw [hv])

theorem push (h : Agreed P regs w) {e : CollationEntry} {k : κ} {build : Block × StorageProof}
    (hk : IsFirst regs e.id e.producer k) (hmade : MadeOf P w.log e k build)
    (hslot : (w.collators k).blockStorage.nextBlock = some build) : Agreed P regs (w.push e) where
  registered := h.registered
  pending e' he' := by
    have hlog : (w.push e).log = w.log ++ [.collected e] := rfl
    rw [hlog]
    rcases List.mem_append.mp he' with he' | he'
    · obtain ⟨k', build', hk', hmade', hslot'⟩ := h.pending e' he'
      exact ⟨k', build', hk', hmade'.concat (by simp), hslot'⟩
    · obtain rfl := List.mem_singleton.mp he'
      exact ⟨k, build, hk, hmade.concat (by simp), fun b hb ↦ Option.some.inj (hb.symm.trans hslot)⟩
  history := h.history.concat trivial

end Agreed

/-! ## The first loop -/

section Import

variable {regs : List (Id × κ)} {H : RelayHost} {hosts : ∀ k, ParaHost (T k)}

theorem Agreed.enacted (hR : R.EnactsHeads) (hL : H.toHost.Lawful R.toPrimitives)
    {w : World κ (Builders T)} (h : Agreed P regs w) {parent : Hash} {n : ℕ} {e : CollationEntry}
    (he : e ∈ w.relay.collations) {b : Builder RelayStorage}
    (hby : EnactedBy CollatorError R H parent n e w.relay.builder b) :
    Agreed P regs (w.enactedWorld b e) := by
  have hb : Agreed P regs (w.withBuilder b) := h.congr rfl rfl rfl rfl
  obtain ⟨k, build, hk, hmade, -⟩ := hb.pending e he
  refine hb.note ⟨k, build, hk, hmade, ?_⟩ (by simp)
  obtain ⟨-, -, -, -, -, hcollates, -⟩ := hmade
  rw [EnactedBy.head hR hL hby, hcollates.headData]

variable [DecidableEq κ]

theorem Agreed.approved {w : World κ (Builders T)} {e : CollationEntry} {head : Option HeadData}
    (h : Agreed P regs (w.note (.enacted e head))) (he : e ∈ w.relay.collations) {reg : ℕ} {k : κ}
    (hfirst : IsFirst regs e.id reg k) {build : Block × StorageProof}
    (hslot : (w.collators k).blockStorage.nextBlock = some build) :
    Agreed P regs ((w.note (.enacted e head)).approvedWorld reg k e build) := by
  set u := w.note (.enacted e head) with hu
  have hmoved : Agreed P regs { u with
      collators := Function.update u.collators k
        (ParachainBuilder.approvedBuilder build (u.collators k)) } := by
    refine h.slots rfl rfl rfl fun k' _ ↦ ?_
    by_cases hk' : k' = k
    · subst hk'
      refine Or.inl ?_
      simp only [Function.update_self]
      rfl
    · exact Or.inr (by simp only [Function.update_of_ne hk'])
  refine hmoved.note ?_ (by simp)
  -- the block in the slot is the one the entry was made of
  obtain ⟨k', build', hk', hmade, hbuild⟩ := h.pending e he
  obtain ⟨rfl, rfl⟩ := hfirst.unique hk'
  obtain rfl := hbuild build hslot
  -- the enactment of the entry is the last event, and its head was accounted for
  obtain ⟨k'', build'', hk'', hmade'', rfl⟩ := h.history w.log _ [] (by rw [hu]; rfl)
  obtain ⟨-, rfl⟩ := hk'.unique hk''
  have hhead : (P k).encode build''.1.header = (P k).encode build.1.header := by
    obtain ⟨-, -, -, -, -, hcollates, -⟩ := hmade
    obtain ⟨-, -, -, -, -, hcollates'', -⟩ := hmade''
    rw [← hcollates.headData, hcollates''.headData]
  refine ⟨k, build, hk'.1, hmade, hslot, ?_, w.log, ?_⟩
  · simp only [Function.update_self]
    rfl
  · rw [← hhead]
    rfl

/-- The slots after the entries `done` were judged, and every verdict was taken. -/
def Drained (regs : List (Id × κ)) (done : List CollationEntry) (v v' : Builders T) : Prop :=
  ∀ k, ((∃ e ∈ done, firstFor regs e.id = some k) → (v' k).blockStorage.nextBlock = none) ∧
    ((¬ ∃ e ∈ done, firstFor regs e.id = some k) →
      (v' k).blockStorage.nextBlock = (v k).blockStorage.nextBlock)

theorem Drained.concat {done : List CollationEntry} {v v' : Builders T}
    (h : Drained regs done v v') {e : CollationEntry} {reg : ℕ} {k : κ}
    (hk : IsFirst regs e.id reg k) (build : Block × StorageProof) :
    Drained regs (done ++ [e]) v
      (Function.update v' k (ParachainBuilder.approvedBuilder build (v' k))) := by
  intro l
  have hiff : (∃ e' ∈ done ++ [e], firstFor regs e'.id = some l) ↔
      (∃ e' ∈ done, firstFor regs e'.id = some l) ∨ k = l := by
    simp [or_and_right, exists_or, hk.firstFor]
  rw [hiff]
  by_cases hl : l = k
  · subst hl
    rw [Function.update_self]
    exact ⟨fun _ ↦ rfl, fun hno ↦ absurd (Or.inr rfl) hno⟩
  · rw [Function.update_of_ne hl]
    refine ⟨fun hsome ↦ (h l).1 (hsome.resolve_right fun heq ↦ hl heq.symm), fun hno ↦ ?_⟩
    exact (h l).2 fun hsome ↦ hno (Or.inl hsome)

theorem enactAndJudge_agreed (hR : R.EnactsHeads) (hL : H.toHost.Lawful R.toPrimitives)
    {u : World κ (Builders T)} {parent : Hash} {n : ℕ} {done rest : List CollationEntry}
    {e : CollationEntry} :
    Triple
      (fun w ↦ done ++ e :: rest = u.relay.collations ∧ Agreed P regs w ∧
        w.relay.collations = u.relay.collations ∧ Drained regs done u.collators w.collators)
      (enactAndJudge R H (fudgeCollators P hosts) parent n e)
      (fun _ w ↦ (done ++ [e]) ++ rest = u.relay.collations ∧ Agreed P regs w ∧
        w.relay.collations = u.relay.collations ∧
        Drained regs (done ++ [e]) u.collators w.collators)
      (Agreed P regs) := by
  rintro w ⟨hsplit, hagreed, htable, hdrained⟩
  have he : e ∈ w.relay.collations := by
    rw [htable, ← hsplit]
    simp
  obtain ⟨b, ⟨hno, h⟩ | ⟨hby, reg, k, build, hfirst, hslot, hok⟩⟩ :=
    enactAndJudge_fudge_cases (R := R) (P := P) (H := H) hosts parent n e w
  · refine Triple.of_stopped hno ?_
    rcases h with h | ⟨hby, h | ⟨reg, h⟩⟩
    · rw [h]
      exact hagreed.congr rfl rfl rfl rfl
    · rw [h]
      exact hagreed.enacted hR hL he hby
    · rw [h]
      exact (hagreed.enacted hR hL he hby).note trivial (by simp)
  · rw [hagreed.registered] at hfirst
    have happroved : Agreed P regs ((w.enactedWorld b e).approvedWorld reg k e build) :=
      Agreed.approved (w := w.withBuilder b) (hagreed.enacted hR hL he hby) he hfirst hslot
    refine Triple.of_returned hok ⟨by simpa using hsplit, happroved, htable, ?_⟩
    exact hdrained.concat hfirst build

theorem enactLoop_agreed (hosts : ∀ k, ParaHost (T k)) (hR : R.EnactsHeads)
    (hL : H.toHost.Lawful R.toPrimitives) {w : World κ (Builders T)} (hw : Agreed P regs w) :
    Agreed P regs (enactLoop R H (fudgeCollators P hosts) w).2 ∧
      ((enactLoop R H (fudgeCollators P hosts) w).1.isOk = true →
        Drained regs w.relay.collations w.collators
          (enactLoop R H (fudgeCollators P hosts) w).2.collators) := by
  have hloop := Triple.forEach
    (f := enactAndJudge R H (fudgeCollators P hosts) w.relay.builder.chain.bestHash
      w.relay.builder.chain.bestNumber)
    (I := fun done rest v ↦ done ++ rest = w.relay.collations ∧ Agreed P regs v ∧
      v.relay.collations = w.relay.collations ∧ Drained regs done w.collators v.collators)
    (E := Agreed P regs)
    (fun _ _ _ ↦ enactAndJudge_agreed hR hL) w.relay.collations []
  have hstart : [] ++ w.relay.collations = w.relay.collations ∧ Agreed P regs w ∧
      w.relay.collations = w.relay.collations ∧ Drained regs [] w.collators w.collators :=
    ⟨rfl, hw, rfl, fun k ↦ ⟨by simp, fun _ ↦ rfl⟩⟩
  constructor
  · rcases hloop.final hstart with ⟨-, -, h, -⟩ | h
    · exact h
    · exact h
  · intro hok
    obtain ⟨a, ha⟩ := Outcome.isOk_iff.mp hok
    exact (hloop.ok hstart (Prod.ext ha rfl)).2.2.2

/-! ## The second loop -/

/-- A builder that adds an entry to the table is the first one registered under its id: if an
earlier one were, it would have had a block to offer, and the id would be in the table. -/
theorem isFirst_of_new {v : Builders T} {w : World κ (Builders T)}
    (hoffer : ∀ q ∈ regs, (v q.2).blockStorage.nextBlock.isSome = true →
      ∀ k ∈ firstFor regs q.1, (v k).blockStorage.nextBlock.isSome = true)
    {done rest : List ((Id × κ) × ℕ)} {id : Id} {k : κ} {reg : ℕ}
    (hsplit : done ++ ((id, k), reg) :: rest = regs.zipIdx) (hcovered : Covered done v w)
    (hsome : (v k).blockStorage.nextBlock.isSome = true)
    (hnew : ∀ e ∈ w.relay.collations, e.id ≠ id) : IsFirst regs id reg k := by
  have hreg : regs[reg]? = some (id, k) := by
    refine List.mk_mem_zipIdx_iff_getElem?.mp ?_
    rw [← hsplit]
    simp
  obtain ⟨first, l, hle, hfirst⟩ := RelaychainBuilder.exists_isFirst_le hreg
  obtain rfl : first = reg := by
    by_contra hne
    have hz : ((id, l), first) ∈ done ++ ((id, k), reg) :: rest := by
      rw [hsplit]
      exact List.mk_mem_zipIdx_iff_getElem?.mpr hfirst.1
    have hmem : ((id, l), first) ∈ done := by
      rcases List.mem_append.mp hz with hz | hz
      · exact hz
      · rcases List.mem_cons.mp hz with hz | hz
        · exact absurd (congrArg Prod.snd hz) hne
        · have hlt := (zipIdx_split hsplit).2 _ hz
          simp only at hlt
          omega
    have hsome := hoffer (id, k) (List.mem_of_getElem? hreg) hsome l hfirst.firstFor
    obtain ⟨e, he, hid⟩ := hcovered _ hmem hsome
    exact hnew e he hid
  obtain rfl : l = k := by
    have hboth := hfirst.1.symm.trans hreg
    simpa using hboth
  exact hfirst

theorem collectFrom_agreed (hhosts : ∀ k, (hosts k).Lawful (P k)) {v : Builders T}
    (hoffer : ∀ q ∈ regs, (v q.2).blockStorage.nextBlock.isSome = true →
      ∀ k ∈ firstFor regs q.1, (v k).blockStorage.nextBlock.isSome = true)
    {parent : Hash} {hd : Header} {done rest : List ((Id × κ) × ℕ)} {q : (Id × κ) × ℕ} :
    Triple
      (fun w ↦ done ++ q :: rest = regs.zipIdx ∧ Agreed P regs w ∧ w.collators = v ∧
        Covered done v w)
      (collectFrom R H (fudgeCollators P hosts) parent hd q)
      (fun _ w ↦ (done ++ [q]) ++ rest = regs.zipIdx ∧ Agreed P regs w ∧ w.collators = v ∧
        Covered (done ++ [q]) v w)
      (Agreed P regs) := by
  obtain ⟨⟨id, k⟩, reg⟩ := q
  rintro w ⟨hsplit, hagreed, rfl, hcovered⟩
  have hdone : (done ++ [((id, k), reg)]) ++ rest = regs.zipIdx := by simpa using hsplit
  have hpolled : ∀ reply, Agreed P regs (w.note (.polled reg id reply w.collators)) :=
    fun _ ↦ hagreed.note trivial (by simp)
  rcases collectFrom_fudge_cases (R := R) (P := P) (H := H) hosts parent hd id k reg w with
    ⟨h, hno⟩ | ⟨hslot, h⟩ | ⟨build, c, hslot, hcollates, h⟩
  · refine Triple.of_stopped hno ?_
    rw [h]
    exact hagreed
  · refine Triple.of_returned h ⟨hdone, hpolled none, rfl,
      hcovered.concat (fun e he ↦ he) fun hsome ↦ ?_⟩
    rw [hslot] at hsome
    cases hsome
  · refine Triple.of_returned h ?_
    rcases collect_cases hd reg id c (w.note (.polled reg id (some c) w.collators)) with
      ⟨hold, hcollect⟩ | ⟨hnew, hcollect⟩
    · rw [hcollect]
      exact ⟨hdone, hpolled _, rfl, hcovered.concat (fun e he ↦ he) fun _ ↦ hold⟩
    · rw [hcollect]
      -- a new entry is judged by the first builder under its id, which is this one
      have hfirst : IsFirst regs id reg k :=
        isFirst_of_new hoffer hsplit hcovered (by rw [hslot]; rfl) hnew
      refine ⟨hdone, ?_, rfl, hcovered.concat (fun e he ↦ List.mem_append_left _ he)
        fun _ ↦ ⟨_, List.mem_append_right _ (List.mem_singleton_self _), rfl⟩⟩
      exact (hpolled _).push hfirst
        ⟨w.log, w.collators, [], rfl, hslot, hcollates (hhosts k), by simp⟩ hslot

theorem collectLoop_agreed (hhosts : ∀ k, (hosts k).Lawful (P k)) (hd : Header)
    {w : World κ (Builders T)} (hw : Agreed P regs w)
    (hoffer : ∀ q ∈ regs, (w.collators q.2).blockStorage.nextBlock.isSome = true →
      ∀ k ∈ firstFor regs q.1, (w.collators k).blockStorage.nextBlock.isSome = true) :
    Agreed P regs (collectLoop R H (fudgeCollators P hosts) hd w).2 := by
  have hloop := Triple.forEach
    (f := collectFrom R H (fudgeCollators P hosts) w.relay.builder.chain.bestHash hd)
    (I := fun done rest u ↦ done ++ rest = regs.zipIdx ∧ Agreed P regs u ∧
      u.collators = w.collators ∧ Covered done w.collators u)
    (E := Agreed P regs)
    (fun _ _ _ ↦ collectFrom_agreed hhosts hoffer) regs.zipIdx []
  have hstart : [] ++ regs.zipIdx = regs.zipIdx ∧ Agreed P regs w ∧ w.collators = w.collators ∧
      Covered [] w.collators w :=
    ⟨rfl, hw, rfl, fun q hq ↦ absurd hq List.not_mem_nil⟩
  rw [collectLoop, hw.registered]
  rcases hloop.final hstart with ⟨-, -, h, -⟩ | h
  · exact h
  · exact h

/-! ## Imports and runs -/

theorem importBlock_agreed (hR : R.EnactsHeads) (hL : H.toHost.Lawful R.toPrimitives)
    (hhosts : ∀ k, (hosts k).Lawful (P k)) {w : World κ (Builders T)} (hw : Agreed P regs w)
    (hguard : Guarded P (.relayImportBlock H hosts) w) :
    Agreed P regs (importBlock R H (fudgeCollators P hosts) w).2 := by
  have hnext : ∀ u, (relayCall (ε := CollatorError) (RelaychainBuilder.importNext H) w).2 = u →
      Agreed P regs u ∧ u.relay.collations = w.relay.collations ∧ u.collators = w.collators := by
    rintro u rfl
    obtain ⟨hp, hc⟩ := Prod.mk.inj (importNext_keeps_tables (ε := CollatorError) (H := H) w)
    exact ⟨hw.congr hp hc rfl rfl, hc, rfl⟩
  rcases importBlock_cases (P := R) (H := H) (C := fudgeCollators P hosts) w with
    ⟨-, h⟩ | ⟨hd, u, hu, hcase⟩
  · rw [h]
    exact (hnext _ rfl).1
  · obtain ⟨hagreed, htable, hslots⟩ := hnext u (by rw [hu])
    obtain ⟨hloop, hdrained⟩ := enactLoop_agreed hosts hR hL hagreed
    rcases hcase with ⟨-, -, h⟩ | ⟨hok, h⟩
    · rw [h]
      exact hloop
    · rw [h]
      have hcleared : Agreed P regs (enactLoop R H (fudgeCollators P hosts) u).2.cleared := by
        refine ⟨hloop.registered, fun e he ↦ ?_, hloop.history⟩
        exact absurd he List.not_mem_nil
      refine collectLoop_agreed hhosts hd hcleared ?_
      -- the slots are the old ones, without those of the builders that were due
      have hslot : ∀ k, ((enactLoop R H (fudgeCollators P hosts) u).2.cleared.collators
          k).blockStorage.nextBlock.isSome = true ↔ Offers w k := by
        intro k
        have hdue : Due w k ↔ ∃ e ∈ u.relay.collations, firstFor regs e.id = some k := by
          rw [Due, htable, hw.registered]
        rw [Offers, hdue, ← hslots]
        obtain ⟨hempty, hsame⟩ := hdrained hok k
        change (((enactLoop R H (fudgeCollators P hosts) u).2.collators
          k).blockStorage.nextBlock.isSome = true ↔ _)
        by_cases hk : ∃ e ∈ u.relay.collations, firstFor regs e.id = some k
        · rw [hempty hk]
          simp [hk]
        · rw [hsame hk]
          simp [hk]
      intro q hq hsome k hk
      rw [← hw.registered] at hq hk
      exact (hslot k).mpr (hguard q hq ((hslot q.2).mp hsome) k hk)

theorem Agreed.withPara {w : World κ (Builders T)} (h : Agreed P regs w) {k : κ}
    {p : ParachainBuilder (T k)} (hp : Due w k → p.blockStorage.nextBlock = none ∨
      p.blockStorage.nextBlock = (w.collators k).blockStorage.nextBlock) :
    Agreed P regs (w.withPara k p) := by
  refine h.slots rfl rfl rfl fun l hl ↦ ?_
  rw [World.withPara]
  by_cases hlk : l = k
  · subst hlk
    simpa using hp hl
  · exact Or.inr (by simp only [Function.update_of_ne hlk])

theorem systemStep_agreed (hR : R.EnactsHeads) (op : SystemOp T) (w : World κ (Builders T))
    (hop : SystemOp.Lawful R P op ∧ Guarded P op w) (hw : Agreed P regs w) :
    Agreed P regs (systemStep R P op w).2 := by
  obtain ⟨hL, hguard⟩ := hop
  cases op with
  | buildBlock k H =>
    rw [buildBlock_snd]
    refine hw.withPara fun hdue ↦ Or.inr ?_
    -- the builder is due, so the call failed, and it failed before it wrote to the slot
    have hno := hguard hdue
    rcases ParachainBuilder.buildBlock_cases (P := P k) (H := H) (w.collators k) with
      ⟨hsame, -⟩ | ⟨_, _, _, _, b, -, -, -, ⟨hsame, -⟩ | ⟨-, hok⟩⟩
    · rw [hsame]
    · rw [hsame]
    · rw [hok] at hno
      cases hno
  | importBlock k H =>
    rw [importBlock_snd]
    refine hw.withPara fun _ ↦ Or.inr ?_
    rcases ParachainBuilder.importBlock_cases (H := H) (w.collators k) with
      ⟨hsame, -⟩ | ⟨_, b, -, -, ⟨hsame, -⟩ | ⟨-, hok⟩⟩
    · rw [hsame]
    · rw [hsame]
    · rw [hok]
      rfl
  | reject k H =>
    rcases reject_snd_cases k H w with h | ⟨⟨build, hslot⟩, h⟩
    · rw [systemStep, h]
      exact hw
    · rw [systemStep, h]
      have hidle : ¬ Due w k := by
        intro hdue
        have hnone := hguard hdue
        rw [hslot] at hnone
        cases hnone
      refine (hw.withPara fun hdue ↦ absurd hdue hidle).note trivial ?_
      rintro l hl heq
      obtain rfl : k = l := by simpa using heq
      exact hidle hl
  | relayBuildBlock H =>
    obtain ⟨r, h, hp, hc⟩ := relayBuildBlock_snd (R := R) (P := P) H w
    rw [h]
    exact hw.congr hp hc rfl rfl
  | relayImportBlock H hosts =>
    rw [relayImportBlock_snd]
    exact importBlock_agreed hR hL.1 hL.2 hw hguard

end Import

variable [DecidableEq κ]

/-- **Agreement between the relay chain and its parachains.** In every run that leaves the slot of a
due builder alone, a verdict that is taken moves the block from which its collation was made into
the next-import slot, right after the head of that block was enacted, and whatever is enacted was
made of a block that its builder has not rejected since. -/
theorem approved_block_collated (hR : R.EnactsHeads) {w₀ : World κ (Builders T)}
    (htable : w₀.relay.collations = []) (hlog : w₀.log = []) (ops : List (SystemOp T))
    (h : Along (systemStep R P) (fun op w ↦ SystemOp.Lawful R P op ∧ Guarded P op w) ops w₀) :
    (∀ past reg e before after rest,
      (run (systemStep R P) ops w₀).log = past ++ .judged reg e true before after :: rest →
        ∃ k build, w₀.relay.parachains[reg]? = some (e.id, k) ∧ MadeOf P past e k build ∧
          (before k).blockStorage.nextBlock = some build ∧
          (after k).blockStorage.nextImport = some build ∧
          ∃ earlier, past = earlier ++ [.enacted e (some ((P k).encode build.1.header))]) ∧
    (∀ past e head rest,
      (run (systemStep R P) ops w₀).log = past ++ .enacted e head :: rest →
        ∃ k build, MadeOf P past e k build ∧ head = some ((P k).encode build.1.header)) := by
  have hw : Agreed P w₀.relay.parachains (run (systemStep R P) ops w₀) := by
    refine run_invariant (systemStep_agreed hR) ops h ⟨rfl, ?_, ?_⟩
    · rw [htable]
      exact fun e he ↦ absurd he List.not_mem_nil
    · rw [hlog]
      exact Justified.nil
  refine ⟨fun past reg e before after rest hsplit ↦ hw.history past _ rest hsplit, ?_⟩
  intro past e head rest hsplit
  obtain ⟨k, build, -, hmade, hhead⟩ := hw.history past _ rest hsplit
  exact ⟨k, build, hmade, hhead⟩

/-! ## A collation that is not of the approved block -/

/-- A second block is built while the collation of the first one waits to be enacted. -/
def buildTwice : List (SystemOp fun _ : ℕ ↦ ℕ) :=
  buildMarked 0 [] :: relayRound ++ buildMarked 0 [[1]] :: relayRound

/-- The approved block has another header than the collation. -/
def mismatched : Event ℕ (Builders fun _ : ℕ ↦ ℕ) → Bool
  | .judged 0 e true _ after => (after 0).blockStorage.nextImport.any
      fun b ↦ b.1.header != e.collation.proofOfValidity.header
  | _ => false

/-- The relay chain enacts the first block and the parachain is approved for the second. -/
theorem approved_block_overwritten :
    Along (systemStep .reference fun _ ↦ counter)
        (fun op w ↦ (systemStep .reference (fun _ ↦ counter) op w).1.isOk = true)
        buildTwice reference ∧
      ¬ ∀ past reg e before after rest,
        (referenceRun buildTwice).log = past ++ .judged reg e true before after :: rest →
          ∃ k build, reference.relay.parachains[reg]? = some (e.id, k) ∧
            MadeOf (fun _ ↦ counter) past e k build ∧
            (after k).blockStorage.nextImport = some build := by
  refine ⟨?_, fun hall ↦ ?_⟩
  · decide +kernel
  · have hsome : ∃ event ∈ (referenceRun buildTwice).log, mismatched event = true := by
      decide +kernel
    obtain ⟨event, hmem, hevent⟩ := hsome
    obtain ⟨past, rest, hsplit⟩ := List.append_of_mem hmem
    match event, hevent with
    | .judged 0 e true before after, hevent =>
      obtain ⟨k, build, hk, ⟨_, _, _, -, -, hcollates, -⟩, himport⟩ :=
        hall past 0 e before after rest hsplit
      have hregs : reference.relay.parachains[0]? = some (1, 0) := by decide +kernel
      obtain ⟨-, rfl⟩ : e.id = 1 ∧ k = 0 := by
        simpa [hregs, eq_comm] using hk
      simp [mismatched, himport, hcollates.header] at hevent

/-- The next block is built once the first one is approved. -/
def buildAfter : List (SystemOp fun _ : ℕ ↦ ℕ) :=
  buildMarked 0 [] :: relayRound ++ relayRound ++
    [.importBlock 0 (.reference counter), buildMarked 0 [[1]]]

def judgedTaken : Event ℕ (Builders fun _ : ℕ ↦ ℕ) → Bool
  | .judged _ _ taken _ _ => taken
  | _ => false

theorem approved_block_collated_buildAfter :
    ∃ reg e before after past rest,
      (referenceRun buildAfter).log = past ++ .judged reg e true before after :: rest ∧
      ∃ k build, reference.relay.parachains[reg]? = some (e.id, k) ∧
        MadeOf (fun _ ↦ counter) past e k build ∧
        (after k).blockStorage.nextImport = some build := by
  have hrelay : RelayHost.reference.toHost.Lawful RelayPrimitives.reference.toPrimitives :=
    Host.reference_lawful _
  have hL : ∀ op ∈ buildAfter, SystemOp.Lawful .reference (fun _ : ℕ ↦ counter) op := by
    simp [buildAfter, buildMarked, relayRound, SystemOp.Lawful, hrelay, ParaHost.reference_lawful]
  have hguarded : Along (systemStep .reference fun _ ↦ counter) (Guarded fun _ ↦ counter)
      buildAfter reference := by
    decide +kernel
  have hops : Along (systemStep .reference fun _ ↦ counter) (fun op w ↦
      SystemOp.Lawful .reference (fun _ ↦ counter) op ∧ Guarded (fun _ ↦ counter) op w)
      buildAfter reference :=
    Along.and (along_of_forall fun op hop _ ↦ hL op hop) hguarded
  have hsome : ∃ event ∈ (referenceRun buildAfter).log, judgedTaken event = true := by
    decide +kernel
  obtain ⟨event, hmem, hevent⟩ := hsome
  obtain ⟨past, rest, hsplit⟩ := List.append_of_mem hmem
  cases event with
  | judged reg e taken before after =>
    obtain rfl : taken = true := hevent
    obtain ⟨k, build, hk, hmade, -, himport, -⟩ := (approved_block_collated
      RelayPrimitives.reference_enactsHeads (by decide +kernel) (by rfl) buildAfter hops).1
        past reg e before after rest hsplit
    exact ⟨reg, e, before, after, past, rest, hsplit, k, build, hk, hmade, himport⟩
  | _ => cases hevent

end World

end Fudge
