import Fudge.Relay.Written
import Fudge.System.Builders

/-!
# The heads that builders offer

When the relay chain builder asks for a collation, the builder that answers has a block in its
next-block slot, and the head of the collation is that block's header. The history says who was
asked and which blocks the builders had then, so the heads that a builder has ever offered can be
read off it.

If every collator with a block to offer is registered under the right id, then so is every entry of
the table: its head was offered by the builder that the id stands for. Which id stands for which
builder is a parameter here.
-/

namespace Fudge

open Call

namespace World

open ParachainBuilder (CollatorError Collates)
open RelaychainBuilder (IsFirst)

variable {κ : Type} {T : κ → Type} {R : RelayPrimitives}
  {P : ∀ k, Primitives (T k)} {H : RelayHost} {hosts : ∀ k, ParaHost (T k)}
  {F : Id → κ → Prop} {w w' : World κ (Builders T)}

/-! ## Later worlds -/

/-- The world `w'` has the registrations of `w` and a longer history. -/
structure Later (w w' : World κ (Builders T)) : Prop where
  parachains : w'.relay.parachains = w.relay.parachains
  log : w.log <+: w'.log

theorem Later.refl (w : World κ (Builders T)) : Later w w := ⟨rfl, List.prefix_rfl⟩

theorem Later.trans {w'' : World κ (Builders T)} (h : Later w w') (h' : Later w' w'') :
    Later w w'' :=
  ⟨h'.parachains.trans h.parachains, h.log.trans h'.log⟩

theorem Later.note (h : Later w w') (e : Event κ (Builders T)) : Later w (w'.note e) :=
  ⟨h.parachains, h.log.trans (List.prefix_append _ _)⟩

theorem Later.push (h : Later w w') (e : CollationEntry) : Later w (w'.push e) :=
  ⟨h.parachains, h.log.trans (List.prefix_append _ _)⟩

/-- The world `w'` is `w` after some verdicts: blocks may have left the next-block slots, and the
table is what it was. -/
structure Vacated (w w' : World κ (Builders T)) : Prop extends Later w w' where
  collations : w'.relay.collations = w.relay.collations
  slots : ∀ k, (w.collators k).blockStorage.nextBlock = none →
    (w'.collators k).blockStorage.nextBlock = none

theorem Vacated.relay (h : Vacated w w') {r : RelaychainBuilder κ}
    (hregs : r.parachains = w'.relay.parachains) (htable : r.collations = w'.relay.collations) :
    Vacated w { w' with relay := r } :=
  ⟨⟨hregs.trans h.parachains, h.log⟩, htable.trans h.collations, h.slots⟩

theorem Vacated.note (h : Vacated w w') (e : Event κ (Builders T)) : Vacated w (w'.note e) :=
  ⟨h.toLater.note e, h.collations, h.slots⟩

/-- Every collator that has a block to offer is registered under an id that stands for it. -/
def OffersUnder (F : Id → κ → Prop) (w : World κ (Builders T)) : Prop :=
  ∀ q ∈ w.relay.parachains, F q.1 q.2 ∨ (w.collators q.2).blockStorage.nextBlock = none

theorem OffersUnder.vacated (h : OffersUnder F w) (hw : Vacated w w') : OffersUnder F w' := by
  intro q hq
  rw [hw.parachains] at hq
  exact (h q hq).imp_right (hw.slots q.2)

variable [DecidableEq κ]

/-! ## Offers -/

/-- The head that the builder `k` offered, if it is the one that was asked and had a block. -/
def offeredHead? (P : ∀ k, Primitives (T k)) (parachains : List (Id × κ)) (k : κ) :
    Event κ (Builders T) → Option HeadData
  | .polled reg _ (some _) asked =>
    if (parachains[reg]?).map Prod.snd = some k then
      ((asked k).blockStorage.nextBlock).map fun next ↦ (P k).encode next.1.header
    else none
  | _ => none

/-- The heads that the builder `k` has offered so far. -/
def offeredHeads (P : ∀ k, Primitives (T k)) (w : World κ (Builders T)) (k : κ) : List HeadData :=
  w.log.filterMap (offeredHead? P w.relay.parachains k)

theorem Later.offeredHeads (h : Later w w') {k : κ} {head : HeadData}
    (hoffered : head ∈ w.offeredHeads P k) : head ∈ w'.offeredHeads P k := by
  rw [World.offeredHeads, h.parachains]
  exact (h.log.sublist.filterMap _).subset hoffered

theorem mem_offeredHeads_note {reg : ℕ} {id : Id} {k : κ} {c : Collation}
    {build : Block × StorageProof} (hreg : w.relay.parachains[reg]? = some (id, k))
    (hslot : (w.collators k).blockStorage.nextBlock = some build) (hc : Collates (P k) build c) :
    c.headData ∈ (w.note (.polled reg id (some c) w.collators)).offeredHeads P k := by
  refine List.mem_filterMap.mpr
    ⟨.polled reg id (some c) w.collators, List.mem_append_right _ List.mem_cons_self, ?_⟩
  have hasked : (w.relay.parachains[reg]?).map Prod.snd = some k := by rw [hreg]; rfl
  change (if (w.relay.parachains[reg]?).map Prod.snd = some k then _ else none) = _
  rw [if_pos hasked, hslot, hc.headData]
  rfl

/-! ## Verdicts -/

/-- A builder that takes an approval has no block to offer any more. -/
theorem Vacated.approvedWorld (h : Vacated w w') (reg : ℕ) (k : κ) (e : CollationEntry)
    (build : Block × StorageProof) : Vacated w (w'.approvedWorld reg k e build) := by
  refine ⟨⟨h.parachains, h.log.trans (List.prefix_append _ _)⟩, h.collations, fun j hj ↦ ?_⟩
  change ((Function.update w'.collators k _) j).blockStorage.nextBlock = none
  by_cases heq : j = k
  · subst heq
    rw [Function.update_self]
    rfl
  · rw [Function.update_of_ne heq]
    exact h.slots j hj

theorem enactAndJudge_vacated (parent : Hash) (n : ℕ) (e : CollationEntry) :
    Preserves (Vacated w) (enactAndJudge R H (fudgeCollators P hosts) parent n e) := by
  intro v hv
  have henacted : ∀ b, Vacated w (v.enactedWorld b e) :=
    fun b ↦ Vacated.note (show Vacated w (v.withBuilder b) from hv.relay rfl rfl) _
  obtain ⟨b, ⟨-, h | ⟨-, h | ⟨reg, h⟩⟩⟩ | ⟨-, reg, k, build, -, -, h⟩⟩ :=
    enactAndJudge_fudge_cases (R := R) (P := P) (H := H) hosts parent n e v
  · rw [h]
    exact hv.relay rfl rfl
  · rw [h]
    exact henacted b
  · rw [h]
    exact (henacted b).note _
  · rw [h]
    exact (henacted b).approvedWorld reg k e build

/-- **An import up to its second loop**, which starts with an empty table. -/
theorem importBlock_vacated (hosts : ∀ k, ParaHost (T k)) (w : World κ (Builders T)) :
    ((importBlock R H (fudgeCollators P hosts) w).1.isOk = false ∧
        Vacated w (importBlock R H (fudgeCollators P hosts) w).2) ∨
      ∃ hd v, Vacated w v ∧ importBlock R H (fudgeCollators P hosts) w =
        collectLoop R H (fudgeCollators P hosts) hd v.cleared := by
  have hnext : Vacated w
      (relayCall (ε := CollatorError) (RelaychainBuilder.importNext H) w).2 := by
    obtain ⟨hregs, htable⟩ :=
      Prod.mk.inj (importNext_keeps_tables (ε := CollatorError) (H := H) w)
    exact Vacated.relay ⟨Later.refl w, rfl, fun _ hk ↦ hk⟩ hregs htable
  rcases importBlock_cases (P := R) (H := H) (C := fudgeCollators P hosts) w with
    ⟨⟨hno, -⟩, hstop⟩ | ⟨hd, u, hu, hcase⟩
  · rw [hstop]
    exact Or.inl ⟨hno, hnext⟩
  · rw [hu] at hnext
    have hloop : Vacated w (enactLoop R H (fudgeCollators P hosts) u).2 :=
      Preserves.forEach (fun e _ ↦ enactAndJudge_vacated _ _ e) u hnext
    rcases hcase with ⟨-, hno, hstop⟩ | ⟨-, h⟩
    · rw [hstop]
      exact Or.inl ⟨hno, hloop⟩
    · exact Or.inr ⟨hd, _, hloop, h⟩

/-! ## The table -/

/-- Every entry of the table has a head that was offered by the builder its id stands for. -/
def TableOffered (P : ∀ k, Primitives (T k)) (F : Id → κ → Prop) (w : World κ (Builders T)) :
    Prop :=
  ∀ e ∈ w.relay.collations, ∃ k, F e.id k ∧ e.collation.headData ∈ w.offeredHeads P k

theorem TableOffered.later (h : TableOffered P F w) (hw : Later w w')
    (htable : w'.relay.collations = w.relay.collations) : TableOffered P F w' := by
  intro e he
  obtain ⟨k, hk, hoffered⟩ := h e (htable ▸ he)
  exact ⟨k, hk, hw.offeredHeads hoffered⟩

theorem TableOffered.push (h : TableOffered P F w) {e : CollationEntry} {k : κ} (hk : F e.id k)
    (hoffered : e.collation.headData ∈ w.offeredHeads P k) : TableOffered P F (w.push e) := by
  have hpushed := (Later.refl w).push e
  intro e' he'
  rcases List.mem_append.mp he' with he' | he'
  · obtain ⟨j, hj, hj'⟩ := h e' he'
    exact ⟨j, hj, hpushed.offeredHeads hj'⟩
  · obtain rfl := List.mem_singleton.mp he'
    exact ⟨k, hk, hpushed.offeredHeads hoffered⟩

theorem collectFrom_offered (hL : ∀ k, (hosts k).Lawful (P k)) (parent : Hash) (hd : Header)
    {q : (Id × κ) × ℕ} (hq : q ∈ w.relay.parachains.zipIdx) :
    Preserves (fun v ↦ OffersUnder F v ∧ TableOffered P F v ∧ Later w v)
      (collectFrom R H (fudgeCollators P hosts) parent hd q) := by
  rintro v ⟨hv, htable, hlater⟩
  obtain ⟨⟨id, k⟩, reg⟩ := q
  have hreg : v.relay.parachains[reg]? = some (id, k) := by
    rw [hlater.parachains]
    exact List.mk_mem_zipIdx_iff_getElem?.mp hq
  rcases collectFrom_fudge_cases (R := R) (P := P) (H := H) hosts parent hd id k reg v with
    ⟨h, -⟩ | ⟨-, h⟩ | ⟨build, c, hslot, hcollates, h⟩
  · rw [h]
    exact ⟨hv, htable, hlater⟩
  · rw [h]
    exact ⟨hv, htable.later ((Later.refl v).note _) rfl, hlater.note _⟩
  · have hasked := htable.later
      ((Later.refl v).note (.polled reg id (some c) v.collators)) rfl
    rw [h]
    rcases collect_cases hd reg id c (v.note (.polled reg id (some c) v.collators)) with
      ⟨-, hcollect⟩ | ⟨-, hcollect⟩
    · rw [hcollect]
      exact ⟨hv, hasked, hlater.note _⟩
    · have hfield : F id k :=
        (hv _ (List.mem_of_getElem? hreg)).resolve_right fun hnone ↦ by
          rw [hslot] at hnone
          cases hnone
      rw [hcollect]
      exact ⟨hv, hasked.push hfield (mem_offeredHeads_note hreg hslot (hcollates (hL k))),
        (hlater.note _).push _⟩

/-- **An import**, whatever it returns. One that returns `Ok` has also made a new table. -/
theorem importBlock_offered (hL : ∀ k, (hosts k).Lawful (P k)) (hw : OffersUnder F w)
    (htable : (importBlock R H (fudgeCollators P hosts) w).1.isOk = false → TableOffered P F w) :
    OffersUnder F (importBlock R H (fudgeCollators P hosts) w).2 ∧
      TableOffered P F (importBlock R H (fudgeCollators P hosts) w).2 ∧
      Later w (importBlock R H (fudgeCollators P hosts) w).2 := by
  rcases importBlock_vacated (R := R) (P := P) (H := H) hosts w with
    ⟨hno, hvacated⟩ | ⟨hd, v, hvacated, h⟩
  · exact ⟨hw.vacated hvacated, (htable hno).later hvacated.toLater hvacated.collations,
      hvacated.toLater⟩
  · rw [h]
    refine Preserves.forEach (fun q hq ↦ collectFrom_offered hL _ hd ?_) v.cleared
      ⟨(hw.vacated hvacated : OffersUnder F v), fun _ he ↦ absurd he List.not_mem_nil,
        ⟨hvacated.parachains, hvacated.log⟩⟩
    exact hvacated.parachains ▸ hq

end World

end Fudge
