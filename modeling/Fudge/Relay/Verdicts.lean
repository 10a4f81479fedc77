import Fudge.Relay.Table

/-!
# Who is told the verdict

The collation table does not remember who made an offer; the verdict goes to the first collator
registered under the id. When an id is onboarded twice and only the later collator offers, these are
two different collators, and the one that built the block never hears of it.

They are the same one in every run in which the first collator registered under an id offers
whenever a later one does (`FirstOffers`): the table takes the first offer, so that collator is also
the producer.
-/

namespace Fudge

namespace World

open Call
open RelaychainBuilder (Error IsFirst)

variable {κ W ε A : Type} {P : RelayPrimitives} {H : RelayHost} {C : CollationBuilder κ W ε}

/-- The place a verdict went to and the entry it was about. -/
def verdict? : Event κ W → Option (ℕ × CollationEntry)
  | .judged reg e _ _ _ => some (reg, e)
  | _ => none

def verdicts (w : World κ W) : List (ℕ × CollationEntry) := w.log.filterMap verdict?

theorem verdicts_note (e : Event κ W) (w : World κ W) :
    (w.note e).verdicts = w.verdicts ++ (verdict? e).toList := by
  rw [verdicts, note, List.filterMap_append]
  cases h : verdict? e <;> simp [verdicts, h]

/-- Whenever a collator offers, the first one registered under its id offers as well. -/
def FirstOffers (parachains : List (Id × κ)) (polled : List (ℕ × Id × Option Collation)) : Prop :=
  ∀ p ∈ polled, p.2.2.isSome = true → ∃ q ∈ polled, q.2.1 = p.2.1 ∧ q.2.2.isSome = true ∧
    parachains.findIdx? (fun registration ↦ registration.1 == p.2.1) = some q.1

instance (parachains : List (Id × κ)) (polled : List (ℕ × Id × Option Collation)) :
    Decidable (FirstOffers parachains polled) := by
  unfold FirstOffers
  infer_instance

/-- The condition on an operation: `FirstOffers` for the replies the collators give to an import. -/
def OffersInOrder (P : RelayPrimitives) : RelayOp κ W ε A → World κ W → Prop
  | .importBlock H C, w => FirstOffers w.relay.parachains
      ((importBlock P H C w).2.replies.drop w.replies.length)
  | _, _ => True

/-- Every entry of the table was offered by the first collator registered under its id, and every
verdict went to the collator that offered. -/
structure Delivered (w : World κ W) : Prop where
  due : ∀ e ∈ w.relay.collations, ∃ k, IsFirst w.relay.parachains e.id e.producer k
  offered : ∀ e ∈ w.relay.collations, (e.producer, e.id, some e.collation) ∈ w.replies
  given : ∀ q ∈ w.verdicts, q.1 = q.2.producer ∧
    (q.2.producer, q.2.id, some q.2.collation) ∈ w.replies

theorem Delivered.extend {w w' : World κ W} (h : Delivered w) (new : List (ℕ × CollationEntry))
    (ht : w'.tables = w.tables) (hr : w'.replies = w.replies)
    (hv : w'.verdicts = w.verdicts ++ new)
    (hnew : ∀ q ∈ new, q.1 = q.2.producer ∧ q.2 ∈ w.relay.collations) : Delivered w' := by
  obtain ⟨hp, hc⟩ := Prod.mk.inj ht
  constructor
  · intro e he
    rw [hc] at he
    rw [hp]
    exact h.due e he
  · intro e he
    rw [hc] at he
    rw [hr]
    exact h.offered e he
  · intro q hq
    rw [hv] at hq
    rw [hr]
    rcases List.mem_append.mp hq with hq | hq
    · exact h.given q hq
    · exact ⟨(hnew q hq).1, h.offered _ (hnew q hq).2⟩

theorem enactAndJudge_delivered {u : World κ W} {parent : Hash} {n : ℕ} {e : CollationEntry}
    (he : e ∈ u.relay.collations) :
    Preserves (fun w ↦ Delivered w ∧ w.tables = u.tables) (enactAndJudge P H C parent n e) := by
  rintro w ⟨hw, ht⟩
  obtain ⟨hregs, hcoll⟩ := Prod.mk.inj ht
  have he' : e ∈ w.relay.collations := by
    rw [hcoll]
    exact he
  have hkeep : ∀ b, (w.enactedWorld b e).replies = w.replies ∧
      (w.enactedWorld b e).verdicts = w.verdicts := by
    intro b
    rw [enactedWorld, replies_note, verdicts_note]
    exact ⟨List.append_nil _, List.append_nil _⟩
  obtain ⟨b, ⟨h, -⟩ | ⟨-, h, -⟩ | ⟨-, reg, k, hfirst, -, h⟩⟩ :=
    enactAndJudge_cases (P := P) (H := H) (C := C) parent n e w
  · rw [h]
    exact ⟨hw.extend [] rfl rfl (List.append_nil _).symm fun q hq ↦
      absurd hq List.not_mem_nil, ht⟩
  · rw [h]
    refine ⟨hw.extend [] rfl (hkeep b).1 ?_ fun q hq ↦ absurd hq List.not_mem_nil, ht⟩
    rw [(hkeep b).2, List.append_nil]
  · rw [h]
    -- the verdict goes to the first registration, which is the producer of the entry
    obtain ⟨l, hdue⟩ := hw.due e he'
    obtain ⟨rfl, -⟩ := hfirst.unique hdue
    refine ⟨hw.extend [(e.producer, e)] rfl ?_ ?_ ?_, ht⟩
    · rw [judgedWorld, replies_note, ← (hkeep b).1]
      exact List.append_nil _
    · rw [judgedWorld, verdicts_note, ← (hkeep b).2]
      rfl
    · intro q hq
      obtain rfl := List.mem_singleton.mp hq
      exact ⟨rfl, he'⟩

theorem enactLoop_delivered {w : World κ W} (hw : Delivered w) :
    Delivered (enactLoop P H C w).2 := by
  have hloop : Preserves (fun v ↦ Delivered v ∧ v.tables = w.tables)
      (forEach (enactAndJudge P H C w.relay.builder.chain.bestHash
        w.relay.builder.chain.bestNumber) w.relay.collations) :=
    Preserves.forEach fun e he ↦ enactAndJudge_delivered he
  exact (hloop w ⟨hw, rfl⟩).1

theorem collectLoop_keeps (hd : Header) (w : World κ W) :
    (collectLoop P H C hd w).2.relay.parachains = w.relay.parachains ∧
      (collectLoop P H C hd w).2.verdicts = w.verdicts := by
  have hkeep : Keeps (fun w : World κ W ↦ (w.relay.parachains, w.verdicts))
      (forEach (collectFrom P H C w.relay.builder.chain.bestHash hd)
        w.relay.parachains.zipIdx) := by
    refine Keeps.forEach (fun q ↦ collectFrom_keeps (fun _ _ ↦ rfl) ?_ ?_ _ hd q) _
    · intro reg id reply _ v
      rw [verdicts_note]
      exact congrArg _ (List.append_nil _)
    · intro e v
      rw [push, verdicts_note]
      exact congrArg _ (List.append_nil _)
  exact Prod.mk.inj (hkeep w)

/-- If the first registered collators offer whenever others do, every entry of the new table comes
from one of them. -/
theorem isFirst_of_polled {parachains : List (Id × κ)} {done rest : List ((Id × κ) × ℕ)}
    {hd : Header} {polled : List (ℕ × Id × Option Collation)} {table : List CollationEntry}
    (hsplit : done ++ rest = parachains.zipIdx)
    (hasked : polled.map (fun p ↦ (p.1, p.2.1)) = done.map (fun q ↦ (q.2, q.1.1)))
    (htab : Tabulates hd polled table) (hfirst : FirstOffers parachains polled) :
    ∀ e ∈ table, ∃ k, IsFirst parachains e.id e.producer k := by
  intro e he
  have hoffer := htab.offered e he
  -- the producer is a registration under the id of the entry
  have hmem : (e.producer, e.id) ∈ done.map fun q ↦ (q.2, q.1.1) := by
    rw [← hasked]
    exact List.mem_map.mpr ⟨_, hoffer, rfl⟩
  obtain ⟨⟨⟨id, k⟩, reg⟩, hq, heq⟩ := List.mem_map.mp hmem
  obtain ⟨rfl, rfl⟩ := Prod.mk.inj heq
  have hreg : parachains[e.producer]? = some (e.id, k) := by
    have hz : ((e.id, k), e.producer) ∈ parachains.zipIdx := by
      rw [← hsplit]
      exact List.mem_append_left _ hq
    exact List.mk_mem_zipIdx_iff_getElem?.mp hz
  obtain ⟨⟨i, id, reply⟩, hq', rfl, hsome, hi⟩ := hfirst _ hoffer rfl
  obtain ⟨c, rfl⟩ := Option.isSome_iff_exists.mp hsome
  have hge := htab.first e he i c hq'
  obtain ⟨hlt, -, hbefore⟩ := List.findIdx?_eq_some_iff_getElem.mp hi
  obtain rfl : i = e.producer := by
    by_contra hne
    obtain ⟨hlt', heq'⟩ := List.getElem?_eq_some_iff.mp hreg
    exact hbefore e.producer (by omega) (by rw [heq']; simp)
  exact ⟨k, RelaychainBuilder.isFirst_of_findIdx hi hreg⟩

theorem importBlock_delivered {w : World κ W} (hw : Delivered w)
    (hfirst : FirstOffers w.relay.parachains
      ((importBlock P H C w).2.replies.drop w.replies.length)) :
    Delivered (importBlock P H C w).2 := by
  have hquiet : ∀ {u : World κ W}, u.tables = w.tables → u.log = w.log → Delivered u := by
    intro u ht hlog
    refine hw.extend [] ht (by rw [replies, hlog]; rfl) ?_ fun q hq ↦
      absurd hq List.not_mem_nil
    rw [verdicts, hlog, List.append_nil]
    rfl
  rcases importBlock_cases (P := P) (H := H) (C := C) w with ⟨-, h⟩ | ⟨hd, u, hu, hcase⟩
  · rw [h]
    exact hquiet (importNext_keeps_tables w) rfl
  · have htables : u.tables = w.tables := importNext_keeps_tables.eq_of_ok hu
    have hlog : u.log = w.log := by
      obtain ⟨r, -, rfl⟩ := zoom_eq_ok.mp hu
      rfl
    have hloop := enactLoop_delivered (P := P) (H := H) (C := C) (hquiet htables hlog)
    rcases hcase with ⟨-, -, h⟩ | ⟨-, h⟩
    · rw [h]
      exact hloop
    · rw [h] at hfirst ⊢
      set v := (enactLoop P H C u).2.cleared with hv
      have hvregs : v.relay.parachains = w.relay.parachains :=
        (Prod.mk.inj ((enactLoop_tables u).trans htables)).1
      have hvreplies : v.replies = w.replies := by
        refine (enactLoop_replies u).trans ?_
        rw [replies, hlog]
        rfl
      obtain ⟨hregs, hverdicts⟩ := collectLoop_keeps (P := P) (H := H) (C := C) hd v
      obtain ⟨-, done, rest, hsplit, polled, hrep, hasked, htab⟩ :=
        collectLoop_polled (P := P) (H := H) (C := C) (w := v) rfl hd
      -- the new table is made of the replies of this import only
      rw [hrep, hvreplies, List.drop_left, ← hvregs] at hfirst
      have hdue := isFirst_of_polled hsplit hasked htab hfirst
      constructor
      · intro e he
        rw [hregs]
        exact hdue e he
      · intro e he
        rw [hrep]
        exact List.mem_append_right _ (htab.offered e he)
      · intro q hq
        rw [hverdicts] at hq
        obtain ⟨hreg, hoffered⟩ := hloop.given q hq
        refine ⟨hreg, ?_⟩
        rw [hrep]
        exact List.mem_append_left _ hoffered

theorem relayStep_delivered (op : RelayOp κ W ε A) (w : World κ W) (hop : OffersInOrder P op w)
    (hw : Delivered w) : Delivered (relayStep P op w).2 := by
  rcases relayStep_cases (P := P) op w with ⟨H, C, rfl⟩ | ⟨more, hp, hc, hlog, -⟩
  · exact importBlock_delivered hw hop
  · have hr : (relayStep P op w).2.replies = w.replies := by
      rw [replies, hlog]
      rfl
    have hv : (relayStep P op w).2.verdicts = w.verdicts := by
      rw [verdicts, hlog]
      rfl
    constructor
    · intro e he
      rw [hc] at he
      obtain ⟨k, hk⟩ := hw.due e he
      exact ⟨k, by rw [hp]; exact hk.append more⟩
    · intro e he
      rw [hc] at he
      rw [hr]
      exact hw.offered e he
    · intro q hq
      rw [hv] at hq
      rw [hr]
      exact hw.given q hq

/-- **Verdicts go to the producer**, in every run in which a first registered collator offers
whenever a later one under its id does. -/
theorem verdicts_reach_producer (b : Builder RelayStorage) (v : W) (ops : List (RelayOp κ W ε A))
    (h : Along (relayStep P) (OffersInOrder P) ops (fresh b v)) (reg : ℕ) (e : CollationEntry)
    (ok : Bool) (before after : W)
    (hj : .judged reg e ok before after ∈ (run (relayStep P) ops (fresh b v)).log) :
    reg = e.producer ∧
      ∃ asked, .polled reg e.id (some e.collation) asked ∈
        (run (relayStep P) ops (fresh b v)).log := by
  have hd : Delivered (run (relayStep P) ops (fresh b v)) := by
    refine run_invariant relayStep_delivered ops h ?_
    exact ⟨fun e he ↦ absurd he List.not_mem_nil, fun e he ↦ absurd he List.not_mem_nil,
      fun q hq ↦ absurd hq List.not_mem_nil⟩
  obtain ⟨hreg, hoffer⟩ := hd.given (reg, e) (List.mem_filterMap.mpr ⟨_, hj, rfl⟩)
  have hproducer : reg = e.producer := hreg
  subst hproducer
  refine ⟨rfl, ?_⟩
  obtain ⟨event, hmem, hevent⟩ := List.mem_filterMap.mp hoffer
  cases event with
  | polled reg' id' reply asked =>
    obtain ⟨rfl, rfl, rfl⟩ : reg' = e.producer ∧ id' = e.id ∧ reply = some e.collation := by
      simpa [reply?] using hevent
    exact ⟨asked, hmem⟩
  | collected => cases hevent
  | enacted => cases hevent
  | judged => cases hevent
  | rejected => cases hevent

/-! ## A misdelivered verdict -/

def emptyCollation : Collation where
  upwardMessages := []
  newValidationCode := none
  processedDownwardMessages := 0
  horizontalMessages := []
  hrmpWatermark := 0
  headData := [7]
  proofOfValidity := ⟨default, [], []⟩

/-- Collators of which number 0 never offers anything, and that note who was told a verdict. -/
def lateOffers : CollationBuilder ℕ (List ℕ) Unit where
  collation k _ := fun told ↦ (.ok (if k = 0 then none else some emptyCollation), told)
  judge k _ := fun told ↦ (.ok (), told ++ [k])

/-- Id 1 is onboarded with the collators `k` and 1, and two blocks are imported. -/
def onboardTwice (k : ℕ) : List (RelayOp ℕ (List ℕ) Unit Unit) :=
  [.onboardPara .reference ⟨1, [1], []⟩ k, .onboardPara .reference ⟨1, [1], []⟩ 1,
    .buildBlock .reference, .importBlock .reference lateOffers,
    .buildBlock .reference, .importBlock .reference lateOffers]

/-- The world after a run on the reference chain. -/
def relayRun (ops : List (RelayOp ℕ (List ℕ) Unit Unit)) : World ℕ (List ℕ) :=
  run (relayStep .reference) ops (fresh (RelaychainBuilder.genesis ℕ).builder [])

/-- The collation of the second collator is judged, and the first one is told. -/
theorem verdicts_miss_producer :
    ¬ ∀ q ∈ (relayRun (onboardTwice 0)).verdicts, q.1 = q.2.producer := by
  decide +kernel

/-- With a first collator that offers, the verdict reaches it. -/
theorem verdicts_reach_producer_onboardTwice :
    ∃ reg e ok before after,
      .judged reg e ok before after ∈ (relayRun (onboardTwice 2)).log ∧ reg = e.producer := by
  have hcond : Along (relayStep .reference) (OffersInOrder .reference) (onboardTwice 2)
      (fresh (RelaychainBuilder.genesis ℕ).builder []) := by
    refine ⟨trivial, fun _ ↦ ⟨trivial, fun _ ↦ ⟨trivial, fun _ ↦ ⟨?_, fun _ ↦ ⟨trivial, fun _ ↦
      ⟨?_, fun _ ↦ trivial⟩⟩⟩⟩⟩⟩
    · change FirstOffers _ _
      decide +kernel
    · change FirstOffers _ _
      decide +kernel
  have hsome : ∃ event ∈ (relayRun (onboardTwice 2)).log, (verdict? event).isSome = true := by
    decide +kernel
  obtain ⟨event, hmem, hevent⟩ := hsome
  cases event with
  | judged reg e ok before after =>
    exact ⟨reg, e, ok, before, after, hmem,
      (verdicts_reach_producer _ _ _ hcond reg e ok before after hmem).1⟩
  | polled => cases hevent
  | collected => cases hevent
  | enacted => cases hevent
  | rejected => cases hevent

end World

end Fudge
