import Fudge.Call.Run
import Fudge.Relay.Steps
import Fudge.Relay.Reference

/-!
# The collation table

An import drains the table and fills it again, and an import that fails half way leaves whatever is
in it. Two things hold all the same, over every run and for every behaviour of the collators: no id
is in the table twice, and every id in it is registered. So the lookups that follow an enactment
never fail.

After an import that returned `Ok` more is true. Each registered collator was asked exactly once, in
the order of onboarding, and the table is determined by the replies: `Tabulates` says that it holds
the first offer for each id, in order, and nothing else.
-/

namespace Fudge

namespace World

open Call
open RelaychainBuilder (Error IsFirst)

variable {κ W ε A γ : Type} (P : RelayPrimitives) {H : RelayHost} {C : CollationBuilder κ W ε}

/-! ## Runs of a relay chain builder -/

/-- What may happen to a relay chain builder: calls of its methods, each against its own host, and
between them anything the collators do on their own. -/
inductive RelayOp (κ W ε A : Type) where
  | onboardPara (H : RelayHost) (para : FudgeParaChain) (collator : κ)
  | updateParaHead (H : RelayHost) (id : Id) (head : HeadData)
  | withMutState (H : RelayHost) (exec : RelayStorage → A × RelayStorage)
  | buildBlock (H : RelayHost)
  | importBlock (H : RelayHost) (C : CollationBuilder κ W ε)
  | collators (f : W → W)

def relayStep : RelayOp κ W ε A → Call (World κ W) (Error ε) (Reply A)
  | .onboardPara H para collator =>
    Call.map (fun _ ↦ .done) (relayCall (RelaychainBuilder.onboardPara P H para collator))
  | .updateParaHead H id head =>
    Call.map (fun _ ↦ .done) (relayCall (RelaychainBuilder.updateParaHead P H id head))
  | .withMutState H exec =>
    Call.map .closure (relayCall (RelaychainBuilder.withMutState P H exec))
  | .buildBlock H => Call.map .block (relayCall (RelaychainBuilder.buildBlock P H))
  | .importBlock H C => Call.map (fun _ ↦ .done) (importBlock P H C)
  | .collators f =>
    Call.map (fun _ ↦ .done) (Call.modify fun w ↦ { w with collators := f w.collators })

variable {P}

/-- **What an operation can do**: it is an import, or it leaves the table and the history alone and
registers at most more collators. -/
theorem relayStep_cases (op : RelayOp κ W ε A) (w : World κ W) :
    (∃ H C, op = .importBlock H C) ∨
      ∃ more, (relayStep P op w).2.relay.parachains = w.relay.parachains ++ more ∧
        (relayStep P op w).2.relay.collations = w.relay.collations ∧
        (relayStep P op w).2.log = w.log ∧ (relayStep P op w).2.tickets = w.tickets := by
  have hkeep : ∀ {α : Type} (c : Call (RelaychainBuilder κ) (Error ε) α),
      Keeps (fun r ↦ (r.parachains, r.collations)) c → ∃ more,
        (relayCall c w).2.relay.parachains = w.relay.parachains ++ more ∧
        (relayCall c w).2.relay.collations = w.relay.collations ∧
        (relayCall c w).2.log = w.log ∧ (relayCall c w).2.tickets = w.tickets := by
    intro α c hc
    obtain ⟨hp, ht⟩ := Prod.mk.inj (hc w.relay)
    exact ⟨[], by rw [List.append_nil]; exact hp, ht, rfl, rfl⟩
  cases op with
  | onboardPara H para k =>
    refine Or.inr ?_
    rcases RelaychainBuilder.onboardPara_cases (ε := ε) (P := P) (H := H) para k w.relay with
      ⟨hp, ht⟩ | ⟨hp, ht⟩
    · exact ⟨[], by rw [List.append_nil]; exact hp, ht, rfl, rfl⟩
    · exact ⟨[(para.id, k)], hp, ht, rfl, rfl⟩
  | updateParaHead H id head =>
    exact Or.inr (hkeep _ (RelaychainBuilder.updateParaHead_keeps (fun _ _ ↦ rfl) id head))
  | withMutState H exec =>
    exact Or.inr (hkeep _ (RelaychainBuilder.withMutState_keeps (fun _ _ ↦ rfl) _))
  | buildBlock H =>
    exact Or.inr (hkeep _ (RelaychainBuilder.buildBlock_keeps fun _ _ ↦ rfl))
  | importBlock H C => exact Or.inl ⟨H, C, rfl⟩
  | collators f => exact Or.inr ⟨[], by rw [List.append_nil]; rfl, rfl, rfl, rfl⟩

/-! ## Frames of the two loops -/

/-- The registrations and the table. -/
def tables (w : World κ W) : List (Id × κ) × List CollationEntry :=
  (w.relay.parachains, w.relay.collations)

theorem enactCollation_keeps_tables (parent : Hash) (n : ℕ) (e : CollationEntry) :
    Keeps (tables (κ := κ) (W := W)) (enactCollation (ε := ε) P H parent n e) := by
  intro w
  obtain ⟨b, ⟨h, -⟩ | ⟨-, h⟩⟩ := enactCollation_cases (ε := ε) (P := P) (H := H) parent n e w
  · rw [h]
    rfl
  · rw [h]
    rfl

theorem enactLoop_keeps_tables (parent : Hash) (n : ℕ) (l : List CollationEntry) :
    Keeps tables (forEach (enactAndJudge P H C parent n) l) :=
  Keeps.forEach (fun e ↦ enactAndJudge_keeps (fun _ _ ↦ rfl) (fun _ _ ↦ rfl) (fun _ _ _ ↦ rfl)
    (fun _ _ _ _ _ _ ↦ rfl) parent n e) l

theorem importNext_keeps_tables :
    Keeps (tables (κ := κ) (W := W)) (relayCall (ε := ε) (RelaychainBuilder.importNext H)) :=
  relayCall_keeps (f := fun r ↦ (r.parachains, r.collations))
    (RelaychainBuilder.importNext_keeps (fun _ _ ↦ rfl) (fun _ ↦ rfl) fun _ _ ↦ rfl)

/-! ## Soundness of the table -/

/-- The ids of the table are distinct and registered. -/
structure TableSound (w : World κ W) : Prop where
  nodup : (w.relay.collations.map (·.id)).Nodup
  registered : ∀ e ∈ w.relay.collations, e.id ∈ w.relay.parachains.map Prod.fst

theorem TableSound.congr {w w' : World κ W} (h : w'.tables = w.tables) (hs : TableSound w) :
    TableSound w' := by
  obtain ⟨hp, hc⟩ := Prod.mk.inj h
  exact ⟨by rw [hc]; exact hs.nodup, by rw [hc, hp]; exact hs.registered⟩

theorem TableSound.push {w w' : World κ W} (hs : TableSound w) {e : CollationEntry}
    (hp : w'.relay.parachains = w.relay.parachains)
    (hc : w'.relay.collations = w.relay.collations ++ [e])
    (hnew : ∀ e' ∈ w.relay.collations, e'.id ≠ e.id)
    (hid : e.id ∈ w.relay.parachains.map Prod.fst) : TableSound w' := by
  constructor
  · rw [hc, List.map_append, List.nodup_append]
    refine ⟨hs.nodup, List.nodup_singleton _, ?_⟩
    intro a ha b hb
    obtain ⟨e', he', rfl⟩ := List.mem_map.mp ha
    obtain rfl : b = e.id := by simpa using hb
    exact hnew e' he'
  · intro e' he'
    rw [hc] at he'
    rw [hp]
    rcases List.mem_append.mp he' with he' | he'
    · exact hs.registered e' he'
    · obtain rfl := List.mem_singleton.mp he'
      exact hid

theorem collectFrom_tableSound {regs : List (Id × κ)} {parent : Hash} {hd : Header}
    {q : (Id × κ) × ℕ} (hq : q.1 ∈ regs) :
    Preserves (fun w ↦ TableSound w ∧ w.relay.parachains = regs)
      (collectFrom P H C parent hd q) := by
  obtain ⟨⟨id, k⟩, reg⟩ := q
  rintro w ⟨hs, rfl⟩
  obtain ⟨hp, hsame | ⟨c, hnew, hc⟩⟩ :=
    collectFrom_tables (P := P) (H := H) (C := C) parent hd id k reg w
  · exact ⟨hs.congr (Prod.ext hp hsame), hp⟩
  · exact ⟨hs.push hp hc hnew (List.mem_map.mpr ⟨(id, k), hq, rfl⟩), hp⟩

theorem collectCollations_tableSound (hd : Header) :
    Preserves (TableSound (κ := κ) (W := W)) (collectCollations P H C hd) := by
  intro w hs
  have hloop : Preserves (fun w' ↦ TableSound w' ∧ w'.relay.parachains = w.relay.parachains)
      (forEach (collectFrom P H C w.relay.builder.chain.bestHash hd)
        w.relay.parachains.zipIdx) := by
    refine Preserves.forEach fun q hq ↦ collectFrom_tableSound ?_
    exact List.fst_mem_of_mem_zipIdx hq
  exact (hloop w ⟨hs, rfl⟩).1

theorem forceEnactCollations_tableSound :
    Preserves (TableSound (κ := κ) (W := W)) (forceEnactCollations P H C) := by
  have hclear : ∀ w : World κ W,
      TableSound { w with relay := { w.relay with collations := [] } } := by
    intro w
    exact ⟨List.nodup_nil, fun e he ↦ absurd he List.not_mem_nil⟩
  refine Preserves.bind (fun w hs ↦ hs) fun parent ↦ Preserves.bind (fun w hs ↦ hs) fun n ↦
    Preserves.bind (fun w hs ↦ hs) fun l ↦ Preserves.bind ?_ fun _ ↦
      Preserves.modify fun w _ ↦ hclear w
  exact (enactLoop_keeps_tables parent n l).preserves fun _ _ h hs ↦ hs.congr h

theorem importBlock_tableSound :
    Preserves (TableSound (κ := κ) (W := W)) (importBlock P H C) :=
  Preserves.bind (importNext_keeps_tables.preserves fun _ _ h hs ↦ hs.congr h) fun hd ↦
    Preserves.bind forceEnactCollations_tableSound fun _ ↦ collectCollations_tableSound hd

theorem relayStep_tableSound (op : RelayOp κ W ε A) (w : World κ W) (hs : TableSound w) :
    TableSound (relayStep P op w).2 := by
  rcases relayStep_cases (P := P) op w with ⟨H, C, rfl⟩ | ⟨more, hp, hc, -⟩
  · exact importBlock_tableSound w hs
  · refine ⟨by rw [hc]; exact hs.nodup, fun e he ↦ ?_⟩
    rw [hc] at he
    rw [hp, List.map_append]
    exact List.mem_append_left _ (hs.registered e he)

/-! ## The table is determined by the replies -/

/-- The reply in an event, with the place and the id of the collator that gave it. -/
def reply? : Event κ W → Option (ℕ × Id × Option Collation)
  | .polled reg id reply _ => some (reg, id, reply)
  | _ => none

/-- The replies of all collators so far, in order. -/
def replies (w : World κ W) : List (ℕ × Id × Option Collation) := w.log.filterMap reply?

theorem replies_note (e : Event κ W) (w : World κ W) :
    (w.note e).replies = w.replies ++ (reply? e).toList := by
  rw [replies, note, List.filterMap_append]
  cases h : reply? e <;> simp [replies, h]

/-- The table holds the first offer for each id among the replies, in the order of the replies, and
nothing else; every entry is stamped with `hd`. -/
structure Tabulates (hd : Header) (polled : List (ℕ × Id × Option Collation))
    (table : List CollationEntry) : Prop where
  nodup : (table.map (·.id)).Nodup
  ordered : (table.map (·.producer)).Pairwise (· < ·)
  offered : ∀ e ∈ table, (e.producer, e.id, some e.collation) ∈ polled
  first : ∀ e ∈ table, ∀ j c, (j, e.id, some c) ∈ polled → e.producer ≤ j
  complete : ∀ j id c, (j, id, some c) ∈ polled → ∃ e ∈ table, e.id = id
  stamped : ∀ e ∈ table, e.generationParent = hd

namespace Tabulates

variable {hd : Header} {polled : List (ℕ × Id × Option Collation)} {table : List CollationEntry}

theorem nil (hd : Header) : Tabulates hd [] [] where
  nodup := List.nodup_nil
  ordered := List.Pairwise.nil
  offered _ he := absurd he List.not_mem_nil
  first _ he := absurd he List.not_mem_nil
  complete _ _ _ h := absurd h List.not_mem_nil
  stamped _ he := absurd he List.not_mem_nil

theorem silent (h : Tabulates hd polled table) (reg : ℕ) (id : Id) :
    Tabulates hd (polled ++ [(reg, id, none)]) table where
  nodup := h.nodup
  ordered := h.ordered
  offered e he := List.mem_append_left _ (h.offered e he)
  first e he j c hj := h.first e he j c (by simpa using hj)
  complete j id' c hj := h.complete j id' c (by simpa using hj)
  stamped := h.stamped

theorem repeated (h : Tabulates hd polled table) {reg : ℕ} (hreg : ∀ p ∈ polled, p.1 < reg)
    {e₀ : CollationEntry} (he₀ : e₀ ∈ table) (c : Collation) :
    Tabulates hd (polled ++ [(reg, e₀.id, some c)]) table where
  nodup := h.nodup
  ordered := h.ordered
  offered e he := List.mem_append_left _ (h.offered e he)
  first e he j c' hj := by
    rcases List.mem_append.mp hj with hj | hj
    · exact h.first e he j c' hj
    · obtain ⟨rfl, -, -⟩ : j = reg ∧ e.id = e₀.id ∧ c' = c := by simpa using hj
      have hlt := hreg _ (h.offered e he)
      omega
  complete j id' c' hj := by
    rcases List.mem_append.mp hj with hj | hj
    · exact h.complete j id' c' hj
    · obtain ⟨-, rfl, -⟩ : j = reg ∧ id' = e₀.id ∧ c' = c := by simpa using hj
      exact ⟨e₀, he₀, rfl⟩
  stamped := h.stamped

theorem fresh (h : Tabulates hd polled table) {e : CollationEntry}
    (hreg : ∀ p ∈ polled, p.1 < e.producer) (hnew : ∀ e' ∈ table, e'.id ≠ e.id)
    (hstamp : e.generationParent = hd) :
    Tabulates hd (polled ++ [(e.producer, e.id, some e.collation)]) (table ++ [e]) where
  nodup := by
    rw [List.map_append, List.nodup_append]
    refine ⟨h.nodup, List.nodup_singleton _, ?_⟩
    intro a ha b hb
    obtain ⟨e', he', rfl⟩ := List.mem_map.mp ha
    obtain rfl : b = e.id := by simpa using hb
    exact hnew e' he'
  ordered := by
    rw [List.map_append, List.pairwise_append]
    refine ⟨h.ordered, List.pairwise_singleton _ _, ?_⟩
    intro a ha b hb
    obtain ⟨e', he', rfl⟩ := List.mem_map.mp ha
    obtain rfl : b = e.producer := by simpa using hb
    exact hreg _ (h.offered e' he')
  offered e' he' := by
    rcases List.mem_append.mp he' with he' | he'
    · exact List.mem_append_left _ (h.offered e' he')
    · obtain rfl := List.mem_singleton.mp he'
      exact List.mem_append_right _ (List.mem_singleton_self _)
  first e' he' j c hj := by
    -- an earlier offer for the id of the new entry would have put the id into the table
    rcases List.mem_append.mp he' with he' | he'
    · rcases List.mem_append.mp hj with hj | hj
      · exact h.first e' he' j c hj
      · obtain ⟨-, hid, -⟩ : j = e.producer ∧ e'.id = e.id ∧ c = e.collation := by simpa using hj
        exact absurd hid (hnew e' he')
    · obtain rfl := List.mem_singleton.mp he'
      rcases List.mem_append.mp hj with hj | hj
      · obtain ⟨e'', he'', hid⟩ := h.complete j _ c hj
        exact absurd hid (hnew e'' he'')
      · obtain ⟨rfl, -⟩ : j = e'.producer ∧ c = e'.collation := by simpa using hj
        exact le_refl _
  complete j id c hj := by
    rcases List.mem_append.mp hj with hj | hj
    · obtain ⟨e', he', hid⟩ := h.complete j id c hj
      exact ⟨e', List.mem_append_left _ he', hid⟩
    · obtain ⟨-, rfl, -⟩ : j = e.producer ∧ id = e.id ∧ c = e.collation := by simpa using hj
      exact ⟨e, List.mem_append_right _ (List.mem_singleton_self _), rfl⟩
  stamped e' he' := by
    rcases List.mem_append.mp he' with he' | he'
    · exact h.stamped e' he'
    · obtain rfl := List.mem_singleton.mp he'
      exact hstamp

end Tabulates

/-- Every collator of `done` has replied since the replies were `base`, and the table is determined
by these replies. -/
def Polled (hd : Header) (base : List (ℕ × Id × Option Collation)) (done : List ((Id × κ) × ℕ))
    (w : World κ W) : Prop :=
  ∃ polled, w.replies = base ++ polled ∧
    polled.map (fun p ↦ (p.1, p.2.1)) = done.map (fun q ↦ (q.2, q.1.1)) ∧
    Tabulates hd polled w.relay.collations

/-- One more collator is asked. If it does not reply, the replies so far still determine the
table. -/
theorem collectFrom_polled (hd : Header) (base : List (ℕ × Id × Option Collation))
    {done : List ((Id × κ) × ℕ)} {q : (Id × κ) × ℕ} (hq : ∀ p ∈ done, p.2 < q.2) (parent : Hash) :
    Triple (Polled hd base done) (collectFrom P H C parent hd q)
      (fun _ ↦ Polled hd base (done ++ [q])) (Polled (W := W) hd base done) := by
  obtain ⟨⟨id, k⟩, reg⟩ := q
  rintro w ⟨polled, hrep, hasked, htab⟩
  have hreg : ∀ p ∈ polled, p.1 < reg := by
    intro p hp
    have hmem : (p.1, p.2.1) ∈ done.map fun q ↦ (q.2, q.1.1) := by
      rw [← hasked]
      exact List.mem_map.mpr ⟨p, hp, rfl⟩
    obtain ⟨d, hd, heq⟩ := List.mem_map.mp hmem
    have hlt := hq d hd
    have hfst : d.2 = p.1 := (Prod.mk.inj heq).1
    omega
  rcases collectFrom_cases (P := P) (H := H) (C := C) parent hd id k reg w with
    ⟨v, -, h, hno⟩ | ⟨pvd, reply, v, -, h⟩
  · refine Triple.of_stopped hno ?_
    rw [h]
    exact ⟨polled, hrep, hasked, htab⟩
  · refine Triple.of_returned h ?_
    have hrep' : ({ w with collators := v }.note (.polled reg id reply w.collators)).replies =
        base ++ (polled ++ [(reg, id, reply)]) := by
      rw [replies_note, ← List.append_assoc, ← hrep]
      rfl
    have hasked' : (polled ++ [(reg, id, reply)]).map (fun p ↦ (p.1, p.2.1)) =
        (done ++ [((id, k), reg)]).map (fun q ↦ (q.2, q.1.1)) := by
      rw [List.map_append, List.map_append, hasked]
      rfl
    -- the table changes only by the first offer for an id
    cases reply with
    | none => exact ⟨_, hrep', hasked', htab.silent reg id⟩
    | some c =>
      rw [repliedWorld]
      rcases collect_cases hd reg id c
        ({ w with collators := v }.note (.polled reg id (some c) w.collators)) with
        ⟨⟨e, he, rfl⟩, hc⟩ | ⟨hnew, hc⟩
      · rw [hc]
        exact ⟨_, hrep', hasked', htab.repeated hreg he c⟩
      · rw [hc]
        refine ⟨_, ?_, hasked', htab.fresh (e := ⟨id, c, hd, reg, w.tickets⟩) hreg hnew rfl⟩
        rw [push, replies_note, ← hrep']
        exact List.append_nil _

/-- **The second loop**: whatever its outcome, the table is determined by the replies, and all
collators have replied if it returns `Ok`. -/
theorem collectLoop_polled {w : World κ W} (hw : w.relay.collations = []) (hd : Header) :
    ((collectLoop P H C hd w).1.isOk = true →
        Polled hd w.replies w.relay.parachains.zipIdx (collectLoop P H C hd w).2) ∧
      ∃ done rest, done ++ rest = w.relay.parachains.zipIdx ∧
        Polled hd w.replies done (collectLoop P H C hd w).2 := by
  set regs := w.relay.parachains.zipIdx
  have hstart : Polled hd w.replies [] w :=
    ⟨[], (List.append_nil _).symm, rfl, by rw [hw]; exact Tabulates.nil hd⟩
  have hloop := Triple.forEach
    (f := collectFrom P H C w.relay.builder.chain.bestHash hd)
    (I := fun done rest v ↦ done ++ rest = regs ∧ Polled hd w.replies done v)
    (E := fun v ↦ ∃ done rest, done ++ rest = regs ∧ Polled hd w.replies done v)
    (fun done q rest v hv ↦ by
      have hstep := collectFrom_polled (P := P) (H := H) (C := C) hd w.replies
        (zipIdx_split hv.1).1 w.relay.builder.chain.bestHash
      refine ⟨fun a t ht ↦ ⟨by simpa using hv.1, hstep.ok hv.2 ht⟩, fun hno ↦ ?_⟩
      exact ⟨done, q :: rest, hv.1, hstep.stopped hv.2 hno⟩) regs []
  constructor
  · intro hok
    obtain ⟨a, ha⟩ := Outcome.isOk_iff.mp hok
    exact (hloop.ok ⟨rfl, hstart⟩ (Prod.ext ha rfl)).2
  · rcases hloop.final ⟨rfl, hstart⟩ with ⟨-, hend, hp⟩ | hstop
    · exact ⟨_, [], hend, hp⟩
    · exact hstop

theorem importNext_eq_ok {w u : World κ W} {hd : Header}
    (h : relayCall (ε := ε) (RelaychainBuilder.importNext H) w = (.ok hd, u)) :
    ∃ block proof, w.relay.next = some (block, proof) ∧ hd = block.header := by
  obtain ⟨r, hr, -⟩ := zoom_eq_ok.mp h
  obtain ⟨⟨block, proof⟩, -, -, hnext, hhd, -⟩ := RelaychainBuilder.importNext_eq_ok hr
  exact ⟨block, proof, hnext, hhd⟩

theorem enactLoop_tables (w : World κ W) : (enactLoop P H C w).2.tables = w.tables :=
  enactLoop_keeps_tables _ _ _ w

theorem enactLoop_replies (w : World κ W) : (enactLoop P H C w).2.replies = w.replies := by
  have hkeep : Keeps replies (forEach (enactAndJudge P H C w.relay.builder.chain.bestHash
      w.relay.builder.chain.bestNumber) w.relay.collations) := by
    refine Keeps.forEach (fun e ↦ enactAndJudge_keeps (fun _ _ ↦ rfl) (fun _ _ ↦ rfl) ?_ ?_ _ _ e) _
    · intro e h v
      rw [replies_note]
      exact List.append_nil _
    · intro reg e ok v v' u
      rw [replies_note]
      exact List.append_nil _
  exact hkeep w

theorem importBlock_tabulates {w w' : World κ W} (h : importBlock P H C w = (.ok (), w')) :
    ∃ block proof polled, w.relay.next = some (block, proof) ∧ w'.replies = w.replies ++ polled ∧
      polled.map (fun p ↦ (p.1, p.2.1)) =
        w.relay.parachains.zipIdx.map (fun q ↦ (q.2, q.1.1)) ∧
      Tabulates block.header polled w'.relay.collations := by
  rcases importBlock_cases (P := P) (H := H) (C := C) w with ⟨⟨hno, -⟩, -⟩ | ⟨hd, u, hu, hcase⟩
  · rw [h] at hno
    cases hno
  · rcases hcase with ⟨-, hno, -⟩ | ⟨-, hcollect⟩
    · rw [h] at hno
      cases hno
    · obtain ⟨block, proof, hnext, rfl⟩ := importNext_eq_ok hu
      rw [hcollect] at h
      have hpolled := (collectLoop_polled (P := P) (H := H) (C := C)
        (w := (enactLoop P H C u).2.cleared) rfl block.header).1 (by rw [h]; rfl)
      rw [h] at hpolled
      have htables : u.tables = w.tables := importNext_keeps_tables.eq_of_ok hu
      have hregs : (enactLoop P H C u).2.cleared.relay.parachains = w.relay.parachains :=
        (Prod.mk.inj ((enactLoop_tables u).trans htables)).1
      have hlog : Keeps World.replies (relayCall (ε := ε) (RelaychainBuilder.importNext H)) :=
        relayCall_frame fun (_ : RelaychainBuilder κ) (_ : World κ W) ↦ rfl
      have hreplies : (enactLoop P H C u).2.cleared.replies = w.replies :=
        (enactLoop_replies u).trans (hlog.eq_of_ok hu)
      obtain ⟨polled, hrep, hasked, htab⟩ := hpolled
      exact ⟨block, proof, polled, hnext, by rw [hrep, hreplies], by rw [hasked, hregs], htab⟩

/-- A relay chain builder as `new` returns it, with nothing onboarded, among its collators. -/
def fresh (b : Builder RelayStorage) (v : W) : World κ W :=
  { relay := { builder := b }, collators := v }

theorem run_tableSound (b : Builder RelayStorage) (v : W) (ops : List (RelayOp κ W ε A)) :
    TableSound (run (relayStep P) ops (fresh b v)) := by
  refine run_invariant (fun op w _ ↦ relayStep_tableSound op w) ops (along_true ops _) ?_
  exact ⟨List.nodup_nil, fun e he ↦ absurd he List.not_mem_nil⟩

/-- **The collation table is exact.** In every state of every run the ids of the table are distinct
and registered, and whenever an import comes to the lookups that follow an enactment, they succeed.
After an import that returned `Ok`, every registered collator was asked once, in onboarding order,
and the table holds the first offer for each id, in order, stamped with the imported header. Each
reply is that of `C.collation` in the world in which `poll` asked for it. -/
theorem collations_exact (P : RelayPrimitives) (b : Builder RelayStorage) (v : W)
    (ops : List (RelayOp κ W ε A)) :
    let w := run (relayStep P) ops (fresh b v)
    (w.relay.collations.map (·.id)).Nodup ∧
    (∀ e ∈ w.relay.collations, e.id ∈ w.relay.parachains.map Prod.fst) ∧
    (∀ (H : RelayHost) (C : CollationBuilder κ W ε) hd u done e rest v' v'',
      relayCall (ε := ε) (RelaychainBuilder.importNext H) w = (.ok hd, u) →
      u.relay.collations = done ++ e :: rest →
      forEach (enactAndJudge P H C u.relay.builder.chain.bestHash
        u.relay.builder.chain.bestNumber) done u = (.ok (), v') →
      enactCollation (ε := ε) P H u.relay.builder.chain.bestHash
        u.relay.builder.chain.bestNumber e v' = (.ok (), v'') →
      ∃ q, relayCall (ε := ε) (RelaychainBuilder.collatorFor e.id) v'' = (.ok q, v'')) ∧
    (∀ (H : RelayHost) (C : CollationBuilder κ W ε) w', importBlock P H C w = (.ok (), w') →
      ∃ block proof polled, w.relay.next = some (block, proof) ∧
        w'.replies = w.replies ++ polled ∧
        polled.map (fun p ↦ (p.1, p.2.1)) =
          w.relay.parachains.zipIdx.map (fun q ↦ (q.2, q.1.1)) ∧
        Tabulates block.header polled w'.relay.collations) := by
  intro w
  have hs : TableSound w := run_tableSound b v ops
  refine ⟨hs.nodup, hs.registered, ?_, fun H C w' ↦ importBlock_tabulates⟩
  intro H C hd u done e rest v' v'' hu hsplit hdone henact
  -- nothing before the lookup changes the registrations or the table
  have htables : v''.tables = w.tables := by
    rw [(enactCollation_keeps_tables _ _ e).eq_of_ok henact,
      (enactLoop_keeps_tables _ _ done).eq_of_ok hdone, importNext_keeps_tables.eq_of_ok hu]
  obtain ⟨hregs, -⟩ := Prod.mk.inj htables
  have hcoll : u.relay.collations = w.relay.collations :=
    (Prod.mk.inj (importNext_keeps_tables.eq_of_ok hu)).2
  have he : e ∈ w.relay.collations := by
    rw [← hcoll, hsplit]
    exact List.mem_append_right _ List.mem_cons_self
  obtain ⟨q, hq⟩ := RelaychainBuilder.collatorFor_of_mem (ε := ε) (r := v''.relay)
    (by rw [hregs]; exact hs.registered e he)
  exact ⟨q, zoom_eq_ok.mpr ⟨v''.relay, hq, rfl⟩⟩

end World

end Fudge
