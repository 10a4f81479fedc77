import Fudge.Relay.Verdicts

/-!
# How often a collation is enacted

`force_enact_collations` commits the relay chain state once for every entry of the table and clears
the table after the whole loop. If the loop is left in between, the entries it has already enacted
stay in the table, and the next import enacts them again.

Entries carry a ticket, so "at most once" is: the tickets of the enactments in the log are
distinct. The invariant behind it is that no entry of the table was enacted yet. It survives each
loop that is answered to its end once the first enactment is committed (`EnactsCleanly`), and an
early failure changes nothing that matters.
-/

namespace Fudge

namespace World

open Call
open RelaychainBuilder (Error IsFirst)

variable {κ W ε A : Type} {P : RelayPrimitives} {H : RelayHost} {C : CollationBuilder κ W ε}

def enactment? : Event κ W → Option CollationEntry
  | .enacted e _ => some e
  | _ => none

def enactments (w : World κ W) : List CollationEntry := w.log.filterMap enactment?

theorem enactments_note (e : Event κ W) (w : World κ W) :
    (w.note e).enactments = w.enactments ++ (enactment? e).toList := by
  rw [enactments, note, List.filterMap_append]
  cases h : enactment? e <;> simp [enactments, h]

theorem enactments_enactedWorld (b : Builder RelayStorage) (e : CollationEntry) (w : World κ W) :
    (w.enactedWorld b e).enactments = w.enactments ++ [e] := by
  rw [enactedWorld, enactments_note]
  rfl

theorem enactments_judgedWorld (C : CollationBuilder κ W ε) (reg : ℕ) (k : κ) (e : CollationEntry)
    (w : World κ W) : (w.judgedWorld C reg k e).enactments = w.enactments := by
  rw [judgedWorld, enactments_note]
  exact List.append_nil _

/-! ## The answers an iteration needs -/

/-- Everything an iteration needs is answered: the validation data, the mutation with its closure,
and the verdict. -/
def Answered (P : RelayPrimitives) (H : RelayHost) (C : CollationBuilder κ W ε) (parent : Hash)
    (n : ℕ) (e : CollationEntry) (w : World κ W) : Prop :=
  Commits P H parent n e w (.ok () : Outcome (Error ε) Unit) ∧
    ∃ reg k, IsFirst w.relay.parachains e.id reg k ∧
      (C.judge k .approved w.collators).1.isOk = true

/-- Every iteration over the entries is answered, each in the world its predecessor leaves. -/
def AllAnswered (P : RelayPrimitives) (H : RelayHost) (C : CollationBuilder κ W ε) (parent : Hash)
    (n : ℕ) : List CollationEntry → World κ W → Prop
  | [], _ => True
  | e :: es, w => Answered P H C parent n e w ∧
      AllAnswered P H C parent n es (enactAndJudge P H C parent n e w).2

/-- Once the first enactment of a loop is committed, the rest of the loop is answered. -/
def EnactsCleanly (P : RelayPrimitives) (H : RelayHost) (C : CollationBuilder κ W ε)
    (w : World κ W) : Prop :=
  ∀ e es, w.relay.collations = e :: es →
    (∃ result : Outcome (Error ε) Unit, Commits P H w.relay.builder.chain.bestHash
      w.relay.builder.chain.bestNumber e w result) →
    AllAnswered P H C w.relay.builder.chain.bestHash w.relay.builder.chain.bestNumber (e :: es) w

/-- The condition on an operation: an import enacts cleanly. -/
def CleanImport (P : RelayPrimitives) : RelayOp κ W ε A → World κ W → Prop
  | .importBlock H C, w => ∀ hd u,
      relayCall (ε := ε) (RelaychainBuilder.importNext H) w = (.ok hd, u) → EnactsCleanly P H C u
  | _, _ => True

/-- An iteration that did not commit its enactment has no effect on the history. -/
theorem enactAndJudge_of_not_commits {parent : Hash} {n : ℕ} {e : CollationEntry} {w : World κ W}
    (h : ¬ ∃ result : Outcome (Error ε) Unit, Commits P H parent n e w result) :
    ∃ b, (enactAndJudge P H C parent n e w).2 = w.withBuilder b ∧
      (enactAndJudge P H C parent n e w).1.isOk = false := by
  obtain ⟨b, hb, hno⟩ := enactCollation_of_not_commits h
  obtain ⟨hstop, hstate⟩ := bind_of_not_ok (f := fun _ ↦ judgeCollation C e) hno
  exact ⟨b, hstate.trans hb, hstop⟩

theorem enactAndJudge_of_answered {parent : Hash} {n : ℕ} {e : CollationEntry} {w : World κ W}
    (h : Answered P H C parent n e w) :
    (enactAndJudge P H C parent n e w).1.isOk = true ∧
      (enactAndJudge P H C parent n e w).2.enactments = w.enactments ++ [e] := by
  obtain ⟨hcommits, reg, k, hfirst, hjudge⟩ := h
  obtain ⟨b, -, hb⟩ := enactCollation_of_commits hcommits
  rw [enactAndJudge, bind_of_ok hb]
  obtain ⟨hok, hw⟩ := judgeCollation_of_isFirst (C := C) (w := w.enactedWorld b e) hfirst
  rw [hok, hw, enactments_judgedWorld, enactments_enactedWorld]
  exact ⟨hjudge, rfl⟩

/-- **A loop that is answered** returns `Ok` and enacts its entries, each once. -/
theorem forEach_of_allAnswered {parent : Hash} {n : ℕ} :
    ∀ (es : List CollationEntry) {w : World κ W}, AllAnswered P H C parent n es w →
      (forEach (enactAndJudge P H C parent n) es w).1.isOk = true ∧
        (forEach (enactAndJudge P H C parent n) es w).2.enactments = w.enactments ++ es := by
  intro es
  induction es with
  | nil =>
    intro w _
    exact ⟨rfl, (List.append_nil _).symm⟩
  | cons e es ih =>
    intro w hall
    obtain ⟨hok, henact⟩ := enactAndJudge_of_answered hall.1
    obtain ⟨hrest, hrestEnact⟩ := ih hall.2
    obtain ⟨u, hu⟩ := Outcome.isOk_iff.mp hok
    rw [forEach_cons, bind_of_ok (Prod.ext hu rfl)]
    refine ⟨hrest, ?_⟩
    rw [hrestEnact, henact, List.append_assoc]
    rfl

/-- The answers are exactly what an iteration needs: one that returned `Ok` was answered. -/
theorem answered_of_ok {parent : Hash} {n : ℕ} {e : CollationEntry} {w : World κ W}
    (h : (enactAndJudge P H C parent n e w).1.isOk = true) : Answered P H C parent n e w := by
  by_cases hcommits : ∃ result : Outcome (Error ε) Unit, Commits P H parent n e w result
  · obtain ⟨result, hcommits⟩ := hcommits
    obtain ⟨b, -, hb⟩ := enactCollation_of_commits hcommits
    obtain ⟨a, ha⟩ := Outcome.isOk_iff.mp h
    obtain ⟨_, t, ht, hjudge⟩ := bind_eq_ok.mp (Prod.ext ha rfl)
    obtain ⟨rfl, rfl⟩ := Prod.mk.inj (hb.symm.trans ht)
    refine ⟨hcommits, ?_⟩
    rcases judgeCollation_cases (C := C) e (w.enactedWorld b e) with
      ⟨-, hno⟩ | ⟨reg, k, hfirst, hok, -⟩
    · rw [hjudge] at hno
      cases hno
    · rw [hjudge] at hok
      exact ⟨reg, k, hfirst, hok.symm⟩
  · obtain ⟨b, -, hno⟩ := enactAndJudge_of_not_commits (C := C) hcommits
    rw [h] at hno
    cases hno

theorem allAnswered_of_ok {parent : Hash} {n : ℕ} :
    ∀ (es : List CollationEntry) {w : World κ W},
      (forEach (enactAndJudge P H C parent n) es w).1.isOk = true →
        AllAnswered P H C parent n es w := by
  intro es
  induction es with
  | nil => intro w _; trivial
  | cons e es ih =>
    intro w hok
    rw [forEach_cons] at hok
    rcases bind_cases (enactAndJudge P H C parent n e)
        (fun _ ↦ forEach (enactAndJudge P H C parent n) es) w with ⟨_, hfirst, hrest⟩ | ⟨-, hno, -⟩
    · rw [hrest] at hok
      exact ⟨answered_of_ok (by rw [hfirst]; rfl), ih hok⟩
    · rw [hok] at hno
      cases hno

theorem cleanImport_of_ok {w : World κ W} (h : (enactLoop P H C
      (relayCall (ε := ε) (RelaychainBuilder.importNext H) w).2).1.isOk = true) :
    CleanImport P (.importBlock (A := A) H C) w := by
  intro hd u hu e es hc _
  rw [hu, enactLoop, hc] at h
  exact allAnswered_of_ok (e :: es) h

/-- A clean loop either returns `Ok`, having enacted the table, or has enacted nothing. -/
theorem enactLoop_of_clean {w : World κ W} (h : EnactsCleanly P H C w) :
    ((enactLoop P H C w).1.isOk = true ∧
        (enactLoop P H C w).2.enactments = w.enactments ++ w.relay.collations) ∨
      ((enactLoop P H C w).1.isOk = false ∧ (enactLoop P H C w).2.enactments = w.enactments) := by
  rw [enactLoop]
  cases hc : w.relay.collations with
  | nil => exact Or.inl ⟨rfl, (List.append_nil _).symm⟩
  | cons e es =>
    by_cases hcommits : ∃ result : Outcome (Error ε) Unit,
        Commits P H w.relay.builder.chain.bestHash w.relay.builder.chain.bestNumber e w result
    · exact Or.inl (forEach_of_allAnswered (e :: es) (h e es hc hcommits))
    · obtain ⟨b, hb, hno⟩ := enactAndJudge_of_not_commits (C := C) hcommits
      rw [forEach_cons]
      obtain ⟨hstop, hstate⟩ := bind_of_not_ok (f := fun _ ↦ forEach (enactAndJudge P H C
        w.relay.builder.chain.bestHash w.relay.builder.chain.bestNumber) es) hno
      refine Or.inr ⟨hstop, ?_⟩
      rw [hstate, hb]
      rfl

/-! ## The invariant -/

/-- No collation was enacted twice, and none of the table was enacted yet. -/
structure AtMostOnce (w : World κ W) : Prop where
  once : (w.enactments.map (·.ticket)).Nodup
  past : ∀ e ∈ w.enactments, e.ticket < w.tickets
  table : (w.relay.collations.map (·.ticket)).Nodup
  issued : ∀ e ∈ w.relay.collations, e.ticket < w.tickets
  pending : ∀ e ∈ w.relay.collations, e.ticket ∉ w.enactments.map (·.ticket)

namespace AtMostOnce

variable {w w' : World κ W}

theorem congr (h : AtMostOnce w) (hc : w'.relay.collations = w.relay.collations)
    (he : w'.enactments = w.enactments) (ht : w'.tickets = w.tickets) : AtMostOnce w' := by
  constructor
  · rw [he]
    exact h.once
  · rw [he, ht]
    exact h.past
  · rw [hc]
    exact h.table
  · rw [hc, ht]
    exact h.issued
  · rw [hc, he]
    exact h.pending

theorem enacted (h : AtMostOnce w) (hc : w'.relay.collations = [])
    (he : w'.enactments = w.enactments ++ w.relay.collations) (ht : w'.tickets = w.tickets) :
    AtMostOnce w' := by
  constructor
  · rw [he, List.map_append, List.nodup_append]
    refine ⟨h.once, h.table, ?_⟩
    intro a ha b hb hab
    obtain ⟨e, hmem, rfl⟩ := List.mem_map.mp hb
    exact h.pending e hmem (hab ▸ ha)
  · intro e hmem
    rw [he] at hmem
    rw [ht]
    rcases List.mem_append.mp hmem with hmem | hmem
    · exact h.past e hmem
    · exact h.issued e hmem
  · rw [hc]
    exact List.nodup_nil
  · rw [hc]
    exact fun e hmem ↦ absurd hmem List.not_mem_nil
  · rw [hc]
    exact fun e hmem ↦ absurd hmem List.not_mem_nil

theorem push (h : AtMostOnce w) {e : CollationEntry} (he : e.ticket = w.tickets) :
    AtMostOnce (w.push e) := by
  have henact : (w.push e).enactments = w.enactments := by
    rw [World.push, enactments_note]
    exact List.append_nil _
  constructor
  · rw [henact]
    exact h.once
  · intro e' hmem
    rw [henact] at hmem
    have hlt := h.past e' hmem
    change e'.ticket < w.tickets + 1
    omega
  · change ((w.relay.collations ++ [e]).map CollationEntry.ticket).Nodup
    rw [List.map_append, List.nodup_append]
    refine ⟨h.table, List.nodup_singleton _, ?_⟩
    intro a ha b hb hab
    obtain ⟨e', hmem, rfl⟩ := List.mem_map.mp ha
    have hlt := h.issued e' hmem
    have hb' : b = e.ticket := by simpa using hb
    omega
  · intro e' hmem
    change e'.ticket < w.tickets + 1
    rcases List.mem_append.mp hmem with hmem | hmem
    · have hlt := h.issued e' hmem
      omega
    · obtain rfl := List.mem_singleton.mp hmem
      omega
  · intro e' hmem
    rw [henact]
    rcases List.mem_append.mp hmem with hmem | hmem
    · exact h.pending e' hmem
    · obtain rfl := List.mem_singleton.mp hmem
      intro hold
      obtain ⟨e'', hpast, heq⟩ := List.mem_map.mp hold
      have hlt := h.past e'' hpast
      omega

end AtMostOnce

theorem collectLoop_atMostOnce (hd : Header) {w : World κ W} (h : AtMostOnce w) :
    AtMostOnce (collectLoop P H C hd w).2 := by
  have hstep : ∀ q, Preserves (AtMostOnce (κ := κ) (W := W))
      (collectFrom P H C w.relay.builder.chain.bestHash hd q) := by
    rintro ⟨⟨id, k⟩, reg⟩ u hu
    rcases collectFrom_cases (P := P) (H := H) (C := C) w.relay.builder.chain.bestHash hd id k reg u
      with ⟨v, -, h, -⟩ | ⟨pvd, reply, v, -, h⟩
    · rw [h]
      exact hu.congr rfl rfl rfl
    · rw [h]
      have hpolled : AtMostOnce
          ({ u with collators := v }.note (.polled reg id reply u.collators)) := by
        refine hu.congr rfl ?_ rfl
        rw [enactments_note]
        exact List.append_nil _
      cases reply with
      | none => exact hpolled
      | some c =>
        rw [repliedWorld]
        rcases collect_cases hd reg id c
          ({ u with collators := v }.note (.polled reg id (some c) u.collators)) with
          ⟨-, hc⟩ | ⟨-, hc⟩
        · rw [hc]
          exact hpolled
        · rw [hc]
          exact hpolled.push rfl
  exact Preserves.forEach (fun q _ ↦ hstep q) w h

theorem importBlock_atMostOnce {w : World κ W} (h : AtMostOnce w)
    (hclean : CleanImport P (.importBlock (A := A) H C) w) :
    AtMostOnce (importBlock P H C w).2 := by
  rcases importBlock_cases (P := P) (H := H) (C := C) w with ⟨-, hw⟩ | ⟨hd, u, hu, hcase⟩
  · rw [hw]
    exact h.congr (Prod.mk.inj (importNext_keeps_tables w)).2 rfl rfl
  · have hcoll : u.relay.collations = w.relay.collations :=
      (Prod.mk.inj (importNext_keeps_tables.eq_of_ok hu)).2
    have hhist : u.enactments = w.enactments ∧ u.tickets = w.tickets := by
      obtain ⟨r, -, rfl⟩ := zoom_eq_ok.mp hu
      exact ⟨rfl, rfl⟩
    have hu' : AtMostOnce u := h.congr hcoll hhist.1 hhist.2
    have hcoll' : (enactLoop P H C u).2.relay.collations = u.relay.collations :=
      (Prod.mk.inj (enactLoop_tables u)).2
    have htickets : (enactLoop P H C u).2.tickets = u.tickets := by
      have hkeep : Keeps World.tickets (forEach (enactAndJudge P H C
          u.relay.builder.chain.bestHash u.relay.builder.chain.bestNumber) u.relay.collations) :=
        Keeps.forEach (fun e ↦ enactAndJudge_keeps (fun _ _ ↦ rfl) (fun _ _ ↦ rfl)
          (fun _ _ _ ↦ rfl) (fun _ _ _ _ _ _ ↦ rfl) _ _ e) _
      exact hkeep u
    -- a clean first loop enacts the whole table and goes on, or enacts nothing and stops
    rcases enactLoop_of_clean (hclean hd u hu) with ⟨hok, henact⟩ | ⟨hno, henact⟩
    · rcases hcase with ⟨hno, -⟩ | ⟨-, hw⟩
      · rw [hok] at hno
        cases hno
      · rw [hw]
        exact collectLoop_atMostOnce hd (hu'.enacted rfl henact htickets)
    · rcases hcase with ⟨-, -, hw⟩ | ⟨hok, -⟩
      · rw [hw]
        exact hu'.congr hcoll' henact htickets
      · rw [hno] at hok
        cases hok

theorem relayStep_atMostOnce (op : RelayOp κ W ε A) (w : World κ W) (hop : CleanImport P op w)
    (h : AtMostOnce w) : AtMostOnce (relayStep P op w).2 := by
  rcases relayStep_cases (P := P) op w with ⟨H, C, rfl⟩ | ⟨more, -, hc, hlog, ht⟩
  · exact importBlock_atMostOnce h hop
  · refine h.congr hc ?_ ht
    rw [enactments, hlog]
    rfl

/-- **At-most-once enactment**, in every run whose imports are answered to the end of their loop
once the first enactment is committed. -/
theorem enacted_at_most_once (b : Builder RelayStorage) (v : W) (ops : List (RelayOp κ W ε A))
    (h : Along (relayStep P) (CleanImport P) ops (fresh b v)) :
    ((run (relayStep P) ops (fresh b v)).enactments.map (·.ticket)).Nodup := by
  have hinv : AtMostOnce (run (relayStep P) ops (fresh b v)) := by
    refine run_invariant relayStep_atMostOnce ops h ?_
    exact ⟨List.nodup_nil, fun e he ↦ absurd he List.not_mem_nil, List.nodup_nil,
      fun e he ↦ absurd he List.not_mem_nil, fun e he ↦ absurd he List.not_mem_nil⟩
  exact hinv.once

/-! ## A collation enacted twice -/

/-- Collators that always offer, and of which number 1 answers a verdict with an error. -/
def deafCollator : CollationBuilder ℕ (List ℕ) Unit where
  collation _ _ := fun told ↦ (.ok (some emptyCollation), told)
  judge k _ := fun told ↦ if k = 1 then (.err (), told) else (.ok (), told ++ [k])

/-- Ids 1 and 2 are onboarded with the collators 0 and `k`, and three blocks are imported. -/
def onboardBoth (k : ℕ) : List (RelayOp ℕ (List ℕ) Unit Unit) :=
  [.onboardPara .reference ⟨1, [1], []⟩ 0, .onboardPara .reference ⟨2, [1], []⟩ k,
    .buildBlock .reference, .importBlock .reference deafCollator,
    .buildBlock .reference, .importBlock .reference deafCollator,
    .buildBlock .reference, .importBlock .reference deafCollator]

/-- The second import fails after the first collation was enacted, and the third enacts it again. -/
theorem enacted_twice : ¬ ((relayRun (onboardBoth 1)).enactments.map (·.ticket)).Nodup := by
  decide +kernel

/-- With collators that take their verdicts, four collations are enacted, each once. -/
theorem enacted_at_most_once_onboardBoth :
    (relayRun (onboardBoth 2)).enactments.length = 4 ∧
      ((relayRun (onboardBoth 2)).enactments.map (·.ticket)).Nodup := by
  refine ⟨by decide +kernel, enacted_at_most_once _ _ _ ?_⟩
  refine ⟨trivial, fun _ ↦ ⟨trivial, fun _ ↦ ⟨trivial, fun _ ↦ ⟨cleanImport_of_ok ?_, fun _ ↦
    ⟨trivial, fun _ ↦ ⟨cleanImport_of_ok ?_, fun _ ↦ ⟨trivial, fun _ ↦ ⟨cleanImport_of_ok ?_,
      fun _ ↦ trivial⟩⟩⟩⟩⟩⟩⟩⟩
  · decide +kernel
  · decide +kernel
  · decide +kernel

end World

end Fudge
