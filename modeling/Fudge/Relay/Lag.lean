import Fudge.Relay.Numbers

/-!
# How far enacting is behind collecting

A collation is collected at the end of an import, under the header of the block that was imported,
and enacted in the next import, when another block is best. As long as no mutation loses the tip and
the client takes the blocks it is given, the chain grows by one block in between. So the table never
holds a collation of a later block than the best one (`Abreast`), and every candidate is written one
block too late for its two numbers to be in order.
-/

namespace Fudge

namespace RelaychainBuilder

open Call Chain

variable {κ ε R : Type} {P : RelayPrimitives} {H : RelayHost}

theorem withMutState_number (hL : H.toHost.Lawful P.toPrimitives)
    {exec : RelayStorage → R × RelayStorage} {r : RelaychainBuilder κ}
    (h : r.builder.chain.Anchored P.toPrimitives) (hsafe : r.next = none →
      Builder.CommitSafe P.toPrimitives H.toHost r.builder.chain none exec) :
    (withMutState P H exec r : Outcome (Error ε) R × _).2.builder.chain.bestNumber =
      r.builder.chain.bestNumber := by
  rcases withMutState_cases (ε := ε) (P := P) (H := H) exec r with ⟨-, hpanic⟩ | ⟨hnext, hmut⟩
  · rw [hpanic]
  · rw [hmut]
    exact Builder.commit_number hL h (hsafe hnext)

/-- If the client has a verdict on the pending block, then it takes it. -/
def Taken (H : RelayHost) (r : RelaychainBuilder κ) : Prop :=
  ∀ next result c', r.next = some next →
    H.importBlock r.builder.chain (nextParams next.1) = (.ok result, c') → result = .imported

instance (r : RelaychainBuilder κ) : Decidable (Taken H r) :=
  decidable_of_iff (∀ next ∈ r.next, ∀ result ∈
      (H.importBlock r.builder.chain (nextParams next.1)).1.toOption, result = .imported) <| by
    constructor
    · intro h next result c' hnext himport
      exact h next hnext result (by rw [himport]; rfl)
    · intro h next hnext result hresult
      rcases himport : H.importBlock r.builder.chain (nextParams next.1) with ⟨_ | x, c'⟩
      · rw [himport] at hresult
        cases hresult
      · rw [himport] at hresult
        obtain rfl := Option.some.inj hresult
        exact h next x c' hnext himport

theorem importNext_number (hL : H.toHost.Lawful P.toPrimitives) {r r' : RelaychainBuilder κ}
    {hd : Header} (hr : r.builder.chain.Anchored P.toPrimitives) (hp : Pending P r)
    (htaken : Taken H r) (h : (importNext H : Call _ (Error ε) Header) r = (.ok hd, r')) :
    hd.number = r.builder.chain.bestNumber + 1 ∧
      r'.builder.chain.bestNumber = r.builder.chain.bestNumber + 1 := by
  obtain ⟨next, b, result, hnext, rfl, himport, rfl⟩ := importNext_eq_ok h
  obtain rfl := htaken next result _ hnext himport
  have himp := hL.importBlock himport
  obtain ⟨tip, htip, hn⟩ := hr.best
  obtain ⟨parent, hparent, hnumber⟩ := himp.parent
  have hon : (nextParams next.1).header.parentHash = r.builder.chain.bestHash := hp.tip next hnext
  rw [hon, htip] at hparent
  obtain rfl := Option.some.inj hparent
  have hgrown : next.1.header.number = r.builder.chain.bestNumber + 1 := by
    rw [← hn]
    exact hnumber
  exact ⟨hgrown, ((himp.best rfl).2).trans hgrown⟩

theorem importNext_of_not_ok (hL : H.toHost.Lawful P.toPrimitives) {r : RelaychainBuilder κ}
    (h : (importNext H r : Outcome (Error ε) Header × _).1.isOk = false) :
    (importNext H r : Outcome (Error ε) Header × _).2.builder.chain = r.builder.chain := by
  rcases importNext_cases (ε := ε) (H := H) r with ⟨-, -, hsame⟩ | ⟨next, -, hok, himport⟩
  · rw [hsame]
  · rw [himport]
    change (Builder.importBlock H.toHost (nextParams next.1) r.builder).2.chain = r.builder.chain
    rw [Builder.importBlock_chain]
    refine hL.importBlock_refused rfl fun himported ↦ ?_
    rw [h, (Builder.importBlock_isOk _ _).mpr ⟨_, himported⟩] at hok
    cases hok

end RelaychainBuilder

namespace World

open Call Chain
open RelaychainBuilder (Error Pending Taken)

variable {κ W ε A : Type} {P : RelayPrimitives} {H : RelayHost} {C : CollationBuilder κ W ε}

/-! ## The loops -/

theorem enactAndJudge_number (hL : H.toHost.Lawful P.toPrimitives) {parent : Hash} {n : ℕ}
    {e : CollationEntry} {w : World κ W} (h : w.relay.builder.chain.Anchored P.toPrimitives)
    (hsafe : ∀ pvd, validationData ε P H parent e w = .ok pvd →
      Builder.CommitSafe P.toPrimitives H.toHost w.relay.builder.chain none
        (enactment ε P H parent n e pvd)) :
    (enactAndJudge P H C parent n e w).2.relay.builder.chain.bestNumber =
      w.relay.builder.chain.bestNumber := by
  rw [enactAndJudge_relay]
  cases hv : validationData ε P H parent e w with
  | ok pvd => exact RelaychainBuilder.withMutState_number hL h fun _ ↦ hsafe pvd hv
  | err x => rfl
  | panic => rfl

theorem loop_number (hL : H.toHost.Lawful P.toPrimitives)
    {parent : Hash} {n : ℕ} : ∀ (l : List CollationEntry) {w : World κ W},
      LoopSafe P H C parent n l w → w.relay.builder.chain.Anchored P.toPrimitives →
        (forEach (enactAndJudge P H C parent n) l w).2.relay.builder.chain.bestNumber =
          w.relay.builder.chain.bestNumber := by
  intro l
  induction l with
  | nil => exact fun _ _ ↦ rfl
  | cons e es ih =>
    intro w hsafe h
    have hone := enactAndJudge_number (C := C) hL h hsafe.1
    rw [forEach_cons]
    rcases bind_cases (enactAndJudge P H C parent n e)
      (fun _ ↦ forEach (enactAndJudge P H C parent n) es) w with ⟨_, hok, hrest⟩ | ⟨-, -, hrest⟩
    · have hisOk : (enactAndJudge P H C parent n e w).1.isOk = true := by
        rw [hok]
        rfl
      have hanchored := enactAndJudge_preserves (C := C)
        (RelaychainBuilder.anchored_slotInvariant κ ε P) hL parent n e w h
      rw [hrest, ih (hsafe.2 hisOk) hanchored]
      exact hone
    · rw [hrest]
      exact hone

/-! ## The invariant -/

/-- No collation in the table is of a later block than the best one, on which the pending block
sits. -/
structure Abreast (P : RelayPrimitives) (w : World κ W) : Prop where
  anchored : w.relay.builder.chain.Anchored P.toPrimitives
  pending : Pending P w.relay
  table : ∀ e ∈ w.relay.collations,
    e.generationParent.number ≤ w.relay.builder.chain.bestNumber

/-- The tip is not lost and not refused: no mutation of the operation fails after its revert, and
the client takes the block of an import. -/
def KeepsTip (P : RelayPrimitives) (op : PublicOp κ W ε A) (w : World κ W) : Prop :=
  MutatesSafely P op w ∧ match op with
    | .relay (.importBlock H _) => Taken H w.relay
    | _ => True

/-- The chain is one block longer when the loop of an import starts, and when it ends. -/
theorem enactLoop_number (hL : H.toHost.Lawful P.toPrimitives)
    {w u : World κ W} {hd : Header} (h : Abreast P w) (hsafe : ImportSafe P H C w)
    (htaken : Taken H w.relay)
    (hu : relayCall (ε := ε) (RelaychainBuilder.importNext H) w = (.ok hd, u)) :
    hd.number = w.relay.builder.chain.bestNumber + 1 ∧
      u.relay.builder.chain.bestNumber = w.relay.builder.chain.bestNumber + 1 ∧
      (enactLoop P H C u).2.relay.builder.chain.bestNumber =
        w.relay.builder.chain.bestNumber + 1 := by
  obtain ⟨r, hr, hru⟩ := zoom_eq_ok.mp hu
  obtain ⟨hhd, hgrown⟩ := RelaychainBuilder.importNext_number hL h.anchored h.pending htaken hr
  have hanchored : (relayCall (ε := ε) (RelaychainBuilder.importNext H)
      w).2.relay.builder.chain.Anchored P.toPrimitives :=
    RelaychainBuilder.importNext_anchored hL w.relay h.anchored
  rw [hu] at hanchored
  rw [ImportSafe, hu] at hsafe
  have hnow : u.relay.builder.chain.bestNumber = w.relay.builder.chain.bestNumber + 1 := by
    rw [hru]
    exact hgrown
  exact ⟨hhd, hnow, (loop_number hL _ (hsafe rfl) hanchored).trans hnow⟩

/-- **An import that keeps the tip** writes every candidate under a younger relay parent than the
block of its collation. -/
theorem importWritings_late (hL : H.toHost.Lawful P.toPrimitives)
    (hdecode : ∀ cpa r, H.decodeCandidate cpa = .ok r → r = cpa) {w : World κ W}
    (h : Abreast P w) (htaken : Taken H w.relay) :
    ∀ x ∈ importWritings P H C w, x.candidate.backedInNumber < x.candidate.relayParentNumber := by
  intro x hx
  obtain ⟨hmem, hreached, hbacked, -⟩ :=
    importWritings_numbers (C := C) hL hdecode h.anchored x hx
  obtain ⟨hok, -⟩ := List.mem_ite_nil_right.mp hx
  obtain ⟨hd, hhd⟩ := Outcome.isOk_iff.mp hok
  obtain ⟨r, hr, -⟩ := zoom_eq_ok.mp (eq_of_fst hhd)
  have hnow : some x.candidate.relayParentNumber = some (w.relay.builder.chain.bestNumber + 1) := by
    rw [← hreached, RelaychainBuilder.importNext_reached hL hr,
      (RelaychainBuilder.importNext_number hL h.anchored h.pending htaken hr).2]
  have hold := h.table x.entry hmem
  have := Option.some.inj hnow
  omega

theorem importBlock_abreast (hL : H.toHost.Lawful P.toPrimitives) {w : World κ W}
    (h : Abreast P w) (hsafe : ImportSafe P H C w) (htaken : Taken H w.relay) :
    Abreast P (importBlock P H C w).2 := by
  refine ⟨importBlock_preserves (RelaychainBuilder.anchored_slotInvariant κ ε P) hL w h.anchored,
    importBlock_preserves (RelaychainBuilder.pending_slotInvariant κ ε P) hL w h.pending, ?_⟩
  rcases importBlock_cases (P := P) (H := H) (C := C) w with ⟨⟨-, hno⟩, hstop⟩ | ⟨hd, u, hu, hcase⟩
  · have hchain : (relayCall (ε := ε) (RelaychainBuilder.importNext H) w).2.relay.builder.chain =
        w.relay.builder.chain := RelaychainBuilder.importNext_of_not_ok hL hno
    have htable : (relayCall (ε := ε) (RelaychainBuilder.importNext H) w).2.relay.collations =
        w.relay.collations := (Prod.mk.inj (importNext_keeps_tables w)).2
    rw [hstop, hchain, htable]
    exact h.table
  · obtain ⟨hhd, -, hloop⟩ := enactLoop_number hL h hsafe htaken hu
    rcases hcase with ⟨-, -, hstop⟩ | ⟨-, hcollect⟩
    · -- the table is as it was, and the chain one block longer
      have htable : (enactLoop P H C u).2.relay.collations = w.relay.collations :=
        (Prod.mk.inj (enactLoop_tables u)).2.trans
          (Prod.mk.inj (importNext_keeps_tables.eq_of_ok hu)).2
      rw [hstop, hloop, htable]
      exact fun e he ↦ (h.table e he).trans (Nat.le_succ _)
    · -- the table is filled anew, under the header of the new block
      rw [hcollect, (collectLoop_keeps_builder _ _).1]
      change ∀ e ∈ _, _ ≤ (enactLoop P H C u).2.relay.builder.chain.bestNumber
      rw [hloop, ← hhd]
      exact fun e he ↦ (congrArg Header.number (collectLoop_generationParent hd _ e he)).le

/-! ## What returned is safe -/

theorem commitSafe_of_ok {R : Type} (hL : H.toHost.Lawful P.toPrimitives)
    {exec : RelayStorage → R × RelayStorage} {r r' : RelaychainBuilder κ} {a : R}
    (h : (RelaychainBuilder.withMutState P H exec : Call _ (Error ε) R) r = (.ok a, r')) :
    Builder.CommitSafe P.toPrimitives H.toHost r.builder.chain none exec := by
  obtain ⟨-, b, hcommit, -⟩ := RelaychainBuilder.withMutState_eq_ok h
  refine (Builder.withState_commit_atomic_iff hL r.builder none exec).mp fun herr ↦ ?_
  change (Builder.commit P.toPrimitives H.toHost none exec r.builder).1.isErr = true at herr
  rw [hcommit] at herr
  cases herr

theorem commitSafe_of_enactAndJudge (hL : H.toHost.Lawful P.toPrimitives) {parent : Hash} {n : ℕ}
    {e : CollationEntry} {w w' : World κ W} {pvd : PersistedValidationData}
    (h : enactAndJudge P H C parent n e w = (.ok (), w'))
    (hpvd : validationData ε P H parent e w = .ok pvd) :
    Builder.CommitSafe P.toPrimitives H.toHost w.relay.builder.chain none
      (enactment ε P H parent n e pvd) := by
  obtain ⟨_, v, henact, -⟩ := bind_eq_ok.mp h
  obtain ⟨pvd', u, hread, hrest⟩ := bind_eq_ok.mp henact
  obtain ⟨m, _, hmut, -⟩ := bind_eq_ok.mp hrest
  have hsame : u = w := by
    have hkeep := relayCall_of_read (RelaychainBuilder.persistedValidationData_keeps (ε := ε)
      (P := P) (H := H) parent e.id) w
    rwa [hread] at hkeep
  have hdata : pvd' = pvd := by
    rw [validationData, hread] at hpvd
    exact Outcome.ok.inj hpvd
  subst hsame hdata
  obtain ⟨r, hr, -⟩ := zoom_eq_ok.mp hmut
  exact commitSafe_of_ok hL hr

theorem LoopSafe.of_ok (hL : H.toHost.Lawful P.toPrimitives) {parent : Hash} {n : ℕ} :
    ∀ (l : List CollationEntry) {w : World κ W},
      (forEach (enactAndJudge P H C parent n) l w).1.isOk = true → LoopSafe P H C parent n l w := by
  intro l
  induction l with
  | nil => exact fun _ ↦ trivial
  | cons e es ih =>
    intro w hok
    obtain ⟨_, hall⟩ := Outcome.isOk_iff.mp hok
    rw [forEach_cons] at hall
    obtain ⟨_, t, hone, hrest⟩ := bind_eq_ok.mp (eq_of_fst hall)
    refine ⟨fun pvd hpvd ↦ commitSafe_of_enactAndJudge hL hone hpvd, fun _ ↦ ?_⟩
    rw [hone]
    exact ih (by rw [hrest]; rfl)

theorem ImportSafe.of_ok (hL : H.toHost.Lawful P.toPrimitives) {w : World κ W}
    (hok : (importBlock P H C w).1.isOk = true) : ImportSafe P H C w := by
  rcases importBlock_cases (P := P) (H := H) (C := C) w with ⟨⟨hno, -⟩, -⟩ | ⟨hd, u, hnext, hcase⟩
  · rw [hno] at hok
    cases hok
  · rcases hcase with ⟨-, hno, -⟩ | ⟨hloop, -⟩
    · rw [hno] at hok
      cases hok
    · intro _
      rw [hnext]
      exact LoopSafe.of_ok hL _ hloop

theorem mutatesSafely_of_ok {op : PublicOp κ W ε A} {w : World κ W} (hL : op.Lawful P)
    (hok : (publicStep P op w).1.isOk = true) : MutatesSafely P op w := by
  obtain ⟨_, hop⟩ := Outcome.isOk_iff.mp hok
  rcases op with op | _ <;> try trivial
  cases op with
  | onboardPara H para k =>
    obtain ⟨_, hcall, -⟩ := map_eq_ok.mp (eq_of_fst hop)
    obtain ⟨r, hr, -⟩ := zoom_eq_ok.mp hcall
    obtain ⟨_, t, hmut, -⟩ := bind_eq_ok.mp hr
    exact fun _ ↦ commitSafe_of_ok hL hmut
  | updateParaHead H id head =>
    obtain ⟨_, hcall, -⟩ := map_eq_ok.mp (eq_of_fst hop)
    obtain ⟨r, hmut, -⟩ := zoom_eq_ok.mp hcall
    exact fun _ ↦ commitSafe_of_ok hL hmut
  | withMutState H exec =>
    obtain ⟨_, hcall, -⟩ := map_eq_ok.mp (eq_of_fst hop)
    obtain ⟨r, hmut, -⟩ := zoom_eq_ok.mp hcall
    exact fun _ ↦ commitSafe_of_ok hL hmut
  | importBlock H C => exact ImportSafe.of_ok hL ((map_isOk _ _ w).symm.trans hok)
  | buildBlock H => trivial
  | collators f => trivial

/-! ## Runs -/

theorem publicStep_abreast (op : PublicOp κ W ε A) (w : World κ W)
    (hop : (op.Lawful P ∧ op.Decodes) ∧ KeepsTip P op w) (h : Abreast P w) :
    (∀ x ∈ writingsBy P op w, x.candidate.backedInNumber < x.candidate.relayParentNumber) ∧
      Abreast P (publicStep P op w).2 := by
  obtain ⟨⟨hL, hdecode⟩, hsafe, htaken⟩ := hop
  by_cases himport : ∃ H C, op = .relay (.importBlock H C)
  · obtain ⟨H, C, rfl⟩ := himport
    exact ⟨importWritings_late hL hdecode h htaken,
      importBlock_abreast hL h hsafe htaken⟩
  · have hother : ∀ H C, op ≠ .relay (.importBlock H C) := fun H C hop ↦ himport ⟨H, C, hop⟩
    have hnumber : (publicStep P op w).2.relay.builder.chain.bestNumber =
        w.relay.builder.chain.bestNumber := by
      rcases publicStep_cases (P := P) op w with
        ⟨H, C, rfl⟩ | ⟨H, rfl⟩ | ⟨R, H, exec, hL', hsafe', -, hslot⟩ | ⟨hslot, -⟩
      · exact absurd ⟨H, C, rfl⟩ himport
      · rw [publicStep_buildBlock, RelaychainBuilder.buildBlock_builder]
      · rw [(Prod.mk.inj hslot).1]
        exact RelaychainBuilder.withMutState_number (hL' hL) h.anchored (hsafe' hsafe)
      · rw [(Prod.mk.inj hslot).1]
    refine ⟨?_, publicStep_anchored op w hL h.anchored,
      publicStep_pending op w hL h.pending, ?_⟩
    · rw [writingsBy_of_ne hother]
      exact fun x hx ↦ absurd hx List.not_mem_nil
    · rw [publicStep_collations op w hother, hnumber]
      exact h.table

/-- **Every candidate is late** in a run that keeps the tip: its relay parent is younger than the
block it was backed in. -/
theorem candidates_late {w : World κ W} (h : Abreast P w)
    (ops : List (PublicOp κ W ε A)) (hops : Along (publicStep P)
      (fun op w ↦ (op.Lawful P ∧ op.Decodes) ∧ KeepsTip P op w) ops w) :
    ∀ x ∈ writings P ops w, x.candidate.backedInNumber < x.candidate.relayParentNumber :=
  (forall_ledger_iff ops (by simp)).mpr
    (along_of_invariant (fun op w hop hw ↦ publicStep_abreast op w hop hw) ops hops h)

theorem abreast_genesis (P : RelayPrimitives) (s : RelayStorage) (v : W) :
    Abreast P (fresh (κ := κ) { chain := Chain.genesis P.toPrimitives s } v) where
  anchored := anchored_genesis _ s
  pending := ⟨hashed_genesis _ s, fun b hb ↦ by cases hb⟩
  table e he := absurd he List.not_mem_nil

/-- A parachain is onboarded, and two blocks are imported; a head is written between them. -/
def onboardAndEnact : List (PublicOp ℕ (List ℕ) Unit Unit) :=
  [.relay (.onboardPara .reference ⟨1, [1], []⟩ 0), .relay (.buildBlock .reference),
    .relay (.importBlock .reference deafCollator), .relay (.updateParaHead .reference 1 [7]),
    .relay (.buildBlock .reference), .relay (.importBlock .reference deafCollator)]

theorem candidates_late_onboardAndEnact :
    let w : World ℕ (List ℕ) := fresh (RelaychainBuilder.genesis ℕ).builder []
    (writings RelayPrimitives.reference onboardAndEnact w).length = 1 ∧
      ∀ x ∈ writings RelayPrimitives.reference onboardAndEnact w,
        x.candidate.backedInNumber < x.candidate.relayParentNumber := by
  intro w
  have hL : RelayHost.reference.toHost.Lawful RelayPrimitives.reference.toPrimitives :=
    Host.reference_lawful _
  have hdecode : ∀ cpa r, RelayHost.reference.decodeCandidate cpa = .ok r → r = cpa :=
    fun _ _ h ↦ (Except.ok.inj h).symm
  refine ⟨by decide +kernel, candidates_late (abreast_genesis _ _ _)
    onboardAndEnact ⟨⟨⟨hL, trivial⟩, mutatesSafely_of_ok hL ?_, trivial⟩, fun _ ↦
      ⟨⟨⟨hL, trivial⟩, trivial, trivial⟩, fun _ ↦
        ⟨⟨⟨hL, hdecode⟩, mutatesSafely_of_ok hL ?_, ?_⟩, fun _ ↦
          ⟨⟨⟨hL, trivial⟩, mutatesSafely_of_ok hL ?_, trivial⟩, fun _ ↦
            ⟨⟨⟨hL, trivial⟩, trivial, trivial⟩, fun _ ↦
              ⟨⟨⟨hL, hdecode⟩, mutatesSafely_of_ok hL ?_, ?_⟩, fun _ ↦ trivial⟩⟩⟩⟩⟩⟩⟩
  · decide +kernel
  · decide +kernel
  · change Taken _ _
    decide +kernel
  · decide +kernel
  · decide +kernel
  · change Taken _ _
    decide +kernel

end World

end Fudge
