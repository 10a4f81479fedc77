import Fudge.Core.Anchored
import Fudge.Relay.Refusal

/-!
# The two numbers of a candidate

A candidate carries the number of its relay parent and the number of the block it was backed in.
`force_enact_collations` takes the first from the client when its loop starts, and the second from
the header that was stored with the collation when it was collected, one import before. So the
relay parent is the *younger* of the two, unless the chain was thrown back in between.

All collations of a table are collected under one header. An import therefore writes all its
candidates in order, or none of them; which it is depends on the number that the client's verdict
on the pending block takes the chain to.

`descriptor.relay_parent` is the best block when the loop starts. That its number is the first of
the two holds in every run, also when mutations fail and leave the chain reverted.
-/

namespace Fudge

namespace RelaychainBuilder

open Call Chain

variable {κ ε R : Type} {P : RelayPrimitives} {H : RelayHost}

/-! ## The best block is stored -/

theorem withMutState_anchored (hL : H.toHost.Lawful P.toPrimitives)
    (exec : RelayStorage → R × RelayStorage) :
    Preserves (fun r ↦ r.builder.chain.Anchored P.toPrimitives)
      (withMutState P H exec : Call (RelaychainBuilder κ) (Error ε) R) := by
  intro r h
  rcases withMutState_cases (ε := ε) (P := P) (H := H) exec r with ⟨-, hpanic⟩ | ⟨-, hmut⟩
  · rw [hpanic]
    exact h
  · rw [hmut]
    exact Builder.commit_anchored hL exec r.builder h

theorem importNext_anchored (hL : H.toHost.Lawful P.toPrimitives) :
    Preserves (fun r ↦ r.builder.chain.Anchored P.toPrimitives)
      (importNext H : Call (RelaychainBuilder κ) (Error ε) Header) := by
  intro r h
  rcases importNext_cases (ε := ε) (H := H) r with ⟨-, -, hsame⟩ | ⟨next, -, -, himport⟩
  · rw [hsame]
    exact h
  · rw [himport]
    exact Builder.importBlock_anchored hL rfl r.builder h

theorem anchored_slotInvariant (κ ε : Type) (P : RelayPrimitives) :
    SlotInvariant κ ε P fun c _ ↦ c.Anchored P.toPrimitives where
  withMutState exec hL := withMutState_anchored hL exec
  buildBlock _ := (buildBlock_keeps (f := fun r ↦ r.builder.chain) fun _ _ ↦ rfl).preserves
    fun _ _ hsame h ↦ hsame ▸ h
  importNext hL := importNext_anchored hL

/-! ## The number an import reaches -/

/-- The number of the best block when the loop of an import starts: that of the pending block if the
client imports it, and else the one it had before. There is none if no block is pending, or the
client has no verdict on it. -/
def reachedNumber (H : RelayHost) (r : RelaychainBuilder κ) : Option ℕ :=
  r.next.bind fun next ↦
    (H.importBlock r.builder.chain (nextParams next.1)).1.toOption.map fun result ↦
      if result = .imported then next.1.header.number else r.builder.chain.bestNumber

theorem importNext_reached (hL : H.toHost.Lawful P.toPrimitives) {r r' : RelaychainBuilder κ}
    {hd : Header} (h : (importNext H : Call _ (Error ε) Header) r = (.ok hd, r')) :
    reachedNumber H r = some r'.builder.chain.bestNumber := by
  obtain ⟨next, b, result, hnext, rfl, himport, rfl⟩ := importNext_eq_ok h
  rw [reachedNumber, hnext, Option.bind_some, himport]
  refine congrArg some ?_
  by_cases hresult : result = .imported
  · subst hresult
    exact ((hL.importBlock himport).best rfl).2.symm
  · have hsame : b.chain = r.builder.chain :=
      hL.importBlock_refused himport fun h ↦ hresult (Except.ok.inj h)
    exact (if_neg hresult).trans (congrArg Chain.bestNumber hsame).symm

end RelaychainBuilder

namespace World

open Call Chain
open RelaychainBuilder (Error reachedNumber)
open RelayStorage (candidate fudgeCandidate)

variable {κ W ε A : Type} {P : RelayPrimitives} {H : RelayHost} {C : CollationBuilder κ W ε}

/-- **Whatever an operation does**, the best block is stored under its number. -/
theorem publicStep_anchored (op : PublicOp κ W ε A) (w : World κ W) (hop : op.Lawful P)
    (h : w.relay.builder.chain.Anchored P.toPrimitives) :
    (publicStep P op w).2.relay.builder.chain.Anchored P.toPrimitives :=
  publicStep_preserves (RelaychainBuilder.anchored_slotInvariant κ ε P) op w hop h

/-! ## The table -/

/-- The collations of the table were collected under one header. -/
def CollectedTogether (w : World κ W) : Prop :=
  ∃ hd : Header, ∀ e ∈ w.relay.collations, e.generationParent = hd

theorem collectFrom_generationParent (parent : Hash) (hd : Header) (q : (Id × κ) × ℕ) :
    Preserves (fun w : World κ W ↦ ∀ e ∈ w.relay.collations, e.generationParent = hd)
      (collectFrom P H C parent hd q) := by
  obtain ⟨⟨id, k⟩, reg⟩ := q
  intro w hw
  obtain ⟨-, hsame | ⟨c, -, hnew⟩⟩ :=
    collectFrom_tables (P := P) (H := H) (C := C) parent hd id k reg w
  · rw [hsame]
    exact hw
  · rw [hnew]
    intro e he
    rcases List.mem_append.mp he with he | he
    · exact hw e he
    · rw [List.mem_singleton.mp he]

theorem collectLoop_generationParent (hd : Header) (w : World κ W) :
    ∀ e ∈ (collectLoop P H C hd w.cleared).2.relay.collations, e.generationParent = hd :=
  Preserves.forEach (fun q _ ↦ collectFrom_generationParent _ hd q) _ (by simp [cleared])

/-- An import leaves the table alone, or fills it anew under the header of its block. -/
theorem importBlock_table (w : World κ W) :
    (importBlock P H C w).2.relay.collations = w.relay.collations ∨
      ∃ hd u, relayCall (ε := ε) (RelaychainBuilder.importNext H) w = (.ok hd, u) ∧
        (enactLoop P H C u).1.isOk = true ∧
        ∀ e ∈ (importBlock P H C w).2.relay.collations, e.generationParent = hd := by
  rcases importBlock_cases (P := P) (H := H) (C := C) w with ⟨-, hstop⟩ | ⟨hd, u, hu, hcase⟩
  · rw [hstop]
    exact Or.inl (Prod.mk.inj (importNext_keeps_tables w)).2
  · rcases hcase with ⟨-, -, hstop⟩ | ⟨hok, hcollect⟩
    · rw [hstop]
      exact Or.inl ((Prod.mk.inj (enactLoop_tables u)).2.trans
        (Prod.mk.inj (importNext_keeps_tables.eq_of_ok hu)).2)
    · refine Or.inr ⟨hd, u, hu, hok, ?_⟩
      rw [hcollect]
      exact collectLoop_generationParent hd _

theorem publicStep_collations (op : PublicOp κ W ε A) (w : World κ W)
    (hop : ∀ H C, op ≠ .relay (.importBlock H C)) :
    (publicStep P op w).2.relay.collations = w.relay.collations := by
  have hread : ∀ {α : Type} (c : Call (RelaychainBuilder κ) (Error ε) α),
      Keeps (·.collations) c → (relayCall c w).2.relay.collations = w.relay.collations :=
    fun c hc ↦ hc w.relay
  cases op with
  | relay op =>
    rcases relayStep_cases (P := P) op w with ⟨H, C, rfl⟩ | ⟨-, -, htable, -⟩
    · exact absurd rfl (hop H C)
    · exact htable
  | withState H exec => exact hread _ (RelaychainBuilder.withState_keeps _)
  | withStateAt H at_ exec =>
    exact hread _ (RelaychainBuilder.core_keeps fun _ _ ↦ rfl)
  | appendExtrinsic H xt => exact hread _ (RelaychainBuilder.core_keeps fun _ _ ↦ rfl)
  | appendExtrinsics H xts =>
    exact hread _ (RelaychainBuilder.appendExtrinsics_frame
      (fun _ ↦ RelaychainBuilder.core_keeps fun _ _ ↦ rfl) xts)
  | appendTransition aux => exact hread _ (RelaychainBuilder.core_keeps fun _ _ ↦ rfl)

theorem publicStep_collectedTogether (op : PublicOp κ W ε A) (w : World κ W)
    (h : CollectedTogether w) : CollectedTogether (publicStep P op w).2 := by
  by_cases himport : ∃ H C, op = .relay (.importBlock H C)
  · obtain ⟨H, C, rfl⟩ := himport
    rcases importBlock_table (P := P) (H := H) (C := C) w with hsame | ⟨hd, -, -, -, hnew⟩
    · obtain ⟨hd, hall⟩ := h
      exact ⟨hd, hsame ▸ hall⟩
    · exact ⟨hd, hnew⟩
  · rw [CollectedTogether, publicStep_collations op w fun H C hop ↦ himport ⟨H, C, hop⟩]
    exact h

/-! ## What the loop writes -/

variable (P H C)

/-- The candidate that the enactment of an entry writes, if its mutation goes through. -/
def written (ε : Type) (parent : Hash) (n : ℕ) (e : CollationEntry) (w : World κ W) :
    Option CandidatePendingAvailability :=
  match validationData ε P H parent e w with
  | .ok pvd =>
    if Goes ε P H parent n pvd e w then
      (w.relay.builder.chain.states w.relay.builder.chain.bestHash).bind
        (candidate P H parent n pvd e.id e.collation e.generationParent)
    else none
  | _ => none

/-- A candidate in `PendingAvailability`, with the entry it was made of and the chain on which the
loop that wrote it started. -/
structure Writing where
  chain : Chain RelayStorage
  entry : CollationEntry
  candidate : CandidatePendingAvailability

/-- The candidates that the loop of `force_enact_collations` writes when it starts on `c`. -/
def loopWritings (c : Chain RelayStorage) : List CollationEntry → World κ W → List Writing
  | [], _ => []
  | e :: es, w =>
    ((written P H ε c.bestHash c.bestNumber e w).map fun cpa ↦ ⟨c, e, cpa⟩).toList ++
      if (enactAndJudge P H C c.bestHash c.bestNumber e w).1.isOk
      then loopWritings c es (enactAndJudge P H C c.bestHash c.bestNumber e w).2
      else []

def importWritings (w : World κ W) : List Writing :=
  let imported := relayCall (ε := ε) (RelaychainBuilder.importNext H) w
  if imported.1.isOk then
    loopWritings P H C imported.2.relay.builder.chain imported.2.relay.collations imported.2
  else []

def writingsBy : PublicOp κ W ε A → World κ W → List Writing
  | .relay (.importBlock H C), w => importWritings P H C w
  | _, _ => []

def writings (ops : List (PublicOp κ W ε A)) (w : World κ W) : List Writing :=
  ledger (publicStep P) (fun op w l ↦ l ++ writingsBy P op w) ops w []

variable {P H C}

/-- The relay parent of a candidate is no younger than the block it was backed in. -/
def Writing.InOrder (x : Writing) : Prop :=
  x.candidate.relayParentNumber ≤ x.candidate.backedInNumber

/-- The number of the relay parent is that of the block the descriptor names. -/
def Writing.NamesParent (x : Writing) : Prop :=
  (x.chain.headers x.candidate.descriptor.relayParent).map (·.number) =
    some x.candidate.relayParentNumber

/-- The lookups and the writes of the closure fix both numbers and the relay parent. -/
theorem candidate_numbers (hdecode : ∀ cpa r, H.decodeCandidate cpa = .ok r → r = cpa)
    {parent : Hash} {n : ℕ} {pvd : PersistedValidationData} {id : Id} {collation : Collation}
    {generationParent : Header} {s : RelayStorage} {cpa : CandidatePendingAvailability}
    (h : candidate P H parent n pvd id collation generationParent s = some cpa) :
    cpa.relayParentNumber = n ∧ cpa.backedInNumber = generationParent.number ∧
      cpa.descriptor.relayParent = parent := by
  obtain ⟨codeHash, -, h⟩ := Option.bind_eq_some_iff.mp h
  obtain ⟨core, -, h⟩ := Option.bind_eq_some_iff.mp h
  cases hdec : H.decodeCandidate
      (fudgeCandidate P parent n pvd id collation generationParent codeHash core) with
  | error e =>
    rw [hdec] at h
    cases h
  | ok r =>
    rw [hdec] at h
    obtain rfl := Option.some.inj h
    rw [hdecode _ _ hdec]
    exact ⟨rfl, rfl, rfl⟩

theorem candidate_of_written {parent : Hash} {n : ℕ} {e : CollationEntry} {w : World κ W}
    {cpa : CandidatePendingAvailability} (h : written P H ε parent n e w = some cpa) :
    ∃ pvd s, candidate P H parent n pvd e.id e.collation e.generationParent s = some cpa := by
  rw [written] at h
  split at h
  · obtain ⟨-, h⟩ := Option.ite_none_right_eq_some.mp h
    obtain ⟨s, -, hcpa⟩ := Option.bind_eq_some_iff.mp h
    exact ⟨_, s, hcpa⟩
  · cases h

theorem mem_loopWritings {c : Chain RelayStorage} {x : Writing} :
    ∀ (l : List CollationEntry) {w : World κ W}, x ∈ loopWritings P H C c l w →
      x.chain = c ∧ x.entry ∈ l ∧
        ∃ u : World κ W, written P H ε c.bestHash c.bestNumber x.entry u = some x.candidate := by
  intro l
  induction l with
  | nil =>
    intro w hx
    exact absurd hx List.not_mem_nil
  | cons e es ih =>
    intro w hx
    rw [loopWritings] at hx
    rcases List.mem_append.mp hx with hfirst | hrest
    · obtain ⟨cpa, hcpa, rfl⟩ := Option.map_eq_some_iff.mp (Option.mem_toList.mp hfirst)
      exact ⟨rfl, List.mem_cons_self, w, hcpa⟩
    · obtain ⟨-, hrest⟩ := List.mem_ite_nil_right.mp hrest
      obtain ⟨hchain, hmem, hwritten⟩ := ih hrest
      exact ⟨hchain, List.mem_cons_of_mem e hmem, hwritten⟩

/-! ## Imports and runs -/

/-- **The numbers of the candidates of an import.** The one is the number that the import reaches,
and is that of the block the descriptor names; the other is that of the block of the collation. -/
theorem importWritings_numbers (hL : H.toHost.Lawful P.toPrimitives)
    (hdecode : ∀ cpa r, H.decodeCandidate cpa = .ok r → r = cpa) {w : World κ W}
    (hw : w.relay.builder.chain.Anchored P.toPrimitives) :
    ∀ x ∈ importWritings P H C w, x.entry ∈ w.relay.collations ∧
      reachedNumber H w.relay = some x.candidate.relayParentNumber ∧
      x.candidate.backedInNumber = x.entry.generationParent.number ∧ x.NamesParent := by
  intro x hx
  rw [importWritings] at hx
  obtain ⟨hok, hx⟩ := List.mem_ite_nil_right.mp hx
  obtain ⟨hd, hhd⟩ := Outcome.isOk_iff.mp hok
  obtain ⟨r, hr, hu⟩ := zoom_eq_ok.mp (eq_of_fst hhd)
  obtain ⟨hchain, hmem, v, hwritten⟩ := mem_loopWritings _ hx
  obtain ⟨pvd, s, hcpa⟩ := candidate_of_written hwritten
  obtain ⟨hnumber, hbacked, hparent⟩ := candidate_numbers hdecode hcpa
  have hstart : (relayCall (ε := ε) (RelaychainBuilder.importNext H) w).2.relay = r :=
    congrArg World.relay hu
  have htable : (relayCall (ε := ε) (RelaychainBuilder.importNext H) w).2.relay.collations =
      w.relay.collations := (Prod.mk.inj (importNext_keeps_tables w)).2
  have hanchored : r.builder.chain.Anchored P.toPrimitives := by
    have hkept := RelaychainBuilder.importNext_anchored (ε := ε) hL w.relay hw
    rwa [hr] at hkept
  refine ⟨htable ▸ hmem, ?_, hbacked, ?_⟩
  · rw [hnumber, hstart]
    exact RelaychainBuilder.importNext_reached hL hr
  · rw [Writing.NamesParent, hchain, hparent, hnumber, hstart]
    exact hanchored.number

/-- The host of an import decodes a candidate to what was encoded. -/
def PublicOp.Decodes : PublicOp κ W ε A → Prop
  | .relay (.importBlock H _) => ∀ cpa r, H.decodeCandidate cpa = .ok r → r = cpa
  | _ => True

/-- An import does not take the chain above the block at which the collations were collected that
wait in the table. -/
def EnactsInTime : PublicOp κ W ε A → World κ W → Prop
  | .relay (.importBlock H _), w => ∀ n ∈ reachedNumber H w.relay, ∀ e ∈ w.relay.collations,
      n ≤ e.generationParent.number
  | _, _ => True

theorem writingsBy_of_ne {op : PublicOp κ W ε A} {w : World κ W}
    (hop : ∀ H C, op ≠ .relay (.importBlock H C)) : writingsBy P op w = [] := by
  rcases op with op | _ <;> try rfl
  rcases op with _ | _ | _ | _ | ⟨H, C⟩ | _ <;> try rfl
  exact absurd rfl (hop H C)

instance (op : PublicOp κ W ε A) (w : World κ W) : Decidable (EnactsInTime op w) :=
  match op with
  | .relay (.importBlock H _) => inferInstanceAs (Decidable (∀ n ∈ reachedNumber H w.relay, _))
  | .relay (.onboardPara ..) | .relay (.updateParaHead ..) | .relay (.withMutState ..)
  | .relay (.buildBlock ..) | .relay (.collators ..) | .withState .. | .withStateAt ..
  | .appendExtrinsic .. | .appendExtrinsics .. | .appendTransition .. => .isTrue trivial

/-- **The candidates of one operation** name their parent. They are in order if it enacts in time,
and out of order if it does not. -/
theorem writingsBy_numbers (op : PublicOp κ W ε A) (w : World κ W)
    (hop : op.Lawful P ∧ op.Decodes) (hw : w.relay.builder.chain.Anchored P.toPrimitives)
    (htable : CollectedTogether w) :
    ∀ x ∈ writingsBy P op w, x.NamesParent ∧ (x.InOrder ↔ EnactsInTime op w) := by
  obtain ⟨hL, hdecode⟩ := hop
  by_cases himport : ∃ H C, op = .relay (.importBlock H C)
  · obtain ⟨H, C, rfl⟩ := himport
    intro x hx
    obtain ⟨hmem, hreached, hbacked, hparent⟩ :=
      importWritings_numbers (C := C) hL hdecode hw x hx
    obtain ⟨hd, hsame⟩ := htable
    refine ⟨hparent, ?_⟩
    rw [Writing.InOrder, hbacked, EnactsInTime, hreached]
    constructor
    · rintro hle n ⟨⟩ e he
      rw [hsame e he, ← hsame x.entry hmem]
      exact hle
    · exact fun hall ↦ hall _ rfl x.entry hmem
  · rw [writingsBy_of_ne fun H C hop ↦ himport ⟨H, C, hop⟩]
    exact fun x hx ↦ absurd hx List.not_mem_nil

/-- **The numbers of the candidates of a run.** The relay parent number is that of the block the
descriptor names, in every run. It is not above the number of the block the candidate was backed in,
if every import enacts in time; and an import that does not puts all its candidates out of order. -/
theorem candidate_numbers_iff {w : World κ W} (hw : w.relay.builder.chain.Anchored P.toPrimitives)
    (hnew : w.relay.collations = []) (ops : List (PublicOp κ W ε A))
    (hops : Along (publicStep P) (fun op _ ↦ op.Lawful P ∧ op.Decodes) ops w) :
    (∀ x ∈ writings P ops w, x.NamesParent) ∧
      (Along (publicStep P) EnactsInTime ops w → ∀ x ∈ writings P ops w, x.InOrder) ∧
      Along (publicStep P)
        (fun op w ↦ ¬ EnactsInTime op w → ∀ x ∈ writingsBy P op w, ¬ x.InOrder) ops w := by
  have hstep : ∀ (op : PublicOp κ W ε A) (w : World κ W), op.Lawful P ∧ op.Decodes →
      (w.relay.builder.chain.Anchored P.toPrimitives ∧ CollectedTogether w) →
      (∀ x ∈ writingsBy P op w, x.NamesParent ∧ (x.InOrder ↔ EnactsInTime op w)) ∧
        (publicStep P op w).2.relay.builder.chain.Anchored P.toPrimitives ∧
          CollectedTogether (publicStep P op w).2 :=
    fun op w hop hw ↦ ⟨writingsBy_numbers op w hop hw.1 hw.2,
      publicStep_anchored op w hop.1 hw.1, publicStep_collectedTogether op w hw.2⟩
  have hnumbers := along_of_invariant hstep ops hops
    ⟨hw, default, by rw [hnew]; exact fun e he ↦ absurd he List.not_mem_nil⟩
  refine ⟨?_, fun htime ↦ ?_, ?_⟩
  · exact (forall_ledger_iff ops (by simp)).mpr
      (hnumbers.mono fun op w hall x hx ↦ (hall x hx).1)
  · exact (forall_ledger_iff ops (by simp)).mpr
      ((hnumbers.and htime).mono fun op w hall x hx ↦ (hall.1 x hx).2.mpr hall.2)
  · exact hnumbers.mono fun op w hall hlate x hx hin ↦ hlate ((hall x hx).2.mp hin)

/-- Two collations, enacted by the import after the one that collected them: their relay parent is
block 2, and they were backed in block 1. -/
theorem candidates_out_of_order :
    let ops : List (PublicOp ℕ (List ℕ) Unit Unit) := (onboardBoth 2).map .relay
    let w : World ℕ (List ℕ) := fresh (RelaychainBuilder.genesis ℕ).builder []
    ∃ x ∈ writings RelayPrimitives.reference ops w, ¬ x.InOrder := by
  intro ops w
  have hfirst : ((writings RelayPrimitives.reference ops w).head?.map fun x ↦
      (x.candidate.relayParentNumber, x.candidate.backedInNumber)) = some (2, 1) := by
    decide +kernel
  obtain ⟨x, hx, hnumbers⟩ := Option.map_eq_some_iff.mp hfirst
  obtain ⟨hparent, hbacked⟩ := Prod.mk.inj hnumbers
  refine ⟨x, List.mem_of_head? hx, ?_⟩
  rw [Writing.InOrder, hparent, hbacked]
  decide

/-- A host that takes no block data, so that a mutation fails after its revert. -/
def fullHost : RelayHost :=
  { RelayHost.reference with setBlockData := fun _ ↦ .error "full" }

theorem fullHost_lawful : fullHost.toHost.Lawful RelayPrimitives.reference.toPrimitives :=
  { Host.reference_lawful RelayPrimitives.reference.toPrimitives with }

/-- A collation is collected at block 1, a mutation fails and takes the chain back to genesis, and
another block 1 is imported. -/
def thrownBack : List (PublicOp ℕ (List ℕ) Unit Unit) :=
  [.relay (.onboardPara .reference ⟨1, [1], []⟩ 0), .relay (.buildBlock .reference),
    .relay (.importBlock .reference deafCollator), .relay (.withMutState fullHost fun s ↦ ((), s)),
    .appendExtrinsic .reference [1], .relay (.buildBlock .reference),
    .relay (.importBlock .reference deafCollator)]

theorem candidates_thrownBack :
    let w : World ℕ (List ℕ) := fresh (RelaychainBuilder.genesis ℕ).builder []
    (writings RelayPrimitives.reference thrownBack w).length = 1 ∧
      ∀ x ∈ writings RelayPrimitives.reference thrownBack w, x.InOrder ∧ x.NamesParent := by
  intro w
  have hL : RelayHost.reference.toHost.Lawful RelayPrimitives.reference.toPrimitives :=
    Host.reference_lawful _
  have hdecode : ∀ cpa r, RelayHost.reference.decodeCandidate cpa = .ok r → r = cpa :=
    fun _ _ h ↦ (Except.ok.inj h).symm
  have hops : Along (publicStep RelayPrimitives.reference)
      (fun op _ ↦ op.Lawful RelayPrimitives.reference ∧ op.Decodes) thrownBack w :=
    ⟨⟨hL, trivial⟩, fun _ ↦ ⟨⟨hL, trivial⟩, fun _ ↦ ⟨⟨hL, hdecode⟩, fun _ ↦
      ⟨⟨fullHost_lawful, trivial⟩, fun _ ↦ ⟨⟨trivial, trivial⟩, fun _ ↦ ⟨⟨hL, trivial⟩, fun _ ↦
        ⟨⟨hL, hdecode⟩, fun _ ↦ trivial⟩⟩⟩⟩⟩⟩⟩
  obtain ⟨hnames, hordered, -⟩ :=
    candidate_numbers_iff (anchored_genesis _ _) rfl thrownBack hops
  exact ⟨by decide +kernel,
    fun x hx ↦ ⟨hordered (by decide +kernel) x hx, hnames x hx⟩⟩

end World

end Fudge
