import Fudge.Relay.Enactment
import Fudge.Relay.Heads
import Fudge.Relay.Pending

/-!
# What a refused enactment leaves behind

The closure of `force_enact_collations` returns an error at four places, and each lies behind a
write: the commitments go into the storage before the code hash is looked up, before the parachain
is found in `Parachains`, and before the candidate is decoded; the candidate itself goes in before
the validation data is asked for. `with_mut_state` commits what the closure wrote, whatever it
returns.

So a candidate that is refused at a lookup always leaves its commitments behind, unless the mutation
fails as well. One that is refused for its validation data has been given to the runtime before, and
what is left is the runtime's doing.
-/

namespace Fudge

open Call

namespace RelayStorage

open RelaychainBuilder (Error)

variable {ε : Type} (P : RelayPrimitives) (H : RelayHost) (parent : Hash) (n : ℕ)
  (pvd : PersistedValidationData) (id : Id) (c : Collation) (generationParent : Header)

/-! ## What the closure writes -/

/-- `PendingAvailabilityCommitments::insert(id, commitments)`. -/
def withCommitments (s : RelayStorage) : RelayStorage :=
  { s with
    pendingAvailabilityCommitments :=
      Function.update s.pendingAvailabilityCommitments id (some (commitmentsOf c)) }

/-- `PendingAvailability::insert(id, candidate)`. -/
def withCandidate (cpa : CandidatePendingAvailability) (s : RelayStorage) : RelayStorage :=
  { s with pendingAvailability := Function.update s.pendingAvailability id (some cpa) }

/-- The candidate as `force_enact_collations` builds it. -/
def fudgeCandidate (codeHash : Hash) (core : ℕ) : CandidatePendingAvailability where
  core := core
  hash := 0
  descriptor := (candidateReceipt P parent pvd id c codeHash).descriptor
  availabilityVotes := []
  backers := []
  relayParentNumber := n
  backedInNumber := generationParent.number
  backingGroup := 0

/-- The candidate that goes into the storage: none if the code hash is not found, the parachain is
not in `Parachains`, or the candidate cannot be decoded. -/
def candidate (s : RelayStorage) : Option CandidatePendingAvailability := do
  let codeHash ← (H.validationCodeHash parent id).toOption.join
  let core ← (s.parachains.idxOf? id).bind fun index ↦ if index < 2 ^ 32 then some index else none
  (H.decodeCandidate (fudgeCandidate P parent n pvd id c generationParent codeHash core)).toOption

/-- Commitments and candidate of `id`, taken out. -/
def withoutCandidate (s : RelayStorage) : RelayStorage :=
  { s with
    pendingAvailability := Function.update s.pendingAvailability id none
    pendingAvailabilityCommitments := Function.update s.pendingAvailabilityCommitments id none }

/-- There is nothing of the collation in the storage `t`: neither its commitments, nor the candidate
that is made of it on `s`. -/
def NoTrace (s t : RelayStorage) : Prop :=
  t.pendingAvailabilityCommitments id ≠ some (commitmentsOf c) ∧
    ∀ cpa ∈ candidate P H parent n pvd id c generationParent s, t.pendingAvailability id ≠ some cpa

/-- A candidate is made, where none was pending before; and the runtime, asked for the validation
data, takes it out with its commitments and does nothing else to the storage. -/
def Withdrawn (s : RelayStorage) : Prop :=
  ∃ cpa ∈ candidate P H parent n pvd id c generationParent s,
    s.pendingAvailability id = none ∧ s.pendingAvailabilityCommitments id = none ∧
      (P.includedValidationData id (withCandidate id cpa (withCommitments id c s))).2 =
        withoutCandidate id (withCandidate id cpa (withCommitments id c s))

variable {P H parent n pvd id c generationParent} {s : RelayStorage}

theorem validationCodeHash_finds (s : RelayStorage) :
    Finds s (H.validationCodeHash parent id).toOption.join
      (validationCodeHash (ε := ε) H parent id) := by
  rw [← Option.bind_id_eq_join]
  exact Finds.bind (Finds.query (fun _ ↦ H.validationCodeHash parent id) _) fun h _ ↦
    Finds.require _ h

theorem coreIndex_finds (s : RelayStorage) :
    Finds s ((s.parachains.idxOf? id).bind fun index ↦ if index < 2 ^ 32 then some index else none)
      (coreIndex (ε := ε) id) :=
  Finds.read_bind (Finds.bind (Finds.require _ _) fun _ _ ↦ Finds.require _ _)

/-- The writes and the lookups of the closure up to the candidate. The lookups read nothing that the
closure has written. -/
theorem insertCandidate_lookups (s : RelayStorage) :
    ∃ lookups : Call RelayStorage (Error ε) CandidatePendingAvailability,
      Finds (withCommitments id c s) (candidate P H parent n pvd id c generationParent s) lookups ∧
        insertCandidate (ε := ε) P H parent n pvd id c generationParent s =
          (lookups >>= fun cpa ↦ Call.modify (withCandidate id cpa)) (withCommitments id c s) := by
  refine ⟨do
    let codeHash ← validationCodeHash H parent id
    let core ← coreIndex id
    Call.query (fun _ ↦ H.decodeCandidate
      (fudgeCandidate P parent n pvd id c generationParent codeHash core))
      .candidatePendingAvailabilityDecoding, ?_, ?_⟩
  · exact Finds.bind (validationCodeHash_finds _) fun codeHash _ ↦
      Finds.bind (coreIndex_finds _) fun core _ ↦ Finds.query (fun _ ↦ H.decodeCandidate _) _
  · simp only [bind_assoc]
    rfl

theorem insertCandidate_of_none
    (h : candidate P H parent n pvd id c generationParent s = none) :
    (insertCandidate (ε := ε) P H parent n pvd id c generationParent s).1.isOk = false ∧
      (insertCandidate (ε := ε) P H parent n pvd id c generationParent s).2 =
        withCommitments id c s := by
  obtain ⟨lookups, hfinds, hwritten⟩ := insertCandidate_lookups (ε := ε) (P := P) (H := H) s
  rw [h] at hfinds
  obtain ⟨hno, hsame⟩ := hfinds
  rw [hwritten]
  obtain ⟨hstop, hstate⟩ := bind_of_not_ok (f := fun cpa ↦ Call.modify (withCandidate id cpa)) hno
  exact ⟨hstop, hstate.trans hsame⟩

theorem insertCandidate_of_some {cpa : CandidatePendingAvailability}
    (h : candidate P H parent n pvd id c generationParent s = some cpa) :
    insertCandidate (ε := ε) P H parent n pvd id c generationParent s =
      (.ok (), withCandidate id cpa (withCommitments id c s)) := by
  obtain ⟨lookups, hfinds, hwritten⟩ := insertCandidate_lookups (ε := ε) (P := P) (H := H) s
  rw [h] at hfinds
  rw [hwritten]
  exact bind_of_ok hfinds

/-! ## What the closure leaves -/

theorem withoutCandidate_eq_self {cpa : CandidatePendingAvailability}
    (hcpa : s.pendingAvailability id = none) (hc : s.pendingAvailabilityCommitments id = none) :
    withoutCandidate id (withCandidate id cpa (withCommitments id c s)) = s := by
  have hback : ∀ {β : Type} {f : Id → Option β} (v : Option β), f id = none →
      Function.update (Function.update f id v) id none = f := by
    intro β f v hf
    rw [Function.update_idem, ← hf, Function.update_eq_self]
  rw [withoutCandidate, withCandidate, withCommitments]
  simp only [hback _ hcpa, hback _ hc]

theorem enact_of_none (h : candidate P H parent n pvd id c generationParent s = none) :
    (enact (ε := ε) P H parent n pvd id c generationParent s).2 = withCommitments id c s := by
  obtain ⟨hno, hstate⟩ := insertCandidate_of_none (ε := ε) h
  exact (bind_of_not_ok (f := fun _ ↦ forceEnact P id) hno).2.trans hstate

/-- Where the candidate is written the runtime enacts it, also if it then knows no validation
data. -/
theorem enact_of_some {cpa : CandidatePendingAvailability}
    (h : candidate P H parent n pvd id c generationParent s = some cpa) :
    (enact (ε := ε) P H parent n pvd id c generationParent s).2 =
      (P.includedValidationData id (withCandidate id cpa (withCommitments id c s))).2 := by
  have hrest : enact (ε := ε) P H parent n pvd id c generationParent s =
      forceEnact P id (withCandidate id cpa (withCommitments id c s)) :=
    bind_of_ok (insertCandidate_of_some h)
  rw [hrest, forceEnact_snd]

/-- **The closure leaves nothing behind** exactly if the runtime withdraws the candidate. -/
theorem enact_noTrace_iff (hP : P.TakesCandidates) (s : RelayStorage) :
    ((enact (ε := ε) P H parent n pvd id c generationParent s).2 = s ∧
        NoTrace P H parent n pvd id c generationParent s s) ↔
      Withdrawn P H parent n pvd id c generationParent s := by
  rw [Withdrawn]
  cases h : candidate P H parent n pvd id c generationParent s with
  | none =>
    -- the commitments are in the storage, and nobody takes them out
    rw [enact_of_none h]
    constructor
    · rintro ⟨hsame, hno, -⟩
      refine absurd ?_ hno
      rw [← hsame]
      exact Function.update_self _ _ _
    · rintro ⟨_, ⟨⟩, -⟩
  | some cpa =>
    rw [enact_of_some h]
    have htaken := @hP id (withCandidate id cpa (withCommitments id c s)) cpa _
      (Function.update_self _ _ _) (Function.update_self _ _ _)
    constructor
    · rintro ⟨hsame, -⟩
      rw [hsame] at htaken
      obtain ⟨hcpa, hc⟩ := htaken
      exact ⟨cpa, rfl, hcpa, hc, hsame.trans (withoutCandidate_eq_self hcpa hc).symm⟩
    · rintro ⟨_, ⟨⟩, hcpa, hc, hruntime⟩
      refine ⟨hruntime.trans (withoutCandidate_eq_self hcpa hc), ?_, fun _ _ ↦ ?_⟩
      · rw [hc]
        exact (Option.some_ne_none _).symm
      · rw [hcpa]
        exact (Option.some_ne_none _).symm

end RelayStorage

/-! ## The chain after a refusal -/

namespace World

open Builder (CommitSafe)
open RelaychainBuilder (Error StepsBack)
open RelayStorage (NoTrace Withdrawn candidate commitmentsOf)

variable {κ W ε : Type} {P : RelayPrimitives} {H : RelayHost} {C : CollationBuilder κ W ε}
  {parent : Hash} {n : ℕ} {e : CollationEntry} {w : World κ W} {pvd : PersistedValidationData}
  {s : RelayStorage}

/-- The closure that enacts `e` returns an error on the storage `s`. -/
def Refuses (ε : Type) (P : RelayPrimitives) (H : RelayHost) (parent : Hash) (n : ℕ)
    (pvd : PersistedValidationData) (e : CollationEntry) (s : RelayStorage) : Prop :=
  (RelayStorage.enact (ε := ε) P H parent n pvd e.id e.collation e.generationParent s).1.isErr =
    true

/-- The mutation that the closure runs in goes through. -/
def Goes (ε : Type) (P : RelayPrimitives) (H : RelayHost) (parent : Hash) (n : ℕ)
    (pvd : PersistedValidationData) (e : CollationEntry) (w : World κ W) : Prop :=
  (Builder.withState P.toPrimitives H.toHost .commit none (enactment ε P H parent n e pvd)
    w.relay.builder).1.isOk = true

instance : Decidable (Goes ε P H parent n pvd e w) := inferInstanceAs (Decidable (_ = true))

/-- A refused enactment does no harm. If its mutation goes through, the candidate is withdrawn by
the runtime. If it does not, there was nothing of the candidate before, and where the mutation
stepped back before it failed, the parent of the best block has the same storage. -/
def Harmless (ε : Type) (P : RelayPrimitives) (H : RelayHost) (parent : Hash) (n : ℕ)
    (pvd : PersistedValidationData) (e : CollationEntry) (w : World κ W) (s : RelayStorage) :
    Prop :=
  if Goes ε P H parent n pvd e w then
    Withdrawn P H parent n pvd e.id e.collation e.generationParent s
  else
    NoTrace P H parent n pvd e.id e.collation e.generationParent s s ∧
      (StepsBack H w.relay → w.relay.builder.chain.ParentState s)

theorem enactAndJudge_of_refuses (hL : H.toHost.Lawful P.toPrimitives)
    (hs : w.relay.builder.chain.BestState s)
    (hpvd : validationData ε P H parent e w = .ok pvd) (h : Refuses ε P H parent n pvd e s) :
    (enactAndJudge P H C parent n e w).1.isOk = false := by
  by_contra hok
  obtain ⟨u, hu⟩ := Outcome.isOk_iff.mp (by simpa using hok)
  obtain ⟨_, _, henact, -⟩ := bind_eq_ok.mp (eq_of_fst hu)
  obtain ⟨pvd', v, hread, k₁⟩ := bind_eq_ok.mp henact
  obtain ⟨⟨reached, result⟩, v', hm, k₂⟩ := bind_eq_ok.mp k₁
  obtain ⟨_, _, -, k₃⟩ := bind_eq_ok.mp k₂
  have hresult : result = .ok _ := (Prod.mk.inj k₃).1
  obtain rfl : v = w := by
    have hsame := relayCall_of_read (RelaychainBuilder.persistedValidationData_keeps (ε := ε)
      (P := P) (H := H) parent e.id) w
    rwa [hread] at hsame
  obtain rfl : pvd' = pvd := by
    rw [validationData, hread] at hpvd
    exact Outcome.ok.inj hpvd
  -- what the mutation returns is what the closure returned on the best state
  obtain ⟨r, hr, -⟩ := zoom_eq_ok.mp hm
  obtain ⟨-, b, hb, -⟩ := RelaychainBuilder.withMutState_eq_ok hr
  obtain ⟨t, ht, hout, -⟩ := Builder.commit_bestState hL hb
  obtain rfl : s = t := Option.some.inj (hs.symm.trans ht)
  have hsame : result = (RelayStorage.enact (ε := ε) P H parent n pvd' e.id e.collation
    e.generationParent s).1 := congrArg Prod.snd hout
  rw [Refuses, ← hsame, hresult] at h
  cases h

theorem enactAndJudge_of_goes (hL : H.toHost.Lawful P.toPrimitives) (hnext : w.relay.next = none)
    (hs : w.relay.builder.chain.BestState s)
    (hpvd : validationData ε P H parent e w = .ok pvd) (h : Goes ε P H parent n pvd e w) :
    (enactAndJudge P H C parent n e w).2.relay.builder.chain.BestState
      (RelayStorage.enact (ε := ε) P H parent n pvd e.id e.collation e.generationParent s).2 := by
  rw [enactAndJudge_relay, hpvd]
  rcases RelaychainBuilder.withMutState_cases (ε := ε) (P := P) (H := H)
    (enactment ε P H parent n e pvd) w.relay with ⟨hsome, -⟩ | ⟨-, hmut⟩
  · rw [hnext] at hsome
    cases hsome
  · obtain ⟨r, hr⟩ := Outcome.isOk_iff.mp h
    obtain ⟨t, ht, -, hafter⟩ := Builder.commit_bestState hL (eq_of_fst hr)
    obtain rfl : s = t := Option.some.inj (hs.symm.trans ht)
    change (RelaychainBuilder.withMutState P H (enactment ε P H parent n e pvd) w.relay :
      Outcome (Error ε) _ × _).2.builder.chain.BestState _
    rw [hmut]
    exact hafter

theorem enactAndJudge_of_fails (hL : H.toHost.Lawful P.toPrimitives) (hnext : w.relay.next = none)
    (hs : w.relay.builder.chain.BestState s)
    (hpvd : validationData ε P H parent e w = .ok pvd) (h : ¬ Goes ε P H parent n pvd e w) :
    (enactAndJudge P H C parent n e w).2.relay.builder.chain.BestState s ↔
      (StepsBack H w.relay → w.relay.builder.chain.ParentState s) := by
  have hno : (RelaychainBuilder.withMutState P H (enactment ε P H parent n e pvd) w.relay :
      Outcome (Error ε) _ × _).1.isOk = false := by
    rw [RelaychainBuilder.withMutState_isOk hnext]
    simpa [Goes] using h
  rw [enactAndJudge_relay, hpvd]
  change (RelaychainBuilder.withMutState P H (enactment ε P H parent n e pvd) w.relay :
    Outcome (Error ε) _ × _).2.builder.chain.BestState s ↔ _
  rcases RelaychainBuilder.withMutState_of_not_ok hL hno with
    ⟨hstay, hsame⟩ | ⟨hback, k, t, c, hrev, hleft⟩
  · rw [hsame]
    exact ⟨fun _ hback ↦ absurd hback hstay, fun _ ↦ hs⟩
  · rw [hleft, hrev.bestState_iff hL]
    exact ⟨fun hparent _ ↦ hparent, fun h ↦ h hback⟩

theorem importBlock_of_stopped {w₀ u : World κ W} {hd : Header} {done rest : List CollationEntry}
    (himport : relayCall (ε := ε) (RelaychainBuilder.importNext H) w₀ = (.ok hd, u))
    (htable : u.relay.collations = done ++ e :: rest)
    (hdone : forEach (enactAndJudge P H C u.relay.builder.chain.bestHash
      u.relay.builder.chain.bestNumber) done u = (.ok (), w))
    (hno : (enactAndJudge P H C u.relay.builder.chain.bestHash u.relay.builder.chain.bestNumber e
      w).1.isOk = false) :
    (importBlock P H C w₀).2 = (enactAndJudge P H C u.relay.builder.chain.bestHash
      u.relay.builder.chain.bestNumber e w).2 := by
  have hstop : (enactLoop P H C u).1.isOk = false ∧
      (enactLoop P H C u).2 = (enactAndJudge P H C u.relay.builder.chain.bestHash
        u.relay.builder.chain.bestNumber e w).2 := by
    rw [enactLoop, htable]
    exact forEach_stopped rest hno done hdone
  rcases importBlock_cases (P := P) (H := H) (C := C) w₀ with
    ⟨⟨-, hnext⟩, -⟩ | ⟨hd', u', hu', hcase⟩
  · rw [himport] at hnext
    cases hnext
  · obtain rfl : u = u' := (Prod.mk.inj (himport.symm.trans hu')).2
    rcases hcase with ⟨-, -, hleft⟩ | ⟨hok, -⟩
    · exact hleft.trans hstop.2
    · rw [hstop.1] at hok
      cases hok

theorem next_of_enacting {w₀ u : World κ W} {hd : Header} {done : List CollationEntry}
    (himport : relayCall (ε := ε) (RelaychainBuilder.importNext H) w₀ = (.ok hd, u))
    (hdone : forEach (enactAndJudge P H C parent n) done u = (.ok (), w)) :
    w.relay.next = none := by
  have hempty : u.relay.next = none := by
    obtain ⟨r, hr, rfl⟩ := zoom_eq_ok.mp himport
    obtain ⟨next, b, result, -, -, -, rfl⟩ := RelaychainBuilder.importNext_eq_ok hr
    rfl
  have hkeep := enacting_keeps (P := P) (H := H) (C := C) parent n done u
  rw [hdone] at hkeep
  exact (Prod.mk.inj hkeep).1.trans hempty

/-- **A refused enactment.** After the import that it ends, the best state is the one before the
refused element, and nothing of the candidate is in it, exactly if the refusal is harmless. A
candidate refused at one of the lookups leaves its commitments behind whenever the mutation goes
through. -/
theorem refused_enactment_iff (hP : P.TakesCandidates) (hL : H.toHost.Lawful P.toPrimitives)
    {w₀ u w : World κ W} {hd : Header} {done rest : List CollationEntry}
    (himport : relayCall (ε := ε) (RelaychainBuilder.importNext H) w₀ = (.ok hd, u))
    (htable : u.relay.collations = done ++ e :: rest)
    (hdone : forEach (enactAndJudge P H C u.relay.builder.chain.bestHash
      u.relay.builder.chain.bestNumber) done u = (.ok (), w))
    (hs : w.relay.builder.chain.BestState s)
    (hpvd : validationData ε P H u.relay.builder.chain.bestHash e w = .ok pvd)
    (hrefused : Refuses ε P H u.relay.builder.chain.bestHash u.relay.builder.chain.bestNumber pvd e
      s) :
    let parent := u.relay.builder.chain.bestHash
    let n := u.relay.builder.chain.bestNumber
    let after := (importBlock P H C w₀).2.relay.builder.chain
    ((after.BestState s ∧ ∀ t, after.BestState t →
        NoTrace P H parent n pvd e.id e.collation e.generationParent s t) ↔
      Harmless ε P H parent n pvd e w s) ∧
    (Goes ε P H parent n pvd e w →
      candidate P H parent n pvd e.id e.collation e.generationParent s = none →
        ∃ t, after.BestState t ∧
          t.pendingAvailabilityCommitments e.id = some (commitmentsOf e.collation)) := by
  intro parent n after
  have hafter : after = (enactAndJudge P H C parent n e w).2.relay.builder.chain :=
    congrArg (·.relay.builder.chain) (importBlock_of_stopped himport htable hdone
      (enactAndJudge_of_refuses hL hs hpvd hrefused))
  have hnext : w.relay.next = none := next_of_enacting himport hdone
  have honly : (after.BestState s ∧ ∀ t, after.BestState t →
      NoTrace P H parent n pvd e.id e.collation e.generationParent s t) ↔
        after.BestState s ∧ NoTrace P H parent n pvd e.id e.collation e.generationParent s s := by
    refine and_congr_right fun hbest ↦ ⟨fun hall ↦ hall s hbest, fun hno t ht ↦ ?_⟩
    rwa [← Option.some.inj (hbest.symm.trans ht)]
  rw [honly, hafter, Harmless]
  constructor
  · split
    · rename_i hgoes
      rw [← RelayStorage.enact_noTrace_iff (ε := ε) hP]
      have hleft := enactAndJudge_of_goes (C := C) hL hnext hs hpvd hgoes
      refine and_congr_left fun _ ↦ ⟨fun hsame ↦ ?_, fun hsame ↦ ?_⟩
      · exact Option.some.inj (hleft.symm.trans hsame)
      · rw [hsame] at hleft
        exact hleft
    · rename_i hfails
      rw [enactAndJudge_of_fails hL hnext hs hpvd hfails, and_comm]
  · intro hgoes hnone
    refine ⟨_, enactAndJudge_of_goes (C := C) hL hnext hs hpvd hgoes, ?_⟩
    rw [RelayStorage.enact_of_none hnone]
    exact Function.update_self _ _ _

/-! ## A code hash that is not found -/

def missingCode : RelayHost :=
  { RelayHost.reference with validationCodeHash := fun _ _ ↦ .ok none }

/-- Two collations are in the table, and a block is pending. -/
def tabledWorld : World ℕ (List ℕ) := relayRun ((onboardBoth 2).take 5)

/-- The world in which the first of them is enacted. -/
def enactingWorld : World ℕ (List ℕ) :=
  (relayCall (ε := Unit) (RelaychainBuilder.importNext missingCode) tabledWorld).2

/-- The import ends with the first collation, and the commitments of that one stay. -/
theorem refused_enactment_writes :
    let c := enactingWorld.relay.builder.chain
    let imported := importBlock RelayPrimitives.reference missingCode deafCollator tabledWorld
    let c' := imported.2.relay.builder.chain
    imported.1 = .err .validationCodeHashNotFound ∧
      (c.states c.bestHash).map (·.pendingAvailabilityCommitments 1) = some none ∧
      (c'.states c'.bestHash).map (·.pendingAvailabilityCommitments 1) =
        some (some (commitmentsOf emptyCollation)) := by
  decide +kernel

theorem refused_enactment_tabled :
    ∃ t, (importBlock RelayPrimitives.reference missingCode deafCollator
        tabledWorld).2.relay.builder.chain.BestState t ∧
      t.pendingAvailabilityCommitments 1 = some (commitmentsOf emptyCollation) := by
  have hL : missingCode.toHost.Lawful RelayPrimitives.reference.toPrimitives :=
    Host.reference_lawful _
  let c := enactingWorld.relay.builder.chain
  let e : CollationEntry := ⟨1, emptyCollation,
    (enactingWorld.relay.collations.head?.map (·.generationParent)).getD default, 0, 0⟩
  have htable : enactingWorld.relay.collations =
      [] ++ e :: enactingWorld.relay.collations.tail := by
    decide +kernel
  have himport : (relayCall (ε := Unit) (RelaychainBuilder.importNext missingCode)
      tabledWorld).1.isOk = true := by decide +kernel
  obtain ⟨hd, himport⟩ := Outcome.isOk_iff.mp himport
  have hpvd : validationData Unit RelayPrimitives.reference missingCode c.bestHash e
      enactingWorld = .ok ⟨[1], 0, 0, 0⟩ := by decide +kernel
  have hall : (c.states c.bestHash).map (fun s ↦
      ((RelayStorage.enact (ε := Unit) RelayPrimitives.reference missingCode c.bestHash c.bestNumber
        ⟨[1], 0, 0, 0⟩ e.id e.collation e.generationParent s).1.isErr,
      (candidate RelayPrimitives.reference missingCode c.bestHash c.bestNumber ⟨[1], 0, 0, 0⟩ e.id
        e.collation e.generationParent s))) = some (true, none) := by decide +kernel
  obtain ⟨s, hs, hs'⟩ := Option.map_eq_some_iff.mp hall
  obtain ⟨hrefused, hnone⟩ := Prod.mk.inj hs'
  have hgoes : Goes Unit RelayPrimitives.reference missingCode c.bestHash c.bestNumber
      ⟨[1], 0, 0, 0⟩ e enactingWorld := by
    unfold Goes
    decide +kernel
  exact (refused_enactment_iff (C := deafCollator) RelayPrimitives.reference_takesCandidates hL
    (eq_of_fst himport) htable (by rfl) hs hpvd hrefused).2 hgoes hnone

end World

end Fudge
