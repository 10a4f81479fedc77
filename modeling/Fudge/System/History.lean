import Fudge.Core.History
import Fudge.System.Pending

/-!
# The past of a chain

What a stand-alone or a relay chain builder has below its best block is there to stay. Its imports
go on top of the best block and its mutations change the best block, those that enact the collations
of an import among them. A call that fails may take the best block away, and no other; so a run of
which `k` calls fail keeps all but the `k + 1` newest blocks, and `with_state_at` reads of them what
it read before.
-/

namespace Fudge

open Call Chain

/-- The record of a chain, with a block that may be pending on it. -/
def RecordedSlot {S : Type} (P : Primitives S) (c : Chain S) (next : Option (Block × StorageProof))
    (l : List (Hash × S)) : Prop :=
  PendingOn P c next ∧ c.Recorded P l

theorem RecordedSlot.empty {S : Type} {P : Primitives S} {c : Chain S} {l : List (Hash × S)}
    (h : c.Recorded P l) : RecordedSlot P c none l :=
  ⟨⟨h.hashed, fun b hb ↦ (by cases hb)⟩, h⟩

namespace StandAloneBuilder

variable {S A : Type} {P : Primitives S}

/-- **Every operation keeps the record.** -/
theorem standAloneStep_journals (hinj : Function.Injective P.hash) (op : StandAloneOp S A)
    (a : StandAloneBuilder S) (hop : op.Lawful P) :
    Journals (fun a ↦ RecordedSlot P a.builder.chain a.next) (standAloneStep P op) a := by
  rintro l ⟨hp, hl⟩
  have hp' := standAloneStep_pendingOn op a hop hp
  suffices h : ∃ l', (standAloneStep P op a).2.builder.chain.Recorded P l' ∧
      Survives (standAloneStep P op a).1.isOk l l' by
    obtain ⟨l', hl', hs⟩ := h
    exact ⟨l', ⟨hp', hl'⟩, hs⟩
  rcases standAloneStep_keeps (P := P) op with
    ⟨H, rfl⟩ | ⟨H, rfl⟩ | ⟨H, exec, rfl⟩ | ⟨hkeep, -⟩
  · rw [standAloneStep_buildBlock, (buildBlock_pendingOn hop hp).2]
    exact ⟨l, hl, Survives.refl _ l⟩
  · rw [standAloneStep, map_isOk, map_snd]
    rcases importBlock_cases (H := H) a with ⟨-, -, hsame⟩ | ⟨next, hnext, hok, himport⟩
    · rw [hsame]
      exact ⟨l, hl, Survives.refl _ l⟩
    · rw [himport, hok]
      exact Builder.importBlock_journals hinj hop rfl (hp.tip next hnext) l hl
  · rw [standAloneStep, map_isOk, map_snd]
    rcases withMutState_cases (P := P) (H := H) exec a with
      ⟨-, hpanic⟩ | ⟨-, hok, hmut⟩
    · rw [hpanic]
      exact ⟨l, hl, Survives.refl _ l⟩
    · rw [hmut, hok]
      exact Builder.commit_journals hinj hop _ a.builder l hl
  · rw [(Prod.mk.inj (hkeep a)).1]
    exact ⟨l, hl, Survives.refl _ l⟩

end StandAloneBuilder

namespace RelaychainBuilder

variable {κ ε R : Type} {P : RelayPrimitives} {H : RelayHost}

def Journal (P : RelayPrimitives) (r : RelaychainBuilder κ)
    (l : List (Hash × RelayStorage)) : Prop :=
  RecordedSlot P.toPrimitives r.builder.chain r.next l

theorem Journal.congr {r r' : RelaychainBuilder κ} {l : List (Hash × RelayStorage)}
    (h : (r'.builder.chain, r'.next) = (r.builder.chain, r.next)) (hl : Journal P r l) :
    Journal P r' l := by
  obtain ⟨hchain, hnext⟩ := Prod.mk.inj h
  rw [Journal, hchain, hnext]
  exact hl

theorem withMutState_journals (hinj : Function.Injective P.hash)
    (hL : H.toHost.Lawful P.toPrimitives) (exec : RelayStorage → R × RelayStorage)
    (r : RelaychainBuilder κ) :
    Journals (Journal P) (withMutState P H exec : Call _ (Error ε) R) r := by
  intro l hl
  rcases assert_bind_cases (ε := Error ε) (·.next.isNone)
    (fun _ ↦ core (Builder.withState P.toPrimitives H.toHost .commit none exec)) r with
    ⟨hnext, h⟩ | ⟨-, h⟩
  · have hnone : r.next = none := by simpa using hnext
    rw [withMutState, h]
    refine Journals.mapErr (Journals.zoom
      (Builder.commit_journals hinj hL exec r.builder) (fun _ h ↦ h.2) fun b l' hb ↦ ?_) l hl
    rw [Journal, show ({ r with builder := b } : RelaychainBuilder κ).next = none from hnone]
    exact RecordedSlot.empty hb
  · rw [withMutState, h]
    exact ⟨l, hl, Survives.refl _ l⟩

theorem importNext_journals (hinj : Function.Injective P.hash)
    (hL : H.toHost.Lawful P.toPrimitives) (r : RelaychainBuilder κ) :
    Journals (Journal P) (importNext H : Call _ (Error ε) Header) r := by
  rintro l ⟨hp, hl⟩
  rcases importNext_cases (ε := ε) (H := H) r with ⟨-, -, hsame⟩ | ⟨next, hnext, hok, himport⟩
  · rw [hsame]
    exact ⟨l, ⟨hp, hl⟩, Survives.refl _ l⟩
  · have hbest : (nextParams next.1).forkChoice = some (.custom true) := rfl
    obtain ⟨l', hl', hs⟩ := Builder.importBlock_journals hinj hL hbest (hp.tip next hnext) l hl
    rw [himport, hok]
    exact ⟨l', RecordedSlot.empty hl', hs⟩

theorem buildBlock_journals (hL : H.toHost.Lawful P.toPrimitives) (r : RelaychainBuilder κ) :
    Journals (Journal P) (buildBlock P H : Call _ (Error ε) Block) r := by
  refine Journals.of_same fun l hl ↦ ⟨buildBlock_pending hL r hl.1, ?_⟩
  rw [buildBlock_builder]
  exact hl.2

end RelaychainBuilder

namespace World

open RelaychainBuilder (Error Journal)

variable {κ W ε A R α : Type} {P : RelayPrimitives} {H : RelayHost} {C : CollationBuilder κ W ε}

/-- The record of the relay chain among its collators. -/
def Journal (P : RelayPrimitives) (w : World κ W) (l : List (Hash × RelayStorage)) : Prop :=
  w.relay.Journal P l

theorem relayCall_journals {c : Call (RelaychainBuilder κ) (Error ε) α} {w : World κ W}
    (h : Journals (RelaychainBuilder.Journal P) c w.relay) : Journals (Journal P) (relayCall c) w :=
  Journals.zoom h (fun _ h ↦ h) fun _ _ h ↦ h

theorem journals_of_keeps {c : Call (World κ W) (Error ε) α}
    (h : Keeps (fun w ↦ (w.relay.builder.chain, w.relay.next)) c) (w : World κ W) :
    Journals (Journal P) c w :=
  Journals.of_keeps (fun _ _ _ hst hl ↦ RelaychainBuilder.Journal.congr hst hl) h

theorem enactAndJudge_journals (hinj : Function.Injective P.hash)
    (hL : H.toHost.Lawful P.toPrimitives) (parent : Hash) (n : ℕ) (e : CollationEntry)
    (w : World κ W) : Journals (Journal P) (enactAndJudge P H C parent n e) w := by
  have hread : Keeps (fun w : World κ W ↦ (w.relay.builder.chain, w.relay.next))
      (relayCall (ε := ε) (RelaychainBuilder.persistedValidationData P H parent e.id)) :=
    Keeps.zoom_of_read (fun _ ↦ rfl) (RelaychainBuilder.persistedValidationData_keeps parent e.id)
  have hjudge : Keeps (fun w : World κ W ↦ (w.relay.builder.chain, w.relay.next))
      (judgeCollation C e) :=
    fun w ↦ congrArg (fun r ↦ (r.builder.chain, r.next)) (judgeCollation_keeps e w)
  have hnote : ∀ reached, Keeps (fun w : World κ W ↦ (w.relay.builder.chain, w.relay.next))
      (noteEnacted (ε := ε) e reached) := by
    refine fun reached ↦ Keeps.modify fun w ↦ ?_
    cases reached with
    | true => rfl
    | false => rfl
  refine Journals.bind (Journals.bind (journals_of_keeps hread w) fun pvd u _ ↦ Journals.bind
    (relayCall_journals (RelaychainBuilder.withMutState_journals hinj hL _ u.relay))
      fun mutation v _ ↦ ?_) fun _ v _ ↦ journals_of_keeps hjudge v
  exact Journals.bind (journals_of_keeps (hnote mutation.1) v) fun _ v _ ↦
    journals_of_keeps (Keeps.returned _) v

theorem importBlock_journals (hinj : Function.Injective P.hash)
    (hL : H.toHost.Lawful P.toPrimitives) (w : World κ W) :
    Journals (Journal P) (importBlock P H C) w := by
  refine Journals.bind
    (relayCall_journals (RelaychainBuilder.importNext_journals hinj hL w.relay))
    fun hd u _ ↦ Journals.bind ?_ fun _ v _ ↦ journals_of_keeps ?_ v
  · refine Journals.bind (journals_of_keeps (Keeps.read _) u) fun parent u _ ↦
      Journals.bind (journals_of_keeps (Keeps.read _) u) fun n u _ ↦
        Journals.bind (journals_of_keeps (Keeps.read _) u) fun collations u _ ↦ Journals.bind
          (Journals.forEach (enactAndJudge_journals hinj hL parent n) collations u) fun _ v _ ↦
            journals_of_keeps (Keeps.modify fun _ ↦ rfl) v
  · exact Keeps.bind (Keeps.read _) fun parent ↦ Keeps.bind (Keeps.read _) fun parachains ↦
      Keeps.forEach (fun q ↦ collectFrom_keeps (fun _ _ ↦ rfl) (fun _ _ _ _ _ ↦ rfl)
        (fun _ _ ↦ rfl) parent hd q) _

/-- **Every operation keeps the record**, whatever it makes of the collations. -/
theorem publicStep_journals (hinj : Function.Injective P.hash) (op : PublicOp κ W ε A)
    (w : World κ W) (hop : op.Lawful P) : Journals (Journal P) (publicStep P op) w := by
  have hrelay : ∀ {α : Type} {c : Call (RelaychainBuilder κ) (Error ε) α},
      Keeps (fun r ↦ (r.builder.chain, r.next)) c → Journals (Journal P) (relayCall c) w :=
    fun hc ↦ journals_of_keeps (fun w ↦ hc w.relay) w
  cases op with
  | relay op =>
    cases op with
    | onboardPara H para k =>
      exact Journals.map (relayCall_journals (Journals.bind
        (RelaychainBuilder.withMutState_journals hinj hop _ w.relay) fun _ r _ ↦
          Journals.of_same fun l hl ↦ RelaychainBuilder.Journal.congr rfl hl))
    | updateParaHead H id head =>
      exact Journals.map (relayCall_journals
        (RelaychainBuilder.withMutState_journals hinj hop _ w.relay))
    | withMutState H exec =>
      exact Journals.map (relayCall_journals
        (RelaychainBuilder.withMutState_journals hinj hop _ w.relay))
    | buildBlock H =>
      exact Journals.map (relayCall_journals (RelaychainBuilder.buildBlock_journals hop w.relay))
    | importBlock H C => exact Journals.map (importBlock_journals hinj hop w)
    | collators f => exact journals_of_keeps (fun _ ↦ rfl) w
  | withState H exec => exact Journals.map (hrelay (RelaychainBuilder.withState_keeps _))
  | withStateAt H at_ exec =>
    exact Journals.map
      (hrelay (RelaychainBuilder.core_keeps_of_read (Builder.withState_dryRun_keeps _ _)))
  | appendExtrinsic H xt => exact Journals.map (hrelay (appendExtrinsic_keeps_slot xt))
  | appendExtrinsics H xts => exact Journals.map (hrelay (appendExtrinsics_keeps_slot xts))
  | appendTransition aux => exact Journals.map (hrelay fun _ ↦ rfl)

end World

/-! ## Runs -/

open StandAloneBuilder (standAloneStep StandAloneOp)
open World (publicStep PublicOp)

/-- **The past of a chain is kept.** In every run of a stand-alone or a relay chain builder,
whatever fails in it, all but the newest recorded blocks stay below the best block: one, and one
more for every call that failed. What `with_state_at` reads of them is what they were recorded
with. -/
theorem past_kept {S κ W ε A : Type} (P : Primitives S) (R : RelayPrimitives)
    (hP : Function.Injective P.hash) (hR : Function.Injective R.hash) :
    (∀ (a₀ : StandAloneBuilder S) (ops : List (StandAloneOp S A)) (l : List (Hash × S)),
      a₀.next = none → a₀.builder.chain.Recorded P l →
      Along (standAloneStep P) (fun op _ ↦ op.Lawful P) ops a₀ →
      let a := run (standAloneStep P) ops a₀
      let past := l.drop (failures (standAloneStep P) ops a₀ + 1)
      (∃ l', a.builder.chain.Recorded P l' ∧ past <:+ l'.tail) ∧
      ∀ e ∈ past, ∀ (H : Host S) (R : Type) (exec : S → R × S) (r : R), H.Lawful P →
        (StandAloneBuilder.withStateAt P H (.hash e.1) exec a).1 = .ok r → r = (exec e.2).1) ∧
    (∀ (w₀ : World κ W) (ops : List (PublicOp κ W ε A)) (l : List (Hash × RelayStorage)),
      w₀.relay.next = none → w₀.relay.builder.chain.Recorded R.toPrimitives l →
      Along (publicStep R) (fun op _ ↦ op.Lawful R) ops w₀ →
      let w := run (publicStep R) ops w₀
      let past := l.drop (failures (publicStep R) ops w₀ + 1)
      (∃ l', w.relay.builder.chain.Recorded R.toPrimitives l' ∧ past <:+ l'.tail) ∧
      ∀ e ∈ past, ∀ (H : RelayHost) (A : Type) (exec : RelayStorage → A × RelayStorage) (r : A),
        H.toHost.Lawful R.toPrimitives → (RelaychainBuilder.withStateAt R H (.hash e.1) exec
          w.relay : Outcome (RelaychainBuilder.Error ε) A × _).1 = .ok r → r = (exec e.2).1) := by
  constructor
  · intro a₀ ops l hnext hl hops a past
    have h₀ : RecordedSlot P a₀.builder.chain a₀.next l := by
      rw [hnext]
      exact RecordedSlot.empty hl
    obtain ⟨l', ⟨-, hl'⟩, hpast⟩ := run_journals
      (fun op a hop ↦ StandAloneBuilder.standAloneStep_journals hP op a hop) ops hops h₀
    refine ⟨⟨l', hl', hpast⟩, fun e he H A exec r hL hr ↦ ?_⟩
    obtain ⟨b, hb, -⟩ := zoom_eq_ok.mp (mapErr_eq_ok.mp (eq_of_fst hr))
    exact Builder.dryRun_of_recorded hL hl' (List.mem_of_mem_tail (hpast.subset he)) hb
  · intro w₀ ops l hnext hl hops w past
    have h₀ : w₀.Journal R l := by
      rw [World.Journal, RelaychainBuilder.Journal, hnext]
      exact RecordedSlot.empty hl
    obtain ⟨l', ⟨-, hl'⟩, hpast⟩ := run_journals
      (fun op w hop ↦ World.publicStep_journals hR op w hop) ops hops h₀
    refine ⟨⟨l', hl', hpast⟩, fun e he H A exec r hL hr ↦ ?_⟩
    obtain ⟨b, hb, -⟩ := zoom_eq_ok.mp (mapErr_eq_ok.mp (eq_of_fst hr))
    exact Builder.dryRun_of_recorded hL hl' (List.mem_of_mem_tail (hpast.subset he)) hb

/-- A mutation that fails after its revert costs a chain of height two its best block. Genesis, with
the state 0, is below it as before; and a relay chain keeps its genesis under a block. -/
theorem past_kept_mutateTwice :
    (∃ l l', (counterChain 2).Recorded counter l ∧ l.length = 3 ∧
      (run (standAloneStep counter) mutateTwice
        (StandAloneBuilder.counterBuilder 2)).builder.chain.Recorded counter l' ∧
      l.drop 2 <:+ l'.tail) ∧
    ∃ l', (run (publicStep RelayPrimitives.reference) relayHeadRound
      { relay := .genesis ℕ, collators := () }).relay.builder.chain.Recorded
        RelayPrimitives.reference.toPrimitives l' := by
  have hinj : Function.Injective RelayPrimitives.reference.hash := pairHash_injective
  have hkept := past_kept (κ := ℕ) (W := Unit) (ε := Unit) (A := Unit) counter .reference
    pairHash_injective
    hinj
  have hL := Host.reference_lawful counter
  have hL' : RelayHost.reference.toHost.Lawful RelayPrimitives.reference.toPrimitives :=
    Host.reference_lawful _
  constructor
  · obtain ⟨l, hl⟩ := Builder.counterChain_recorded 2
    have hrefusing : refusingHost.Lawful counter := { hL with }
    have hops : ∀ op ∈ mutateTwice, op.Lawful counter := by
      simp [mutateTwice, StandAloneOp.Lawful, hL, hrefusing]
    obtain ⟨⟨l', hl', hpast⟩, -⟩ := hkept.1 (StandAloneBuilder.counterBuilder 2) mutateTwice l rfl
      hl (along_of_forall fun op hop _ ↦ hops op hop)
    have hone : failures (standAloneStep counter) mutateTwice
        (StandAloneBuilder.counterBuilder 2) = 1 := by decide +kernel
    rw [hone] at hpast
    exact ⟨l, l', hl, hl.number, hl', hpast⟩
  · have hops : ∀ op ∈ relayHeadRound, op.Lawful RelayPrimitives.reference := by
      simp [relayHeadRound, PublicOp.Lawful, hL']
    obtain ⟨⟨l', hl', -⟩, -⟩ := hkept.2 { relay := .genesis ℕ, collators := () } relayHeadRound _
      rfl (recorded_genesis _ _) (along_of_forall fun op hop _ ↦ hops op hop)
    exact ⟨l', hl'⟩

end Fudge
