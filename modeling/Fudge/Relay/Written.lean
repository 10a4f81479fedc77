import Fudge.Core.States
import Fudge.Relay.Heads
import Fudge.Relay.Pending

/-!
# Where the heads on the relay chain come from

`update_para_head`, `onboard_para` and the enactments of `import_block` write to `Heads`. If the
heads that they write are admitted for the ids they write them under, then so are all heads in all
states the relay chain stores, whichever of the calls fail and wherever.

An import that returns `Ok` also leaves no head out: the best state has the heads it had, and for
the ids in the table those of the collations.
-/

namespace Fudge

open Call Chain

/-! ## One state -/

namespace RelayStorage

open RelaychainBuilder (Error)

variable {ε : Type} {P : RelayPrimitives} {H : RelayHost} {A : Id → HeadData → Prop}
  {s : RelayStorage}

def HeadsIn (A : Id → HeadData → Prop) (s : RelayStorage) : Prop :=
  ∀ id head, s.heads id = some head → A id head

theorem HeadsIn.of_update (h : HeadsIn A s) {t : RelayStorage} {id : Id} {head : HeadData}
    (ht : t.heads = Function.update s.heads id (some head)) (hA : A id head) : HeadsIn A t := by
  intro id' head' hhead
  rw [ht] at hhead
  by_cases hid : id' = id
  · subst hid
    rw [Function.update_self] at hhead
    exact Option.some.inj hhead ▸ hA
  · rw [Function.update_of_ne hid] at hhead
    exact h id' head' hhead

/-- Up to the force-enactment the closure writes to other maps. -/
theorem insertCandidate_keeps_heads (parent : Hash) (n : ℕ) (pvd : PersistedValidationData)
    (id : Id) (c : Collation) (hd : Header) :
    Keeps (fun s ↦ s.heads) (insertCandidate (ε := ε) P H parent n pvd id c hd) :=
  Keeps.bind (Keeps.modify fun _ ↦ rfl) fun _ ↦
    Keeps.bind (Keeps.bind (Keeps.query _ _) fun _ ↦ Keeps.require _ _) fun _ ↦
      Keeps.bind (Keeps.bind (Keeps.read _) fun _ ↦ Keeps.bind (Keeps.require _ _) fun _ ↦
        Keeps.require _ _) fun _ ↦
          Keeps.bind (Keeps.query _ _) fun _ ↦ Keeps.modify fun _ ↦ rfl

/-- **An enactment**, whatever becomes of it. -/
theorem HeadsIn.recordedEnact (hP : P.EnactsHeads) {parent : Hash} {n : ℕ}
    {pvd : PersistedValidationData} {id : Id} {c : Collation} {hd : Header} (h : HeadsIn A s)
    (hA : A id c.headData) :
    HeadsIn A (recordedEnact (ε := ε) P H parent n pvd id c hd s).2 := by
  by_cases hreached : (RelayStorage.recordedEnact (ε := ε) P H parent n pvd id c hd s).1.1 = true
  · exact h.of_update (recordedEnact_heads hP hreached) hA
  · -- the closure failed before the force-enactment
    have hno : (insertCandidate (ε := ε) P H parent n pvd id c hd s).1.isOk = false :=
      Bool.eq_false_iff.mpr hreached
    have hkeep : (insertCandidate (ε := ε) P H parent n pvd id c hd s).2.heads = s.heads :=
      insertCandidate_keeps_heads parent n pvd id c hd s
    have hsame : (RelayStorage.recordedEnact (ε := ε) P H parent n pvd id c hd s).2 =
        (insertCandidate (ε := ε) P H parent n pvd id c hd s).2 := (bind_of_not_ok hno).2
    intro id' head hhead
    rw [hsame, hkeep] at hhead
    exact h id' head hhead

end RelayStorage

/-! ## All states of the chain -/

open RelayStorage (HeadsIn)

namespace RelaychainBuilder

variable {κ ε R : Type} {P : RelayPrimitives} {H : RelayHost} {Q : RelayStorage → Prop}

theorem withMutState_allStates (hL : H.toHost.Lawful P.toPrimitives)
    {exec : RelayStorage → R × RelayStorage} (hQ : ∀ s, Q s → Q (exec s).2) :
    Preserves (fun r ↦ r.builder.chain.AllStates Q)
      (withMutState P H exec : Call (RelaychainBuilder κ) (Error ε) R) := by
  intro r hr
  rcases withMutState_cases (ε := ε) (P := P) (H := H) exec r with ⟨-, hpanic⟩ | ⟨-, hmut⟩
  · rw [hpanic]
    exact hr
  · rw [hmut]
    exact Builder.commit_allStates hL hQ r.builder hr

theorem importNext_allStates (hL : H.toHost.Lawful P.toPrimitives)
    (hQ : ∀ s block, Q s → Q (P.execute s block)) :
    Preserves (fun r ↦ r.builder.chain.AllStates Q)
      (importNext H : Call (RelaychainBuilder κ) (Error ε) Header) := by
  intro r hr
  rcases importNext_cases (ε := ε) (H := H) r with ⟨-, -, hsame⟩ | ⟨next, -, -, himport⟩
  · rw [hsame]
    exact hr
  · rw [himport]
    exact Builder.importBlock_allStates hL hQ _ r.builder hr

end RelaychainBuilder

namespace World

open RelaychainBuilder (Error Pending)

variable {κ W ε : Type} {P : RelayPrimitives} {H : RelayHost} {C : CollationBuilder κ W ε}
  {A : Id → HeadData → Prop} {w : World κ W}

/-- Every head in every state of the relay chain is admitted for its id. -/
def HeadsIn (A : Id → HeadData → Prop) (w : World κ W) : Prop :=
  w.relay.builder.chain.AllStates (RelayStorage.HeadsIn A)

/-- Every entry of the table has an admitted head. -/
def TableIn (A : Id → HeadData → Prop) (w : World κ W) : Prop :=
  ∀ e ∈ w.relay.collations, A e.id e.collation.headData

theorem HeadsIn.head (h : HeadsIn A w) {id : Id} {head : HeadData} (hhead : w.head id = some head) :
    A id head := by
  rw [World.head] at hhead
  obtain ⟨s, hs, hhead⟩ := Option.bind_eq_some_iff.mp hhead
  exact h _ s hs id head hhead

theorem enactAndJudge_headsIn (hP : P.EnactsHeads) (hL : H.toHost.Lawful P.toPrimitives)
    {e : CollationEntry} (hA : A e.id e.collation.headData) (parent : Hash) (n : ℕ) :
    Preserves (HeadsIn A) (enactAndJudge P H C parent n e) := by
  intro w hw
  rw [HeadsIn, enactAndJudge_relay]
  cases validationData ε P H parent e w with
  | ok pvd =>
    exact RelaychainBuilder.withMutState_allStates hL (fun s hs ↦ hs.recordedEnact hP hA) w.relay hw
  | err x => exact hw
  | panic => exact hw

/-- **An import**, whatever it returns: the heads of the table are all it writes. -/
theorem importBlock_headsIn (hP : P.EnactsHeads) (hkeeps : P.KeepsHeads)
    (hL : H.toHost.Lawful P.toPrimitives) (hw : HeadsIn A w) (htable : TableIn A w) :
    HeadsIn A (importBlock P H C w).2 := by
  have hnext : HeadsIn A (relayCall (ε := ε) (RelaychainBuilder.importNext H) w).2 :=
    RelaychainBuilder.importNext_allStates hL
      (fun s block hs id head hhead ↦ hs id head (by rwa [hkeeps] at hhead)) w.relay hw
  have htables := (Prod.mk.inj (importNext_keeps_tables (ε := ε) (H := H) w)).2
  rcases importBlock_cases (P := P) (H := H) (C := C) w with ⟨-, hstop⟩ | ⟨hd, u, hu, hcase⟩
  · rw [hstop]
    exact hnext
  · rw [hu] at hnext htables
    have hloop : HeadsIn A (enactLoop P H C u).2 := by
      refine Preserves.forEach (fun e he ↦ enactAndJudge_headsIn hP hL ?_ _ _) u hnext
      exact htable e (htables ▸ he)
    rcases hcase with ⟨-, -, h⟩ | ⟨-, h⟩
    · rw [h]
      exact hloop
    · rw [h, HeadsIn, (collectLoop_keeps_builder hd _).1]
      exact hloop

/-! ## The best state -/

theorem importNext_head (hkeeps : P.KeepsHeads) (hL : H.toHost.Lawful P.toPrimitives)
    (hp : Pending P w.relay) (id : Id) :
    (relayCall (ε := ε) (RelaychainBuilder.importNext H) w).2.head id = w.head id := by
  change World.head id { w with relay :=
    (RelaychainBuilder.importNext (κ := κ) (ε := ε) H w.relay).2 } = _
  rcases RelaychainBuilder.importNext_cases (ε := ε) (H := H) w.relay with
    ⟨-, -, hsame⟩ | ⟨next, hnext, -, himport⟩
  · rw [hsame]
  · rw [himport]
    change ((Builder.importBlock H.toHost _ _).2.chain.states _).bind _ = _
    rw [Builder.importBlock_chain]
    rcases hi : H.importBlock w.relay.builder.chain
      (RelaychainBuilder.nextParams next.1) with ⟨result, c⟩
    by_cases hr : result = .ok .imported
    · -- the block sits on the tip, so it is executed on the best state
      subst hr
      have himp := hL.importBlock hi
      obtain ⟨s, hs, hstates⟩ := himp.states
      have htip : next.1.header.parentHash = w.relay.builder.chain.bestHash := hp.tip next hnext
      have hparent : w.relay.builder.chain.states w.relay.builder.chain.bestHash = some s := by
        rw [← htip]
        exact hs
      rw [hstates, (himp.best rfl).1, Function.update_self, World.head, hparent]
      exact congrFun (hkeeps s _) id
    · rw [show c = w.relay.builder.chain from hL.importBlock_refused hi hr]
      rfl

theorem enactLoop_head (hP : P.EnactsHeads) (hL : H.toHost.Lawful P.toPrimitives) {parent : Hash}
    {n : ℕ} {u : Unit} (id : Id) : ∀ (l : List CollationEntry) {w w' : World κ W},
      forEach (enactAndJudge P H C parent n) l w = (.ok u, w') →
        w'.head id = w.head id ∨ ∃ e ∈ l, e.id = id ∧ w'.head id = some e.collation.headData := by
  intro l
  induction l with
  | nil =>
    intro w w' h
    obtain rfl := (Prod.mk.inj h).2
    exact Or.inl rfl
  | cons e l ih =>
    intro w w' h
    obtain ⟨_, v, hv, hrest⟩ := bind_eq_ok.mp h
    obtain ⟨b, hby, hb⟩ : ∃ b, EnactedBy ε P H parent n e w.relay.builder b ∧
        v.relay.builder = b := by
      obtain ⟨b, ⟨-, hno⟩ | ⟨-, -, hno⟩ | ⟨hby, reg, k, -, -, hjudged⟩⟩ :=
        enactAndJudge_cases (P := P) (H := H) (C := C) parent n e w
      · rw [hv] at hno
        cases hno
      · rw [hv] at hno
        cases hno
      · refine ⟨b, hby, ?_⟩
        rw [hv] at hjudged
        exact congrArg (·.relay.builder) hjudged
    obtain ⟨s, s', hs, hs', hheads⟩ := hby.heads hP hL
    have hone : v.head id = Function.update s.heads e.id (some e.collation.headData) id := by
      rw [World.head, hb, hs', ← hheads]
      rfl
    rcases ih hrest with hsame | ⟨e', he', hid, hhead⟩
    · rw [hsame, hone]
      by_cases hid : e.id = id
      · subst hid
        exact Or.inr ⟨e, List.mem_cons_self, rfl, Function.update_self _ _ _⟩
      · left
        rw [Function.update_of_ne (Ne.symm hid), World.head, hs]
        rfl
    · exact Or.inr ⟨e', List.mem_cons_of_mem e he', hid, hhead⟩

/-- **An import that returns `Ok`** leaves every head as it was, or makes it the head of an entry of
the table. -/
theorem importBlock_head (hP : P.EnactsHeads) (hkeeps : P.KeepsHeads)
    (hL : H.toHost.Lawful P.toPrimitives) (hp : Pending P w.relay) {w' : World κ W} {u : Unit}
    (h : importBlock P H C w = (.ok u, w')) (id : Id) :
    w'.head id = w.head id ∨
      ∃ e ∈ w.relay.collations, e.id = id ∧ w'.head id = some e.collation.headData := by
  have hnext := importNext_head (ε := ε) hkeeps hL hp id
  have htables := (Prod.mk.inj (importNext_keeps_tables (ε := ε) (H := H) w)).2
  rcases importBlock_cases (P := P) (H := H) (C := C) w with
    ⟨⟨hno, -⟩, -⟩ | ⟨hd, v, hv, ⟨-, hno, -⟩ | ⟨hloop, hend⟩⟩
  · rw [h] at hno
    cases hno
  · rw [h] at hno
    cases hno
  · rw [hv] at hnext htables
    rw [h] at hend
    obtain ⟨⟨⟩, hok⟩ := Outcome.isOk_iff.mp hloop
    have hhead : w'.head id = (enactLoop P H C v).2.head id := by
      rw [World.head, show w' = _ from congrArg Prod.snd hend,
        (collectLoop_keeps_builder hd _).1]
      rfl
    have hloops := enactLoop_head hP hL id _ (Prod.ext hok rfl :
      enactLoop P H C v = (.ok (), (enactLoop P H C v).2))
    rw [htables, hnext] at hloops
    rw [hhead]
    exact hloops

end World

end Fudge
