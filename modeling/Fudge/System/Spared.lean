import Fudge.System.Public

/-!
# What the builders step back over

A mutation takes the best block of its chain away and puts another one in its place, or fails in
between. So in a run of all builders the best block of each chain is always stored under its number,
and a header stays as long as every call finds a best block above it.

On the relay chain an import makes one mutation after the other. What keeps these from going down
step by step is that a mutation that returns has put a block back, and that one that does not
return ends the import: `Sparing` is a triple whose two assertions are that far apart.
-/

namespace Fudge

open Call Chain
open Relation (ReflTransGen)
open RelaychainBuilder (Error)

namespace World

/-! ## The relay chain -/

section Relay

variable {κ W ε α β A : Type} {R : RelayPrimitives} {c₀ : Chain RelayStorage} {m : ℕ}
  {H : RelayHost} {C : CollationBuilder κ W ε}

/-- The relay chain has spared `c₀` below `m`, and a pending block sits on its best one. -/
def Spared (R : RelayPrimitives) (c₀ : Chain RelayStorage) (m : ℕ) (w : World κ W) : Prop :=
  c₀.Spares R.toPrimitives m w.relay.builder.chain ∧ RelaychainBuilder.Pending R w.relay

/-- The call spares the relay chain: it leaves the best block above `m` if it returns. -/
def Sparing (R : RelayPrimitives) (c₀ : Chain RelayStorage) (m : ℕ)
    (c : Call (World κ W) (Error ε) α) : Prop :=
  Triple (fun w ↦ Spared R c₀ m w ∧ m ≤ w.relay.builder.chain.bestNumber) c
    (fun _ w ↦ Spared R c₀ m w ∧ m ≤ w.relay.builder.chain.bestNumber) (Spared R c₀ m)

theorem Sparing.bind {c : Call (World κ W) (Error ε) α} {f : α → Call (World κ W) (Error ε) β}
    (hc : Sparing R c₀ m c) (hf : ∀ a, Sparing R c₀ m (f a)) : Sparing R c₀ m (c >>= f) :=
  Triple.bind hc hf

theorem Sparing.forEach {f : β → Call (World κ W) (Error ε) Unit}
    (h : ∀ b, Sparing R c₀ m (f b)) (l : List β) : Sparing R c₀ m (Call.forEach f l) :=
  Triple.forEach (I := fun _ _ w ↦ Spared R c₀ m w ∧ m ≤ w.relay.builder.chain.bestNumber)
    (fun _ b _ ↦ h b) l []

theorem sparing_of_keeps {c : Call (World κ W) (Error ε) α}
    (h : Keeps slot c) : Sparing R c₀ m c := by
  refine h.triple (fun w u hsame hw ↦ ?_) fun _ hw ↦ hw.1
  obtain ⟨hchain, hnext⟩ := Prod.mk.inj hsame
  rw [Spared, hchain, RelaychainBuilder.Pending, hchain, hnext]
  exact hw

theorem Sparing.of_slot {c : Call (World κ W) (Error ε) α} {d : Call (World κ W) (Error ε) β}
    (hd : Sparing R c₀ m d) (hslot : ∀ w, slot (c w).2 = slot (d w).2)
    (hok : ∀ w, (c w).1.isOk = (d w).1.isOk) : Sparing R c₀ m c := by
  intro w hw
  obtain ⟨hchain, hnext⟩ := Prod.mk.inj (hslot w)
  have hspared : Spared R c₀ m (d w).2 → Spared R c₀ m (c w).2 := by
    intro h
    rw [Spared, RelaychainBuilder.Pending, hchain, hnext]
    exact h
  refine ⟨fun a u hu ↦ ?_, fun hno ↦ hspared (hd.stopped hw ((hok w).symm.trans hno))⟩
  rw [hu] at hchain hspared
  obtain ⟨b, hb⟩ := Outcome.isOk_iff.mp ((hok w).symm.trans (by rw [hu]; rfl))
  obtain ⟨hleft, hm⟩ := hd.ok hw (eq_of_fst hb)
  exact ⟨hspared hleft, by rw [hchain]; exact hm⟩

theorem Sparing.map {c : Call (World κ W) (Error ε) α} (hc : Sparing R c₀ m c) (f : α → β) :
    Sparing R c₀ m (Call.map f c) :=
  hc.of_slot (fun _ ↦ rfl) fun w ↦ map_isOk f c w

theorem withMutState_sparing (hinj : Function.Injective R.hash)
    (hL : H.toHost.Lawful R.toPrimitives) (exec : RelayStorage → A × RelayStorage) :
    Sparing (κ := κ) (W := W) (ε := ε) R c₀ m
      (relayCall (RelaychainBuilder.withMutState R H exec)) := by
  intro w ⟨⟨hspared, hp⟩, hm⟩
  have hkept : c₀.Spares R.toPrimitives m (relayCall (ε := ε)
      (RelaychainBuilder.withMutState R H exec) w).2.relay.builder.chain := by
    rcases RelaychainBuilder.withMutState_cases (ε := ε) (P := R) (H := H) exec w.relay with
      ⟨-, hpanic⟩ | ⟨-, hmut⟩
    · rw [relayCall_apply, hpanic]
      exact hspared
    · rw [relayCall_apply, hmut]
      exact hspared.trans (Moves.spares hinj (Builder.commit_walks hL none exec w.relay.builder hm)
        hspared.anchored)
  have hpending := RelaychainBuilder.withMutState_pending (ε := ε) hL exec w.relay hp
  refine ⟨fun a u hu ↦ ?_, fun _ ↦ ⟨hkept, hpending⟩⟩
  rw [relayCall_apply] at hkept hu
  obtain ⟨hok, rfl⟩ := Prod.mk.inj hu
  -- a mutation that returned has put the block back
  obtain ⟨-, b, hcommit, hb⟩ := RelaychainBuilder.withMutState_eq_ok (eq_of_fst hok)
  have hnumber := Builder.commit_number_of_ok hL hspared.anchored hcommit
  refine ⟨⟨hkept, hpending⟩, ?_⟩
  rw [hb]
  exact hm.trans hnumber.ge

theorem importNext_sparing (hinj : Function.Injective R.hash)
    (hL : H.toHost.Lawful R.toPrimitives) :
    Sparing (κ := κ) (W := W) (ε := ε) R c₀ m (relayCall (RelaychainBuilder.importNext H)) := by
  intro w ⟨⟨hspared, hp⟩, hm⟩
  have hpending := RelaychainBuilder.importNext_pending (ε := ε) hL w.relay hp
  suffices hboth : c₀.Spares R.toPrimitives m (relayCall (ε := ε) (RelaychainBuilder.importNext H)
        w).2.relay.builder.chain ∧
      m ≤ (relayCall (ε := ε) (RelaychainBuilder.importNext H)
        w).2.relay.builder.chain.bestNumber by
    refine ⟨fun a u hu ↦ ?_, fun _ ↦ ⟨hboth.1, hpending⟩⟩
    obtain ⟨-, rfl⟩ := Prod.mk.inj hu
    exact ⟨⟨hboth.1, hpending⟩, hboth.2⟩
  rcases RelaychainBuilder.importNext_cases (ε := ε) (H := H) w.relay with
    ⟨-, -, hsame⟩ | ⟨next, hnext, -, himport⟩
  · rw [relayCall_apply, hsame]
    exact ⟨hspared, hm⟩
  · rw [relayCall_apply, himport]
    refine ⟨hspared.trans (Moves.spares hinj (Builder.importBlock_walks hL rfl w.relay.builder)
      hspared.anchored), ?_⟩
    change m ≤ (Builder.importBlock H.toHost _ w.relay.builder).2.chain.bestNumber
    rw [Builder.importBlock_chain]
    rcases hi : H.importBlock w.relay.builder.chain (RelaychainBuilder.nextParams next.1) with
      ⟨result, c⟩
    by_cases hr : result = .ok .imported
    · -- the pending block is one above the best one
      subst hr
      have himp := hL.importBlock hi
      obtain ⟨tip, htip, hn⟩ := hspared.anchored.best
      obtain ⟨parent, hparent, hnumber⟩ := himp.parent
      rw [show (RelaychainBuilder.nextParams next.1).header.parentHash = _ from hp.tip next hnext,
        htip] at hparent
      obtain rfl := Option.some.inj hparent
      change m ≤ c.bestNumber
      rw [(himp.best rfl).2, hnumber, hn]
      omega
    · rw [show c = w.relay.builder.chain from hL.importBlock_refused hi hr]
      exact hm

theorem buildBlock_sparing (hL : H.toHost.Lawful R.toPrimitives) :
    Sparing (κ := κ) (W := W) (ε := ε) R c₀ m (relayCall (RelaychainBuilder.buildBlock R H)) := by
  intro w ⟨⟨hspared, hp⟩, hm⟩
  have hpending := RelaychainBuilder.buildBlock_pending (ε := ε) hL w.relay hp
  have hbuilder := RelaychainBuilder.buildBlock_builder (ε := ε) (P := R) (H := H) w.relay
  have hleft : c₀.Spares R.toPrimitives m (relayCall (ε := ε) (RelaychainBuilder.buildBlock R H)
        w).2.relay.builder.chain ∧
      m ≤ (relayCall (ε := ε) (RelaychainBuilder.buildBlock R H)
        w).2.relay.builder.chain.bestNumber := by
    rw [relayCall_apply, hbuilder]
    exact ⟨hspared, hm⟩
  refine ⟨fun a u hu ↦ ?_, fun _ ↦ ⟨hleft.1, hpending⟩⟩
  obtain ⟨-, rfl⟩ := Prod.mk.inj hu
  exact ⟨⟨hleft.1, hpending⟩, hleft.2⟩

theorem enactAndJudge_sparing (hinj : Function.Injective R.hash)
    (hL : H.toHost.Lawful R.toPrimitives) (parent : Hash) (n : ℕ) (e : CollationEntry) :
    Sparing R c₀ m (enactAndJudge R H C parent n e) := by
  have hjudge : Keeps slot (judgeCollation C e : Call (World κ W) _ Unit) :=
    fun w ↦ congrArg (fun r ↦ (r.builder.chain, r.next)) (judgeCollation_keeps e w)
  have hnote : ∀ reached, Keeps slot
      (noteEnacted e reached : Call (World κ W) (Error ε) Unit) := by
    refine fun reached ↦ Keeps.modify fun w ↦ ?_
    cases reached <;> rfl
  refine Sparing.bind (Sparing.bind (sparing_of_keeps (Keeps.zoom_of_read (fun _ ↦ rfl)
    (RelaychainBuilder.persistedValidationData_keeps parent e.id))) fun pvd ↦
      Sparing.bind (withMutState_sparing hinj hL _) fun mutation ↦ ?_) fun _ ↦
        sparing_of_keeps hjudge
  exact Sparing.bind (sparing_of_keeps (hnote mutation.1)) fun _ ↦
    sparing_of_keeps (Keeps.returned _)

theorem importBlock_sparing (hinj : Function.Injective R.hash)
    (hL : H.toHost.Lawful R.toPrimitives) : Sparing R c₀ m (importBlock R H C) := by
  refine Sparing.bind (importNext_sparing hinj hL) fun hd ↦ Sparing.bind ?_ fun _ ↦ ?_
  · exact Sparing.bind (sparing_of_keeps (Keeps.read _)) fun parent ↦
      Sparing.bind (sparing_of_keeps (Keeps.read _)) fun n ↦
        Sparing.bind (sparing_of_keeps (Keeps.read _)) fun collations ↦
          Sparing.bind (Sparing.forEach (enactAndJudge_sparing hinj hL parent n) collations)
            fun _ ↦ sparing_of_keeps (Keeps.modify fun _ ↦ rfl)
  · exact sparing_of_keeps (Keeps.bind (Keeps.read _) fun parent ↦ Keeps.bind (Keeps.read _)
      fun parachains ↦ Keeps.forEach (fun q ↦ collectFrom_keeps (fun _ _ ↦ rfl)
        (fun _ _ _ _ _ ↦ rfl) (fun _ _ ↦ rfl) parent hd q) _)

/-- **An operation spares the relay chain below its mark.** -/
theorem publicStep_sparing (hinj : Function.Injective R.hash) (op : PublicOp κ W ε A)
    (hop : op.Lawful R) : Sparing R c₀ m (publicStep R op) := by
  have hrelay : ∀ {α : Type} {c : Call (RelaychainBuilder κ) (Error ε) α},
      Keeps (fun r ↦ (r.builder.chain, r.next)) c →
        Sparing R c₀ m (relayCall c : Call (World κ W) _ α) :=
    fun hc ↦ sparing_of_keeps fun w ↦ hc w.relay
  cases op with
  | relay op =>
    cases op with
    | onboardPara H para k =>
      exact Sparing.map ((withMutState_sparing hinj hop _).of_slot
        (fun w ↦ onboardPara_slot para k w) fun w ↦ onboardPara_isOk para k w.relay) _
    | updateParaHead H id head => exact Sparing.map (withMutState_sparing hinj hop _) _
    | withMutState H exec => exact Sparing.map (withMutState_sparing hinj hop exec) _
    | buildBlock H => exact Sparing.map (buildBlock_sparing hop) _
    | importBlock H C => exact Sparing.map (importBlock_sparing hinj hop) _
    | collators f =>
      have hkeep : Keeps slot (Call.modify fun w : World κ W ↦
        { w with collators := f w.collators } : Call _ (Error ε) Unit) := Keeps.modify fun _ ↦ rfl
      exact Sparing.map (sparing_of_keeps hkeep) _
  | withState H exec => exact Sparing.map (hrelay (RelaychainBuilder.withState_keeps _)) _
  | withStateAt H at_ exec =>
    exact Sparing.map (hrelay (RelaychainBuilder.core_keeps_of_read
      (Builder.withState_dryRun_keeps _ _))) _
  | appendExtrinsic H xt => exact Sparing.map (hrelay (appendExtrinsic_keeps_slot xt)) _
  | appendExtrinsics H xts => exact Sparing.map (hrelay (appendExtrinsics_keeps_slot xts)) _
  | appendTransition aux => exact Sparing.map (hrelay fun _ ↦ rfl) _

end Relay

/-! ## All chains -/

section Chains

variable {κ A : Type} [DecidableEq κ] {T : κ → Type} {R : RelayPrimitives}
  {P : ∀ k, Primitives (T k)}

/-- The chains of a system, and what became of them below a mark for each. -/
structure ChainsSpared (R : RelayPrimitives) (P : ∀ k, Primitives (T k)) (m : ℕ) (marks : κ → ℕ)
    (w w' : World κ (Builders T)) : Prop where
  relay : w.relay.builder.chain.Spares R.toPrimitives m w'.relay.builder.chain
  paras : ∀ k, (w.collators k).builder.chain.Spares (P k) (marks k)
    (w'.collators k).builder.chain

/-- No best block is below the mark of its chain. -/
def AboveMarks (m : ℕ) (marks : κ → ℕ) (w : World κ (Builders T)) : Prop :=
  m ≤ w.relay.builder.chain.bestNumber ∧ ∀ k, marks k ≤ (w.collators k).builder.chain.bestNumber

/-- **The chains of a system are spared below the marks that their best blocks stay above**: in
every run of all its builders, whatever fails in it, the best block of each chain is stored under
its number, and a header stays as long as every call finds the best block of its chain above it. -/
theorem chains_spared (hR : Function.Injective R.hash) (hP : ∀ k, Function.Injective (P k).hash)
    (m : ℕ) (marks : κ → ℕ) {w : World κ (Builders T)}
    (hrelay : w.relay.builder.chain.Anchored R.toPrimitives)
    (hpending : RelaychainBuilder.Pending R w.relay)
    (hparas : ∀ k, (w.collators k).builder.chain.Anchored (P k)) (ops : List (BuilderOp T A))
    (hops : Along (builderStep R P) (fun op w ↦ op.Lawful R P ∧ AboveMarks m marks w) ops w) :
    ChainsSpared R P m marks w (run (builderStep R P) ops w) := by
  have hpara : ∀ k, ReflTransGen (Move (P k) (marks k)) (w.collators k).builder.chain
      ((run (builderStep R P) ops w).collators k).builder.chain := fun k ↦
    run_walks (fun op w hop ↦ builderStep_para_walks k op w hop.1 (hop.2.2 k)) ops hops
  have hspared : Spared R w.relay.builder.chain m (run (builderStep R P) ops w) := by
    refine run_invariant (fun op u hop hu ↦ ?_) ops hops ⟨hrelay.spares m, hpending⟩
    cases op with
    | relay op =>
      rw [builderStep, map_snd, mapErr_snd]
      rcases (publicStep_sparing hR op hop.1.1).final ⟨hu, hop.2.1⟩ with ⟨-, h⟩ | h
      · exact h.1
      · exact h
    | para k op =>
      rw [builderStep, onBuilder_snd]
      exact hu
  exact ⟨hspared.1, fun k ↦ Moves.spares (hP k) (hpara k) (hparas k)⟩

/-- A parachain of height one is mutated, and so is the relay chain. -/
def mutateEverywhere : List (BuilderOp (fun _ : ℕ ↦ ℕ) Unit) :=
  [.para 0 (.para (.withMutState (.reference counter) fun s ↦ ((), s + 1))),
    .relay (.relay (.withMutState .reference fun s ↦ ((), s)))]

/-- The parachain keeps its genesis. -/
theorem chains_spared_mutateEverywhere :
    ∃ w : World ℕ (Builders fun _ ↦ ℕ), (w.collators 0).builder.chain = counterChain 1 ∧
      ChainsSpared .reference (fun _ ↦ counter) 0 (fun _ ↦ 1) w
        (run (builderStep .reference fun _ ↦ counter) mutateEverywhere w) := by
  let w : World ℕ (Builders fun _ : ℕ ↦ ℕ) :=
    { relay := .genesis ℕ, collators := fun _ ↦ .counterBuilder 1 }
  have hrelay : RelayHost.reference.toHost.Lawful RelayPrimitives.reference.toPrimitives :=
    Host.reference_lawful _
  have hothers : ∀ (p : ParachainBuilder ℕ), p.builder.chain.bestNumber = 1 →
      ∀ k, 1 ≤ ((w.withPara 0 p).collators k).builder.chain.bestNumber := by
    intro p hp k
    by_cases hk : k = 0
    · subst hk
      exact (congrArg (·.builder.chain.bestNumber) (Function.update_self 0 p w.collators)).trans
        hp |>.ge
    · exact (congrArg (·.builder.chain.bestNumber) (Function.update_of_ne hk p w.collators)).ge
  refine ⟨w, rfl, chains_spared pairHash_injective (fun _ ↦ pairHash_injective) 0 _
    (anchored_genesis _ _) ⟨hashed_genesis _ _, fun b hb ↦ by cases hb⟩
    (fun _ ↦ Builder.counterChain_anchored 1) mutateEverywhere
    ⟨⟨ParaHost.reference_lawful counter, Nat.zero_le _, fun _ ↦ le_rfl⟩, fun _ ↦
      ⟨⟨⟨hrelay, trivial⟩, Nat.zero_le _, ?_⟩, fun _ ↦ trivial⟩⟩⟩
  exact hothers _ (by decide +kernel)

end Chains

end World

end Fudge
