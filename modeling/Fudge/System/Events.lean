import Fudge.Core.Announce
import Fudge.System.Accepted
import Fudge.System.Pending

/-!
# What the pool hears in a run

Each public operation of the three builders makes at most one import, and makes it on the chain it
is called on: `import_block`, and the `build_block` of the parachain builder, which imports aside.
In every run the events of the pool are those of the imports of the run, in their order.

The pool hears of every block once, when it becomes best and final, exactly if every import that
the client takes is one as best and final, of a block that is neither so already nor was taken
before. The imports of the parachain builder's `build_block` never are.
-/

namespace Fudge

open Call
open ParachainBuilder (CollatorError)
open Import (Announces Heard)

section Run

variable {S σ ε ρ ω : Type} {step : ω → Call σ ε ρ} {made : ω → σ → Option (Import S)}
  {P : Primitives S}

/-- An operation, and the imports that were made so far. -/
def importStep (step : ω → Call σ ε ρ) (made : ω → σ → Option (Import S)) (op : ω) :
    Call (σ × List (Import S)) ε ρ :=
  tracked step (fun op s history ↦ history ++ (made op s).toList) op

def importsMade (step : ω → Call σ ε ρ) (made : ω → σ → Option (Import S)) (ops : List ω)
    (s : σ) : List (Import S) :=
  ledger step (fun op s history ↦ history ++ (made op s).toList) ops s []

/-- The import of an operation, if there is one, announces a new block. -/
def AnnouncesRight (P : Primitives S) (made : ω → σ → Option (Import S)) (op : ω)
    (x : σ × List (Import S)) : Prop :=
  ∀ i ∈ made op x.1, i.Announces P x.2

instance (op : ω) (x : σ × List (Import S)) : Decidable (AnnouncesRight P made op x) :=
  inferInstanceAs (Decidable (∀ i ∈ made op x.1, _))

theorem run_events {f : σ → List ChainEvent}
    (h : ∀ op s, f (step op s).2 = f s ++ (made op s).toList.flatMap Import.events)
    (ops : List ω) (s : σ) :
    f (run step ops s) = f s ++ (importsMade step made ops s).flatMap Import.events := by
  refine run_ledger (I := fun t (history : List (Import S)) ↦
      f t = f s ++ history.flatMap Import.events)
    (fun op t history _ ht ↦ ?_) ops (along_true ops s) ?_
  · rw [h, ht, List.flatMap_append, List.append_assoc]
  · simp

/-- **The pool hears of every block once** in a run exactly if every import announces a new one. -/
theorem heard_run_iff {adm : ω → σ → Prop}
    (hL : ∀ op s, adm op s → ∀ i ∈ made op s, i.Lawful P) (ops : List ω) {s : σ}
    (hops : Along step adm ops s) :
    Heard (importsMade step made ops s) ↔
      Along (importStep step made) (AnnouncesRight P made) ops (s, []) := by
  have hgain : ∀ op s (history : List (Import S)), adm op s → (∀ i ∈ history, i.Lawful P) →
      ∀ i ∈ history ++ (made op s).toList, i.Lawful P := by
    intro op s history hadm hhistory i hi
    rcases List.mem_append.mp hi with hi | hi
    · exact hhistory i hi
    · exact hL op s hadm i (Option.mem_toList.mp hi)
  have hlawful : ∀ i ∈ importsMade step made ops s, i.Lawful P :=
    run_ledger (I := fun (_ : σ) (history : List (Import S)) ↦ ∀ i ∈ history, i.Lawful P)
      (fun op s history hadm h ↦ hgain op s history hadm h) ops hops
      fun _ hi ↦ absurd hi List.not_mem_nil
  rw [← and_iff_right (b := Heard _) hlawful]
  refine ledger_iff (G := fun history ↦ (∀ i ∈ history, i.Lawful P) ∧ Heard history)
    (fun l m h ↦ ⟨fun i hi ↦ h.1 i (List.mem_append_left m hi), h.2.of_append⟩) ?_ ops hops
    ⟨fun _ hi ↦ absurd hi List.not_mem_nil, Import.heard_nil⟩
  rintro op s history hadm ⟨hhistory, hheard⟩
  rw [and_iff_right (hgain op s history hadm hhistory), AnnouncesRight]
  cases hmade : made op s with
  | none => simpa using hheard
  | some i =>
    have hi : i.Lawful P := hL op s hadm i hmade
    have hone := Import.heard_concat_iff hhistory hi hheard
    simpa using hone

end Run

/-! ## The stand-alone builder -/

namespace StandAloneBuilder

variable {S A R : Type} {P : Primitives S} {H : Host S}

def made : StandAloneOp S A → StandAloneBuilder S → Option (Import S)
  | .importBlock H, a => a.next.map fun next ↦ .of H (nextParams next.1) a.builder.chain
  | _, _ => none

theorem made_lawful (op : StandAloneOp S A) (a : StandAloneBuilder S) (hop : op.Lawful P) :
    ∀ i ∈ made op a, i.Lawful P := by
  fun_cases made op a with
  | case1 a H =>
    intro i hi
    obtain ⟨next, -, rfl⟩ := Option.map_eq_some_iff.mp hi
    exact Import.lawful_of hop (Or.inl ⟨rfl, rfl⟩) _
  | case2 => exact fun i hi ↦ by cases hi

theorem core_keeps_events {c : Call (Builder S) Builder.Error R}
    (hc : Keeps (fun b ↦ b.pool.events) c) :
    Keeps (fun a ↦ a.builder.pool.events) (core c) :=
  Keeps.mapErr fun a ↦ hc a.builder

/-- **An operation** sends the events of its import. -/
theorem standAloneStep_events (op : StandAloneOp S A) (a : StandAloneBuilder S) :
    (standAloneStep P op a).2.builder.pool.events =
      a.builder.pool.events ++ (made op a).toList.flatMap Import.events := by
  have hquiet : ∀ {α : Type} {c : Call (StandAloneBuilder S) Error α},
      Keeps (fun a ↦ a.builder.pool.events) c →
        (c a).2.builder.pool.events = a.builder.pool.events ++ [] := by
    intro α c hc
    rw [List.append_nil]
    exact hc a
  have hsubmit : ∀ {H : Host S} xt,
      Keeps (fun a : StandAloneBuilder S ↦ a.builder.pool.events) (appendExtrinsic H xt) :=
    fun xt ↦ core_keeps_events (Builder.appendExtrinsic_events xt)
  cases op with
  | importBlock H =>
    change (importBlock H a).2.builder.pool.events = _
    rcases importBlock_cases (H := H) a with ⟨hnext, -, hsame⟩ | ⟨next, hnext, -, himported⟩
    · rw [hsame, made, hnext]
      exact (List.append_nil _).symm
    · rw [himported, made, hnext]
      simpa using Builder.importBlock_pool (H := H) (nextParams next.1) a.builder
  | buildBlock H =>
    exact hquiet (Keeps.map (Keeps.bind (Keeps.assert _) fun _ ↦ Keeps.bind proposeBlock_keeps
      fun _ ↦ Keeps.bind (Keeps.modify fun _ ↦ rfl) fun _ ↦ Keeps.pure _))
  | withState H exec => exact hquiet (Keeps.map (withState_keeps _))
  | withStateAt H at_ exec => exact hquiet (Keeps.map (withStateAt_keeps at_ _))
  | withMutState H exec =>
    exact hquiet (Keeps.map (Keeps.bind (Keeps.assert _) fun _ ↦ core_keeps_events fun b ↦
      congrArg Pool.events (Builder.commit_pool none _ b)))
  | appendExtrinsic H xt => exact hquiet (Keeps.map (hsubmit xt))
  | appendExtrinsics H xts => exact hquiet (Keeps.map (appendExtrinsics_frame hsubmit xts))
  | appendTransition aux => exact hquiet (Keeps.map (core_keeps_events (Keeps.modify fun _ ↦ rfl)))

end StandAloneBuilder

/-! ## The relay chain builder -/

namespace World

open RelaychainBuilder (Error)

variable {κ W ε A R : Type} {P : RelayPrimitives} {H : RelayHost} {C : CollationBuilder κ W ε}

def made : PublicOp κ W ε A → World κ W → Option (Import RelayStorage)
  | .relay (.importBlock H _), w => w.relay.next.map fun next ↦
    .of H.toHost (RelaychainBuilder.nextParams next.1) w.relay.builder.chain
  | _, _ => none

theorem made_lawful (op : PublicOp κ W ε A) (w : World κ W) (hop : op.Lawful P) :
    ∀ i ∈ made op w, i.Lawful P.toPrimitives := by
  fun_cases made op w with
  | case1 H C =>
    intro i hi
    obtain ⟨next, -, rfl⟩ := Option.map_eq_some_iff.mp hi
    exact Import.lawful_of hop (Or.inl ⟨rfl, rfl⟩) _
  | case2 => exact fun i hi ↦ by cases hi

theorem core_keeps_events {c : Call (Builder RelayStorage) Builder.Error R}
    (hc : Keeps (fun b ↦ b.pool.events) c) :
    Keeps (fun r ↦ r.builder.pool.events)
      (RelaychainBuilder.core c : Call (RelaychainBuilder κ) (Error ε) R) :=
  Keeps.mapErr fun r ↦ hc r.builder

theorem withMutState_events (exec : RelayStorage → R × RelayStorage) :
    Keeps (fun r ↦ r.builder.pool.events)
      (RelaychainBuilder.withMutState P H exec : Call (RelaychainBuilder κ) (Error ε) R) :=
  Keeps.bind (Keeps.assert _) fun _ ↦ core_keeps_events fun b ↦
    congrArg Pool.events (Builder.commit_pool none exec b)

theorem importBlock_events (w : World κ W) :
    (importBlock P H C w).2.relay.builder.pool.events =
      (relayCall (ε := ε) (RelaychainBuilder.importNext H) w).2.relay.builder.pool.events := by
  rcases importBlock_cases (P := P) (H := H) (C := C) w with ⟨-, hstop⟩ | ⟨hd, u, hu, hcase⟩
  · rw [hstop]
  · rw [hu]
    have henact : (enactLoop P H C u).2.relay.builder.pool.events =
        u.relay.builder.pool.events := by
      have hkeep : Keeps (fun w : World κ W ↦ w.relay.builder.pool.events)
          (forEach (enactAndJudge P H C u.relay.builder.chain.bestHash
            u.relay.builder.chain.bestNumber) u.relay.collations) := by
        apply Keeps.forEach
        intro e v
        change (enactAndJudge P H C _ _ e v).2.relay.builder.pool.events = _
        rw [enactAndJudge_relay]
        cases validationData ε P H u.relay.builder.chain.bestHash e v with
        | ok pvd => exact withMutState_events _ v.relay
        | err x => rfl
        | panic => rfl
      exact hkeep u
    rcases hcase with ⟨-, -, hstop⟩ | ⟨-, hcollect⟩
    · rw [hstop, henact]
    · rw [hcollect, (collectLoop_keeps_builder hd _).1]
      exact henact

/-- **An operation** sends the events of its import. -/
theorem publicStep_events (op : PublicOp κ W ε A) (w : World κ W) :
    (publicStep P op w).2.relay.builder.pool.events =
      w.relay.builder.pool.events ++ (made op w).toList.flatMap Import.events := by
  have hquiet : ∀ {α : Type} {c : Call (RelaychainBuilder κ) (Error ε) α},
      Keeps (fun r ↦ r.builder.pool.events) c →
        (relayCall c w).2.relay.builder.pool.events = w.relay.builder.pool.events ++ [] := by
    intro α c hc
    rw [List.append_nil]
    exact hc w.relay
  have hsubmit : ∀ {H : RelayHost} xt, Keeps (fun r : RelaychainBuilder κ ↦ r.builder.pool.events)
      (RelaychainBuilder.appendExtrinsic H xt : Call _ (Error ε) Hash) :=
    fun xt ↦ core_keeps_events (Builder.appendExtrinsic_events xt)
  cases op with
  | relay op =>
    cases op with
    | onboardPara H para k =>
      exact hquiet (Keeps.bind (withMutState_events _) fun _ ↦ Keeps.modify fun _ ↦ rfl)
    | updateParaHead H id head => exact hquiet (withMutState_events _)
    | withMutState H exec => exact hquiet (withMutState_events _)
    | buildBlock H => exact hquiet (RelaychainBuilder.buildBlock_keeps fun _ _ ↦ rfl)
    | importBlock H C =>
      change (importBlock P H C w).2.relay.builder.pool.events = _
      rw [importBlock_events, relayCall_apply]
      rcases RelaychainBuilder.importNext_cases (ε := ε) (H := H) w.relay with
        ⟨hnext, -, hsame⟩ | ⟨next, hnext, -, himported⟩
      · rw [hsame, made, hnext]
        exact (List.append_nil _).symm
      · rw [himported, made, hnext]
        simpa using Builder.importBlock_pool (H := H.toHost)
          (RelaychainBuilder.nextParams next.1) w.relay.builder
    | collators f => exact (List.append_nil _).symm
  | withState H exec => exact hquiet (RelaychainBuilder.withState_keeps _)
  | withStateAt H at_ exec =>
    exact hquiet (RelaychainBuilder.core_keeps_of_read (Builder.withState_dryRun_keeps _ _))
  | appendExtrinsic H xt => exact hquiet (hsubmit xt)
  | appendExtrinsics H xts =>
    exact hquiet (RelaychainBuilder.appendExtrinsics_frame hsubmit xts)
  | appendTransition aux => exact hquiet (core_keeps_events (Keeps.modify fun _ ↦ rfl))

end World

/-! ## The parachain builder -/

namespace ParachainBuilder

variable {T A R : Type} {P : Primitives T} {H : ParaHost T}

/-- The hosts of the operations that import or mutate keep the laws. -/
def PublicOp.Lawful (P : Primitives T) : PublicOp T A → Prop
  | .para op => op.Lawful P
  | _ => True

/-- The block that `build_block` proposes, and its proof. -/
def proposed (P : Primitives T) (H : ParaHost T) (p : ParachainBuilder T) :
    Option (Block × StorageProof) :=
  (proposeBlock P H p).1.toOption.map fun proposal ↦ (proposal.block, proposal.proof)

/-- The import of an operation: of an approved block, or of one that was just built. -/
def made (P : Primitives T) : PublicOp T A → ParachainBuilder T → Option (Import T)
  | .para (.importBlock H), p => (handed H p).map fun next ↦
    .of H.toHost (approvedParams next.1) p.builder.chain
  | .para (.buildBlock H), p => (proposed P H p).map fun built ↦
    .of H.toHost (buildParams built.1) p.builder.chain
  | _, _ => none

theorem made_lawful (op : PublicOp T A) (p : ParachainBuilder T) (hop : op.Lawful P) :
    ∀ i ∈ made P op p, i.Lawful P := by
  fun_cases made P op p with
  | case1 p H =>
    intro i hi
    obtain ⟨next, -, rfl⟩ := Option.map_eq_some_iff.mp hi
    exact Import.lawful_of hop.host (Or.inl ⟨rfl, rfl⟩) _
  | case2 p H =>
    intro i hi
    obtain ⟨block, -, rfl⟩ := Option.map_eq_some_iff.mp hi
    exact Import.lawful_of hop.host (Or.inr ⟨rfl, rfl⟩) _
  | case3 => exact fun i hi ↦ by cases hi

theorem core_keeps_events {c : Call (Builder T) Builder.Error R}
    (hc : Keeps (fun b ↦ b.pool.events) c) :
    Keeps (fun p ↦ p.builder.pool.events) (core c) :=
  Keeps.mapErr fun p ↦ hc p.builder

theorem buildBlock_events (p : ParachainBuilder T) :
    (buildBlock P H p).2.builder.pool.events = p.builder.pool.events ++
      (made (A := A) P (.para (.buildBlock H)) p).toList.flatMap Import.events := by
  have hread : (proposeBlock P H p).2 = p := proposeBlock_keeps (f := fun q ↦ q) p
  rw [buildBlock, made, proposed]
  rcases bind_cases (proposeBlock P H) _ p with ⟨proposal, hprop, hrest⟩ | ⟨hno, -, hstop⟩
  · rw [hrest, hread, hprop]
    have himport := Builder.importBlock_pool (H := H.toHost) (buildParams proposal.block) p.builder
    rw [← List.flatMap_singleton Import.events] at himport
    -- the slot is filled after the import, and its lock does not matter
    rcases core_bind_cases (Builder.importBlock H.toHost (buildParams proposal.block))
      (fun _ ↦ storeBlock H proposal) p with ⟨u, -, hstore⟩ | ⟨-, -, hstop⟩
    · refine (congrArg (·.2.builder.pool.events) hstore).trans ?_
      rcases storeBlock_cases (H := H) proposal { p with
          builder := (Builder.importBlock H.toHost (buildParams proposal.block) p.builder).2 }
        with ⟨hsame, -⟩ | hstored
      · rw [hsame]
        exact himport
      · rw [hstored]
        exact himport
    · exact (congrArg (·.builder.pool.events) hstop).trans himport
  · rw [hstop, hread]
    rcases hp : (proposeBlock P H p).1 with proposal | e | _
    · rw [hp] at hno
      cases hno
    · exact (List.append_nil _).symm
    · exact (List.append_nil _).symm

theorem importBlock_events (p : ParachainBuilder T) :
    (importBlock H p).2.builder.pool.events = p.builder.pool.events ++
      (made (A := A) P (.para (.importBlock H)) p).toList.flatMap Import.events := by
  rw [made]
  rcases Option.eq_none_or_eq_some (handed H p) with hidle | ⟨next, hnext⟩
  · rw [hidle, (importBlock_of_idle hidle).1]
    exact (List.append_nil _).symm
  · obtain ⟨-, hmoved, hstays⟩ := importBlock_of_handed hnext
    have himport := Builder.importBlock_pool (H := H.toHost) (approvedParams next.1) p.builder
    rw [← List.flatMap_singleton Import.events] at himport
    rw [hnext]
    by_cases hok : (Builder.importBlock H.toHost (approvedParams next.1) p.builder).1.isOk = true
    · rw [hmoved hok]
      exact himport
    · rw [(hstays (by simpa using hok)).1]
      exact himport

theorem judge_keeps_builder (judgement : CollationJudgement) :
    Keeps ParachainBuilder.builder (judge H judgement) := by
  intro p
  cases judgement with
  | approved =>
    rcases approve_cases (H := H) p with ⟨hsame, -⟩ | ⟨build, -, happroved⟩
    · exact congrArg _ hsame
    · rw [judge, happroved]
      rfl
  | rejected =>
    rcases reject_cases (H := H) p with ⟨hsame, -⟩ | hrejected
    · exact congrArg _ hsame
    · rw [judge, hrejected]
      rfl

/-- **An operation** sends the events of its import. -/
theorem publicStep_events (op : PublicOp T A) (p : ParachainBuilder T) :
    (publicStep P op p).2.builder.pool.events =
      p.builder.pool.events ++ (made P op p).toList.flatMap Import.events := by
  have hquiet : ∀ {α : Type} {c : Call (ParachainBuilder T) CollatorError α},
      Keeps (fun p ↦ p.builder.pool.events) c →
        (c p).2.builder.pool.events = p.builder.pool.events ++ [] := by
    intro α c hc
    rw [List.append_nil]
    exact hc p
  have hsubmit : ∀ {H : ParaHost T} xt,
      Keeps (fun p : ParachainBuilder T ↦ p.builder.pool.events) (appendExtrinsic H xt) :=
    fun xt ↦ core_keeps_events (Builder.appendExtrinsic_events xt)
  cases op with
  | para op =>
    cases op with
    | buildBlock H =>
      change (Call.mapErr CollatorError.parachain (buildBlock P H) p).2.builder.pool.events = _
      rw [mapErr_snd]
      exact buildBlock_events p
    | withMutState H exec =>
      exact hquiet (Keeps.map (Keeps.map (Keeps.mapErr (core_keeps_events fun b ↦
        congrArg Pool.events (Builder.commit_pool none _ b)))))
    | importBlock H =>
      change (Call.mapErr CollatorError.parachain (importBlock H) p).2.builder.pool.events = _
      rw [mapErr_snd]
      exact importBlock_events p
    | judge H judgement =>
      exact hquiet (Keeps.map (Keeps.map fun p ↦
        congrArg (·.pool.events) (judge_keeps_builder judgement p)))
  | withState H exec => exact hquiet (Keeps.map (Keeps.mapErr (withState_keeps _)))
  | withStateAt H at_ exec =>
    exact hquiet (Keeps.map
      (Keeps.mapErr (core_keeps_of_read (Builder.withState_dryRun_keeps _ _))))
  | appendExtrinsic H xt => exact hquiet (Keeps.map (Keeps.mapErr (hsubmit xt)))
  | appendExtrinsics H xts =>
    exact hquiet (Keeps.map (Keeps.mapErr (appendExtrinsics_frame hsubmit xts)))
  | appendTransition aux =>
    have htransition : Keeps (fun p : ParachainBuilder T ↦ p.builder.pool.events)
        (appendTransition aux) := core_keeps_events (Keeps.modify fun _ ↦ rfl)
    exact hquiet (Keeps.map (Keeps.mapErr (g := CollatorError.parachain) htransition))
  | nextBuild H =>
    exact hquiet (Keeps.map (Keeps.mapErr (Keeps.bind (Keeps.query _ _) fun _ ↦
      Keeps.bind (Keeps.read _) fun _ ↦
        Keeps.bind (core_keeps_of_read Builder.latestHeader_keeps) fun _ ↦
          Keeps.bind code_keeps fun _ ↦ Keeps.pure _)))
  | collation H pvd => exact hquiet (Keeps.map (collation_keeps pvd))

end ParachainBuilder

/-! ## The three builders -/

/-- **The pool hears of every block once**, when an import makes it best and final, exactly in the
runs of the three builders in which every import that the client takes announces a new block. -/
theorem pool_heard_iff {S T κ W ε A : Type} (P : Primitives S) (Q : Primitives T)
    (R : RelayPrimitives) :
    (∀ (ops : List (StandAloneBuilder.StandAloneOp S A)) (a : StandAloneBuilder S),
      Along (StandAloneBuilder.standAloneStep P) (fun op _ ↦ op.Lawful P) ops a →
      let step := StandAloneBuilder.standAloneStep P
      let imports := importsMade step StandAloneBuilder.made ops a
      (run step ops a).builder.pool.events =
          a.builder.pool.events ++ imports.flatMap Import.events ∧
        (Heard imports ↔ Along (importStep step StandAloneBuilder.made)
          (AnnouncesRight P StandAloneBuilder.made) ops (a, []))) ∧
    (∀ (ops : List (World.PublicOp κ W ε A)) (w : World κ W),
      Along (World.publicStep R) (fun op _ ↦ op.Lawful R) ops w →
      let step := World.publicStep R
      let imports := importsMade step World.made ops w
      (run step ops w).relay.builder.pool.events =
          w.relay.builder.pool.events ++ imports.flatMap Import.events ∧
        (Heard imports ↔ Along (importStep step World.made)
          (AnnouncesRight R.toPrimitives World.made) ops (w, []))) ∧
    (∀ (ops : List (ParachainBuilder.PublicOp T A)) (p : ParachainBuilder T),
      Along (ParachainBuilder.publicStep Q) (fun op _ ↦ op.Lawful Q) ops p →
      let step := ParachainBuilder.publicStep Q
      let imports := importsMade step (ParachainBuilder.made Q) ops p
      (run step ops p).builder.pool.events =
          p.builder.pool.events ++ imports.flatMap Import.events ∧
        (Heard imports ↔ Along (importStep step (ParachainBuilder.made Q))
          (AnnouncesRight Q (ParachainBuilder.made Q)) ops (p, []))) := by
  refine ⟨fun ops a hL ↦ ⟨?_, ?_⟩, fun ops w hL ↦ ⟨?_, ?_⟩, fun ops p hL ↦ ⟨?_, ?_⟩⟩
  · exact run_events (f := fun a ↦ a.builder.pool.events)
      StandAloneBuilder.standAloneStep_events ops a
  · exact heard_run_iff StandAloneBuilder.made_lawful ops hL
  · exact run_events (f := fun w : World κ W ↦ w.relay.builder.pool.events)
      World.publicStep_events ops w
  · exact heard_run_iff World.made_lawful ops hL
  · exact run_events (f := fun p ↦ p.builder.pool.events)
      ParachainBuilder.publicStep_events ops p
  · exact heard_run_iff ParachainBuilder.made_lawful ops hL

/-- A parachain builder makes two blocks that are not imported yet. -/
def buildAside : List (ParachainBuilder.PublicOp ℕ Unit) :=
  [.para (.buildBlock (.reference counter)), .appendExtrinsic (.reference counter) [1],
    .para (.buildBlock (.reference counter))]

/-- Each of them announces the old tip again, as best and as finalized. -/
theorem pool_hears_again :
    let p₀ := ParachainBuilder.counterBuilder 1
    let tip := p₀.builder.chain.bestHash
    let step := ParachainBuilder.publicStep counter
    (run step buildAside p₀).builder.pool.events =
        [.newBestBlock tip, .finalized tip [tip], .newBestBlock tip, .finalized tip [tip]] ∧
      p₀.builder.chain.finalizedHash = tip ∧
      ¬ Heard (importsMade step (ParachainBuilder.made counter) buildAside p₀) := by
  refine ⟨by decide +kernel, by decide +kernel, fun hheard ↦ ?_⟩
  have hbest := hheard.best
  revert hbest
  decide +kernel

theorem pool_heard_rounds :
    Heard (importsMade (StandAloneBuilder.standAloneStep counter) StandAloneBuilder.made
        standAloneRound (StandAloneBuilder.counterBuilder 0)) ∧
      Heard (importsMade (World.publicStep (ε := Unit) RelayPrimitives.reference) World.made
        relayHeadRound { relay := .genesis ℕ, collators := () }) := by
  have hL := Host.reference_lawful counter
  have hL' : RelayHost.reference.toHost.Lawful RelayPrimitives.reference.toPrimitives :=
    Host.reference_lawful _
  have hops : ∀ op ∈ standAloneRound, op.Lawful counter := by
    simp [standAloneRound, StandAloneBuilder.StandAloneOp.Lawful, hL]
  have hops' : ∀ op ∈ relayHeadRound, op.Lawful RelayPrimitives.reference := by
    simp [relayHeadRound, World.PublicOp.Lawful, hL']
  obtain ⟨halone, hrelay, -⟩ := pool_heard_iff (κ := ℕ) (W := Unit) (ε := Unit) (A := Unit) counter
    counter RelayPrimitives.reference
  constructor
  · exact (halone standAloneRound _ (along_of_forall fun op hop _ ↦ hops op hop)).2.mpr
      (by decide +kernel)
  · exact (hrelay relayHeadRound _ (along_of_forall fun op hop _ ↦ hops' op hop)).2.mpr
      (by decide +kernel)

end Fudge
