import Fudge.Call.Run
import Fudge.Companion.Builder
import Fudge.Relay.Asserts

/-!
# A companion after a failed `evolve`

An `evolve` that fails leaves the companion wherever it stands. Between `build_block` and
`import_block` of the relay chain the relay chain builder has a pending block, and exactly one call
that can fail stands between the two: the `build_block` of the parachain. If it returns an error,
the pending block stays, and the next call that mutates the relay chain or builds on it runs into an
assertion.

Whatever else fails, the builder is idle again, so in every run in which the parachains' blocks get
built (`BuildsSucceed`) nothing panics.
-/

namespace Fudge

namespace Companion

open Call
open ParachainBuilder (CollatorError)
open World (Idle)

variable {κ : Type} [DecidableEq κ] {T : κ → Type} {R A α : Type} (Rl : RelayPrimitives)
  (P : ∀ k, Primitives (T k)) (d : CompanionDef κ)

/-- No parachain fails to build its block in an `evolve` over the given fields. -/
def BuildsSucceed (hosts : κ → RoundHosts T) : List κ → Companion T → Prop
  | [], _ => True
  | k :: ks, w =>
    (∀ u, prepareField Rl P (hosts k) k w = (.ok (), u) → (onPara k
      (ParachainBuilder.buildBlock (P k) ((hosts k).buildPara.paras k)) u).1.isOk = true) ∧
    ∀ u, evolveField Rl P (hosts k) k w = (.ok (), u) → BuildsSucceed hosts ks u

def Builds : CompanionOp T A → Companion T → Prop
  | .evolve hosts, w => BuildsSucceed Rl P hosts d.fields w
  | _, _ => True

variable {Rl P d}

/-! ## One call -/

omit [DecidableEq κ] in
theorem onRelay_safe
    {c : Call (RelaychainBuilder κ) (RelaychainBuilder.Error CollatorError) α}
    (h : Safe RelaychainBuilder.Idle c) : Safe Idle (onRelay c : Call (Companion T) _ α) :=
  Safe.mapErr (World.relayCall_safe h)

theorem onPara_safe {k : κ} {c : Call (ParachainBuilder (T k)) ParachainBuilder.Error α}
    (h : NoPanic c) : Safe Idle (onPara k c : Call (Companion T) _ α) := by
  have hcall : NoPanic (World.builderCall k c) := NoPanic.zoom (NoPanic.zoom h)
  exact Safe.mapErr (World.safe_of_relay hcall fun _ ↦ rfl)

theorem fudgeCollators_calm (H : ∀ k, ParaHost (T k)) : (fudgeCollators P H).Calm where
  collation _ pvd := NoPanic.zoom (ParachainBuilder.collation_noPanic pvd)
  judge _ judgement := NoPanic.zoom (ParachainBuilder.judge_noPanic judgement)

theorem importRelay_idle (hosts : Hosts T) (w : Companion T) :
    (importRelay Rl P hosts w).1.isPanic = false ∧ Idle (importRelay Rl P hosts w).2 := by
  rw [importRelay, mapErr_isPanic, mapErr_snd]
  exact World.importBlock_idle (fudgeCollators_calm hosts.paras) w

omit [DecidableEq κ] in
theorem buildRelay_stopsIn (hosts : Hosts T) {w : Companion T} (hw : Idle w) :
    StopsIn Idle (buildRelay Rl hosts) w := by
  have hbuild : StopsIn Idle (World.relayCall (RelaychainBuilder.buildBlock Rl hosts.relay)) w :=
    RelaychainBuilder.buildBlock_stopsIn (ε := CollatorError) hw
  exact hbuild.mapErr.bind fun _ _ _ ↦ ⟨rfl, fun hno ↦ (by cases hno)⟩

/-! ## One round -/

/-- Before the block of the parachain is built, a round that stops leaves the builder idle. -/
theorem prepareField_stopsIn (hosts : RoundHosts T) (k : κ) {w : Companion T} (hw : Idle w) :
    StopsIn Idle (prepareField Rl P hosts k) w := by
  have hhead : Safe Idle (onPara k (ParachainBuilder.head (P k) (hosts.head.paras k))) :=
    onPara_safe ParachainBuilder.head_noPanic
  have hupdate : ∀ id head, Safe Idle (onRelay (RelaychainBuilder.updateParaHead Rl
      hosts.updateParaHead.relay id head) : Call (Companion T) _ Unit) :=
    fun _ _ ↦ onRelay_safe (RelaychainBuilder.withMutState_safe _)
  have hread : Safe Idle (Call.read fun w : Companion T ↦ (w.collators k).id :
      Call (Companion T) BuilderError Id) := World.safe_of_relay (NoPanic.read _) (Keeps.read _)
  rw [prepareField]
  refine (hhead.stopsIn hw).bind fun head t ht ↦ ?_
  have htidle := hhead.ok hw ht
  refine (hread.stopsIn htidle).bind fun id v hv ↦ ?_
  have hvidle := hread.ok htidle hv
  refine ((hupdate id head).stopsIn hvidle).bind fun _ u hu ↦ ?_
  exact buildRelay_stopsIn hosts.buildRelay ((hupdate id head).ok hvidle hu)

/-- After it, the round leaves the builder idle however it ends: its imports come before anything
that may fail. -/
theorem finishField_idle (hosts : RoundHosts T) (k : κ) (w : Companion T) :
    (finishField Rl P hosts k w).1.isPanic = false ∧ Idle (finishField Rl P hosts k w).2 := by
  have himport : ∀ hosts u, StopsIn Idle (importRelay Rl P hosts) u := fun hosts u ↦
    ⟨(importRelay_idle hosts u).1, fun _ ↦ (importRelay_idle hosts u).2⟩
  have hidle : ∀ {hosts u t a}, importRelay Rl P hosts u = (.ok a, t) → Idle t := by
    intro hosts u t a h
    have hu : Idle (importRelay Rl P hosts u).2 := (importRelay_idle hosts u).2
    rwa [h] at hu
  refine (himport hosts.importCollecting w).ends fun _ t ht ↦ ?_
  refine (buildRelay_stopsIn hosts.buildEnacting (hidle ht)).ends fun _ u _ ↦ ?_
  refine (himport hosts.importEnacting u).ends fun _ v hv ↦ ?_
  exact onPara_safe ParachainBuilder.importBlock_noPanic v (hidle hv)

/-- **One round**: it does not panic in an idle builder, and leaves it idle unless the parachain
fails to build its block. -/
theorem evolveField_idle (hosts : RoundHosts T) (k : κ) {w : Companion T} (hw : Idle w)
    (hbuild : ∀ u, prepareField Rl P hosts k w = (.ok (), u) → (onPara k
      (ParachainBuilder.buildBlock (P k) (hosts.buildPara.paras k)) u).1.isOk = true) :
    (evolveField Rl P hosts k w).1.isPanic = false ∧ Idle (evolveField Rl P hosts k w).2 := by
  refine (prepareField_stopsIn hosts k hw).ends fun _ u hu ↦ ?_
  have hok := hbuild u hu
  refine StopsIn.ends ⟨?_, fun hno ↦ ?_⟩ fun _ v _ ↦ finishField_idle hosts k v
  · rw [onPara, mapErr_isPanic]
    exact ParachainBuilder.buildBlock_noPanic (u.collators k)
  · rw [hok] at hno
    cases hno

theorem evolve_idle (hosts : κ → RoundHosts T) :
    ∀ (ks : List κ) {w : Companion T}, Idle w → BuildsSucceed Rl P hosts ks w →
      (forEach (fun k ↦ evolveField Rl P (hosts k) k) ks w).1.isPanic = false ∧
        Idle (forEach (fun k ↦ evolveField Rl P (hosts k) k) ks w).2 := by
  intro ks
  induction ks with
  | nil => exact fun hw _ ↦ ⟨rfl, hw⟩
  | cons k ks ih =>
    intro w hw hbuilds
    obtain ⟨hpanic, hidle⟩ := evolveField_idle (hosts k) k hw hbuilds.1
    refine StopsIn.ends ⟨hpanic, fun _ ↦ hidle⟩ fun _ u hu ↦ ?_
    have hround : evolveField Rl P (hosts k) k w = (.ok (), u) := hu
    rw [hround] at hidle
    exact ih hidle (hbuilds.2 u hround)

/-! ## Runs -/

theorem appendExtrinsic_safe (hosts : Hosts T) (chain : Chain) (xt : Bytes) :
    Safe Idle (appendExtrinsic d hosts chain xt) := by
  have hquiet : ∀ {γ : Type} {c : Call (Companion T) BuilderError γ}, NoPanic c →
      Keeps (fun w ↦ w.relay.next) c → Safe Idle c := World.safe_of_relay
  cases chain with
  | relay =>
    exact Safe.seq (hquiet (NoPanic.query _ _) (Keeps.query _ _)) fun _ ↦
      Safe.seq (onRelay_safe (RelaychainBuilder.appendExtrinsic_safe _)) fun _ ↦
        hquiet (NoPanic.pure _) (Keeps.pure _)
  | para id =>
    rw [appendExtrinsic]
    cases d.fieldFor id with
    | none => exact hquiet (NoPanic.fail _) fun _ ↦ rfl
    | some k =>
      exact Safe.seq (hquiet (NoPanic.query _ _) (Keeps.query _ _)) fun _ ↦
        Safe.seq (onPara_safe (ParachainBuilder.core_noPanic (Builder.appendExtrinsic_noPanic _)))
          fun _ ↦ hquiet (NoPanic.pure _) (Keeps.pure _)

theorem onField_safe {id : Id} {c : ∀ k, Call (ParachainBuilder (T k)) ParachainBuilder.Error R}
    (hc : ∀ k, NoPanic (c k)) : Safe Idle (match d.fieldFor id with
      | some k => onPara k (c k)
      | none => Call.fail (.parachainNotFound id) : Call (Companion T) BuilderError R) := by
  cases d.fieldFor id with
  | none => exact World.safe_of_relay (NoPanic.fail _) fun _ ↦ rfl
  | some k => exact onPara_safe (hc k)

theorem withState_safe (hosts : Hosts T) (chain : Chain) (exec : Exec T R) :
    Safe Idle (withState Rl P d hosts chain exec) := by
  cases chain with
  | relay => exact onRelay_safe (RelaychainBuilder.withState_safe _)
  | para id =>
    exact onField_safe fun _ ↦ ParachainBuilder.core_noPanic (Builder.withState_noPanic _ _ _)

theorem withMutState_safe (hosts : Hosts T) (chain : Chain) (exec : Exec T R) :
    Safe Idle (withMutState Rl P d hosts chain exec) := by
  cases chain with
  | relay => exact onRelay_safe (RelaychainBuilder.withMutState_safe _)
  | para id =>
    exact onField_safe fun _ ↦ ParachainBuilder.core_noPanic (Builder.withState_noPanic _ _ _)

theorem companionStep_idle (op : CompanionOp T A) (w : Companion T) (hop : Builds Rl P d op w)
    (hw : Idle w) :
    (companionStep Rl P d op w).1.isPanic = false ∧ Idle (companionStep Rl P d op w).2 := by
  cases op with
  | appendExtrinsic hosts chain xt => exact (appendExtrinsic_safe hosts chain xt).map w hw
  | appendExtrinsics chain xts =>
    exact (Safe.forEach (fun xt ↦ appendExtrinsic_safe xt.1 chain xt.2) xts).map w hw
  | withState hosts chain exec => exact (withState_safe hosts chain exec).map w hw
  | withMutState hosts chain exec => exact (withMutState_safe hosts chain exec).map w hw
  | evolve hosts =>
    rw [companionStep, map_isPanic, map_snd]
    exact evolve_idle hosts _ hw hop

theorem new_idle {hosts : κ → OnboardHosts T} {build importing : Hosts T} {w₀ w : Companion T}
    (h : new Rl P d hosts build importing w₀ = (.ok (), w)) : Idle w := by
  rw [new] at h
  obtain ⟨_, _, _, h⟩ := bind_eq_ok.mp h
  obtain ⟨_, u, _, himport⟩ := bind_eq_ok.mp h
  have hidle : Idle (importRelay Rl P importing u).2 := (importRelay_idle importing u).2
  rwa [himport] at hidle

/-- **No assertion fails**, in every run of a companion in which the parachains build their blocks,
whatever else fails in it. -/
theorem never_panics {hosts : κ → OnboardHosts T} {build importing : Hosts T}
    {w₀ w : Companion T} (hnew : new Rl P d hosts build importing w₀ = (.ok (), w))
    (ops : List (CompanionOp T A)) (h : Along (companionStep Rl P d) (Builds Rl P d) ops w) :
    Along (companionStep Rl P d) (fun op u ↦ (companionStep Rl P d op u).1.isPanic = false)
      ops w :=
  along_of_invariant companionStep_idle ops h (new_idle hnew)

/-! ## A failing assertion -/

def oneField : CompanionDef Unit := ⟨[()], by decide, fun _ ↦ 1⟩

/-- The hosts of a round in which the parachain gets no digest for its block. -/
def noDigest : RoundHosts fun _ : Unit ↦ ℕ :=
  { RoundHosts.reference Unit with
    buildPara := { Hosts.reference Unit with
      paras := fun _ ↦ { ParaHost.reference counter with
        createDigest := fun _ _ _ ↦ .error "no digest" } } }

/-- An `evolve` in which the hosts `hosts` are used, and another one. -/
def evolveTwice (hosts : RoundHosts fun _ : Unit ↦ ℕ) :
    List (CompanionOp (fun _ : Unit ↦ ℕ) Unit) :=
  [.evolve fun _ ↦ hosts, .evolve fun _ ↦ .reference Unit]

/-- The first `evolve` returns an error, and the second one runs into an assertion. -/
theorem panics_after_failed_build :
    new .reference (fun _ ↦ counter) oneField (fun _ ↦ .reference Unit) (.reference Unit)
        (.reference Unit) (fields fun _ ↦ 1) = (.ok (), reference oneField fun _ ↦ 1) ∧
      (companionStep (A := Unit) .reference (fun _ ↦ counter) oneField (.evolve fun _ ↦ noDigest)
        (reference oneField fun _ ↦ 1)).1.isErr = true ∧
      ¬ Along (companionStep (A := Unit) .reference (fun _ ↦ counter) oneField)
        (fun op u ↦
          (companionStep (A := Unit) .reference (fun _ ↦ counter) oneField op u).1.isPanic = false)
        (evolveTwice noDigest) (reference oneField fun _ ↦ 1) := by
  refine ⟨new_reference (by decide +kernel), by decide +kernel, ?_⟩
  rintro ⟨hfirst, hrest⟩
  have hpanic : (companionStep (A := Unit) .reference (fun _ ↦ counter) oneField
      (.evolve fun _ ↦ .reference Unit) (companionStep (A := Unit) .reference (fun _ ↦ counter)
        oneField (.evolve fun _ ↦ noDigest) (reference oneField fun _ ↦ 1)).2).1.isPanic =
        true := by
    decide +kernel
  exact Bool.false_ne_true ((hrest hfirst).1.symm.trans hpanic)

theorem buildsSucceed_of_ok {hosts : κ → RoundHosts T} :
    ∀ (ks : List κ) {w : Companion T},
      (forEach (fun k ↦ evolveField Rl P (hosts k) k) ks w).1.isOk = true →
        BuildsSucceed Rl P hosts ks w := by
  intro ks
  induction ks with
  | nil => exact fun _ ↦ trivial
  | cons k ks ih =>
    intro w hok
    obtain ⟨_, ha⟩ := Outcome.isOk_iff.mp hok
    rw [forEach_cons] at ha
    obtain ⟨_, v, hround, hrest⟩ := bind_eq_ok.mp (Prod.ext ha rfl)
    have hround' : evolveField Rl P (hosts k) k w = (.ok (), v) := hround
    refine ⟨fun u hu ↦ ?_, fun u hu ↦ ?_⟩
    · rw [evolveField, bind_of_ok hu] at hround'
      obtain ⟨_, _, hbuild, -⟩ := bind_eq_ok.mp hround'
      rw [hbuild]
      rfl
    · obtain ⟨-, rfl⟩ := Prod.mk.inj (hu.symm.trans hround')
      exact ih (by rw [hrest]; rfl)

theorem never_panics_evolveTwice :
    Along (companionStep (A := Unit) .reference (fun _ ↦ counter) oneField)
      (fun op u ↦
        (companionStep (A := Unit) .reference (fun _ ↦ counter) oneField op u).1.isPanic = false)
      (evolveTwice (.reference Unit)) (reference oneField fun _ ↦ 1) := by
  refine never_panics (new_reference (by decide +kernel)) (evolveTwice (.reference Unit)) ?_
  refine ⟨buildsSucceed_of_ok _ ?_, fun _ ↦ ⟨buildsSucceed_of_ok _ ?_, fun _ ↦ trivial⟩⟩
  all_goals decide +kernel

end Companion

end Fudge
