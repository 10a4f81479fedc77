import Fudge.Call.Script
import Fudge.Companion.Evolve
import Fudge.System.Public

/-!
# A companion only makes public calls

The code that `#[fudge::companion]` generates has no access of its own to the builders it was given:
whatever is called on a companion, and wherever it fails, what happens to the builders is what a
list of calls of their public methods does to them. So the whole life of a companion, from the
builders its fields were made of, through `new` and any calls on it, is a run of the system of all
public calls, and it keeps what those runs keep.
-/

namespace Fudge

namespace Companion

open Call
open RelaychainBuilder (Error)
open ParachainBuilder (CollatorError)

variable {κ : Type} [DecidableEq κ] {T : κ → Type} {R A α : Type} {Rl : RelayPrimitives}
  {P : ∀ k, Primitives (T k)} {d : CompanionDef κ}

/-- The call does what a list of public calls with lawful hosts does. -/
def Follows (A : Type) (Rl : RelayPrimitives) (P : ∀ k, Primitives (T k))
    (c : Call (Companion T) BuilderError α) : Prop :=
  Scripted (fun (op : BuilderOp T A) _ ↦ op.Lawful Rl P) (builderStep Rl P) c

/-! ## Calls on one builder -/

theorem follows_relay (op : World.PublicOp κ (Builders T) CollatorError A)
    (hop : op.Lawful Rl ∧ UsesBuilders P op) {c : Call (Companion T) BuilderError α}
    (h : ∀ w, SameEnd (World.publicStep Rl op w) (c w)) : Follows A Rl P c :=
  Scripted.of_step (.relay op) (fun _ ↦ hop) fun w ↦
    (SameEnd.map _ _ w).trans ((SameEnd.mapErr _ _ w).trans (h w))

theorem follows_para {k : κ} (op : ParachainBuilder.PublicOp (T k) A) (hop : op.Lawful (P k))
    {c : Call (ParachainBuilder (T k)) ParachainBuilder.Error α}
    (h : ∀ p, SameEnd (ParachainBuilder.publicStep (P k) op p) (c p)) :
    Follows A Rl P (onPara k c) := by
  refine Scripted.of_step (.para k op) (fun _ ↦ hop) fun w ↦ ?_
  refine (SameEnd.mapErr _ _ w).trans (SameEnd.trans ?_ (SameEnd.mapErr _ _ w).symm)
  obtain ⟨hstate, hpanic⟩ := h (w.collators k)
  exact ⟨congrArg (fun p ↦ w.withPara k p) hstate, hpanic⟩

/-- A call of the relay chain builder that returns what the public call returns, in other words. -/
theorem follows_onRelay {c : Call (RelaychainBuilder κ) (Error CollatorError) α}
    {f : α → Reply A} (op : World.PublicOp κ (Builders T) CollatorError A)
    (hop : op.Lawful Rl ∧ UsesBuilders P op)
    (h : World.publicStep Rl op = Call.map f (World.relayCall c)) :
    Follows A Rl P (onRelay c : Call (Companion T) BuilderError α) :=
  follows_relay op hop fun w ↦ by
    rw [h]
    exact (SameEnd.map _ _ w).trans (SameEnd.mapErr _ _ w).symm

theorem follows_onPara {k : κ} {c : Call (ParachainBuilder (T k)) ParachainBuilder.Error α}
    {f : α → ParachainBuilder.Returned A} (op : ParachainBuilder.PublicOp (T k) A)
    (hop : op.Lawful (P k))
    (h : ParachainBuilder.publicStep (P k) op = Call.map f (Call.mapErr .parachain c)) :
    Follows A Rl P (onPara k c) :=
  follows_para op hop fun p ↦ by
    rw [h]
    exact (SameEnd.map _ _ p).trans (SameEnd.mapErr _ _ p)

theorem follows_onPara_op {k : κ} {c : Call (ParachainBuilder (T k)) ParachainBuilder.Error α}
    {f : α → Reply A} (op : ParachainBuilder.ParaOp (T k) A) (hop : op.Lawful (P k))
    (h : ParachainBuilder.paraStep (P k) op = Call.map f (Call.mapErr .parachain c)) :
    Follows A Rl P (onPara k c) :=
  follows_para (.para op) hop fun p ↦ by
    rw [ParachainBuilder.publicStep, h]
    exact (SameEnd.map _ _ p).trans ((SameEnd.map _ _ p).trans (SameEnd.mapErr _ _ p))

theorem follows_of_keeps {c : Call (Companion T) BuilderError α} (h : Keeps id c) :
    Follows A Rl P c := Scripted.of_keeps h

theorem onPara_keeps {k : κ} {c : Call (ParachainBuilder (T k)) ParachainBuilder.Error α}
    (h : Keeps id c) : Keeps id (onPara k c : Call (Companion T) BuilderError α) := by
  refine Keeps.mapErr fun w ↦ ?_
  have hc : (c (w.collators k)).2 = w.collators k := h (w.collators k)
  change (World.builderCall k c w).2 = w
  rw [World.builderCall_snd, hc, World.withPara_self]

/-! ## The generated methods -/

theorem buildRelay_follows {hosts : Hosts T} (hL : hosts.Lawful Rl P) :
    Follows A Rl P (buildRelay Rl hosts) := by
  exact Scripted.bind (follows_onRelay (.relay (.buildBlock hosts.relay)) ⟨hL.relay, trivial⟩ rfl)
    fun _ ↦ follows_of_keeps (Keeps.pure ())

theorem importRelay_follows {hosts : Hosts T} (hL : hosts.Lawful Rl P) :
    Follows A Rl P (importRelay Rl P hosts) :=
  follows_relay (.relay (.importBlock hosts.relay (fudgeCollators P hosts.paras)))
    ⟨hL.relay, hosts.paras, rfl⟩ fun w ↦ (SameEnd.map _ _ w).trans (SameEnd.mapErr _ _ w).symm

theorem onboardField_follows {hosts : OnboardHosts T}
    (hL : hosts.All (Hosts.Lawful Rl P)) (k : κ) :
    Follows A Rl P (onboardField Rl P d hosts k) :=
  Scripted.bind (follows_of_keeps (onPara_keeps ParachainBuilder.head_keeps)) fun _ ↦
    Scripted.bind (follows_of_keeps (onPara_keeps ParachainBuilder.code_keeps)) fun _ ↦
      follows_onRelay (.relay (.onboardPara hosts.onboard.relay _ k)) ⟨hL.onboard.relay, trivial⟩
        rfl

theorem new_follows {hosts : κ → OnboardHosts T} {build importing : Hosts T}
    (hL : ∀ k, (hosts k).All (Hosts.Lawful Rl P)) (hbuild : build.Lawful Rl P)
    (himporting : importing.Lawful Rl P) : Follows A Rl P (new Rl P d hosts build importing) :=
  Scripted.bind (Scripted.forEach fun k _ ↦ onboardField_follows (hL k) k) fun _ ↦
    Scripted.bind (buildRelay_follows hbuild) fun _ ↦ importRelay_follows himporting

theorem follows_field (id : Id) {c : κ → Call (Companion T) BuilderError α}
    (hc : ∀ k, Follows A Rl P (c k)) : Follows A Rl P (match d.fieldFor id with
      | some k => c k
      | none => Call.fail (.parachainNotFound id)) := by
  cases d.fieldFor id with
  | none => exact follows_of_keeps fun _ ↦ rfl
  | some k => exact hc k

theorem appendExtrinsic_follows {hosts : Hosts T} (chain : Chain) (xt : Bytes) :
    Follows A Rl P (appendExtrinsic d hosts chain xt) := by
  cases chain with
  | relay =>
    exact Scripted.bind (follows_of_keeps (Keeps.query _ _)) fun xt ↦
      Scripted.bind (follows_onRelay (.appendExtrinsic hosts.relay xt) ⟨trivial, trivial⟩ rfl)
        fun _ ↦ follows_of_keeps (Keeps.pure ())
  | para id =>
    exact follows_field id fun k ↦ Scripted.bind (follows_of_keeps (Keeps.query _ _)) fun xt ↦
      Scripted.bind (follows_onPara (.appendExtrinsic (hosts.paras k) xt) trivial rfl) fun _ ↦
        follows_of_keeps (Keeps.pure ())

theorem withState_follows {hosts : Hosts T} (chain : Chain) (exec : Exec T A) :
    Follows A Rl P (withState Rl P d hosts chain exec) := by
  cases chain with
  | relay => exact follows_onRelay (.withState hosts.relay exec.relay) ⟨trivial, trivial⟩ rfl
  | para id =>
    exact follows_field id fun k ↦
      follows_onPara (.withState (hosts.paras k) (exec.para k)) trivial rfl

theorem withMutState_follows {hosts : Hosts T} (hL : hosts.Lawful Rl P) (chain : Chain)
    (exec : Exec T A) : Follows A Rl P (withMutState Rl P d hosts chain exec) := by
  cases chain with
  | relay =>
    exact follows_onRelay (.relay (.withMutState hosts.relay exec.relay)) ⟨hL.relay, trivial⟩ rfl
  | para id =>
    exact follows_field id fun k ↦
      follows_onPara_op (.withMutState (hosts.paras k) (exec.para k)) (hL.paras k) rfl

/-- **One round of `evolve`**: an update of the head, the builds and the imports, in the order of
the macro and up to the first that fails. -/
theorem evolveField_follows {hosts : RoundHosts T}
    (hL : hosts.All (Hosts.Lawful Rl P)) (k : κ) :
    Follows A Rl P (evolveField Rl P hosts k) := by
  have hprepare : Follows A Rl P (prepareField Rl P hosts k) :=
    Scripted.bind (follows_of_keeps (onPara_keeps ParachainBuilder.head_keeps)) fun head ↦
      Scripted.bind (follows_of_keeps (Keeps.read _)) fun id ↦
        Scripted.bind (follows_onRelay
          (.relay (.updateParaHead hosts.updateParaHead.relay id head))
          ⟨hL.updateParaHead.relay, trivial⟩ rfl) fun _ ↦ buildRelay_follows hL.buildRelay
  have hbuild : Follows A Rl P (onPara k (ParachainBuilder.buildBlock (P k)
      (hosts.buildPara.paras k))) :=
    follows_onPara_op (.buildBlock (hosts.buildPara.paras k)) (hL.buildPara.paras k) rfl
  have hfinish : Follows A Rl P (finishField Rl P hosts k) :=
    Scripted.bind (importRelay_follows hL.importCollecting) fun _ ↦
      Scripted.bind (buildRelay_follows hL.buildEnacting) fun _ ↦
        Scripted.bind (importRelay_follows hL.importEnacting) fun _ ↦
          follows_onPara_op (.importBlock (hosts.importPara.paras k)) (hL.importPara.paras k) rfl
  exact Scripted.bind hprepare fun _ ↦ Scripted.bind hbuild fun _ ↦ hfinish

theorem companionStep_follows (op : CompanionOp T A) (hop : op.All (Hosts.Lawful Rl P)) :
    Follows A Rl P (companionStep Rl P d op) := by
  cases op with
  | appendExtrinsic hosts chain xt => exact (appendExtrinsic_follows chain xt).map
  | appendExtrinsics chain xts =>
    have hall : Follows A Rl P (appendExtrinsics d chain xts) :=
      Scripted.forEach fun xt _ ↦ appendExtrinsic_follows chain xt.2
    exact hall.map
  | withState hosts chain exec => exact (withState_follows chain exec).map
  | withMutState hosts chain exec => exact (withMutState_follows hop chain exec).map
  | evolve hosts =>
    have hrounds : Follows A Rl P (evolve Rl P d hosts) :=
      Scripted.forEach fun k _ ↦ evolveField_follows (hop k) k
    exact hrounds.map

/-! ## The pending block of the relay chain -/

theorem builderStep_pending (op : BuilderOp T A) (w : Companion T) (hop : op.Lawful Rl P)
    (hw : RelaychainBuilder.Pending Rl w.relay) :
    RelaychainBuilder.Pending Rl (builderStep Rl P op w).2.relay := by
  cases op with
  | relay op =>
    rw [builderStep, map_snd, mapErr_snd]
    exact World.publicStep_pending op w hop.1 hw
  | para k op =>
    rw [builderStep, World.onBuilder_snd]
    exact hw

theorem Follows.pending {c : Call (Companion T) BuilderError α} (h : Follows A Rl P c) :
    Preserves (fun w ↦ RelaychainBuilder.Pending Rl w.relay) c :=
  Scripted.preserves h builderStep_pending

/-! ## The life of a companion -/

/-- **A companion is its builders**: its whole life, from the builders its fields were made of, is a
run of public calls on these builders, whichever of the calls fail. -/
theorem follows_builders {hosts : κ → OnboardHosts T} {build importing : Hosts T}
    (hL : ∀ k, (hosts k).All (Hosts.Lawful Rl P)) (hbuild : build.Lawful Rl P)
    (himporting : importing.Lawful Rl P) {w₀ w : Companion T}
    (hnew : new Rl P d hosts build importing w₀ = (.ok (), w)) (ops : List (CompanionOp T A))
    (hops : ∀ op ∈ ops, op.All (Hosts.Lawful Rl P)) :
    ∃ script : List (BuilderOp T A),
      Along (builderStep Rl P) (fun op _ ↦ op.Lawful Rl P) script w₀ ∧
      run (builderStep Rl P) script w₀ = run (companionStep Rl P d) ops w := by
  obtain ⟨first, halong, hrun, hquiet⟩ := new_follows (A := A) (d := d) hL hbuild himporting w₀
  rw [hnew] at hrun hquiet
  have hq : Call.Quiet (builderStep Rl P) first w₀ := hquiet rfl
  obtain ⟨more, halong', hrun'⟩ := Scripted.exists_script
    (fun op hop ↦ companionStep_follows (d := d) op (hops op hop)) (run (builderStep Rl P) first w₀)
  refine ⟨first ++ more, halong.append hq halong', (run_append hq).trans (hrun'.trans ?_)⟩
  rw [hrun]

theorem follows_builders_mutateSecond :
    ∃ script : List (BuilderOp (fun _ : Fin 2 ↦ ℕ) Unit),
      Along (builderStep .reference fun _ : Fin 2 ↦ counter)
        (fun op _ ↦ op.Lawful .reference fun _ ↦ counter) script (fields fun k ↦ k + 1) ∧
      run (builderStep .reference fun _ ↦ counter) script (fields fun k ↦ k + 1) =
        run (companionStep .reference (fun _ ↦ counter) twoFields) mutateSecond
          (reference twoFields fun k ↦ k + 1) := by
  have hL : (Hosts.reference (Fin 2)).Lawful RelayPrimitives.reference fun _ ↦ counter :=
    Hosts.reference_reporting.toLawful
  refine follows_builders (fun _ ↦ ⟨hL, hL, hL⟩) hL hL (new_reference (by decide +kernel))
    mutateSecond ?_
  intro op hop
  simp only [mutateSecond, List.mem_cons, List.not_mem_nil, or_false] at hop
  rcases hop with rfl | rfl
  · exact hL
  · exact fun _ ↦ RoundHosts.reference_all hL

end Companion

end Fudge
