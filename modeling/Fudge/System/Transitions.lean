import Fudge.Core.Transitions
import Fudge.Standalone.Builder
import Fudge.System.Public

/-!
# Appended transitions never matter

`append_transition` of the three builders passes a pair on to the core builder, which puts it into
its cache. No public call of any builder reads a cache: whatever is appended, and whenever, nothing
else becomes of a run, and all other calls return what they would have returned.

In a system of builders the relay chain asks and tells the parachain builders, whose caches are
their own. The history of a world has snapshots of these builders, caches and all, so the caches in
the history are set along with those in the world.
-/

namespace Fudge

open Call

/-! ## The stand-alone builder -/

namespace StandAloneBuilder

variable {S R A : Type} {P : Primitives S} {H : Host S}

def setCache (l : List StoragePair) (a : StandAloneBuilder S) : StandAloneBuilder S :=
  { a with builder := a.builder.setCache l }

def StandAloneOp.isTransition : StandAloneOp S A → Bool
  | .appendTransition _ => true
  | _ => false

theorem core_blind {c : Call (Builder S) Builder.Error R} (h : Blind Builder.setCache c) :
    Blind setCache (core c) :=
  Blind.mapErr (Blind.zoom h (fun _ _ ↦ rfl) fun _ _ _ ↦ rfl)

theorem appendExtrinsics_blind (xts : List Extrinsic) :
    Blind setCache (appendExtrinsics H xts) := by
  induction xts with
  | nil => exact Blind.pure []
  | cons xt xts ih =>
    exact Blind.bind (core_blind (Builder.appendExtrinsic_blind xt)) fun _ ↦
      Blind.bind ih fun _ ↦ Blind.pure _

theorem standAloneStep_blind (op : StandAloneOp S A) (hop : op.isTransition = false) :
    Blind setCache (standAloneStep P op) := by
  have hnext : ∀ (l : List StoragePair) (a : StandAloneBuilder S),
      (a.setCache l).next.isNone = a.next.isNone := fun _ _ ↦ rfl
  cases op with
  | buildBlock H =>
    exact Blind.map (Blind.bind (Blind.assert hnext) fun _ ↦
      Blind.bind (Blind.zoom (Builder.proposeBlock_blind _ _ _ _) (fun _ _ ↦ rfl) fun _ _ _ ↦ rfl)
        fun _ ↦ Blind.bind (Blind.modify fun _ _ ↦ rfl) fun _ ↦ Blind.pure _)
  | importBlock H =>
    exact Blind.map (Blind.bind (Blind.read fun _ _ ↦ rfl) fun _ ↦
      Blind.bind (Blind.modify fun _ _ ↦ rfl) fun _ ↦ Blind.bind (Blind.require _ _) fun _ ↦
        Blind.bind (core_blind (Builder.importBlock_blind _)) fun _ ↦ Blind.modify fun _ _ ↦ rfl)
  | withState H exec => exact Blind.map (core_blind (Builder.withState_blind _ _ _))
  | withStateAt H at_ exec => exact Blind.map (core_blind (Builder.withState_blind _ _ _))
  | withMutState H exec =>
    exact Blind.map (Blind.bind (Blind.assert hnext) fun _ ↦
      core_blind (Builder.withState_blind _ _ _))
  | appendExtrinsic H xt => exact Blind.map (core_blind (Builder.appendExtrinsic_blind xt))
  | appendExtrinsics H xts => exact Blind.map (appendExtrinsics_blind xts)
  | appendTransition aux => cases hop

theorem standAloneStep_unseen (op : StandAloneOp S A) (hop : op.isTransition = true) :
    Unseen (setCache []) (standAloneStep P op) := by
  cases op with
  | appendTransition aux => exact fun _ ↦ ⟨rfl, rfl⟩
  | _ => cases hop

end StandAloneBuilder

/-! ## The parachain builder -/

namespace ParachainBuilder

variable {T R A : Type} {P : Primitives T} {H : ParaHost T}

def setCache (l : List StoragePair) (p : ParachainBuilder T) : ParachainBuilder T :=
  { p with builder := p.builder.setCache l }

def PublicOp.isTransition : PublicOp T A → Bool
  | .appendTransition _ => true
  | _ => false

theorem core_blind {c : Call (Builder T) Builder.Error R} (h : Blind Builder.setCache c) :
    Blind setCache (core c) :=
  Blind.mapErr (Blind.zoom h (fun _ _ ↦ rfl) fun _ _ _ ↦ rfl)

theorem appendExtrinsics_blind (xts : List Extrinsic) :
    Blind setCache (appendExtrinsics H xts) := by
  induction xts with
  | nil => exact Blind.pure []
  | cons xt xts ih =>
    exact Blind.bind (core_blind (Builder.appendExtrinsic_blind xt)) fun _ ↦
      Blind.bind ih fun _ ↦ Blind.pure _

theorem buildBlock_blind : Blind setCache (buildBlock P H) :=
  Blind.bind (Blind.zoom (Builder.proposeBlock_blind _ _ _ _) (fun _ _ ↦ rfl) fun _ _ _ ↦ rfl)
    fun _ ↦ Blind.bind (core_blind (Builder.importBlock_blind _)) fun _ ↦
      Blind.bind (Blind.query _ fun _ _ ↦ rfl) fun _ ↦ Blind.modify fun _ _ ↦ rfl

theorem importBlock_blind : Blind setCache (importBlock H) := by
  refine Blind.bind (Blind.query _ fun _ _ ↦ rfl) fun _ ↦
    Blind.bind (Blind.read fun _ _ ↦ rfl) fun next ↦ ?_
  cases next with
  | none => exact Blind.pure ()
  | some next =>
    exact Blind.bind (core_blind (Builder.importBlock_blind _)) fun _ ↦
      Blind.bind (Blind.modify fun _ _ ↦ rfl) fun _ ↦ Blind.modify fun _ _ ↦ rfl

theorem nextBuild_blind : Blind setCache (nextBuild P H) :=
  Blind.bind (Blind.query _ fun _ _ ↦ rfl) fun _ ↦ Blind.bind (Blind.read fun _ _ ↦ rfl) fun _ ↦
    Blind.bind (core_blind Builder.latestHeader_blind) fun _ ↦
      Blind.bind (core_blind Builder.latestCode_blind) fun _ ↦ Blind.pure _

theorem fetchCollationInfo_blind (h : Hash) (header : Header) :
    Blind setCache (fetchCollationInfo P H h header) := by
  refine Blind.bind (Blind.query _ fun _ _ ↦ rfl) fun _ ↦ Blind.bind (Blind.require _ _)
    fun version ↦ ?_
  split_ifs with hold
  · exact Blind.bind (Blind.query _ fun _ _ ↦ rfl) fun _ ↦ Blind.pure _
  · exact Blind.bind (Blind.query _ fun _ _ ↦ rfl) fun _ ↦ Blind.pure _

theorem collate_blind (pvd : PersistedValidationData) (next : Block × StorageProof) :
    Blind setCache (collate P H pvd next) :=
  Blind.bind (Blind.query _ fun _ _ ↦ rfl) fun _ ↦ Blind.bind (Blind.query _ fun _ _ ↦ rfl) fun _ ↦
    Blind.bind (Blind.mapErr (fetchCollationInfo_blind _ _)) fun _ ↦
      Blind.bind (Blind.require _ _) fun _ ↦ Blind.bind (Blind.require _ _) fun _ ↦
        Blind.bind (Blind.require _ _) fun _ ↦ Blind.pure _

theorem collation_blind (pvd : PersistedValidationData) : Blind setCache (collation P H pvd) := by
  refine Blind.bind (Blind.query _ fun _ _ ↦ rfl) fun _ ↦
    Blind.bind (Blind.query _ fun _ _ ↦ rfl) fun _ ↦
      Blind.bind (Blind.read fun _ _ ↦ rfl) fun next ↦ ?_
  cases next with
  | none => exact Blind.pure none
  | some next => exact Blind.bind (Blind.mapErr (collate_blind pvd next)) fun _ ↦ Blind.pure _

theorem judge_blind (judgement : CollationJudgement) : Blind setCache (judge H judgement) := by
  cases judgement with
  | approved =>
    exact Blind.bind (Blind.query _ fun _ _ ↦ rfl) fun _ ↦ Blind.bind (Blind.read fun _ _ ↦ rfl)
      fun _ ↦ Blind.bind (Blind.require _ _) fun _ ↦ Blind.bind (Blind.modify fun _ _ ↦ rfl)
        fun _ ↦ Blind.modify fun _ _ ↦ rfl
  | rejected =>
    exact Blind.bind (Blind.query _ fun _ _ ↦ rfl) fun _ ↦ Blind.modify fun _ _ ↦ rfl

theorem publicStep_blind (op : PublicOp T A) (hop : op.isTransition = false) :
    Blind setCache (publicStep P op) := by
  cases op with
  | para op =>
    cases op with
    | buildBlock H => exact Blind.map (Blind.map (Blind.mapErr buildBlock_blind))
    | withMutState H exec =>
      exact Blind.map (Blind.map (Blind.mapErr (core_blind (Builder.withState_blind _ _ _))))
    | importBlock H => exact Blind.map (Blind.map (Blind.mapErr importBlock_blind))
    | judge H judgement => exact Blind.map (Blind.map (judge_blind judgement))
  | withState H exec =>
    exact Blind.map (Blind.mapErr (core_blind (Builder.withState_blind _ _ _)))
  | withStateAt H at_ exec =>
    exact Blind.map (Blind.mapErr (core_blind (Builder.withState_blind _ _ _)))
  | appendExtrinsic H xt =>
    exact Blind.map (Blind.mapErr (core_blind (Builder.appendExtrinsic_blind xt)))
  | appendExtrinsics H xts => exact Blind.map (Blind.mapErr (appendExtrinsics_blind xts))
  | appendTransition aux => cases hop
  | nextBuild H => exact Blind.map (Blind.mapErr nextBuild_blind)
  | collation H pvd => exact Blind.map (collation_blind pvd)

end ParachainBuilder

/-! ## The relay chain builder -/

namespace RelaychainBuilder

variable {κ ε R : Type} {P : RelayPrimitives} {H : RelayHost}

def setCache (l : List StoragePair) (r : RelaychainBuilder κ) : RelaychainBuilder κ :=
  { r with builder := r.builder.setCache l }

theorem core_blind {c : Call (Builder RelayStorage) Builder.Error R}
    (h : Blind Builder.setCache c) :
    Blind setCache (core c : Call (RelaychainBuilder κ) (Error ε) R) :=
  Blind.mapErr (Blind.zoom h (fun _ _ ↦ rfl) fun _ _ _ ↦ rfl)

theorem withState_blind (exec : RelayStorage → R × RelayStorage) :
    Blind setCache (withState P H exec : Call (RelaychainBuilder κ) (Error ε) R) :=
  core_blind (Builder.withState_blind _ _ _)

theorem withMutState_blind (exec : RelayStorage → R × RelayStorage) :
    Blind setCache (withMutState P H exec : Call (RelaychainBuilder κ) (Error ε) R) :=
  Blind.bind (Blind.assert fun _ _ ↦ rfl) fun _ ↦ core_blind (Builder.withState_blind _ _ _)

theorem appendExtrinsic_blind (xt : Extrinsic) :
    Blind setCache (appendExtrinsic H xt : Call (RelaychainBuilder κ) (Error ε) Hash) :=
  core_blind (Builder.appendExtrinsic_blind xt)

theorem appendExtrinsics_blind (xts : List Extrinsic) :
    Blind setCache (appendExtrinsics H xts : Call (RelaychainBuilder κ) (Error ε) _) := by
  induction xts with
  | nil => exact Blind.pure []
  | cons xt xts ih =>
    exact Blind.bind (appendExtrinsic_blind xt) fun _ ↦ Blind.bind ih fun _ ↦ Blind.pure _

theorem onboardPara_blind (para : FudgeParaChain) (k : κ) :
    Blind setCache (onboardPara P H para k : Call (RelaychainBuilder κ) (Error ε) Unit) :=
  Blind.bind (withMutState_blind _) fun _ ↦ Blind.modify fun _ _ ↦ rfl

theorem buildBlock_blind :
    Blind setCache (buildBlock P H : Call (RelaychainBuilder κ) (Error ε) Block) :=
  Blind.bind (Blind.assert fun _ _ ↦ rfl) fun _ ↦
    Blind.bind (Blind.zoom (Builder.proposeBlock_blind _ _ _ _) (fun _ _ ↦ rfl) fun _ _ _ ↦ rfl)
      fun _ ↦ Blind.bind (Blind.modify fun _ _ ↦ rfl) fun _ ↦ Blind.pure _

theorem importNext_blind :
    Blind setCache (importNext H : Call (RelaychainBuilder κ) (Error ε) Header) :=
  Blind.bind (Blind.read fun _ _ ↦ rfl) fun _ ↦ Blind.bind (Blind.modify fun _ _ ↦ rfl) fun _ ↦
    Blind.bind (Blind.require _ _) fun _ ↦
      Blind.bind (core_blind (Builder.importBlock_blind _)) fun _ ↦
        Blind.bind (Blind.modify fun _ _ ↦ rfl) fun _ ↦ Blind.pure _

theorem persistedValidationData_blind (parent : Hash) (id : Id) : Blind setCache
    (persistedValidationData P H parent id : Call (RelaychainBuilder κ) (Error ε) _) :=
  Blind.bind (Blind.read fun _ _ ↦ rfl) fun _ ↦ Blind.bind (withState_blind _) fun _ ↦
    Blind.bind (Blind.query _ fun _ _ ↦ rfl) fun _ ↦ Blind.require _ _

theorem collatorFor_blind (id : Id) :
    Blind setCache (collatorFor id : Call (RelaychainBuilder κ) (Error ε) _) :=
  Blind.bind (Blind.read fun _ _ ↦ rfl) fun _ ↦ Blind.bind (Blind.require _ _) fun _ ↦
    Blind.bind (Blind.require _ _) fun _ ↦ Blind.pure _

end RelaychainBuilder

/-! ## The relay chain builder and its collators -/

/-- An event, with another component in the snapshots of the collators. -/
def Event.put {κ W γ : Type} (put : γ → W → W) (g : γ) : Event κ W → Event κ W
  | .polled reg id reply asked => .polled reg id reply (put g asked)
  | .collected entry => .collected entry
  | .enacted entry head => .enacted entry head
  | .judged reg entry ok before after => .judged reg entry ok (put g before) (put g after)
  | .rejected collator => .rejected collator

structure CollationBuilder.Blind {κ W ε γ : Type} (put : γ → W → W) (C : CollationBuilder κ W ε) :
    Prop where
  collation : ∀ k pvd, Call.Blind put (C.collation k pvd)
  judge : ∀ k judgement, Call.Blind put (C.judge k judgement)

namespace World

open RelaychainBuilder (Error)

variable {κ W ε γ R A : Type} {P : RelayPrimitives} {H : RelayHost} {C : CollationBuilder κ W ε}
  {put : γ → W → W}

/-- The world with other caches: one in the relay chain builder, and what `put` sets in the
collators, also where the history has them. -/
def setCaches (put : γ → W → W) (g : List StoragePair × γ) (w : World κ W) : World κ W where
  relay := w.relay.setCache g.1
  collators := put g.2 w.collators
  log := w.log.map (Event.put put g.2)
  tickets := w.tickets

theorem note_setCaches (e : Event κ W) (g : List StoragePair × γ) (w : World κ W) :
    (w.note e).setCaches put g = (w.setCaches put g).note (e.put put g.2) := by
  rw [note, note, setCaches, setCaches, List.map_append]
  rfl

theorem relayCall_blind {c : Call (RelaychainBuilder κ) (Error ε) R}
    (h : Blind RelaychainBuilder.setCache c) :
    Blind (setCaches put) (relayCall c : Call (World κ W) (Error ε) R) :=
  have hrelay : Blind (fun g : List StoragePair × γ ↦ RelaychainBuilder.setCache g.1) c :=
    fun g r ↦ h g.1 r
  Blind.zoom hrelay (fun _ _ ↦ rfl) fun _ _ _ ↦ rfl

theorem enactCollation_blind (parent : Hash) (n : ℕ) (e : CollationEntry) :
    Blind (setCaches put) (enactCollation P H parent n e : Call (World κ W) (Error ε) Unit) := by
  refine Blind.bind (relayCall_blind (RelaychainBuilder.persistedValidationData_blind _ _))
    fun _ ↦ Blind.bind (relayCall_blind (RelaychainBuilder.withMutState_blind _)) fun mutation ↦
      Blind.bind (Blind.modify fun g w ↦ ?_) fun _ ↦ Blind.returned _
  split_ifs with hreached
  · exact (note_setCaches (.enacted e (w.head e.id)) g w).symm
  · rfl

theorem judge_blind (hC : C.Blind put) (reg : ℕ) (k : κ) (e : CollationEntry) :
    Blind (setCaches put) (judge C reg k e) := by
  intro g w
  have hjudge : C.judge k .approved (w.setCaches put g).collators =
      ((C.judge k .approved w.collators).1, put g.2 (C.judge k .approved w.collators).2) :=
    hC.judge k .approved g.2 w.collators
  rw [judge, hjudge, judge]
  rcases C.judge k .approved w.collators with ⟨_ | _ | _, v⟩
  · exact Prod.ext rfl
      (note_setCaches (.judged reg e true w.collators v) g { w with collators := v }).symm
  · exact Prod.ext rfl
      (note_setCaches (.judged reg e false w.collators v) g { w with collators := v }).symm
  · exact Prod.ext rfl
      (note_setCaches (.judged reg e false w.collators v) g { w with collators := v }).symm

theorem judgeCollation_blind (hC : C.Blind put) (e : CollationEntry) :
    Blind (setCaches put) (judgeCollation C e) :=
  Blind.bind (relayCall_blind (RelaychainBuilder.collatorFor_blind e.id)) fun _ ↦
    judge_blind hC _ _ e

theorem poll_blind (hC : C.Blind put) (reg : ℕ) (id : Id) (k : κ) (pvd : PersistedValidationData) :
    Blind (setCaches put) (poll C reg id k pvd) := by
  intro g w
  have hpoll : C.collation k pvd (w.setCaches put g).collators =
      ((C.collation k pvd w.collators).1, put g.2 (C.collation k pvd w.collators).2) :=
    hC.collation k pvd g.2 w.collators
  rw [poll, hpoll, poll]
  rcases C.collation k pvd w.collators with ⟨reply | e | _, v⟩
  · exact Prod.ext rfl
      (note_setCaches (.polled reg id reply w.collators) g { w with collators := v }).symm
  · rfl
  · rfl

theorem collectReply_blind (hd : Header) (reg : ℕ) (id : Id) (reply : Option Collation) :
    Blind (setCaches put) (collectReply hd reg id reply : Call (World κ W) (Error ε) Unit) := by
  cases reply with
  | none => exact Blind.pure ()
  | some c =>
    refine Blind.modify fun g w ↦ ?_
    rw [collect, collect]
    change (if (w.relay.collations.any fun e ↦ e.id == id) = true then _ else _) = _
    split_ifs with hknown
    · rfl
    · exact (note_setCaches (.collected ⟨id, c, hd, reg, w.tickets⟩) g
        { w with
          relay := { w.relay with
            collations := w.relay.collations ++ [⟨id, c, hd, reg, w.tickets⟩] }
          tickets := w.tickets + 1 }).symm

/-- **A relay chain import does not look at a cache**, if the collators do not. -/
theorem importBlock_blind (hC : C.Blind put) : Blind (setCaches put) (importBlock P H C) := by
  have henact : ∀ parent n e, Blind (setCaches put) (enactAndJudge P H C parent n e) :=
    fun _ _ _ ↦ Blind.bind (enactCollation_blind _ _ _) fun _ ↦ judgeCollation_blind hC _
  have hcollect : ∀ parent hd q, Blind (setCaches put) (collectFrom P H C parent hd q) :=
    fun _ _ _ ↦ Blind.bind
      (relayCall_blind (RelaychainBuilder.persistedValidationData_blind _ _)) fun _ ↦
        Blind.bind (poll_blind hC _ _ _ _) fun _ ↦ collectReply_blind _ _ _ _
  have hforce : Blind (setCaches put) (forceEnactCollations P H C) :=
    Blind.bind (Blind.read fun _ _ ↦ rfl) fun _ ↦ Blind.bind (Blind.read fun _ _ ↦ rfl) fun _ ↦
      Blind.bind (Blind.read fun _ _ ↦ rfl) fun _ ↦
        Blind.bind (Blind.forEach (henact _ _) _) fun _ ↦ Blind.modify fun _ _ ↦ rfl
  exact Blind.bind (relayCall_blind RelaychainBuilder.importNext_blind) fun hd ↦
    Blind.bind hforce fun _ ↦ Blind.bind (Blind.read fun _ _ ↦ rfl) fun _ ↦
      Blind.bind (Blind.read fun _ _ ↦ rfl) fun _ ↦ Blind.forEach (hcollect _ hd) _

def PublicOp.isTransition : PublicOp κ W ε A → Bool
  | .appendTransition _ => true
  | _ => false

/-- The collators of an operation do not look at the component, and nobody changes it. -/
def PublicOp.CollatorsBlind (put : γ → W → W) : PublicOp κ W ε A → Prop
  | .relay (.importBlock _ C) => C.Blind put
  | .relay (.collators f) => ∀ g v, f (put g v) = put g (f v)
  | _ => True

theorem publicStep_blind (op : PublicOp κ W ε A) (hC : op.CollatorsBlind put)
    (hop : op.isTransition = false) : Blind (setCaches put) (publicStep P op) := by
  cases op with
  | relay op =>
    cases op with
    | onboardPara H para k =>
      exact Blind.map (relayCall_blind (RelaychainBuilder.onboardPara_blind para k))
    | updateParaHead H id head =>
      exact Blind.map (relayCall_blind (RelaychainBuilder.withMutState_blind _))
    | withMutState H exec =>
      exact Blind.map (relayCall_blind (RelaychainBuilder.withMutState_blind _))
    | buildBlock H => exact Blind.map (relayCall_blind RelaychainBuilder.buildBlock_blind)
    | importBlock H C => exact Blind.map (importBlock_blind hC)
    | collators f =>
      refine Blind.map (Blind.modify fun g w ↦ ?_)
      change ({ w.setCaches put g with collators := f (put g.2 w.collators) } : World κ W) = _
      rw [hC g.2 w.collators]
      rfl
  | withState H exec => exact Blind.map (relayCall_blind (RelaychainBuilder.withState_blind _))
  | withStateAt H at_ exec =>
    exact Blind.map (relayCall_blind (RelaychainBuilder.core_blind (Builder.withState_blind _ _ _)))
  | appendExtrinsic H xt =>
    exact Blind.map (relayCall_blind (RelaychainBuilder.appendExtrinsic_blind xt))
  | appendExtrinsics H xts =>
    exact Blind.map (relayCall_blind (RelaychainBuilder.appendExtrinsics_blind xts))
  | appendTransition aux => cases hop

end World

/-! ## The system -/

section System

open World (setCaches onBuilder)
open ParachainBuilder (CollatorError)

variable {κ ε α A : Type} [DecidableEq κ] {T : κ → Type} {R : RelayPrimitives}
  {P : ∀ k, Primitives (T k)}

def Builders.setCaches (g : κ → List StoragePair) (v : Builders T) : Builders T :=
  fun k ↦ (v k).setCache (g k)

/-- The operation appends a transition, to whichever builder. -/
def BuilderOp.isTransition : BuilderOp T A → Bool
  | .relay op => op.isTransition
  | .para _ op => op.isTransition

theorem update_setCaches (g : κ → List StoragePair) (v : Builders T) (k : κ)
    (p : ParachainBuilder (T k)) :
    Function.update (Builders.setCaches g v) k (p.setCache (g k)) =
      Builders.setCaches g (Function.update v k p) := by
  funext j
  rw [Builders.setCaches]
  by_cases hj : j = k
  · subst hj
    rw [Function.update_self, Function.update_self]
  · rw [Function.update_of_ne hj, Function.update_of_ne hj, Builders.setCaches]

theorem paraCall_blind {k : κ} {c : Call (ParachainBuilder (T k)) ε α}
    (h : Blind ParachainBuilder.setCache c) :
    Blind Builders.setCaches (paraCall k c : Call (Builders T) ε α) :=
  have hk : Blind (fun g : κ → List StoragePair ↦ ParachainBuilder.setCache (g k)) c :=
    fun g p ↦ h (g k) p
  Blind.zoom hk (fun _ _ ↦ rfl) fun g p v ↦ update_setCaches g v k p

theorem fudgeCollators_blind (H : ∀ k, ParaHost (T k)) :
    (fudgeCollators P H).Blind Builders.setCaches where
  collation _ pvd := paraCall_blind (ParachainBuilder.collation_blind pvd)
  judge _ judgement := paraCall_blind (ParachainBuilder.judge_blind judgement)

theorem collatorsBlind_of_usesBuilders {op : World.PublicOp κ (Builders T) CollatorError A}
    (hop : UsesBuilders P op) : op.CollatorsBlind Builders.setCaches := by
  cases op with
  | relay op =>
    cases op with
    | importBlock H C =>
      obtain ⟨hosts, rfl⟩ := hop
      exact fudgeCollators_blind hosts
    | collators f => exact absurd hop id
    | _ => trivial
  | _ => trivial

/-- The collators of the operation are those of the builders. -/
def BuilderOp.UsesBuilders (P : ∀ k, Primitives (T k)) : BuilderOp T A → Prop
  | .relay op => Fudge.UsesBuilders P op
  | .para _ _ => True

theorem builderStep_blind (op : BuilderOp T A) (hop : op.UsesBuilders P)
    (hno : op.isTransition = false) :
    Blind (setCaches Builders.setCaches) (builderStep R P op) := by
  cases op with
  | relay op =>
    exact Blind.map
      (Blind.mapErr (World.publicStep_blind op (collatorsBlind_of_usesBuilders hop) hno))
  | para k op =>
    have hcall := paraCall_blind (ParachainBuilder.publicStep_blind (P := P k) op hno)
    have hworld : Blind (fun g : List StoragePair × (κ → List StoragePair) ↦
        Builders.setCaches g.2) (paraCall k (ParachainBuilder.publicStep (P k) op)) :=
      fun g v ↦ hcall g.2 v
    exact Blind.mapErr (Blind.zoom hworld (fun _ _ ↦ rfl) fun _ _ _ ↦ rfl)

/-- Without the caches, in the world and in its history. -/
def World.withoutCaches (w : World κ (Builders T)) : World κ (Builders T) :=
  w.setCaches Builders.setCaches ([], fun _ ↦ [])

theorem builderStep_unseen (op : BuilderOp T A) (hop : op.isTransition = true) :
    Unseen World.withoutCaches (builderStep R P op) := by
  intro w
  cases op with
  | relay op =>
    cases op with
    | appendTransition aux => exact ⟨rfl, rfl⟩
    | _ => cases hop
  | para k op =>
    cases op with
    | appendTransition aux =>
      have hstep : builderStep (A := A) R P (.para k (.appendTransition aux)) w =
          (.ok (.reply .done), w.withPara k
            ((w.collators k).setCache ((w.collators k).builder.cache ++ [aux]))) := rfl
      rw [hstep]
      refine ⟨rfl, ?_⟩
      have hsame : Builders.setCaches (fun _ ↦ []) (Function.update w.collators k
          ((w.collators k).setCache ((w.collators k).builder.cache ++ [aux]))) =
            Builders.setCaches (fun _ ↦ []) w.collators := by
        rw [← update_setCaches]
        exact Function.update_eq_self k (Builders.setCaches (fun _ ↦ []) w.collators)
      rw [World.withoutCaches, World.withoutCaches, setCaches, setCaches, World.withPara, hsame]
    | _ => cases hop

/-! ## Runs -/

open StandAloneBuilder (standAloneStep StandAloneOp)

/-- **Appended transitions never matter.** Two runs of a stand-alone builder, or of the builders of
a relay chain and its parachains, with the same calls but for `append_transition`s, from states that
are the same but for the caches, leave states that are the same but for the caches; and all other
calls return the same. -/
theorem transitions_never_matter {S : Type} (Q : Primitives S) (R : RelayPrimitives)
    (P : ∀ k, Primitives (T k)) :
    (∀ (ops ops' : List (StandAloneOp S A)) (a a' : StandAloneBuilder S),
      ops.filter (!·.isTransition) = ops'.filter (!·.isTransition) →
      a.setCache [] = a'.setCache [] →
      SameSeen (StandAloneBuilder.setCache []) (standAloneStep Q) (!·.isTransition) ops a ops' a') ∧
    ∀ (ops ops' : List (BuilderOp T A)) (w w' : World κ (Builders T)),
      (∀ op ∈ ops, op.UsesBuilders P) → (∀ op ∈ ops', op.UsesBuilders P) →
      ops.filter (!·.isTransition) = ops'.filter (!·.isTransition) →
      w.withoutCaches = w'.withoutCaches →
      SameSeen World.withoutCaches (builderStep R P) (!·.isTransition) ops w ops' w' := by
  constructor
  · intro ops ops' a a' hops ha
    exact sameSeen_of_filter (J := fun _ ↦ True)
      (fun op _ hop ↦ (StandAloneBuilder.standAloneStep_blind op (by simpa using hop)).reads [])
      (fun op hop ↦ StandAloneBuilder.standAloneStep_unseen op (by simpa using hop))
      (fun _ _ ↦ trivial) (fun _ _ ↦ trivial) hops ha
  · intro ops ops' w w' hok hok' hops hw
    exact sameSeen_of_filter (J := fun op ↦ op.UsesBuilders P)
      (fun op hop hno ↦ (builderStep_blind op hop (by simpa using hno)).reads ([], fun _ ↦ []))
      (fun op hop ↦ builderStep_unseen op (by simpa using hop)) hok hok' hops hw

end System

def World.buildEverywhere : List (BuilderOp (fun _ : ℕ ↦ ℕ) Unit) :=
  [.para 0 (.para (.buildBlock (.reference counter))), .relay (.relay (.buildBlock .reference)),
    .relay (.relay (.importBlock .reference
      (fudgeCollators (fun _ ↦ counter) fun _ ↦ .reference counter)))]

/-- A round of both chains, with transitions appended on both of them on the way. -/
def appendEverywhere : List (BuilderOp (fun _ : ℕ ↦ ℕ) Unit) :=
  .relay (.appendTransition ([1], some [2])) :: .para 0 (.appendTransition ([3], some [4])) ::
    World.buildEverywhere ++ [.para 1 (.appendTransition ([5], none))]

theorem transitions_never_matter_appendEverywhere :
    SameSeen World.withoutCaches (builderStep .reference fun _ ↦ counter) (!·.isTransition)
      appendEverywhere World.reference World.buildEverywhere World.reference := by
  have hbuild : ∀ op ∈ World.buildEverywhere, op.UsesBuilders fun _ ↦ counter := by
    intro op hop
    simp only [World.buildEverywhere, List.mem_cons, List.not_mem_nil, or_false] at hop
    rcases hop with rfl | rfl | rfl
    · trivial
    · trivial
    · exact ⟨_, rfl⟩
  refine (transitions_never_matter (S := ℕ) counter .reference fun _ ↦ counter).2 appendEverywhere
    World.buildEverywhere World.reference World.reference (fun op hop ↦ ?_) hbuild rfl rfl
  simp only [appendEverywhere, List.cons_append, List.mem_cons, List.mem_append, List.not_mem_nil,
    or_false] at hop
  rcases hop with rfl | rfl | hop | rfl
  · trivial
  · trivial
  · exact hbuild op hop
  · trivial

end Fudge
