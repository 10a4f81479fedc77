import Fudge.Parachain.Steps
import Fudge.Relay.Verdicts

/-!
# A relay chain builder and its parachain builders

One relay chain builder and a family of parachain builders, each with a runtime of its own. The
collator that is onboarded for a parachain is the `FudgeCollator` of its builder, which shares the
two block slots with it: what `build_block` puts into a slot, the relay chain's polls read and its
verdicts move, and no call looks at the other side first.

A run interleaves the calls of all builders in any order. Every call is made against its own hosts,
so it may fail at any point, and a run goes on after an error.
-/

namespace Fudge

open Call

abbrev Builders {κ : Type} (T : κ → Type) : Type := (k : κ) → ParachainBuilder (T k)

section Collators

variable {κ ε α : Type} [DecidableEq κ] {T : κ → Type}

/-- A call of the builder `k`. -/
def paraCall (k : κ) (c : Call (ParachainBuilder (T k)) ε α) : Call (Builders T) ε α :=
  Call.zoom (· k) (fun p v ↦ Function.update v k p) c

def fudgeCollators (P : ∀ k, Primitives (T k)) (H : ∀ k, ParaHost (T k)) :
    CollationBuilder κ (Builders T) ParachainBuilder.CollatorError where
  collation k pvd := paraCall k (ParachainBuilder.collation (P k) (H k) pvd)
  judge k judgement := paraCall k (ParachainBuilder.judge (H k) judgement)

variable {P : ∀ k, Primitives (T k)} {H : ∀ k, ParaHost (T k)}

theorem paraCall_snd (k : κ) (c : Call (ParachainBuilder (T k)) ε α) (v : Builders T) :
    (paraCall k c v).2 = Function.update v k (c (v k)).2 := rfl

theorem fudgeCollators_collation_snd (k : κ) (pvd : PersistedValidationData) (v : Builders T) :
    ((fudgeCollators P H).collation k pvd v).2 = v := by
  have hread : (ParachainBuilder.collation (P k) (H k) pvd (v k)).2 = v k :=
    ParachainBuilder.collation_keeps (f := fun p ↦ p) pvd (v k)
  change Function.update v k _ = v
  rw [hread, Function.update_eq_self]

theorem fudgeCollators_collation_eq_ok {k : κ} {pvd : PersistedValidationData} {v v' : Builders T}
    {reply : Option Collation} (h : (fudgeCollators P H).collation k pvd v = (.ok reply, v')) :
    ((v k).blockStorage.nextBlock = none ∧ reply = none) ∨
      ∃ build c, (v k).blockStorage.nextBlock = some build ∧ reply = some c ∧
        ((H k).Lawful (P k) → ParachainBuilder.Collates (P k) build c) := by
  have hcall : paraCall k (ParachainBuilder.collation (P k) (H k) pvd) v = (.ok reply, v') := h
  obtain ⟨p, hp, -⟩ := zoom_eq_ok.mp hcall
  exact ParachainBuilder.collation_eq_ok hp

theorem fudgeCollators_judge_cases (k : κ) (v : Builders T) :
    (((fudgeCollators P H).judge k .approved v).2 = v ∧
        ((fudgeCollators P H).judge k .approved v).1.isOk = false) ∨
      ∃ build, (v k).blockStorage.nextBlock = some build ∧
        (fudgeCollators P H).judge k .approved v =
          (.ok (), Function.update v k (ParachainBuilder.approvedBuilder build (v k))) := by
  have hjudge : (fudgeCollators P H).judge k .approved v =
      paraCall k (ParachainBuilder.approve (H k)) v := rfl
  rw [hjudge]
  rcases ParachainBuilder.approve_cases (H := H k) (v k) with ⟨hsame, hno⟩ | ⟨build, hslot, hok⟩
  · refine Or.inl ⟨?_, hno⟩
    rw [paraCall_snd, hsame, Function.update_eq_self]
  · refine Or.inr ⟨build, hslot, ?_⟩
    exact zoom_eq_ok.mpr ⟨_, hok, rfl⟩

end Collators

/-! ## Runs of the system -/

/-- A call of one of the builders, with the hosts it is made against. -/
inductive SystemOp {κ : Type} (T : κ → Type) where
  | buildBlock (k : κ) (H : ParaHost (T k))
  | importBlock (k : κ) (H : ParaHost (T k))
  | reject (k : κ) (H : ParaHost (T k))
  | relayBuildBlock (H : RelayHost)
  | relayImportBlock (H : RelayHost) (hosts : ∀ k, ParaHost (T k))

inductive SystemError where
  | relay (e : RelaychainBuilder.Error ParachainBuilder.CollatorError)
  | parachain (e : ParachainBuilder.CollatorError)
deriving DecidableEq, Repr

namespace World

open RelaychainBuilder (IsFirst)
open ParachainBuilder (CollatorError)

variable {κ ε α : Type} [DecidableEq κ] {T : κ → Type}

/-- A call of the builder `k`, in the world. -/
def builderCall (k : κ) (c : Call (ParachainBuilder (T k)) ε α) :
    Call (World κ (Builders T)) ε α :=
  Call.zoom (·.collators) (fun v w ↦ { w with collators := v }) (paraCall k c)

def onBuilder (k : κ) (c : Call (ParachainBuilder (T k)) CollatorError α) :
    Call (World κ (Builders T)) SystemError α :=
  Call.mapErr .parachain (builderCall k c)

/-- The world with another builder `k`. -/
def withPara (k : κ) (p : ParachainBuilder (T k)) (w : World κ (Builders T)) :
    World κ (Builders T) :=
  { w with collators := Function.update w.collators k p }

/-- `reject`, called by somebody other than the relay chain. The event is noted if there was a block
to reject. -/
def reject (k : κ) (H : ParaHost (T k)) : Call (World κ (Builders T)) SystemError Unit := do
  let nextBlock ← Call.read fun w ↦ (w.collators k).blockStorage.nextBlock
  onBuilder k (ParachainBuilder.reject H)
  Call.modify fun w ↦ if nextBlock.isSome then w.note (.rejected k) else w

variable (R : RelayPrimitives) (P : ∀ k, Primitives (T k))

def systemStep : SystemOp T → Call (World κ (Builders T)) SystemError Unit
  | .buildBlock k H => onBuilder k (Call.mapErr .parachain (ParachainBuilder.buildBlock (P k) H))
  | .importBlock k H => onBuilder k (Call.mapErr .parachain (ParachainBuilder.importBlock H))
  | .reject k H => reject k H
  | .relayBuildBlock H => Call.mapErr .relay (relayCall (RelaychainBuilder.buildBlock R H >>=
      fun _ ↦ pure ()))
  | .relayImportBlock H hosts => Call.mapErr .relay (importBlock R H (fudgeCollators P hosts))

variable {R P}

theorem builderCall_snd (k : κ) (c : Call (ParachainBuilder (T k)) ε α)
    (w : World κ (Builders T)) : (builderCall k c w).2 = w.withPara k (c (w.collators k)).2 := rfl

theorem onBuilder_snd (k : κ) (c : Call (ParachainBuilder (T k)) CollatorError α)
    (w : World κ (Builders T)) : (onBuilder k c w).2 = w.withPara k (c (w.collators k)).2 := by
  rw [onBuilder, mapErr_snd, builderCall_snd]

theorem buildBlock_snd (k : κ) (H : ParaHost (T k)) (w : World κ (Builders T)) :
    (systemStep R P (.buildBlock k H) w).2 =
      w.withPara k (ParachainBuilder.buildBlock (P k) H (w.collators k)).2 := by
  rw [systemStep, onBuilder_snd, mapErr_snd]

theorem importBlock_snd (k : κ) (H : ParaHost (T k)) (w : World κ (Builders T)) :
    (systemStep R P (.importBlock k H) w).2 =
      w.withPara k (ParachainBuilder.importBlock H (w.collators k)).2 := by
  rw [systemStep, onBuilder_snd, mapErr_snd]

theorem relayImportBlock_snd (H : RelayHost) (hosts : ∀ k, ParaHost (T k))
    (w : World κ (Builders T)) :
    (systemStep R P (.relayImportBlock H hosts) w).2 =
      (importBlock R H (fudgeCollators P hosts) w).2 := by
  rw [systemStep, mapErr_snd]

theorem withPara_self (k : κ) (w : World κ (Builders T)) : w.withPara k (w.collators k) = w := by
  rw [withPara, Function.update_eq_self]

/-- A rejection drops the block in the next-block slot, and otherwise changes nothing. -/
theorem reject_snd_cases (k : κ) (H : ParaHost (T k)) (w : World κ (Builders T)) :
    (reject k H w).2 = w ∨
      (∃ build, (w.collators k).blockStorage.nextBlock = some build) ∧ (reject k H w).2 =
        (w.withPara k (ParachainBuilder.setNextBlock none (w.collators k))).note (.rejected k) := by
  have hstart : reject k H w = (onBuilder k (ParachainBuilder.reject H) >>= fun _ ↦
      Call.modify fun u ↦ if (w.collators k).blockStorage.nextBlock.isSome
        then u.note (.rejected k) else u) w := rfl
  rw [hstart]
  have hstate := onBuilder_snd k (ParachainBuilder.reject H) w
  rcases ParachainBuilder.reject_cases (H := H) (w.collators k) with ⟨hsame, hno⟩ | hok
  · rw [hsame, withPara_self] at hstate
    rcases bind_cases (onBuilder k (ParachainBuilder.reject H)) _ w with ⟨u, hu, -⟩ | ⟨-, -, hstop⟩
    · -- the call on the builder failed, so the call in the world did
      obtain ⟨v, hv, -⟩ := zoom_eq_ok.mp (mapErr_eq_ok.mp hu)
      obtain ⟨p, hp, -⟩ := zoom_eq_ok.mp hv
      simp [hp, Outcome.isOk] at hno
    · exact Or.inl (hstop.trans hstate)
  · have hcall : onBuilder k (ParachainBuilder.reject H) w =
        (.ok (), w.withPara k (ParachainBuilder.setNextBlock none (w.collators k))) :=
      mapErr_eq_ok.mpr (zoom_eq_ok.mpr ⟨_, zoom_eq_ok.mpr ⟨_, hok, rfl⟩, rfl⟩)
    rw [bind_of_ok hcall, modify_apply]
    cases hslot : (w.collators k).blockStorage.nextBlock with
    | none =>
      have hp : ParachainBuilder.setNextBlock none (w.collators k) = w.collators k := by
        rw [ParachainBuilder.setNextBlock, ← hslot]
      rw [hp, withPara_self]
      exact Or.inl rfl
    | some build => exact Or.inr ⟨⟨build, rfl⟩, rfl⟩

theorem relayBuildBlock_snd (H : RelayHost) (w : World κ (Builders T)) :
    ∃ r, (systemStep R P (.relayBuildBlock H) w).2 = { w with relay := r } ∧
      r.parachains = w.relay.parachains ∧ r.collations = w.relay.collations := by
  refine ⟨_, by rw [systemStep, mapErr_snd, relayCall_apply], ?_⟩
  have hkeep : Keeps (fun r : RelaychainBuilder κ ↦ (r.parachains, r.collations))
      (RelaychainBuilder.buildBlock R H >>= fun _ ↦ pure () :
        Call _ (RelaychainBuilder.Error CollatorError) Unit) :=
    Keeps.bind (RelaychainBuilder.buildBlock_keeps fun _ _ ↦ rfl) fun _ ↦ Keeps.pure ()
  exact Prod.mk.inj (hkeep w.relay)

/-- The world after the builder `k` took the approval of its block `build`. -/
def approvedWorld (reg : ℕ) (k : κ) (e : CollationEntry) (build : Block × StorageProof)
    (w : World κ (Builders T)) : World κ (Builders T) :=
  let v := Function.update w.collators k (ParachainBuilder.approvedBuilder build (w.collators k))
  { w with collators := v }.note (.judged reg e true w.collators v)

/-- **What one iteration of `force_enact_collations` does** when the collators are those of the
builders: it fails before the enactment, before the verdict or in it, and no builder changes; or the
collation is enacted and the first builder registered under its id moves its block. -/
theorem enactAndJudge_fudge_cases {H : RelayHost} (hosts : ∀ k, ParaHost (T k)) (parent : Hash)
    (n : ℕ) (e : CollationEntry) (w : World κ (Builders T)) :
    ∃ b, ((enactAndJudge R H (fudgeCollators P hosts) parent n e w).1.isOk = false ∧
        ((enactAndJudge R H (fudgeCollators P hosts) parent n e w).2 = w.withBuilder b ∨
          EnactedBy CollatorError R H parent n e w.relay.builder b ∧
            ((enactAndJudge R H (fudgeCollators P hosts) parent n e w).2 = w.enactedWorld b e ∨
              ∃ reg, (enactAndJudge R H (fudgeCollators P hosts) parent n e w).2 =
                (w.enactedWorld b e).note (.judged reg e false w.collators w.collators)))) ∨
      EnactedBy CollatorError R H parent n e w.relay.builder b ∧
        ∃ reg k build, IsFirst w.relay.parachains e.id reg k ∧
          (w.collators k).blockStorage.nextBlock = some build ∧
          enactAndJudge R H (fudgeCollators P hosts) parent n e w =
            (.ok (), (w.enactedWorld b e).approvedWorld reg k e build) := by
  obtain ⟨b, ⟨h, hno⟩ | ⟨hby, h, hno⟩ | ⟨hby, reg, k, hfirst, hisOk, h⟩⟩ :=
    enactAndJudge_cases (P := R) (H := H) (C := fudgeCollators P hosts) parent n e w
  · exact ⟨b, Or.inl ⟨hno, Or.inl h⟩⟩
  · exact ⟨b, Or.inl ⟨hno, Or.inr ⟨hby, Or.inl h⟩⟩⟩
  · refine ⟨b, ?_⟩
    have hworld : (w.enactedWorld b e).collators = w.collators := rfl
    rw [judgedWorld, hworld] at h
    -- a verdict that is not taken leaves the builders alone
    rcases fudgeCollators_judge_cases (P := P) (H := hosts) k w.collators with
      ⟨hsame, hno⟩ | ⟨build, hslot, hok⟩
    · rw [hsame, hno] at h
      exact Or.inl ⟨hisOk.trans hno, Or.inr ⟨hby, Or.inr ⟨reg, h⟩⟩⟩
    · rw [hok] at h hisOk
      obtain ⟨⟨⟩, hunit⟩ := Outcome.isOk_iff.mp hisOk
      exact Or.inr ⟨hby, reg, k, build, hfirst, hslot, Prod.ext hunit h⟩

/-- **What one iteration of `collect_collations` does** when the collators are those of the
builders: it leaves the world alone and fails, or it notes that there is nothing to offer, or the
block in the next-block slot is collated. No builder changes. -/
theorem collectFrom_fudge_cases {H : RelayHost} (hosts : ∀ k, ParaHost (T k)) (parent : Hash)
    (hd : Header) (id : Id) (k : κ) (reg : ℕ) (w : World κ (Builders T)) :
    ((collectFrom R H (fudgeCollators P hosts) parent hd ((id, k), reg) w).2 = w ∧
        (collectFrom R H (fudgeCollators P hosts) parent hd ((id, k), reg) w).1.isOk = false) ∨
      ((w.collators k).blockStorage.nextBlock = none ∧
        collectFrom R H (fudgeCollators P hosts) parent hd ((id, k), reg) w =
          (.ok (), w.note (.polled reg id none w.collators))) ∨
      ∃ build c, (w.collators k).blockStorage.nextBlock = some build ∧
        ((hosts k).Lawful (P k) → ParachainBuilder.Collates (P k) build c) ∧
        collectFrom R H (fudgeCollators P hosts) parent hd ((id, k), reg) w =
          (.ok (), collect hd reg id c (w.note (.polled reg id (some c) w.collators))) := by
  rcases collectFrom_cases (P := R) (H := H) (C := fudgeCollators P hosts) parent hd id k reg w with
    ⟨v, hv, h, hno⟩ | ⟨pvd, reply, v, hcall, h⟩
  · have hsame : v = w.collators := by
      rcases hv with rfl | ⟨pvd, rfl⟩
      · rfl
      · exact fudgeCollators_collation_snd k pvd w.collators
    rw [hsame] at h
    exact Or.inl ⟨h, hno⟩
  · obtain rfl : w.collators = v := by
      rw [← fudgeCollators_collation_snd (P := P) (H := hosts) k pvd w.collators, hcall]
    rcases fudgeCollators_collation_eq_ok hcall with
      ⟨hslot, rfl⟩ | ⟨build, c, hslot, rfl, hcollates⟩
    · exact Or.inr (Or.inl ⟨hslot, h⟩)
    · exact Or.inr (Or.inr ⟨build, c, hslot, hcollates, h⟩)

/-- Every builder of `done` that has a block to offer has its id in the table. -/
def Covered (done : List ((Id × κ) × ℕ)) (v : Builders T) (w : World κ (Builders T)) : Prop :=
  ∀ q ∈ done, (v q.1.2).blockStorage.nextBlock.isSome = true → ∃ e ∈ w.relay.collations,
    e.id = q.1.1

omit [DecidableEq κ] in
theorem Covered.concat {done : List ((Id × κ) × ℕ)} {v : Builders T} {w w' : World κ (Builders T)}
    (h : Covered done v w) (hsub : ∀ e ∈ w.relay.collations, e ∈ w'.relay.collations)
    {q : (Id × κ) × ℕ} (hq : (v q.1.2).blockStorage.nextBlock.isSome = true →
      ∃ e ∈ w'.relay.collations, e.id = q.1.1) : Covered (done ++ [q]) v w' := by
  intro q' hmem hslot
  rcases List.mem_append.mp hmem with hmem | hmem
  · obtain ⟨e, he, hid⟩ := h q' hmem hslot
    exact ⟨e, hsub e he, hid⟩
  · obtain rfl := List.mem_singleton.mp hmem
    exact hq hslot

theorem collectFrom_keeps_collators {H : RelayHost} {hosts : ∀ k, ParaHost (T k)} (parent : Hash)
    (hd : Header) (q : (Id × κ) × ℕ) :
    Keeps World.collators (collectFrom R H (fudgeCollators P hosts) parent hd q) := by
  obtain ⟨⟨id, k⟩, reg⟩ := q
  intro w
  rcases collectFrom_fudge_cases (R := R) (P := P) (H := H) hosts parent hd id k reg w with
    ⟨h, -⟩ | ⟨-, h⟩ | ⟨build, c, -, -, h⟩
  · rw [h]
  · rw [h]
    rfl
  · rw [h]
    rcases collect_cases hd reg id c (w.note (.polled reg id (some c) w.collators)) with
      ⟨-, hcollect⟩ | ⟨-, hcollect⟩
    · rw [hcollect]
      rfl
    · rw [hcollect]
      rfl

/-- A relay chain import asks the parachain builders for collations and tells them verdicts. What a
verdict leaves alone in a builder, an import leaves alone. -/
theorem importBlock_frame {γ : Type} {H : RelayHost} {hosts : ∀ k, ParaHost (T k)} {k : κ}
    {f : ParachainBuilder (T k) → γ}
    (hf : ∀ build p, f (ParachainBuilder.approvedBuilder build p) = f p) :
    Keeps (fun w ↦ f (w.collators k)) (importBlock R H (fudgeCollators P hosts)) := by
  have henact : ∀ parent n e, Keeps (fun w : World κ (Builders T) ↦ f (w.collators k))
      (enactAndJudge R H (fudgeCollators P hosts) parent n e) := by
    intro parent n e w
    obtain ⟨b, ⟨-, h | ⟨-, h | ⟨reg, h⟩⟩⟩ | ⟨-, reg, l, build, -, -, h⟩⟩ :=
      enactAndJudge_fudge_cases (R := R) (P := P) (H := H) hosts parent n e w
    · rw [h]
      rfl
    · rw [h]
      rfl
    · rw [h]
      rfl
    · rw [h]
      change f (Function.update w.collators l _ k) = _
      by_cases hk : k = l
      · subst hk
        rw [Function.update_self]
        exact hf build (w.collators k)
      · rw [Function.update_of_ne hk]
  have hcollect : ∀ parent hd q, Keeps (fun w : World κ (Builders T) ↦ f (w.collators k))
      (collectFrom R H (fudgeCollators P hosts) parent hd q) :=
    fun parent hd q w ↦ congrArg (fun v : Builders T ↦ f (v k))
      (collectFrom_keeps_collators parent hd q w)
  exact Keeps.bind (relayCall_frame fun _ _ ↦ rfl) fun hd ↦
    Keeps.bind (Keeps.bind (Keeps.read _) fun _ ↦ Keeps.bind (Keeps.read _) fun _ ↦
      Keeps.bind (Keeps.read _) fun _ ↦ Keeps.bind (Keeps.forEach (henact _ _) _) fun _ ↦
        Keeps.modify fun _ ↦ rfl) fun _ ↦
      Keeps.bind (Keeps.read _) fun _ ↦ Keeps.bind (Keeps.read _) fun _ ↦
        Keeps.forEach (hcollect _ hd) _

/-! ## A reference system -/

/-- A relay chain in memory with counting parachains, of which number 0 is onboarded under the id 1
with its genesis header. -/
def reference : World ℕ (Builders fun _ : ℕ ↦ ℕ) where
  relay := (RelaychainBuilder.onboardPara (ε := CollatorError) .reference .reference
    ⟨1, ((ParachainBuilder.counterBuilder 1).bestHead counter).getD [], []⟩ 0
    (RelaychainBuilder.genesis ℕ)).2
  collators _ := ParachainBuilder.counterBuilder 1

def referenceRun (ops : List (SystemOp fun _ : ℕ ↦ ℕ)) : World ℕ (Builders fun _ : ℕ ↦ ℕ) :=
  run (systemStep .reference fun _ ↦ counter) ops reference

def relayRound : List (SystemOp fun _ : ℕ ↦ ℕ) :=
  [.relayBuildBlock .reference, .relayImportBlock .reference fun _ ↦ .reference counter]

/-- A block with the given digest is built on the parachain `k`. -/
def buildMarked (k : ℕ) (digest : Digest) : SystemOp fun _ : ℕ ↦ ℕ :=
  .buildBlock k { ParaHost.reference counter with createDigest := fun _ _ _ ↦ .ok digest }

end World

end Fudge
