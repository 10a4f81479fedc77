import Fudge.Core.Pending
import Fudge.Relay.Table

/-!
# The pending block of the relay chain builder

An import of the relay chain builder empties the slot first and then mutates the state itself, once
for every collation it enacts. No assertion guards these mutations; they are in order because the
slot is empty by then, whatever happened to the block that was in it.

`loopEffect` follows `force_enact_collations` through its entries and collects what the committed
enactments do to the best state. A failure of the loop ends it, and keeps what was committed before.
-/

namespace Fudge

namespace RelaychainBuilder

open Call Chain
open Builder (commitEffect)

variable {κ ε R γ : Type} {P : RelayPrimitives} {H : RelayHost}

/-! ## The calls of the builder -/

theorem withMutState_cases (exec : RelayStorage → R × RelayStorage) (r : RelaychainBuilder κ) :
    (r.next.isSome = true ∧
        (withMutState P H exec : Call _ (Error ε) R) r = (.panic, r)) ∨
      (r.next = none ∧ (withMutState P H exec r : Outcome (Error ε) R × _).2 =
        { r with builder :=
          (Builder.withState P.toPrimitives H.toHost .commit none exec r.builder).2 }) := by
  rw [withMutState]
  rcases assert_bind_cases (·.next.isNone)
    (fun _ ↦ core (Builder.withState P.toPrimitives H.toHost .commit none exec)) r with
    ⟨hnext, h⟩ | ⟨hnext, h⟩
  · rw [h, core, mapErr_snd]
    exact Or.inr ⟨by simpa using hnext, rfl⟩
  · exact Or.inl ⟨by simpa using hnext, h⟩

/-- A mutation, made now, steps back from the best block before it runs its closure. -/
def StepsBack (H : RelayHost) (r : RelaychainBuilder κ) : Prop :=
  r.next = none ∧ ∃ h s c, Builder.RevertsTip H.toHost r.builder.chain none h s c

theorem withMutState_isOk {exec : RelayStorage → R × RelayStorage} {r : RelaychainBuilder κ}
    (hnext : r.next = none) : (withMutState P H exec r : Outcome (Error ε) R × _).1.isOk =
      (Builder.withState P.toPrimitives H.toHost .commit none exec r.builder).1.isOk := by
  rw [withMutState]
  rcases assert_bind_cases (·.next.isNone)
    (fun _ ↦ core (Builder.withState P.toPrimitives H.toHost .commit none exec)) r with
    ⟨-, h⟩ | ⟨hsome, -⟩
  · rw [h, core, mapErr_isOk]
    rfl
  · rw [hnext] at hsome
    cases hsome

/-- A mutation that fails leaves the builder alone, unless it has stepped back. -/
theorem withMutState_of_not_ok (hL : H.toHost.Lawful P.toPrimitives)
    {exec : RelayStorage → R × RelayStorage} {r : RelaychainBuilder κ}
    (hno : (withMutState P H exec r : Outcome (Error ε) R × _).1.isOk = false) :
    (¬ StepsBack H r ∧ (withMutState P H exec r : Outcome (Error ε) R × _).2 = r) ∨
      StepsBack H r ∧ ∃ h s c, Builder.RevertsTip H.toHost r.builder.chain none h s c ∧
        (withMutState P H exec r : Outcome (Error ε) R × _).2.builder.chain = c := by
  rw [withMutState] at hno ⊢
  rcases assert_bind_cases (·.next.isNone)
    (fun _ ↦ core (Builder.withState P.toPrimitives H.toHost .commit none exec)) r with
    ⟨hnext, h⟩ | ⟨hnext, h⟩
  · rw [h, core, mapErr_isOk] at hno
    rw [h, core, mapErr_snd]
    rcases Builder.commit_of_not_ok hL (b := r.builder) hno with
      ⟨hsame, hstay⟩ | ⟨k, s, c, hrev, hleft⟩
    · refine Or.inl ⟨fun ⟨_, k, s, c, hrev⟩ ↦ hstay k s c hrev, ?_⟩
      exact congrArg (fun b ↦ { r with builder := b }) hsame
    · refine Or.inr ⟨⟨by simpa using hnext, k, s, c, hrev⟩, k, s, c, hrev, ?_⟩
      exact congrArg Builder.chain hleft
  · rw [h]
    refine Or.inl ⟨fun ⟨hnone, _⟩ ↦ ?_, rfl⟩
    rw [hnone] at hnext
    cases hnext

theorem buildBlock_cases (r : RelaychainBuilder κ) :
    (buildBlock P H r : Outcome (Error ε) Block × _).2 = r ∨
    (r.next = none ∧ ∃ hd inherents digest proposal,
      H.header r.builder.chain r.builder.chain.bestHash = .ok (some hd) ∧
      H.propose r.builder.chain r.builder.pool hd inherents digest = .ok proposal ∧
      (buildBlock P H r : Outcome (Error ε) Block × _).2 =
        { r with next := some (proposal.block, proposal.proof) }) := by
  rcases hr : (buildBlock P H r : Outcome (Error ε) Block × _) with ⟨o, r'⟩
  by_cases hok : o.isOk = true
  · obtain ⟨block, rfl⟩ := Outcome.isOk_iff.mp hok
    obtain ⟨hnext, hd, inherents, digest, proposal, hhd, hprop, rfl⟩ := buildBlock_eq_ok hr
    exact Or.inr ⟨hnext, hd, inherents, digest, proposal, hhd, hprop, rfl⟩
  · left
    -- nothing but the last step, which does not fail, writes
    rw [buildBlock] at hr
    rcases assert_bind_cases (·.next.isNone) _ r with ⟨-, h⟩ | ⟨-, h⟩
    · rw [h] at hr
      have hpropose : (proposeBlock P H r : Outcome (Error ε) Proposal × _).2 = r :=
        proposeBlock_keeps (f := id) r
      rcases bind_cases (proposeBlock P H : Call _ (Error ε) Proposal) _ r with
        ⟨proposal, -, h'⟩ | ⟨-, -, h'⟩
      · rw [h'] at hr
        obtain ⟨rfl, -⟩ := Prod.mk.inj hr
        exact absurd rfl hok
      · rw [hr] at h'
        exact h'.trans hpropose
    · rw [h] at hr
      exact (Prod.mk.inj hr).2.symm

theorem core_bind_cases {α β : Type} (c : Call (Builder RelayStorage) Builder.Error α)
    (g : α → Call (RelaychainBuilder κ) (Error ε) β) (r : RelaychainBuilder κ) :
    (∃ x, (c r.builder).1 = .ok x ∧ (core c >>= g) r = g x { r with builder := (c r.builder).2 }) ∨
      ((c r.builder).1.isOk = false ∧ ((core c >>= g) r).1.isOk = false ∧
        ((core c >>= g) r).2 = { r with builder := (c r.builder).2 }) :=
  zoom_bind_cases _ _ _ c g r

/-- The first half of an import empties the slot. Without a pending block that is all; otherwise the
block goes to the client, and to the imports unless the core builder returns an error. -/
theorem importNext_cases (r : RelaychainBuilder κ) :
    (r.next = none ∧ (importNext H r : Outcome (Error ε) Header × _).1.isOk = false ∧
        (importNext H r : Outcome (Error ε) Header × _).2 = r) ∨
      ∃ next, r.next = some next ∧
        (importNext H r : Outcome (Error ε) Header × _).1.isOk =
          (Builder.importBlock H.toHost (nextParams next.1) r.builder).1.isOk ∧
        (importNext H r : Outcome (Error ε) Header × _).2 = { r with
          builder := (Builder.importBlock H.toHost (nextParams next.1) r.builder).2, next := none,
          imports := if (Builder.importBlock H.toHost (nextParams next.1) r.builder).1.isOk
            then r.imports ++ [next] else r.imports } := by
  have hread : (importNext H r : Outcome (Error ε) Header × _) =
      (Call.require (α := Block × StorageProof) .nextBlockNotFound r.next >>= fun next ↦
        core (Builder.importBlock H.toHost (nextParams next.1)) >>= fun _ ↦
          Call.modify (fun r ↦ { r with imports := r.imports ++ [next] }) >>= fun _ ↦
            pure next.1.header) { r with next := none } := rfl
  rw [hread]
  rcases Option.eq_none_or_eq_some r.next with hn | ⟨next, hn⟩
  · rw [hn]
    refine Or.inl ⟨rfl, rfl, ?_⟩
    change ({ r with next := none } : RelaychainBuilder κ) = r
    rw [← hn]
  · refine Or.inr ⟨next, hn, ?_⟩
    have hrequire : Call.require (σ := RelaychainBuilder κ) (ε := Error ε) .nextBlockNotFound
      r.next { r with next := none } = (.ok next, { r with next := none }) := by
      rw [hn]
      rfl
    rw [bind_of_ok hrequire]
    -- the block is taken before the client sees it, so it is gone also if the client refuses
    rcases core_bind_cases (Builder.importBlock H.toHost (nextParams next.1)) _
      { r with next := none } with ⟨u, hok, h⟩ | ⟨hno, hno', h⟩
    · rw [h, hok]
      exact ⟨rfl, rfl⟩
    · rw [h, hno, hno']
      exact ⟨rfl, rfl⟩

/-! ## The pending block and the best state -/

/-- What a mutation of the relay chain builder does to the best state. -/
def mutationEffect (P : RelayPrimitives) (H : RelayHost) (exec : RelayStorage → R × RelayStorage)
    (r : RelaychainBuilder κ) (s : RelayStorage) : RelayStorage :=
  if r.next.isSome then s else commitEffect P.toPrimitives H.toHost exec r.builder s

/-- The pending block of a builder sits on its best block. -/
def Pending (P : RelayPrimitives) (r : RelaychainBuilder κ) : Prop :=
  PendingOn P.toPrimitives r.builder.chain r.next

theorem withMutState_pending (hL : H.toHost.Lawful P.toPrimitives)
    (exec : RelayStorage → R × RelayStorage) :
    Preserves (Pending P) (withMutState P H exec : Call (RelaychainBuilder κ) (Error ε) R) := by
  intro r h
  rcases withMutState_cases (ε := ε) (P := P) (H := H) exec r with ⟨-, hpanic⟩ | ⟨hnext, hmut⟩
  · rw [hpanic]
    exact h
  · rw [hmut]
    refine ⟨Builder.commit_hashed hL exec r.builder h.hashed, fun b hb ↦ ?_⟩
    rw [show r.next = some b from hb] at hnext
    cases hnext

theorem withMutState_state (hL : H.toHost.Lawful P.toPrimitives)
    {exec : RelayStorage → R × RelayStorage} {r : RelaychainBuilder κ} {s : RelayStorage}
    (h : BestState r.builder.chain s) (hsafe : r.next = none →
      Builder.CommitSafe P.toPrimitives H.toHost r.builder.chain none exec) :
    BestState
      (withMutState P H exec r : Outcome (Error ε) R × _).2.builder.chain
      (mutationEffect P H exec r s) := by
  rcases withMutState_cases (ε := ε) (P := P) (H := H) exec r with ⟨hnext, hpanic⟩ | ⟨hnext, hmut⟩
  · rw [hpanic, mutationEffect, if_pos hnext]
    exact h
  · rw [hmut, mutationEffect, hnext]
    exact Builder.commit_state hL h (hsafe hnext)

theorem buildBlock_builder (r : RelaychainBuilder κ) :
    (buildBlock P H r : Outcome (Error ε) Block × _).2.builder = r.builder :=
  buildBlock_keeps (f := RelaychainBuilder.builder) (fun _ _ ↦ rfl) r

theorem buildBlock_pending (hL : H.toHost.Lawful P.toPrimitives) :
    Preserves (Pending P) (buildBlock P H : Call (RelaychainBuilder κ) (Error ε) Block) := by
  intro r h
  rcases buildBlock_cases (ε := ε) (P := P) (H := H) r with
    hsame | ⟨-, hd, inherents, digest, proposal, hhd, hprop, hbuilt⟩
  · rw [hsame]
    exact h
  · rw [hbuilt]
    exact Builder.proposal_on_tip hL h.hashed hhd hprop

theorem importNext_pending (hL : H.toHost.Lawful P.toPrimitives) :
    Preserves (Pending P) (importNext H : Call (RelaychainBuilder κ) (Error ε) Header) := by
  intro r h
  rcases importNext_cases (ε := ε) (H := H) r with ⟨-, -, hsame⟩ | ⟨next, -, -, himport⟩
  · rw [hsame]
    exact h
  · rw [himport]
    exact ⟨Builder.importBlock_hashed hL _ r.builder h.hashed, fun b hb ↦ (by cases hb)⟩

/-- What mutations, builds and the first halves of imports keep of the chain and the slot. -/
structure SlotInvariant (κ ε : Type) (P : RelayPrimitives)
    (I : Chain RelayStorage → Option (Block × StorageProof) → Prop) : Prop where
  withMutState : ∀ {H : RelayHost} {R : Type} (exec : RelayStorage → R × RelayStorage),
    H.toHost.Lawful P.toPrimitives → Preserves (fun r ↦ I r.builder.chain r.next)
      (RelaychainBuilder.withMutState P H exec : Call (RelaychainBuilder κ) (Error ε) R)
  buildBlock : ∀ {H : RelayHost}, H.toHost.Lawful P.toPrimitives →
    Preserves (fun r ↦ I r.builder.chain r.next)
      (RelaychainBuilder.buildBlock P H : Call (RelaychainBuilder κ) (Error ε) Block)
  importNext : ∀ {H : RelayHost}, H.toHost.Lawful P.toPrimitives →
    Preserves (fun r ↦ I r.builder.chain r.next)
      (RelaychainBuilder.importNext H : Call (RelaychainBuilder κ) (Error ε) Header)

theorem pending_slotInvariant (κ ε : Type) (P : RelayPrimitives) :
    SlotInvariant κ ε P (PendingOn P.toPrimitives) where
  withMutState exec hL := withMutState_pending hL exec
  buildBlock hL := buildBlock_pending hL
  importNext hL := importNext_pending hL

/-- What the first half of an import does to the best state. -/
def nextEffect (P : RelayPrimitives) (H : RelayHost) (r : RelaychainBuilder κ) (s : RelayStorage) :
    RelayStorage :=
  match r.next with
  | some next => Builder.importEffect P.toPrimitives H.toHost (nextParams next.1) r.builder s
  | none => s

theorem importNext_state (hL : H.toHost.Lawful P.toPrimitives) {r : RelaychainBuilder κ}
    {s : RelayStorage}
    (hp : Pending P r) (h : BestState r.builder.chain s) :
    BestState (importNext H r : Outcome (Error ε) Header × _).2.builder.chain
      (nextEffect P H r s) := by
  rcases importNext_cases (ε := ε) (H := H) r with ⟨hnone, -, hsame⟩ | ⟨next, hnext, -, himport⟩
  · rw [hsame, nextEffect, hnone]
    exact h
  · rw [himport, nextEffect, hnext]
    exact Builder.importBlock_state hL h (hp.tip next hnext) rfl

end RelaychainBuilder

namespace World

open Call Chain
open RelaychainBuilder (Error Pending SlotInvariant mutationEffect nextEffect)

variable {κ W ε A : Type} (P : RelayPrimitives) (H : RelayHost) (C : CollationBuilder κ W ε)

/-! ## The loop of `force_enact_collations` -/

/-- The mutation by which an entry is enacted, given its validation data. -/
def enactment (ε : Type) (P : RelayPrimitives) (H : RelayHost) (parent : Hash) (n : ℕ)
    (e : CollationEntry) (pvd : PersistedValidationData) :
    RelayStorage → (Bool × Outcome (Error ε) Unit) × RelayStorage :=
  RelayStorage.recordedEnact P H parent n pvd e.id e.collation e.generationParent

/-- The validation data that an entry is enacted with. -/
def validationData (ε : Type) (P : RelayPrimitives) (H : RelayHost) (parent : Hash)
    (e : CollationEntry) (w : World κ W) : Outcome (Error ε) PersistedValidationData :=
  (relayCall (RelaychainBuilder.persistedValidationData P H parent e.id) w).1

/-- What the enactment of an entry does to the best state. -/
def enactEffect (ε : Type) (P : RelayPrimitives) (H : RelayHost) (parent : Hash) (n : ℕ)
    (e : CollationEntry) (w : World κ W) (s : RelayStorage) : RelayStorage :=
  match validationData ε P H parent e w with
  | .ok pvd => mutationEffect P H (enactment ε P H parent n e pvd) w.relay s
  | _ => s

def loopEffect (parent : Hash) (n : ℕ) :
    List CollationEntry → World κ W → RelayStorage → RelayStorage
  | [], _, s => s
  | e :: es, w, s =>
    if (enactAndJudge P H C parent n e w).1.isOk
    then
      loopEffect parent n es (enactAndJudge P H C parent n e w).2 (enactEffect ε P H parent n e w s)
    else enactEffect ε P H parent n e w s

/-- No enactment of the loop fails after its revert. -/
def LoopSafe (parent : Hash) (n : ℕ) : List CollationEntry → World κ W → Prop
  | [], _ => True
  | e :: es, w =>
    (∀ pvd, validationData ε P H parent e w = .ok pvd →
      Builder.CommitSafe P.toPrimitives H.toHost w.relay.builder.chain none
        (enactment ε P H parent n e pvd)) ∧
    ((enactAndJudge P H C parent n e w).1.isOk = true →
      LoopSafe parent n es (enactAndJudge P H C parent n e w).2)

variable {P H C} {I : Chain RelayStorage → Option (Block × StorageProof) → Prop}

theorem judgeCollation_keeps (e : CollationEntry) :
    Keeps World.relay (judgeCollation C e : Call (World κ W) (Error ε) Unit) := by
  intro w
  rcases judgeCollation_cases (C := C) e w with ⟨h, -⟩ | ⟨reg, k, -, -, h⟩
  · rw [h]
  · rw [h]
    rfl

theorem enactAndJudge_relay (parent : Hash) (n : ℕ) (e : CollationEntry) (w : World κ W) :
    (enactAndJudge P H C parent n e w).2.relay = match validationData ε P H parent e w with
      | .ok pvd => (RelaychainBuilder.withMutState P H (enactment ε P H parent n e pvd) w.relay :
          Outcome (Error ε) _ × _).2
      | _ => w.relay := by
  have hjudge : (enactAndJudge P H C parent n e w).2.relay =
      (enactCollation (ε := ε) P H parent n e w).2.relay := by
    rw [enactAndJudge]
    rcases bind_cases (enactCollation (ε := ε) P H parent n e) (fun _ ↦ judgeCollation C e) w with
      ⟨_, -, h⟩ | ⟨-, -, h⟩
    · rw [h, judgeCollation_keeps]
    · rw [h]
  have hread := relayCall_of_read (RelaychainBuilder.persistedValidationData_keeps (ε := ε)
    (P := P) (H := H) parent e.id) w
  rw [hjudge, enactCollation]
  rcases hp : relayCall (ε := ε) (RelaychainBuilder.persistedValidationData P H parent e.id) w with
    ⟨pvd | x | _, v⟩
  · obtain rfl : v = w := by rw [hp] at hread; exact hread
    have hdata : validationData ε P H parent e v = .ok pvd := congrArg Prod.fst hp
    rw [bind_of_ok hp, hdata]
    -- what follows the mutation writes history only
    rcases bind_cases (relayCall (ε := ε) (RelaychainBuilder.withMutState P H
      (RelayStorage.recordedEnact P H parent n pvd e.id e.collation e.generationParent))) _ v with
      ⟨mutation, -, h⟩ | ⟨-, -, h⟩
    · rw [h, bind_of_ok (noteEnacted_apply e mutation.1 _)]
      change (if mutation.1 then _ else _ : World κ W).relay = _
      by_cases hm : mutation.1 = true
      · rw [if_pos hm]
        rfl
      · rw [if_neg hm]
        rfl
    · rw [h]
      rfl
  · obtain rfl : v = w := by rw [hp] at hread; exact hread
    have hdata : validationData ε P H parent e v = .err x := congrArg Prod.fst hp
    rw [bind_of_err hp, hdata]
  · obtain rfl : v = w := by rw [hp] at hread; exact hread
    have hdata : validationData ε P H parent e v = .panic := congrArg Prod.fst hp
    rw [bind_of_panic hp, hdata]

theorem enacting_keeps (parent : Hash) (n : ℕ) (l : List CollationEntry) :
    Keeps (fun w : World κ W ↦ (w.relay.next, w.relay.imports))
      (forEach (enactAndJudge P H C parent n) l) :=
  Keeps.forEach (fun e ↦ enactAndJudge_keeps (fun _ _ ↦ rfl) (fun _ _ ↦ rfl)
    (fun _ _ _ ↦ rfl) (fun _ _ _ _ _ _ ↦ rfl) parent n e) l

theorem enactAndJudge_preserves (hI : SlotInvariant κ ε P I) (hL : H.toHost.Lawful P.toPrimitives)
    (parent : Hash) (n : ℕ) (e : CollationEntry) :
    Preserves (fun w ↦ I w.relay.builder.chain w.relay.next) (enactAndJudge P H C parent n e) := by
  intro w h
  rw [enactAndJudge_relay]
  cases validationData ε P H parent e w with
  | ok pvd => exact hI.withMutState _ hL w.relay h
  | err x => exact h
  | panic => exact h

theorem enactAndJudge_state (hL : H.toHost.Lawful P.toPrimitives)
    {parent : Hash} {n : ℕ} {e : CollationEntry} {w : World κ W} {s : RelayStorage}
    (h : BestState w.relay.builder.chain s)
    (hsafe : ∀ pvd, validationData ε P H parent e w = .ok pvd →
      Builder.CommitSafe P.toPrimitives H.toHost w.relay.builder.chain none
        (enactment ε P H parent n e pvd)) :
    BestState (enactAndJudge P H C parent n e w).2.relay.builder.chain
      (enactEffect ε P H parent n e w s) := by
  rw [enactAndJudge_relay, enactEffect]
  cases hv : validationData ε P H parent e w with
  | ok pvd =>
    exact RelaychainBuilder.withMutState_state hL h fun _ ↦ hsafe pvd hv
  | err x => exact h
  | panic => exact h

theorem loop_state (hL : H.toHost.Lawful P.toPrimitives)
    {parent : Hash} {n : ℕ} : ∀ (l : List CollationEntry) {w : World κ W} {s : RelayStorage},
      LoopSafe P H C parent n l w → BestState w.relay.builder.chain s →
        BestState (forEach (enactAndJudge P H C parent n) l w).2.relay.builder.chain
          (loopEffect P H C parent n l w s) := by
  intro l
  induction l with
  | nil =>
    intro w s _ h
    exact h
  | cons e es ih =>
    intro w s hsafe h
    have hone := enactAndJudge_state (C := C) hL h hsafe.1
    rw [forEach_cons, loopEffect]
    rcases bind_cases (enactAndJudge P H C parent n e)
      (fun _ ↦ forEach (enactAndJudge P H C parent n) es) w with ⟨_, hok, hrest⟩ | ⟨hno, -, hrest⟩
    · have hisOk : (enactAndJudge P H C parent n e w).1.isOk = true := by
        rw [hok]
        rfl
      rw [hrest, if_pos hisOk]
      exact ih (hsafe.2 hisOk) hone
    · rw [hrest, hno, if_neg Bool.false_ne_true]
      exact hone

theorem collectLoop_keeps_builder (hd : Header) (w : World κ W) :
    (collectLoop P H C hd w).2.relay.builder = w.relay.builder ∧
      (collectLoop P H C hd w).2.relay.next = w.relay.next ∧
      (collectLoop P H C hd w).2.relay.imports = w.relay.imports := by
  have hkeep : Keeps (fun w : World κ W ↦ (w.relay.builder, w.relay.next, w.relay.imports))
      (forEach (collectFrom P H C w.relay.builder.chain.bestHash hd) w.relay.parachains.zipIdx) :=
    Keeps.forEach (fun q ↦ collectFrom_keeps (fun _ _ ↦ rfl) (fun _ _ _ _ _ ↦ rfl)
      (fun _ _ ↦ rfl) _ hd q) _
  obtain ⟨hb, hrest⟩ := Prod.mk.inj (hkeep w)
  exact ⟨hb, Prod.mk.inj hrest⟩

/-! ## An import -/

def importEffect (P : RelayPrimitives) (H : RelayHost) (C : CollationBuilder κ W ε) (w : World κ W)
    (s : RelayStorage) : RelayStorage :=
  let imported := relayCall (ε := ε) (RelaychainBuilder.importNext H) w
  let t := nextEffect P H w.relay s
  if imported.1.isOk then
    loopEffect P H C imported.2.relay.builder.chain.bestHash
      imported.2.relay.builder.chain.bestNumber imported.2.relay.collations imported.2 t
  else t

/-- No enactment of an import fails after its revert. -/
def ImportSafe (P : RelayPrimitives) (H : RelayHost) (C : CollationBuilder κ W ε) (w : World κ W) :
    Prop :=
  let imported := relayCall (ε := ε) (RelaychainBuilder.importNext H) w
  imported.1.isOk = true →
    LoopSafe P H C imported.2.relay.builder.chain.bestHash
      imported.2.relay.builder.chain.bestNumber imported.2.relay.collations imported.2

theorem ImportSafe.of_empty {w : World κ W} (h : w.relay.collations = []) :
    ImportSafe P H C w := by
  intro _
  have hempty : (relayCall (ε := ε) (RelaychainBuilder.importNext H) w).2.relay.collations = [] :=
    (Prod.mk.inj (importNext_keeps_tables w)).2.trans h
  rw [hempty]
  trivial

theorem importBlock_preserves (hI : SlotInvariant κ ε P I)
    (hL : H.toHost.Lawful P.toPrimitives) :
    Preserves (fun w ↦ I w.relay.builder.chain w.relay.next) (importBlock P H C) := by
  intro w h
  let imported := relayCall (ε := ε) (RelaychainBuilder.importNext H) w
  have hnext : I imported.2.relay.builder.chain imported.2.relay.next :=
    hI.importNext hL w.relay h
  rcases importBlock_cases (P := P) (H := H) (C := C) w with ⟨-, hstop⟩ | ⟨hd, u, hu, hcase⟩
  · rw [hstop]
    exact hnext
  · rw [show imported = (.ok hd, u) from hu] at hnext
    have hloop : I (enactLoop P H C u).2.relay.builder.chain (enactLoop P H C u).2.relay.next :=
      Preserves.forEach (fun e _ ↦ enactAndJudge_preserves hI hL _ _ e) u hnext
    rcases hcase with ⟨-, -, hstop⟩ | ⟨-, hcollect⟩
    · rw [hstop]
      exact hloop
    · obtain ⟨hb, hn, -⟩ := collectLoop_keeps_builder (P := P) (H := H) (C := C) hd
        (enactLoop P H C u).2.cleared
      rw [hcollect, hb, hn]
      exact hloop

theorem importBlock_state (hL : H.toHost.Lawful P.toPrimitives)
    {w : World κ W} {s : RelayStorage} (hp : Pending P w.relay)
    (h : BestState w.relay.builder.chain s) (hsafe : ImportSafe P H C w) :
    BestState (importBlock P H C w).2.relay.builder.chain
      (importEffect P H C w s) := by
  have hnext : BestState
      (relayCall (ε := ε) (RelaychainBuilder.importNext H) w).2.relay.builder.chain
      (nextEffect P H w.relay s) :=
    RelaychainBuilder.importNext_state hL hp h
  rw [importEffect]
  rw [ImportSafe] at hsafe
  rcases hi : relayCall (ε := ε) (RelaychainBuilder.importNext H) w with ⟨o, u⟩
  rw [hi] at hnext hsafe
  simp only at hnext hsafe ⊢
  by_cases hok : o.isOk = true
  · obtain ⟨hd, rfl⟩ := Outcome.isOk_iff.mp hok
    have hloop : BestState (enactLoop P H C u).2.relay.builder.chain _ :=
      loop_state hL u.relay.collations (hsafe hok) hnext
    rw [if_pos hok]
    rcases importBlock_cases (P := P) (H := H) (C := C) w with ⟨⟨-, hno⟩, -⟩ | ⟨hd', u', hu', hcase⟩
    · rw [hi] at hno
      cases hno
    · obtain ⟨-, rfl⟩ := Prod.mk.inj (hi.symm.trans hu')
      rcases hcase with ⟨-, -, hstop⟩ | ⟨-, hcollect⟩
      · rw [hstop]
        exact hloop
      · rw [hcollect, (collectLoop_keeps_builder _ _).1]
        exact hloop
  · rw [if_neg hok]
    rcases importBlock_cases (P := P) (H := H) (C := C) w with ⟨-, hstop⟩ | ⟨hd', u', hu', -⟩
    · rw [hstop, hi]
      exact hnext
    · obtain ⟨rfl, -⟩ := Prod.mk.inj (hi.symm.trans hu')
      exact absurd rfl hok

/-! ## Runs -/

/-- The public operations of the builder: those of `RelayOp`, and those that leave everything but
the transaction pool and the cache alone. -/
inductive PublicOp (κ W ε A : Type) where
  | relay (op : RelayOp κ W ε A)
  | withState (H : RelayHost) (exec : RelayStorage → A × RelayStorage)
  | withStateAt (H : RelayHost) (at_ : BlockId) (exec : RelayStorage → A × RelayStorage)
  | appendExtrinsic (H : RelayHost) (xt : Extrinsic)
  | appendExtrinsics (H : RelayHost) (xts : List Extrinsic)
  | appendTransition (aux : StoragePair)

def publicStep (P : RelayPrimitives) : PublicOp κ W ε A → Call (World κ W) (Error ε) (Reply A)
  | .relay op => relayStep P op
  | .withState H exec => Call.map .closure (relayCall (RelaychainBuilder.withState P H exec))
  | .withStateAt H at_ exec =>
    Call.map .closure (relayCall (RelaychainBuilder.withStateAt P H at_ exec))
  | .appendExtrinsic H xt => Call.map .hash (relayCall (RelaychainBuilder.appendExtrinsic H xt))
  | .appendExtrinsics H xts =>
    Call.map .hashes (relayCall (RelaychainBuilder.appendExtrinsics H xts))
  | .appendTransition aux =>
    Call.map (fun _ ↦ .done) (relayCall (RelaychainBuilder.appendTransition aux))

def PublicOp.Lawful (P : RelayPrimitives) : PublicOp κ W ε A → Prop
  | .relay (.onboardPara H _ _) => H.toHost.Lawful P.toPrimitives
  | .relay (.updateParaHead H _ _) => H.toHost.Lawful P.toPrimitives
  | .relay (.withMutState H _) => H.toHost.Lawful P.toPrimitives
  | .relay (.buildBlock H) => H.toHost.Lawful P.toPrimitives
  | .relay (.importBlock H _) => H.toHost.Lawful P.toPrimitives
  | _ => True

def effect (P : RelayPrimitives) : PublicOp κ W ε A → World κ W → RelayStorage → RelayStorage
  | .relay (.onboardPara H para _), w, s =>
    mutationEffect P H (fun s ↦ ((), RelayStorage.onboard P para s)) w.relay s
  | .relay (.updateParaHead H id head), w, s =>
    mutationEffect P H (fun s ↦ ((), RelayStorage.insertHead id head s)) w.relay s
  | .relay (.withMutState H exec), w, s => mutationEffect P H exec w.relay s
  | .relay (.importBlock H C), w, s => importEffect P H C w s
  | _, _, s => s

/-- The mutation `exec` is not refused after its revert, where it is made. -/
def MutationSafe (P : RelayPrimitives) (H : RelayHost) {R : Type}
    (exec : RelayStorage → R × RelayStorage) (w : World κ W) : Prop :=
  w.relay.next = none →
    Builder.CommitSafe P.toPrimitives H.toHost w.relay.builder.chain none exec

/-- The mutations that an operation makes are not refused after their revert. -/
def MutatesSafely (P : RelayPrimitives) : PublicOp κ W ε A → World κ W → Prop
  | .relay (.onboardPara H para _), w =>
    MutationSafe P H (fun s ↦ ((), RelayStorage.onboard P para s)) w
  | .relay (.updateParaHead H id head), w =>
    MutationSafe P H (fun s ↦ ((), RelayStorage.insertHead id head s)) w
  | .relay (.withMutState H exec), w => MutationSafe P H exec w
  | .relay (.importBlock H C), w => ImportSafe P H C w
  | _, _ => True

/-- The chain and the pending block. -/
def slot (w : World κ W) : Chain RelayStorage × Option (Block × StorageProof) :=
  (w.relay.builder.chain, w.relay.next)

theorem appendExtrinsic_keeps_slot (xt : Extrinsic) :
    Keeps (fun r ↦ (r.builder.chain, r.next))
      (RelaychainBuilder.appendExtrinsic H xt : Call (RelaychainBuilder κ) (Error ε) Hash) :=
  Keeps.mapErr fun r ↦ Prod.ext (Builder.appendExtrinsic_keeps xt r.builder) rfl

theorem appendExtrinsics_keeps_slot (xts : List Extrinsic) :
    Keeps (fun r ↦ (r.builder.chain, r.next))
      (RelaychainBuilder.appendExtrinsics H xts : Call (RelaychainBuilder κ) (Error ε) _) :=
  RelaychainBuilder.appendExtrinsics_frame (fun xt ↦ appendExtrinsic_keeps_slot xt) xts

theorem onboardPara_isOk (para : FudgeParaChain) (k : κ) (r : RelaychainBuilder κ) :
    (RelaychainBuilder.onboardPara P H para k r : Outcome (Error ε) Unit × _).1.isOk =
      (RelaychainBuilder.withMutState P H (fun s ↦ ((), RelayStorage.onboard P para s)) r :
        Outcome (Error ε) Unit × _).1.isOk := by
  rw [RelaychainBuilder.onboardPara]
  rcases bind_cases (RelaychainBuilder.withMutState P H fun s ↦
    ((), RelayStorage.onboard P para s) : Call _ (Error ε) Unit) _ r with
    ⟨_, hok, h⟩ | ⟨hno, hno', -⟩
  · rw [h, hok]
    rfl
  · rw [hno, hno']

theorem onboardPara_slot (para : FudgeParaChain) (k : κ) (w : World κ W) :
    slot (relayCall (ε := ε) (RelaychainBuilder.onboardPara P H para k) w).2 =
      slot (relayCall (ε := ε) (RelaychainBuilder.withMutState P H fun s ↦
        ((), RelayStorage.onboard P para s)) w).2 := by
  have hpush : Keeps (fun r : RelaychainBuilder κ ↦ (r.builder.chain, r.next))
      (Call.modify fun r ↦ { r with parachains := r.parachains ++ [(para.id, k)] } :
        Call _ (Error ε) Unit) := Keeps.modify fun _ ↦ rfl
  change (fun r : RelaychainBuilder κ ↦ (r.builder.chain, r.next))
    (RelaychainBuilder.onboardPara P H para k w.relay : Outcome (Error ε) Unit × _).2 = _
  rw [RelaychainBuilder.onboardPara]
  rcases bind_cases (RelaychainBuilder.withMutState P H fun s ↦
    ((), RelayStorage.onboard P para s) : Call _ (Error ε) Unit) _ w.relay with
    ⟨_, -, h⟩ | ⟨-, -, h⟩
  · rw [h]
    exact hpush _
  · rw [h]
    rfl

/-- **What a public operation does to the chain and the slot**: it is an import, a build, a
mutation, or nothing. -/
theorem publicStep_cases (op : PublicOp κ W ε A) (w : World κ W) :
    (∃ H C, op = .relay (.importBlock H C)) ∨ (∃ H, op = .relay (.buildBlock H)) ∨
      (∃ (R : Type) (H : RelayHost) (exec : RelayStorage → R × RelayStorage),
        (op.Lawful P → H.toHost.Lawful P.toPrimitives) ∧
        (MutatesSafely P op w → MutationSafe P H exec w) ∧
        (∀ s, effect P op w s = mutationEffect P H exec w.relay s) ∧
        slot (publicStep P op w).2 =
          slot (relayCall (ε := ε) (RelaychainBuilder.withMutState P H exec) w).2) ∨
      (slot (publicStep P op w).2 = slot w ∧ ∀ s, effect P op w s = s) := by
  have hread : ∀ {α : Type} (c : Call (RelaychainBuilder κ) (Error ε) α),
      Keeps (fun r ↦ (r.builder.chain, r.next)) c → slot (relayCall c w).2 = slot w :=
    fun c hc ↦ hc w.relay
  cases op with
  | relay op =>
    cases op with
    | onboardPara H para k =>
      exact Or.inr (Or.inr (Or.inl ⟨Unit, H, fun s ↦ ((), RelayStorage.onboard P para s), id, id,
        fun _ ↦ rfl, onboardPara_slot para k w⟩))
    | updateParaHead H id' head =>
      exact Or.inr (Or.inr (Or.inl ⟨Unit, H, fun s ↦ ((), RelayStorage.insertHead id' head s), id,
        id, fun _ ↦ rfl, rfl⟩))
    | withMutState H exec =>
      exact Or.inr (Or.inr (Or.inl ⟨A, H, exec, id, id, fun _ ↦ rfl, rfl⟩))
    | buildBlock H => exact Or.inr (Or.inl ⟨H, rfl⟩)
    | importBlock H C => exact Or.inl ⟨H, C, rfl⟩
    | collators f => exact Or.inr (Or.inr (Or.inr ⟨rfl, fun _ ↦ rfl⟩))
  | withState H exec =>
    exact Or.inr (Or.inr (Or.inr
      ⟨hread _ (RelaychainBuilder.withState_keeps _), fun _ ↦ rfl⟩))
  | withStateAt H at_ exec =>
    exact Or.inr (Or.inr (Or.inr ⟨hread _ (RelaychainBuilder.core_keeps_of_read
      (Builder.withState_dryRun_keeps (some at_) _)), fun _ ↦ rfl⟩))
  | appendExtrinsic H xt =>
    exact Or.inr (Or.inr (Or.inr ⟨hread _ (appendExtrinsic_keeps_slot xt), fun _ ↦ rfl⟩))
  | appendExtrinsics H xts =>
    exact Or.inr (Or.inr (Or.inr ⟨hread _ (appendExtrinsics_keeps_slot xts), fun _ ↦ rfl⟩))
  | appendTransition aux =>
    exact Or.inr (Or.inr (Or.inr ⟨rfl, fun _ ↦ rfl⟩))

theorem publicStep_buildBlock (H : RelayHost) (w : World κ W) :
    (publicStep P (.relay (.buildBlock H)) w : Outcome (Error ε) (Reply A) × _).2.relay =
      (RelaychainBuilder.buildBlock P H w.relay : Outcome (Error ε) Block × _).2 :=
  rfl

/-- **Every operation keeps what its parts keep** of the chain and the slot, whatever it returns. -/
theorem publicStep_preserves (hI : SlotInvariant κ ε P I) (op : PublicOp κ W ε A) (w : World κ W)
    (hop : op.Lawful P) (h : I w.relay.builder.chain w.relay.next) :
    I (publicStep P op w).2.relay.builder.chain (publicStep P op w).2.relay.next := by
  rcases publicStep_cases (P := P) op w with
    ⟨H, C, rfl⟩ | ⟨H, rfl⟩ | ⟨R, H, exec, hL, -, -, hslot⟩ | ⟨hslot, -⟩
  · exact importBlock_preserves hI hop w h
  · rw [publicStep_buildBlock]
    exact hI.buildBlock hop w.relay h
  · obtain ⟨hchain, hnext⟩ := Prod.mk.inj hslot
    rw [hchain, hnext]
    exact hI.withMutState _ (hL hop) w.relay h
  · obtain ⟨hchain, hnext⟩ := Prod.mk.inj hslot
    rw [hchain, hnext]
    exact h

/-- **Every operation keeps the pending block on the best block**, whatever it returns. -/
theorem publicStep_pending (op : PublicOp κ W ε A) (w : World κ W) (hop : op.Lawful P)
    (h : Pending P w.relay) : Pending P (publicStep P op w).2.relay :=
  publicStep_preserves (RelaychainBuilder.pending_slotInvariant κ ε P) op w hop h

/-- While a block waits, only an import changes the chain. -/
theorem publicStep_chain (op : PublicOp κ W ε A) (w : World κ W)
    (hop : ∀ H C, op ≠ .relay (.importBlock H C)) (hnext : w.relay.next.isSome = true) :
    (publicStep P op w).2.relay.builder.chain = w.relay.builder.chain := by
  rcases publicStep_cases (P := P) op w with
    ⟨H, C, rfl⟩ | ⟨H, rfl⟩ | ⟨R, H, exec, -, -, -, hslot⟩ | ⟨hslot, -⟩
  · exact absurd rfl (hop H C)
  · rw [publicStep_buildBlock, RelaychainBuilder.buildBlock_builder]
  · rw [(Prod.mk.inj hslot).1]
    rcases RelaychainBuilder.withMutState_cases (ε := ε) (P := P) (H := H)
      exec w.relay with ⟨-, hpanic⟩ | ⟨hnone, -⟩
    · rw [relayCall_apply, hpanic]
    · rw [hnone] at hnext
      cases hnext
  · exact (Prod.mk.inj hslot).1

theorem publicStep_state (op : PublicOp κ W ε A) (w : World κ W)
    {s : RelayStorage} (hop : op.Lawful P ∧ MutatesSafely P op w)
    (h : Pending P w.relay ∧ BestState w.relay.builder.chain s) :
    Pending P (publicStep P op w).2.relay ∧
      BestState (publicStep P op w).2.relay.builder.chain (effect P op w s) := by
  obtain ⟨hL, hsafe⟩ := hop
  obtain ⟨hp, hs⟩ := h
  refine ⟨publicStep_pending op w hL hp, ?_⟩
  rcases publicStep_cases (P := P) op w with
    ⟨H, C, rfl⟩ | ⟨H, rfl⟩ | ⟨R, H, exec, hL', hsafe', heffect, hslot⟩ | ⟨hslot, heffect⟩
  · exact importBlock_state hL hp hs hsafe
  · rw [publicStep_buildBlock, RelaychainBuilder.buildBlock_builder]
    exact hs
  · rw [(Prod.mk.inj hslot).1, heffect]
    exact RelaychainBuilder.withMutState_state (hL' hL) hs (hsafe' hsafe)
  · rw [(Prod.mk.inj hslot).1, heffect]
    exact hs

end World

end Fudge
