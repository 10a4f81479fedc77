import Fudge.Call.Mirror
import Fudge.Relay.Pending
import Fudge.Standalone.Builder

/-!
# A relay chain builder refines a stand-alone builder

The relay chain builder repeats the stand-alone builder: the core builder, the slot and the imports
are the same, and so are the calls that use them. What it adds are the parachains, and all that they
do to the chain goes through `with_mut_state`. So its calls follow batches of calls of a stand-alone
builder: onboarding and a new head are mutations, and an import is an import with one mutation after
it for each collation that is enacted.

A call of the relay chain builder that is no import gives up exactly if its batch does, and with the
same error. An import gives up if its batch does, and also if a collator or the state does not
answer.
-/

namespace Fudge

/-! ## What the closure returns is passed on -/

namespace Builder

open Call

variable {S R R' : Type} {P : Primitives S} {H : Host S} {V : R → R' → Prop}
  {exec : S → R × S} {exec' : S → R' × S}

/-- The two closures write the same, and what they return is related. -/
def WriteAlike (V : R → R' → Prop) (exec : S → R × S) (exec' : S → R' × S) : Prop :=
  ∀ s, V (exec s).1 (exec' s).1 ∧ (exec s).2 = (exec' s).2

theorem executeWithMut_mirrors (h : WriteAlike V exec exec') (i : Option BlockId)
    (v : StateVersion) (s : S) :
    Mirrors id id (fun q q' ↦ V q.1 q'.1 ∧ q.2 = q'.2) (executeWithMut P H i exec v s)
      (executeWithMut P H i exec' v s) := by
  have hs := h s
  rw [executeWithMut, executeWithMut]
  generalize exec s = q at hs ⊢
  generalize exec' s = q' at hs ⊢
  obtain ⟨r, post⟩ := q
  obtain ⟨r', post'⟩ := q'
  obtain ⟨hreturned, rfl⟩ : V r r' ∧ post = post' := hs
  exact (Mirrors.refl _).bind fun _ _ _ ↦ (Mirrors.refl _).bind fun _ _ _ ↦
    Mirrors.pure ⟨hreturned, rfl⟩

theorem mutateGenesis_mirrors (h : WriteAlike V exec exec') (op : BlockImportOperation S) (s : S) :
    Mirrors id id (fun q q' ↦ V q.1 q'.1 ∧ q.2 = q'.2) (mutateGenesis P H op s exec)
      (mutateGenesis P H op s exec') := by
  refine (Mirrors.refl _).bind fun v _ hv ↦ ?_
  subst hv
  refine (executeWithMut_mirrors h _ v s).bind ?_
  rintro ⟨r, changes⟩ ⟨r', _⟩ ⟨hr, rfl⟩
  refine (Mirrors.refl _).bind fun op' _ hop ↦ ?_
  subst hop
  refine (Mirrors.refl _).bind fun v' _ hv ↦ ?_
  subst hv
  refine (Mirrors.refl _).bind fun op'' _ hop ↦ ?_
  subst hop
  exact Mirrors.pure ⟨hr, rfl⟩

theorem rebuild_mirrors (h : WriteAlike V exec exec') (hash : Hash) (s : S)
    (op : BlockImportOperation S) :
    Mirrors id id (fun q q' ↦ V q.1 q'.1 ∧ q.2 = q'.2) (rebuild P H hash s op exec)
      (rebuild P H hash s op exec') := by
  refine (Mirrors.refl _).bind fun v _ hv ↦ ?_
  subst hv
  refine (executeWithMut_mirrors h _ v s).bind ?_
  rintro ⟨r, changes⟩ ⟨r', _⟩ ⟨hr, rfl⟩
  refine (Mirrors.refl _).bind fun op' _ hop ↦ ?_
  subst hop
  exact Mirrors.pure ⟨hr, rfl⟩

theorem mutate_mirrors (h : WriteAlike V exec exec') (number : ℕ) (hash : Hash) (s : S)
    (op : BlockImportOperation S) :
    Mirrors id id (fun q q' ↦ V q.1 q'.1 ∧ q.2 = q'.2) (mutate P H number hash s op exec)
      (mutate P H number hash s op exec') := by
  rw [mutate, mutate]
  split_ifs with hgenesis
  · exact mutateGenesis_mirrors h op s
  · exact (Mirrors.refl _).bind fun _ _ _ ↦ rebuild_mirrors h hash s op

/-- **A `with_state` does not look at what its closure returns.** -/
theorem withState_mirrors (h : WriteAlike V exec exec') (op : Operation) (at_ : Option BlockId) :
    Mirrors id id V (withState P H op at_ exec) (withState P H op at_ exec') := by
  cases op with
  | dryRun =>
    refine Mirrors.bind (Mirrors.refl (openState H at_)) ?_
    rintro ⟨hash, s⟩ _ rfl
    exact Mirrors.pure (h s).1
  | commit =>
    refine Mirrors.bind (Mirrors.refl (beginCommit H at_)) ?_
    rintro ⟨hash, s, number⟩ _ rfl
    refine (mutate_mirrors h number hash s _).bind ?_
    rintro ⟨r, op⟩ ⟨r', _⟩ ⟨hr, rfl⟩
    exact (Mirrors.refl _).bind fun _ _ _ ↦ Mirrors.pure hr

theorem proposeBlock_mirrors {ε δ : Type} (wrap : δ → ε) (core : Error → δ)
    (providers inherents digest : InnerError → δ) :
    Mirrors id wrap (· = ·)
      (proposeBlock P H (wrap ∘ core) (wrap ∘ providers) (wrap ∘ inherents) (wrap ∘ digest))
      (proposeBlock P H core providers inherents digest) := by
  have hcore : ∀ {α : Type} (c : Call (Builder S) Error α),
      Mirrors id wrap (· = ·) (mapErr (wrap ∘ core) c) (mapErr core c) :=
    fun c ↦ (Mirrors.refl c).mapErr fun _ ↦ rfl
  have hquery : ∀ {α : Type} (a : Except InnerError α) (mk : InnerError → δ),
      Mirrors id wrap (· = ·) (query (fun _ : Builder S ↦ a) (wrap ∘ mk)) (query (fun _ ↦ a) mk) :=
    fun a mk ↦ Mirrors.query (fun _ ↦ rfl) fun _ ↦ rfl
  refine (hcore _).bind fun latest _ h ↦ ?_
  subst h
  refine (hcore _).bind fun asked _ h ↦ ?_
  subst h
  refine (hquery asked _).bind fun provider _ h ↦ ?_
  subst h
  refine (hquery provider _).bind fun data _ h ↦ ?_
  subst h
  refine (hcore _).bind fun parent _ h ↦ ?_
  subst h
  refine (hcore _).bind fun made _ h ↦ ?_
  subst h
  refine (hquery made _).bind fun d _ h ↦ ?_
  subst h
  exact hcore _

end Builder

/-! ## The calls of the two builders -/

namespace RelaychainBuilder

open Call

variable {κ ε α β R : Type} {P : RelayPrimitives} {H : RelayHost} {V : α → β → Prop}

/-- The stand-alone builder in a relay chain builder. -/
def standAlone (r : RelaychainBuilder κ) : StandAloneBuilder RelayStorage :=
  ⟨r.builder, r.next, r.imports⟩

def Error.ofStandAlone : StandAloneBuilder.Error → Error ε
  | .coreBuilder e => .coreBuilder e
  | .initiator e => .initiator e
  | .inherentDataProvidersCreation e => .inherentDataProvidersCreation e
  | .inherentDataCreation e => .inherentDataCreation e
  | .digestCreation e => .digestCreation e
  | .nextBlockNotFound => .nextBlockNotFound

theorem core_mirrors {c : Call (Builder RelayStorage) Builder.Error α}
    {d : Call (Builder RelayStorage) Builder.Error β} (h : Mirrors id id V c d) :
    Mirrors standAlone Error.ofStandAlone V
      (core c : Call (RelaychainBuilder κ) (Error ε) α) (StandAloneBuilder.core d) := by
  have hzoom : Mirrors standAlone id V
      (zoom (·.builder) (fun b (r : RelaychainBuilder κ) ↦ { r with builder := b }) c)
      (zoom (·.builder) (fun b (a : StandAloneBuilder _) ↦ { a with builder := b }) d) :=
    h.zoom (fun _ ↦ rfl) fun _ _ ↦ rfl
  exact hzoom.mapErr fun _ ↦ rfl

theorem withMutState_mirrors (exec : RelayStorage → R × RelayStorage) :
    Mirrors standAlone Error.ofStandAlone (fun _ _ ↦ True)
      (withMutState P H exec : Call (RelaychainBuilder κ) (Error ε) R)
      (StandAloneBuilder.withMutState P.toPrimitives H.toHost fun s ↦ ((), (exec s).2)) := by
  have hwrite : Builder.WriteAlike (fun _ _ ↦ True) exec fun s ↦ ((), (exec s).2) :=
    fun _ ↦ ⟨trivial, rfl⟩
  exact Mirrors.bind (Mirrors.assert fun _ ↦ rfl) fun _ _ _ ↦
    core_mirrors (Builder.withState_mirrors hwrite _ _)

theorem appendExtrinsics_mirrors (xts : List Extrinsic) :
    Mirrors standAlone Error.ofStandAlone (· = ·)
      (appendExtrinsics H xts : Call (RelaychainBuilder κ) (Error ε) (List Hash))
      (StandAloneBuilder.appendExtrinsics H.toHost xts) := by
  induction xts with
  | nil => exact Mirrors.pure rfl
  | cons xt xts ih =>
    refine (core_mirrors (Mirrors.refl _)).bind fun h _ hh ↦ ?_
    subst hh
    refine ih.bind fun hs _ hhs ↦ ?_
    subst hhs
    exact Mirrors.pure rfl

theorem proposeBlock_mirrors :
    Mirrors standAlone Error.ofStandAlone (· = ·)
      (proposeBlock P H : Call (RelaychainBuilder κ) (Error ε) Proposal)
      (StandAloneBuilder.proposeBlock P.toPrimitives H.toHost) := by
  have hcore : Mirrors id (Error.ofStandAlone (ε := ε)) (· = ·)
      (Builder.proposeBlock P.toPrimitives H.toHost .coreBuilder .inherentDataProvidersCreation
        .inherentDataCreation .digestCreation)
      (Builder.proposeBlock P.toPrimitives H.toHost .coreBuilder .inherentDataProvidersCreation
        .inherentDataCreation .digestCreation) :=
    Builder.proposeBlock_mirrors Error.ofStandAlone .coreBuilder .inherentDataProvidersCreation
      .inherentDataCreation .digestCreation
  exact hcore.zoom (fun _ ↦ rfl) fun _ _ ↦ rfl

theorem buildBlock_mirrors :
    Mirrors standAlone Error.ofStandAlone (· = ·)
      (buildBlock P H : Call (RelaychainBuilder κ) (Error ε) Block)
      (StandAloneBuilder.buildBlock P.toPrimitives H.toHost) := by
  refine Mirrors.bind (Mirrors.assert fun _ ↦ rfl) fun _ _ _ ↦
    proposeBlock_mirrors.bind fun p _ hp ↦ ?_
  subst hp
  exact Mirrors.bind (Mirrors.modify fun _ ↦ rfl) fun _ _ _ ↦ Mirrors.pure rfl

theorem importNext_mirrors :
    Mirrors standAlone Error.ofStandAlone (fun _ _ ↦ True)
      (importNext H : Call (RelaychainBuilder κ) (Error ε) Header)
      (StandAloneBuilder.importBlock H.toHost) := by
  refine Mirrors.bind (Mirrors.read (V := (· = ·)) fun _ ↦ rfl) fun next _ hnext ↦ ?_
  subst hnext
  refine Mirrors.bind (Mirrors.modify fun _ ↦ rfl) fun _ _ _ ↦ ?_
  have hrequire : Mirrors standAlone Error.ofStandAlone (· = ·)
      (require .nextBlockNotFound next : Call (RelaychainBuilder κ) (Error ε) _)
      (require .nextBlockNotFound next) :=
    Mirrors.require StandAloneBuilder.Error.nextBlockNotFound next
  refine hrequire.bind ?_
  rintro ⟨block, proof⟩ _ rfl
  refine (core_mirrors (Mirrors.refl _)).bind fun _ _ _ ↦ ?_
  intro r
  exact ⟨Outcome.Like.ok trivial, rfl⟩

end RelaychainBuilder

/-! ## Among the collators -/

namespace World

open Call
open RelaychainBuilder (Error)
open StandAloneBuilder (StandAloneOp standAloneStep)

variable {κ W ε A α β : Type} {P : RelayPrimitives} {H : RelayHost} {C : CollationBuilder κ W ε}
  {V : α → β → Prop}

/-- The stand-alone builder in the relay chain builder of a world. -/
def standAlone (w : World κ W) : StandAloneBuilder RelayStorage := w.relay.standAlone

theorem relayCall_mirrors {c : Call (RelaychainBuilder κ) (Error ε) α}
    {d : Call (StandAloneBuilder RelayStorage) StandAloneBuilder.Error β}
    (h : Mirrors RelaychainBuilder.standAlone Error.ofStandAlone V c d) :
    Mirrors standAlone Error.ofStandAlone V (relayCall c : Call (World κ W) (Error ε) α) d :=
  h.zoom_left (fun _ ↦ rfl) fun _ _ ↦ rfl

theorem drop_mirrors {c : Call (RelaychainBuilder κ) (Error ε) α}
    {d : Call (StandAloneBuilder RelayStorage) StandAloneBuilder.Error β} {g : β → Reply Unit}
    {op : StandAloneOp RelayStorage Unit}
    (h : Mirrors RelaychainBuilder.standAlone Error.ofStandAlone V c d)
    (hop : standAloneStep P.toPrimitives op = Call.map g d) :
    Mirrors standAlone Error.ofStandAlone (fun _ _ ↦ True)
      (relayCall c : Call (World κ W) (Error ε) α)
      (forEach (standAloneStep P.toPrimitives) [op]) := by
  refine Mirrors.forEach_singleton (V := fun _ _ ↦ True) ?_
  rw [hop]
  exact (relayCall_mirrors h).map_right

/-- The mutation by which an entry is enacted, if its validation data is there. -/
def enactBatch (ε : Type) (P : RelayPrimitives) (H : RelayHost) (parent : Hash) (n : ℕ)
    (e : CollationEntry) (w : World κ W) : List (StandAloneOp RelayStorage Unit) :=
  match validationData ε P H parent e w with
  | .ok pvd => [.withMutState H.toHost fun s ↦ ((), (enactment ε P H parent n e pvd s).2)]
  | _ => []

/-- The mutations of the loop of `force_enact_collations`. -/
def loopBatch (P : RelayPrimitives) (H : RelayHost) (C : CollationBuilder κ W ε) (parent : Hash)
    (n : ℕ) : List CollationEntry → World κ W → List (StandAloneOp RelayStorage Unit)
  | [], _ => []
  | e :: es, w => enactBatch ε P H parent n e w ++
      if (enactAndJudge P H C parent n e w).1.isOk
      then loopBatch P H C parent n es (enactAndJudge P H C parent n e w).2 else []

def importBatch (P : RelayPrimitives) (H : RelayHost) (C : CollationBuilder κ W ε)
    (w : World κ W) : List (StandAloneOp RelayStorage Unit) :=
  let imported := relayCall (ε := ε) (RelaychainBuilder.importNext H) w
  .importBlock H.toHost :: if imported.1.isOk then
    loopBatch P H C imported.2.relay.builder.chain.bestHash
      imported.2.relay.builder.chain.bestNumber imported.2.relay.collations imported.2
  else []

/-- The calls of a stand-alone builder that a call of a relay chain builder comes to. -/
def batch (P : RelayPrimitives) :
    PublicOp κ W ε A → World κ W → List (StandAloneOp RelayStorage Unit)
  | .relay (.onboardPara H para _), _ =>
    [.withMutState H.toHost fun s ↦ ((), RelayStorage.onboard P para s)]
  | .relay (.updateParaHead H id head), _ =>
    [.withMutState H.toHost fun s ↦ ((), RelayStorage.insertHead id head s)]
  | .relay (.withMutState H exec), _ => [.withMutState H.toHost fun s ↦ ((), (exec s).2)]
  | .relay (.buildBlock H), _ => [.buildBlock H.toHost]
  | .relay (.importBlock H C), w => importBatch P H C w
  | .relay (.collators _), _ => []
  | .withState H exec, _ => [.withState H.toHost fun s ↦ ((), (exec s).2)]
  | .withStateAt H at_ exec, _ => [.withStateAt H.toHost at_ fun s ↦ ((), (exec s).2)]
  | .appendExtrinsic H xt, _ => [.appendExtrinsic H.toHost xt]
  | .appendExtrinsics H xts, _ => [.appendExtrinsics H.toHost xts]
  | .appendTransition aux, _ => [.appendTransition aux]

/-- The call follows this batch. -/
abbrev Follows (P : RelayPrimitives) (l : List (StandAloneOp RelayStorage Unit))
    (c : Call (World κ W) (Error ε) α) (w : World κ W) : Prop :=
  FollowsIn (standAloneStep P.toPrimitives) standAlone Error.ofStandAlone l c w

/-! ## An import -/

theorem enactCollation_follows (parent : Hash) (n : ℕ) (e : CollationEntry) (w : World κ W) :
    Follows P (enactBatch ε P H parent n e w)
      (enactCollation P H parent n e : Call (World κ W) (Error ε) Unit) w := by
  have hread := relayCall_of_read (RelaychainBuilder.persistedValidationData_keeps (ε := ε)
    (P := P) (H := H) parent e.id) w
  rcases hp : relayCall (ε := ε) (RelaychainBuilder.persistedValidationData P H parent e.id) w with
    ⟨pvd | x | _, v⟩
  · obtain rfl : v = w := by rw [hp] at hread; exact hread
    have hdata : validationData ε P H parent e v = .ok pvd := congrArg Prod.fst hp
    rw [enactBatch, hdata]
    have hmutation : Follows (ε := ε) P
        [.withMutState H.toHost fun s ↦ ((), (enactment ε P H parent n e pvd s).2)]
        (relayCall (RelaychainBuilder.withMutState P H (enactment ε P H parent n e pvd))) v :=
      FollowsIn.of_mirrors (drop_mirrors (RelaychainBuilder.withMutState_mirrors _) rfl)
    have hrest := hmutation.bind
      (g := fun m ↦ noteEnacted e m.1 >>= fun _ ↦ Call.returned m.2) [] fun m t _ ↦ by
        refine FollowsIn.of_keeps ?_
        rw [bind_of_ok (noteEnacted_apply e m.1 t)]
        change standAlone (if m.1 = true then _ else _) = _
        split_ifs
        · rfl
        · rfl
    rw [ite_self, List.append_nil] at hrest
    exact hrest.congr (bind_of_ok hp)
  · obtain rfl : v = w := by rw [hp] at hread; exact hread
    have hdata : validationData ε P H parent e v = .err x := congrArg Prod.fst hp
    rw [enactBatch, hdata]
    refine FollowsIn.of_keeps ?_
    rw [enactCollation, bind_of_err hp]
  · obtain rfl : v = w := by rw [hp] at hread; exact hread
    have hdata : validationData ε P H parent e v = .panic := congrArg Prod.fst hp
    rw [enactBatch, hdata]
    refine FollowsIn.of_keeps ?_
    rw [enactCollation, bind_of_panic hp]

theorem enactAndJudge_follows (parent : Hash) (n : ℕ) (e : CollationEntry) (w : World κ W) :
    Follows P (enactBatch ε P H parent n e w) (enactAndJudge P H C parent n e) w := by
  have h := (enactCollation_follows (ε := ε) (P := P) (H := H) parent n e w).bind
    (g := fun _ ↦ judgeCollation C e) [] fun _ t _ ↦
      FollowsIn.of_keeps (congrArg RelaychainBuilder.standAlone (judgeCollation_keeps e t))
  rwa [ite_self, List.append_nil] at h

theorem loop_follows (parent : Hash) (n : ℕ) : ∀ (l : List CollationEntry) (w : World κ W),
    Follows P (loopBatch P H C parent n l w) (forEach (enactAndJudge P H C parent n) l) w := by
  intro l
  induction l with
  | nil => exact fun _ ↦ FollowsIn.of_keeps rfl
  | cons e es ih =>
    intro w
    rw [loopBatch, forEach_cons]
    refine (enactAndJudge_follows parent n e w).bind _ fun _ t ht ↦ ?_
    rw [ht]
    exact ih t

theorem forceEnactCollations_follows (u : World κ W) :
    Follows P (loopBatch P H C u.relay.builder.chain.bestHash u.relay.builder.chain.bestNumber
      u.relay.collations u) (forceEnactCollations P H C) u := by
  have hloop := (loop_follows (P := P) (H := H) (C := C) u.relay.builder.chain.bestHash
    u.relay.builder.chain.bestNumber u.relay.collations u).bind
      (g := fun _ ↦ Call.modify cleared) [] fun _ t _ ↦ FollowsIn.of_keeps rfl
  rw [ite_self, List.append_nil] at hloop
  have hforce : forceEnactCollations P H C u = (forEach (enactAndJudge P H C
      u.relay.builder.chain.bestHash u.relay.builder.chain.bestNumber) u.relay.collations >>=
        fun _ ↦ Call.modify cleared) u := rfl
  exact hloop.congr hforce

theorem collectCollations_standAlone (hd : Header) (w : World κ W) :
    (collectCollations P H C hd w).2.standAlone = w.standAlone := by
  have hcollect : collectCollations P H C hd w = collectLoop P H C hd w := rfl
  obtain ⟨hbuilder, hslot, himports⟩ := collectLoop_keeps_builder (P := P) (H := H) (C := C) hd w
  rw [hcollect, standAlone, RelaychainBuilder.standAlone, hbuilder, hslot, himports]
  rfl

/-- **An import follows its batch.** -/
theorem importBlock_follows (w : World κ W) :
    Follows P (importBatch P H C w) (importBlock P H C) w := by
  have hnext : Follows P [.importBlock H.toHost]
      (relayCall (RelaychainBuilder.importNext H) : Call (World κ W) (Error ε) Header) w :=
    FollowsIn.of_mirrors (drop_mirrors RelaychainBuilder.importNext_mirrors rfl)
  rw [importBatch, importBlock]
  refine hnext.bind _ fun hd u hu ↦ ?_
  rw [hu]
  have hrest := (forceEnactCollations_follows (P := P) (H := H) (C := C) u).bind
    (g := fun _ ↦ collectCollations P H C hd) [] fun _ t _ ↦
      FollowsIn.of_keeps (collectCollations_standAlone hd t)
  rwa [ite_self, List.append_nil] at hrest

/-! ## Runs -/

/-- A call that is no import mirrors one call of the stand-alone builder, or changes nothing that it
would see. -/
theorem publicStep_mirrors (op : PublicOp κ W ε A) (hop : ∀ H C, op ≠ .relay (.importBlock H C))
    (w : World κ W) :
    Mirrors standAlone Error.ofStandAlone (fun _ _ ↦ True) (publicStep P op)
      (forEach (standAloneStep P.toPrimitives) (batch P op w)) := by
  have hread : ∀ {H : RelayHost} {at_ : Option BlockId} (exec : RelayStorage → A × RelayStorage),
      Mirrors RelaychainBuilder.standAlone Error.ofStandAlone (fun _ _ ↦ True)
        (RelaychainBuilder.core (Builder.withState P.toPrimitives H.toHost .dryRun at_ exec) :
          Call (RelaychainBuilder κ) (Error ε) A)
        (StandAloneBuilder.core (Builder.withState P.toPrimitives H.toHost .dryRun at_
          fun s ↦ ((), (exec s).2))) := by
    intro H at_ exec
    have hwrite : Builder.WriteAlike (fun _ _ ↦ True) exec fun s ↦ ((), (exec s).2) :=
      fun _ ↦ ⟨trivial, rfl⟩
    exact RelaychainBuilder.core_mirrors (Builder.withState_mirrors hwrite _ _)
  cases op with
  | relay op =>
    cases op with
    | onboardPara H para k =>
      exact (drop_mirrors ((RelaychainBuilder.withMutState_mirrors _).bind_quiet
        fun _ _ ↦ ⟨rfl, rfl⟩) rfl).map_left
    | updateParaHead H id head =>
      exact (drop_mirrors (RelaychainBuilder.withMutState_mirrors _) rfl).map_left
    | withMutState H exec =>
      exact (drop_mirrors (RelaychainBuilder.withMutState_mirrors exec) rfl).map_left
    | buildBlock H => exact (drop_mirrors RelaychainBuilder.buildBlock_mirrors rfl).map_left
    | importBlock H C => exact absurd rfl (hop H C)
    | collators f => exact fun _ ↦ ⟨Outcome.Like.ok trivial, rfl⟩
  | withState H exec => exact (drop_mirrors (hread exec) rfl).map_left
  | withStateAt H at_ exec => exact (drop_mirrors (hread exec) rfl).map_left
  | appendExtrinsic H xt =>
    exact (drop_mirrors (RelaychainBuilder.core_mirrors (Mirrors.refl _)) rfl).map_left
  | appendExtrinsics H xts =>
    exact (drop_mirrors (RelaychainBuilder.appendExtrinsics_mirrors xts) rfl).map_left
  | appendTransition aux =>
    exact (drop_mirrors (RelaychainBuilder.core_mirrors (Mirrors.refl _)) rfl).map_left

theorem publicStep_follows (op : PublicOp κ W ε A) (w : World κ W) :
    Follows P (batch P op w) (publicStep P op) w := by
  by_cases hop : ∃ H C, op = .relay (.importBlock H C)
  · obtain ⟨H, C, rfl⟩ := hop
    exact (importBlock_follows w).map
  · exact FollowsIn.of_mirrors (publicStep_mirrors op (fun H C h ↦ hop ⟨H, C, h⟩) w)

/-- **A relay chain builder refines a stand-alone builder.** Every run of it, seen without the
parachains, is the run of the batches of its calls. What a call returns is what its batch returns,
if the batch gives up or the call is no import. -/
theorem relay_refines_standAlone (P : RelayPrimitives) :
    (∀ (ops : List (PublicOp κ W ε A)) (w : World κ W), (run (publicStep P) ops w).standAlone =
      run (forEach (standAloneStep P.toPrimitives)) (batches (publicStep P) (batch P) ops w)
        w.standAlone) ∧
    ∀ (op : PublicOp κ W ε A) (w : World κ W),
      let made := forEach (standAloneStep P.toPrimitives) (batch P op w) w.standAlone
      made.1.isOk = false ∨ (∀ H C, op ≠ .relay (.importBlock H C)) →
        (publicStep P op w).1.Like Error.ofStandAlone (fun _ _ ↦ True) made.1 := by
  refine ⟨run_batches publicStep_follows, ?_⟩
  intro op w made h
  rcases h with hno | hop
  · exact (publicStep_follows op w).2 hno
  · exact (publicStep_mirrors op hop w w).1

end World

end Fudge
