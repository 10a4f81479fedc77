import Fudge.Core.Blocks
import Fudge.Relay.Builder

/-!
# What the steps of an import can do

An import of the relay chain builder is two loops, and everything proved about imports is an
induction over them. This file says once what one iteration of each loop can do to the world,
early returns included; later files quote `enactAndJudge_cases` and `collectFrom_cases` and never
unfold an iteration.

The first loop touches the builder underneath, the collators and the history. The second touches
the collators, the history, and the table. Neither touches the list of registrations.
-/

namespace Fudge

open Call

namespace RelaychainBuilder

variable {κ ε R γ : Type} {P : RelayPrimitives} {H : RelayHost} {f : RelaychainBuilder κ → γ}

/-! ## Frames of the builder -/

theorem core_keeps {c : Call (Builder RelayStorage) Builder.Error R}
    (hf : ∀ b r, f { r with builder := b } = f r) :
    Keeps f (core c : Call (RelaychainBuilder κ) (Error ε) R) :=
  Keeps.mapErr (Keeps.zoom hf)

theorem core_keeps_of_read {c : Call (Builder RelayStorage) Builder.Error R} (hc : Keeps id c) :
    Keeps f (core c : Call (RelaychainBuilder κ) (Error ε) R) :=
  Keeps.mapErr (Keeps.zoom_of_read (fun _ ↦ rfl) hc)

theorem withState_keeps (exec : RelayStorage → R × RelayStorage) :
    Keeps f (withState P H exec : Call (RelaychainBuilder κ) (Error ε) R) :=
  core_keeps_of_read (Builder.withState_dryRun_keeps none exec)

theorem appendExtrinsics_frame
    (hf : ∀ xt, Keeps f (appendExtrinsic H xt : Call (RelaychainBuilder κ) (Error ε) Hash))
    (xts : List Extrinsic) :
    Keeps f (appendExtrinsics H xts : Call (RelaychainBuilder κ) (Error ε) (List Hash)) := by
  induction xts with
  | nil => exact Keeps.pure []
  | cons xt xts ih => exact Keeps.bind (hf xt) fun _ ↦ Keeps.bind ih fun _ ↦ Keeps.pure _

theorem withMutState_keeps (hf : ∀ b r, f { r with builder := b } = f r)
    (exec : RelayStorage → R × RelayStorage) :
    Keeps f (withMutState P H exec : Call (RelaychainBuilder κ) (Error ε) R) :=
  Keeps.bind (Keeps.assert _) fun _ ↦ core_keeps hf

theorem withMutState_eq_ok {exec : RelayStorage → R × RelayStorage} {r r' : RelaychainBuilder κ}
    {a : R} (h : (withMutState P H exec : Call _ (Error ε) R) r = (.ok a, r')) :
    r.next = none ∧ ∃ b, Builder.commit P.toPrimitives H.toHost none exec r.builder = (.ok a, b) ∧
      r' = { r with builder := b } := by
  obtain ⟨_, t, hassert, hcore⟩ := bind_eq_ok.mp h
  obtain ⟨hnext, rfl⟩ := assert_eq_ok.mp hassert
  obtain ⟨b, hb, hr⟩ := zoom_eq_ok.mp (mapErr_eq_ok.mp hcore)
  exact ⟨by simpa using hnext, b, hb, hr⟩

theorem updateParaHead_keeps (hf : ∀ b r, f { r with builder := b } = f r) (id : Id)
    (head : HeadData) :
    Keeps f (updateParaHead P H id head : Call (RelaychainBuilder κ) (Error ε) Unit) :=
  withMutState_keeps hf _

theorem onboardPara_cases (para : FudgeParaChain) (k : κ) (r : RelaychainBuilder κ) :
    ((onboardPara P H para k r : Outcome (Error ε) Unit × _).2.parachains = r.parachains ∧
        (onboardPara P H para k r : Outcome (Error ε) Unit × _).2.collations = r.collations) ∨
      (onboardPara P H para k r : Outcome (Error ε) Unit × _).2.parachains =
          r.parachains ++ [(para.id, k)] ∧
        (onboardPara P H para k r : Outcome (Error ε) Unit × _).2.collations = r.collations := by
  have hkeep : Keeps (fun r : RelaychainBuilder κ ↦ (r.parachains, r.collations))
      (withMutState P H (fun s ↦ ((), RelayStorage.onboard P para s)) : Call _ (Error ε) Unit) :=
    withMutState_keeps (fun _ _ ↦ rfl) _
  obtain ⟨hp, hc⟩ := Prod.mk.inj (hkeep r)
  rw [onboardPara]
  rcases bind_cases (withMutState P H fun s ↦ ((), RelayStorage.onboard P para s) :
    Call _ (Error ε) Unit) _ r with ⟨_, -, h⟩ | ⟨-, -, h⟩
  · rw [h]
    exact Or.inr ⟨congrArg (· ++ [(para.id, k)]) hp, hc⟩
  · rw [h]
    exact Or.inl ⟨hp, hc⟩

theorem proposeBlock_keeps :
    Keeps f (proposeBlock P H : Call (RelaychainBuilder κ) (Error ε) Proposal) :=
  Keeps.zoom_of_read (fun _ ↦ rfl) (Builder.proposeBlock_keeps _ _ _ _)

theorem buildBlock_keeps (hf : ∀ n r, f { r with next := n } = f r) :
    Keeps f (buildBlock P H : Call (RelaychainBuilder κ) (Error ε) Block) :=
  Keeps.bind (Keeps.assert _) fun _ ↦ Keeps.bind proposeBlock_keeps fun _ ↦
    Keeps.bind (Keeps.modify fun r ↦ hf _ r) fun _ ↦ Keeps.pure _

theorem importNext_keeps (hb : ∀ b r, f { r with builder := b } = f r)
    (hn : ∀ r, f { r with next := none } = f r) (hi : ∀ i r, f { r with imports := i } = f r) :
    Keeps f (importNext H : Call (RelaychainBuilder κ) (Error ε) Header) :=
  Keeps.bind (Keeps.read _) fun next ↦ Keeps.bind (Keeps.modify hn) fun _ ↦
    Keeps.bind (Keeps.require _ next) fun _ ↦ Keeps.bind (core_keeps hb) fun _ ↦
      Keeps.bind (Keeps.modify fun r ↦ hi _ r) fun _ ↦ Keeps.pure _

/-- The parameters under which a relay chain block is imported. -/
def nextParams (block : Block) : BlockImportParams :=
  { origin := .networkInitialSync, header := block.header, body := some block.extrinsics,
    finalized := true, forkChoice := some (.custom true) }

theorem importNext_eq_ok {r r' : RelaychainBuilder κ} {hd : Header}
    (h : (importNext H : Call _ (Error ε) Header) r = (.ok hd, r')) :
    ∃ next b result, r.next = some next ∧ hd = next.1.header ∧
      H.importBlock r.builder.chain (nextParams next.1) = (.ok result, b.chain) ∧
      r' = { r with builder := b, next := none, imports := r.imports ++ [next] } := by
  rw [importNext] at h
  obtain ⟨_, _, h₁, k₁⟩ := bind_eq_ok.mp h
  obtain ⟨rfl, rfl⟩ : r.next = _ ∧ r = _ := by simpa using h₁
  obtain ⟨_, _, h₂, k₂⟩ := bind_eq_ok.mp k₁
  obtain rfl := (Prod.mk.inj h₂).2
  obtain ⟨next, _, h₃, k₃⟩ := bind_eq_ok.mp k₂
  obtain ⟨hnext, rfl⟩ := require_eq_ok.mp h₃
  obtain ⟨u, _, h₄, k₄⟩ := bind_eq_ok.mp k₃
  obtain ⟨b, hb, rfl⟩ := zoom_eq_ok.mp (mapErr_eq_ok.mp h₄)
  obtain ⟨_, _, h₅, k₅⟩ := bind_eq_ok.mp k₄
  obtain rfl := (Prod.mk.inj h₅).2
  obtain ⟨rfl, rfl⟩ : next.1.header = hd ∧ _ = r' := by simpa using k₅
  have hchain : b.chain = (H.importBlock r.builder.chain (nextParams next.1)).2 := by
    rw [← Builder.importBlock_chain]
    exact congrArg (·.2.chain) hb.symm
  have hok : (Builder.importBlock H.toHost (nextParams next.1) r.builder).1.isOk = true :=
    congrArg (·.1.isOk) hb
  obtain ⟨result, hresult⟩ := (Builder.importBlock_isOk _ _).mp hok
  exact ⟨next, b, result, hnext, rfl, Prod.ext hresult hchain.symm, rfl⟩

theorem buildBlock_eq_ok {r r' : RelaychainBuilder κ} {block : Block}
    (h : (buildBlock P H : Call _ (Error ε) Block) r = (.ok block, r')) :
    r.next = none ∧ ∃ hd inherents digest proposal,
      H.header r.builder.chain r.builder.chain.bestHash = .ok (some hd) ∧
      H.propose r.builder.chain r.builder.pool hd inherents digest = .ok proposal ∧
      r' = { r with next := some (proposal.block, proposal.proof) } := by
  rw [buildBlock] at h
  obtain ⟨_, _, h₁, k₁⟩ := bind_eq_ok.mp h
  obtain ⟨hnext, rfl⟩ := assert_eq_ok.mp h₁
  obtain ⟨proposal, _, h₂, k₂⟩ := bind_eq_ok.mp k₁
  obtain ⟨b, hb, rfl⟩ := zoom_eq_ok.mp h₂
  obtain ⟨rfl, hd, inherents, digest, hhd, hpropose⟩ := Builder.proposeBlock_eq_ok hb
  obtain ⟨_, _, h₃, k₃⟩ := bind_eq_ok.mp k₂
  obtain rfl := (Prod.mk.inj h₃).2
  obtain rfl := (Prod.mk.inj k₃).2
  exact ⟨by simpa using hnext, hd, inherents, digest, proposal, hhd, hpropose, rfl⟩

theorem persistedValidationData_keeps (parent : Hash) (id : Id) :
    Keeps f (persistedValidationData P H parent id :
      Call (RelaychainBuilder κ) (Error ε) PersistedValidationData) :=
  Keeps.bind (Keeps.read _) fun _ ↦ Keeps.bind (withState_keeps _) fun _ ↦
    Keeps.bind (Keeps.query _ _) fun pvd ↦ Keeps.require _ pvd

theorem collatorFor_keeps (id : Id) :
    Keeps f (collatorFor id : Call (RelaychainBuilder κ) (Error ε) (ℕ × κ)) :=
  Keeps.bind (Keeps.read _) fun _ ↦ Keeps.bind (Keeps.require _ _) fun _ ↦
    Keeps.bind (Keeps.require _ _) fun _ ↦ Keeps.pure _

/-! ## The collator a verdict goes to -/

/-- The place `reg` holds the first registration of `id`, and its collator is `k`. -/
def IsFirst (parachains : List (Id × κ)) (id : Id) (reg : ℕ) (k : κ) : Prop :=
  parachains[reg]? = some (id, k) ∧ ∀ j, j < reg → ∀ q, parachains[j]? = some q → q.1 ≠ id

theorem isFirst_of_findIdx {parachains : List (Id × κ)} {id : Id} {reg : ℕ} {q : Id × κ}
    (hi : parachains.findIdx? (fun registration ↦ registration.1 == id) = some reg)
    (hq : parachains[reg]? = some q) : IsFirst parachains id reg q.2 := by
  obtain ⟨hlt, hself, hbefore⟩ := List.findIdx?_eq_some_iff_getElem.mp hi
  obtain ⟨_, rfl⟩ := List.getElem?_eq_some_iff.mp hq
  have hid : parachains[reg].1 = id := by simpa using hself
  refine ⟨by rw [hq, ← hid], ?_⟩
  intro j hj q hjq heq
  obtain ⟨_, rfl⟩ := List.getElem?_eq_some_iff.mp hjq
  exact hbefore j hj (by simpa using heq)

theorem IsFirst.unique {parachains : List (Id × κ)} {id : Id} {i j : ℕ} {k l : κ}
    (hi : IsFirst parachains id i k) (hj : IsFirst parachains id j l) : i = j ∧ k = l := by
  obtain rfl : i = j := by
    rcases Nat.lt_trichotomy i j with h | h | h
    · exact absurd rfl (hj.2 i h _ hi.1)
    · exact h
    · exact absurd rfl (hi.2 j h _ hj.1)
  exact ⟨rfl, by simpa using hi.1.symm.trans hj.1⟩

theorem IsFirst.mem {parachains : List (Id × κ)} {id : Id} {reg : ℕ} {k : κ}
    (h : IsFirst parachains id reg k) : id ∈ parachains.map Prod.fst :=
  List.mem_map.mpr ⟨(id, k), List.mem_of_getElem? h.1, rfl⟩

theorem IsFirst.append {parachains : List (Id × κ)} {id : Id} {reg : ℕ} {k : κ}
    (h : IsFirst parachains id reg k) (more : List (Id × κ)) :
    IsFirst (parachains ++ more) id reg k := by
  have hlt : reg < parachains.length := by
    obtain ⟨hlt, -⟩ := List.getElem?_eq_some_iff.mp h.1
    exact hlt
  refine ⟨by rw [List.getElem?_append_left hlt, h.1], ?_⟩
  intro j hj q hq
  rw [List.getElem?_append_left (by omega)] at hq
  exact h.2 j hj q hq

/-- The collator of the first registration of `id`. -/
def firstFor (parachains : List (Id × κ)) (id : Id) : Option κ :=
  (parachains.find? fun registration ↦ registration.1 == id).map Prod.snd

theorem IsFirst.firstFor {parachains : List (Id × κ)} {id : Id} {reg : ℕ} {k : κ}
    (h : IsFirst parachains id reg k) : firstFor parachains id = some k := by
  obtain ⟨hlt, heq⟩ := List.getElem?_eq_some_iff.mp h.1
  have hfind : parachains.find? (fun registration ↦ registration.1 == id) = some (id, k) := by
    rw [List.find?_eq_some_iff_getElem]
    refine ⟨by simp, reg, hlt, heq, fun j hj ↦ ?_⟩
    have hne := h.2 j hj parachains[j] (List.getElem?_eq_getElem (by omega))
    simpa using hne
  rw [RelaychainBuilder.firstFor, hfind]
  rfl

theorem exists_isFirst {parachains : List (Id × κ)} {id : Id} {k : κ}
    (h : firstFor parachains id = some k) : ∃ reg, IsFirst parachains id reg k := by
  rw [firstFor, Option.map_eq_some_iff] at h
  obtain ⟨q, hq, rfl⟩ := h
  rw [List.find?_eq_some_iff_getElem] at hq
  obtain ⟨hid, reg, hlt, rfl, hbefore⟩ := hq
  refine ⟨reg, ?_, fun j hj q hjq heq ↦ ?_⟩
  · rw [List.getElem?_eq_getElem hlt, ← show parachains[reg].1 = id by simpa using hid]
  · obtain ⟨_, rfl⟩ := List.getElem?_eq_some_iff.mp hjq
    exact absurd heq (by simpa using hbefore j hj)

theorem exists_isFirst_le {parachains : List (Id × κ)} {id : Id} {reg : ℕ} {k : κ}
    (h : parachains[reg]? = some (id, k)) :
    ∃ first l, first ≤ reg ∧ IsFirst parachains id first l := by
  have hsome : (firstFor parachains id).isSome = true := by
    rw [firstFor, Option.isSome_map, List.find?_isSome]
    exact ⟨(id, k), List.mem_of_getElem? h, by simp⟩
  obtain ⟨l, hl⟩ := Option.isSome_iff_exists.mp hsome
  obtain ⟨first, hfirst⟩ := exists_isFirst hl
  refine ⟨first, l, ?_, hfirst⟩
  by_contra hlt
  exact hfirst.2 reg (by omega) _ h rfl

theorem collatorFor_eq_ok {id : Id} {r r' : RelaychainBuilder κ} {q : ℕ × κ}
    (h : (collatorFor id : Call (RelaychainBuilder κ) (Error ε) (ℕ × κ)) r = (.ok q, r')) :
    IsFirst r.parachains id q.1 q.2 ∧ r' = r := by
  rw [collatorFor] at h
  simp only [bind_eq_ok, read_apply, require_eq_ok, pure_apply, Prod.mk.injEq,
    Outcome.ok.injEq] at h
  obtain ⟨_, _, ⟨rfl, rfl⟩, index, _, ⟨hi, rfl⟩, reg, _, ⟨hr, rfl⟩, rfl, rfl⟩ := h
  have hfirst := isFirst_of_findIdx hi hr
  exact ⟨hfirst, rfl⟩

theorem collatorFor_of_mem {id : Id} {r : RelaychainBuilder κ}
    (h : id ∈ r.parachains.map Prod.fst) :
    ∃ q, (collatorFor id : Call (RelaychainBuilder κ) (Error ε) (ℕ × κ)) r = (.ok q, r) := by
  obtain ⟨p, hp, rfl⟩ := List.mem_map.mp h
  have hsome : (r.parachains.findIdx? fun registration ↦ registration.1 == p.1).isSome = true := by
    rw [List.findIdx?_isSome, List.any_eq_true]
    exact ⟨p, hp, by simp⟩
  obtain ⟨index, hi⟩ := Option.isSome_iff_exists.mp hsome
  obtain ⟨hlt, -, -⟩ := List.findIdx?_eq_some_iff_getElem.mp hi
  have hget : r.parachains[index]? = some r.parachains[index] := List.getElem?_eq_getElem hlt
  refine ⟨(index, r.parachains[index].2), ?_⟩
  rw [collatorFor]
  simp only [bind_eq_ok, read_apply, require_eq_ok, pure_apply, Prod.mk.injEq, Outcome.ok.injEq]
  exact ⟨_, _, ⟨rfl, rfl⟩, index, _, ⟨hi, rfl⟩, _, _, ⟨hget, rfl⟩, ⟨rfl, rfl⟩, rfl⟩

end RelaychainBuilder

namespace World

open RelaychainBuilder (Error IsFirst)

variable {κ W ε R α γ : Type} {P : RelayPrimitives} {H : RelayHost} {C : CollationBuilder κ W ε}

/-- The world with another core builder under the relay chain builder. -/
def withBuilder (b : Builder RelayStorage) (w : World κ W) : World κ W :=
  { w with relay := { w.relay with builder := b } }

theorem relayCall_apply (c : Call (RelaychainBuilder κ) (Error ε) α) (w : World κ W) :
    relayCall c w = ((c w.relay).1, { w with relay := (c w.relay).2 }) := rfl

theorem relayCall_of_read {c : Call (RelaychainBuilder κ) (Error ε) α} (hc : Keeps id c)
    (w : World κ W) : (relayCall c w).2 = w := by
  have h : (c w.relay).2 = w.relay := hc w.relay
  rw [relayCall_apply, h]

theorem relayCall_keeps {c : Call (RelaychainBuilder κ) (Error ε) α} {f : RelaychainBuilder κ → γ}
    (hc : Keeps f c) : Keeps (fun w : World κ W ↦ f w.relay) (relayCall c) :=
  fun w ↦ hc w.relay

theorem relayCall_frame {c : Call (RelaychainBuilder κ) (Error ε) α} {f : World κ W → γ}
    (hf : ∀ r w, f { w with relay := r } = f w) : Keeps f (relayCall c) :=
  Keeps.zoom hf

theorem relayCall_withMutState (exec : RelayStorage → R × RelayStorage) (w : World κ W) :
    (relayCall (RelaychainBuilder.withMutState P H exec : Call _ (Error ε) R) w).2 =
      w.withBuilder
        (RelaychainBuilder.withMutState P H exec w.relay : Outcome (Error ε) R × _).2.builder := by
  have hkeep : Keeps (fun r : RelaychainBuilder κ ↦ (r.next, r.imports, r.parachains, r.collations))
      (RelaychainBuilder.withMutState P H exec : Call _ (Error ε) R) :=
    RelaychainBuilder.withMutState_keeps (fun _ _ ↦ rfl) exec
  have hrelay := hkeep w.relay
  rw [relayCall_apply, withBuilder]
  rcases hr : (RelaychainBuilder.withMutState P H exec w.relay : Outcome (Error ε) R × _)
    with ⟨o, b, n, i, p, c⟩
  rw [hr] at hrelay
  simp only [Prod.mk.injEq] at hrelay
  obtain ⟨rfl, rfl, rfl, rfl⟩ := hrelay
  rfl

/-- A committed enactment returns `Ok` only after the force-enactment. -/
theorem recordedEnact_reached {parent : Hash} {n : ℕ} {pvd : PersistedValidationData} {id : Id}
    {c : Collation} {hd : Header} {s : RelayStorage}
    (h : (RelayStorage.recordedEnact (ε := ε) P H parent n pvd id c hd s).1.2.isOk = true) :
    (RelayStorage.recordedEnact (ε := ε) P H parent n pvd id c hd s).1.1 = true := by
  obtain ⟨a, ha⟩ := Outcome.isOk_iff.mp h
  obtain ⟨u, t, hu, -⟩ := bind_eq_ok.mp (Prod.ext ha rfl)
  change (RelayStorage.insertCandidate (ε := ε) P H parent n pvd id c hd s).1.isOk = true
  rw [hu]
  rfl

theorem noteEnacted_apply (e : CollationEntry) (reached : Bool) (w : World κ W) :
    (noteEnacted e reached : Call (World κ W) (Error ε) Unit) w =
      (.ok (), if reached then w.note (.enacted e (w.head e.id)) else w) := rfl

/-- The world after the enactment of `e` was committed. -/
def enactedWorld (b : Builder RelayStorage) (e : CollationEntry) (w : World κ W) : World κ W :=
  (w.withBuilder b).note (.enacted e ((w.withBuilder b).head e.id))

/-- The world after the verdict on `e` was given. -/
def judgedWorld (C : CollationBuilder κ W ε) (reg : ℕ) (k : κ) (e : CollationEntry)
    (w : World κ W) : World κ W :=
  { w with collators := (C.judge k .approved w.collators).2 }.note
    (.judged reg e (C.judge k .approved w.collators).1.isOk w.collators
      (C.judge k .approved w.collators).2)

/-- The mutation that enacts `e` is committed, and its closure gets as far as the force-enactment;
`result` is what the closure returns. -/
def Commits (P : RelayPrimitives) (H : RelayHost) (parent : Hash) (n : ℕ) (e : CollationEntry)
    (w : World κ W) (result : Outcome (Error ε) Unit) : Prop :=
  ∃ pvd v v', relayCall (ε := ε) (RelaychainBuilder.persistedValidationData P H parent e.id) w =
      (.ok pvd, v) ∧
    relayCall (ε := ε) (RelaychainBuilder.withMutState P H (RelayStorage.recordedEnact P H parent n
      pvd e.id e.collation e.generationParent)) v = (.ok (true, result), v')

/-- The enactment of `e`, with its force-enactment, was committed on the core builder `b₀`. -/
def EnactedBy (ε : Type) (P : RelayPrimitives) (H : RelayHost) (parent : Hash) (n : ℕ)
    (e : CollationEntry) (b₀ b : Builder RelayStorage) : Prop :=
  ∃ (pvd : PersistedValidationData) (result : Outcome (Error ε) Unit),
    Builder.commit P.toPrimitives H.toHost none (RelayStorage.recordedEnact P H parent n pvd e.id
      e.collation e.generationParent) b₀ = (.ok (true, result), b)

theorem enactCollation_of_commits {parent : Hash} {n : ℕ} {e : CollationEntry} {w : World κ W}
    {result : Outcome (Error ε) Unit} (h : Commits P H parent n e w result) :
    ∃ b, EnactedBy ε P H parent n e w.relay.builder b ∧
      enactCollation P H parent n e w = (result, w.enactedWorld b e) := by
  obtain ⟨pvd, v, v', hp, hm⟩ := h
  obtain rfl : v = w := by
    have hread := relayCall_of_read (RelaychainBuilder.persistedValidationData_keeps (ε := ε)
      (P := P) (H := H) parent e.id) w
    rwa [hp] at hread
  obtain ⟨r, hr, rfl⟩ := zoom_eq_ok.mp hm
  obtain ⟨-, b, hb, rfl⟩ := RelaychainBuilder.withMutState_eq_ok hr
  refine ⟨b, ⟨pvd, result, hb⟩, ?_⟩
  rw [enactCollation, bind_of_ok hp, bind_of_ok hm, bind_of_ok (noteEnacted_apply e true _)]
  rfl

/-- Without a committed enactment nothing but the core builder is replaced, and the call fails. -/
theorem enactCollation_of_not_commits {parent : Hash} {n : ℕ} {e : CollationEntry} {w : World κ W}
    (h : ¬ ∃ result : Outcome (Error ε) Unit, Commits P H parent n e w result) :
    ∃ b, (enactCollation (ε := ε) P H parent n e w).2 = w.withBuilder b ∧
      (enactCollation (ε := ε) P H parent n e w).1.isOk = false := by
  rw [enactCollation]
  have hread := relayCall_of_read (RelaychainBuilder.persistedValidationData_keeps (ε := ε)
    (P := P) (H := H) parent e.id) w
  rcases bind_cases (relayCall (ε := ε)
      (RelaychainBuilder.persistedValidationData P H parent e.id)) _ w with
    ⟨pvd, hpvd, hp⟩ | ⟨-, hp⟩
  · rw [hp, hread]
    rw [hread] at hpvd
    have hwrite := relayCall_withMutState (ε := ε) (P := P) (H := H)
      (RelayStorage.recordedEnact (ε := ε) P H parent n pvd e.id e.collation e.generationParent) w
    rcases bind_cases (relayCall (ε := ε) (RelaychainBuilder.withMutState P H
      (RelayStorage.recordedEnact P H parent n pvd e.id e.collation e.generationParent))) _ w with
      ⟨⟨reached, result⟩, hm, hq⟩ | ⟨-, hq⟩
    · obtain rfl : reached = false := by
        by_contra hreached
        rw [Bool.not_eq_false] at hreached
        subst hreached
        exact h ⟨result, pvd, w, _, hpvd, hm⟩
      rw [hq, hwrite, bind_of_ok (noteEnacted_apply e false _)]
      refine ⟨_, rfl, ?_⟩
      obtain ⟨r', hr, -⟩ := zoom_eq_ok.mp hm
      obtain ⟨-, b, hb, -⟩ := RelaychainBuilder.withMutState_eq_ok hr
      obtain ⟨_, s, _, _, _, _, -, -, -, hs, -⟩ := Builder.commit_eq_ok.mp hb
      obtain ⟨hfalse, rfl⟩ := Prod.mk.inj hs
      by_contra hok
      rw [Bool.not_eq_false] at hok
      exact Bool.false_ne_true (hfalse.trans (recordedEnact_reached hok))
    · rw [hq.2, hwrite]
      exact ⟨_, rfl, hq.1⟩
  · rw [hp.2, hread]
    exact ⟨w.relay.builder, rfl, hp.1⟩

/-- **What enacting one collation can do**: it replaces the core builder, and if it got as far as
the force-enactment, as a successful call does, this is in the log. -/
theorem enactCollation_cases (parent : Hash) (n : ℕ) (e : CollationEntry) (w : World κ W) :
    ∃ b, ((enactCollation (ε := ε) P H parent n e w).2 = w.withBuilder b ∧
        (enactCollation (ε := ε) P H parent n e w).1.isOk = false) ∨
      (EnactedBy ε P H parent n e w.relay.builder b ∧
        (enactCollation (ε := ε) P H parent n e w).2 = w.enactedWorld b e) := by
  by_cases h : ∃ result : Outcome (Error ε) Unit, Commits P H parent n e w result
  · obtain ⟨result, h⟩ := h
    obtain ⟨b, hby, hb⟩ := enactCollation_of_commits h
    exact ⟨b, Or.inr ⟨hby, by rw [hb]⟩⟩
  · obtain ⟨b, hb⟩ := enactCollation_of_not_commits h
    exact ⟨b, Or.inl hb⟩

theorem judge_apply (reg : ℕ) (k : κ) (e : CollationEntry) (w : World κ W) :
    (judge C reg k e w).1.isOk = (C.judge k .approved w.collators).1.isOk ∧
      (judge C reg k e w).2 = w.judgedWorld C reg k e := by
  rw [judge, judgedWorld]
  rcases C.judge k .approved w.collators with ⟨_ | _ | _, v⟩ <;> exact ⟨rfl, rfl⟩

theorem judgeCollation_of_isFirst {e : CollationEntry} {w : World κ W} {reg : ℕ} {k : κ}
    (h : IsFirst w.relay.parachains e.id reg k) :
    (judgeCollation C e w).1.isOk = (C.judge k .approved w.collators).1.isOk ∧
      (judgeCollation C e w).2 = w.judgedWorld C reg k e := by
  obtain ⟨q, hq⟩ := RelaychainBuilder.collatorFor_of_mem (ε := ε) (r := w.relay) h.mem
  obtain ⟨hfirst, -⟩ := RelaychainBuilder.collatorFor_eq_ok hq
  obtain ⟨hreg, hk⟩ := hfirst.unique h
  have hcall : relayCall (ε := ε) (RelaychainBuilder.collatorFor e.id) w = (.ok q, w) :=
    zoom_eq_ok.mpr ⟨w.relay, hq, rfl⟩
  rw [judgeCollation, bind_of_ok hcall, hreg, hk]
  exact judge_apply reg k e w

/-- What judging one collation can do: it leaves the world alone if the id is not registered, and
else it gives the verdict. -/
theorem judgeCollation_cases (e : CollationEntry) (w : World κ W) :
    ((judgeCollation C e w).2 = w ∧ (judgeCollation C e w).1.isOk = false) ∨
      ∃ reg k, IsFirst w.relay.parachains e.id reg k ∧
        (judgeCollation C e w).1.isOk = (C.judge k .approved w.collators).1.isOk ∧
        (judgeCollation C e w).2 = w.judgedWorld C reg k e := by
  have hread := relayCall_of_read (RelaychainBuilder.collatorFor_keeps (ε := ε) e.id) w
  rcases bind_cases (relayCall (ε := ε) (RelaychainBuilder.collatorFor e.id))
      (fun q ↦ judge C q.1 q.2 e) w with ⟨q, hq, -⟩ | ⟨-, hj⟩
  · obtain ⟨r', hr, -⟩ := zoom_eq_ok.mp hq
    obtain ⟨hfirst, -⟩ := RelaychainBuilder.collatorFor_eq_ok hr
    exact Or.inr ⟨q.1, q.2, hfirst, judgeCollation_of_isFirst hfirst⟩
  · exact Or.inl ⟨hj.2.trans hread, hj.1⟩

/-- **What one iteration of `force_enact_collations` can do.** It ends before the enactment, or
between the enactment and the verdict, or with the verdict. -/
theorem enactAndJudge_cases (parent : Hash) (n : ℕ) (e : CollationEntry) (w : World κ W) :
    ∃ b, ((enactAndJudge P H C parent n e w).2 = w.withBuilder b ∧
        (enactAndJudge P H C parent n e w).1.isOk = false) ∨
      (EnactedBy ε P H parent n e w.relay.builder b ∧
        (enactAndJudge P H C parent n e w).2 = w.enactedWorld b e ∧
        (enactAndJudge P H C parent n e w).1.isOk = false) ∨
      EnactedBy ε P H parent n e w.relay.builder b ∧ ∃ reg k,
        IsFirst w.relay.parachains e.id reg k ∧
        (enactAndJudge P H C parent n e w).1.isOk = (C.judge k .approved w.collators).1.isOk ∧
        (enactAndJudge P H C parent n e w).2 = (w.enactedWorld b e).judgedWorld C reg k e := by
  rw [enactAndJudge]
  obtain ⟨b, henact⟩ := enactCollation_cases (ε := ε) (P := P) (H := H) parent n e w
  refine ⟨b, ?_⟩
  rcases bind_cases (enactCollation (ε := ε) P H parent n e) (fun _ ↦ judgeCollation C e) w with
    ⟨u, hu, hj⟩ | ⟨-, hj⟩
  · rcases henact with ⟨-, hno⟩ | ⟨hby, henacted⟩
    · rw [hu] at hno
      cases hno
    · rw [hj, henacted]
      rcases judgeCollation_cases (C := C) e (w.enactedWorld b e) with hquiet | hjudged
      · exact Or.inr (Or.inl ⟨hby, hquiet⟩)
      · exact Or.inr (Or.inr ⟨hby, hjudged⟩)
  · rw [hj.2]
    rcases henact with ⟨hquiet, -⟩ | ⟨hby, henacted⟩
    · exact Or.inl ⟨hquiet, hj.1⟩
    · exact Or.inr (Or.inl ⟨hby, henacted, hj.1⟩)

theorem enactAndJudge_keeps {f : World κ W → γ} (hb : ∀ b w, f (withBuilder b w) = f w)
    (hc : ∀ v w, f { w with collators := v } = f w)
    (he : ∀ e h w, f (note (.enacted e h) w) = f w)
    (hj : ∀ reg e ok v v' w, f (note (.judged reg e ok v v') w) = f w) (parent : Hash) (n : ℕ)
    (e : CollationEntry) : Keeps f (enactAndJudge P H C parent n e) := by
  intro w
  obtain ⟨b, ⟨h, -⟩ | ⟨-, h, -⟩ | ⟨-, reg, k, -, -, h⟩⟩ :=
    enactAndJudge_cases (P := P) (H := H) (C := C) parent n e w
  · rw [h, hb]
  · rw [h, enactedWorld, he, hb]
  · rw [h, judgedWorld, hj, hc, enactedWorld, he, hb]

/-! ## One iteration of `collect_collations` -/

theorem collect_cases (hd : Header) (reg : ℕ) (id : Id) (c : Collation) (w : World κ W) :
    ((∃ e ∈ w.relay.collations, e.id = id) ∧ collect hd reg id c w = w) ∨
      ((∀ e ∈ w.relay.collations, e.id ≠ id) ∧
        collect hd reg id c w = w.push ⟨id, c, hd, reg, w.tickets⟩) := by
  rw [collect]
  by_cases hany : (w.relay.collations.any fun entry ↦ entry.id == id) = true
  · rw [if_pos hany]
    obtain ⟨e, he, heq⟩ := List.any_eq_true.mp hany
    exact Or.inl ⟨⟨e, he, by simpa using heq⟩, rfl⟩
  · rw [if_neg hany]
    refine Or.inr ⟨fun e he heq ↦ hany ?_, rfl⟩
    exact List.any_eq_true.mpr ⟨e, he, by simpa using heq⟩

def repliedWorld (parentHead : Header) (reg : ℕ) (id : Id) (reply : Option Collation) (v : W)
    (w : World κ W) : World κ W :=
  match reply with
  | some c => collect parentHead reg id c
      ({ w with collators := v }.note (.polled reg id reply w.collators))
  | none => { w with collators := v }.note (.polled reg id reply w.collators)

/-- **What one iteration of `collect_collations` can do.** It ends before the collator replies,
having changed at most the collators, or with the reply. -/
theorem collectFrom_cases (parent : Hash) (hd : Header) (id : Id) (k : κ) (reg : ℕ)
    (w : World κ W) :
    (∃ v, (v = w.collators ∨ ∃ pvd, v = (C.collation k pvd w.collators).2) ∧
        (collectFrom P H C parent hd ((id, k), reg) w).2 = { w with collators := v } ∧
        (collectFrom P H C parent hd ((id, k), reg) w).1.isOk = false) ∨
      ∃ pvd reply v, C.collation k pvd w.collators = (.ok reply, v) ∧
        collectFrom P H C parent hd ((id, k), reg) w =
          (.ok (), w.repliedWorld hd reg id reply v) := by
  rw [collectFrom]
  have hread := relayCall_of_read (RelaychainBuilder.persistedValidationData_keeps (ε := ε)
    (P := P) (H := H) parent id) w
  rcases bind_cases (relayCall (ε := ε) (RelaychainBuilder.persistedValidationData P H parent id))
      _ w with ⟨pvd, -, hp⟩ | ⟨-, hp⟩
  · rw [hp, hread]
    -- the collator may change the collators even if it fails
    rcases hc : C.collation k pvd w.collators with ⟨reply | e | _, v⟩
    · have hpoll : poll C reg id k pvd w =
          (.ok reply, { w with collators := v }.note (.polled reg id reply w.collators)) := by
        rw [poll, hc]
      rw [bind_of_ok hpoll]
      refine Or.inr ⟨pvd, reply, v, hc, ?_⟩
      cases reply <;> rfl
    · have hpoll : poll C reg id k pvd w =
          (.err (.parachainCollation id e), { w with collators := v }) := by rw [poll, hc]
      rw [bind_of_err hpoll]
      exact Or.inl ⟨v, Or.inr ⟨pvd, by rw [hc]⟩, rfl, rfl⟩
    · have hpoll : poll C reg id k pvd w = (.panic, { w with collators := v }) := by
        rw [poll, hc]
      rw [bind_of_panic hpoll]
      exact Or.inl ⟨v, Or.inr ⟨pvd, by rw [hc]⟩, rfl, rfl⟩
  · rw [hp.2, hread]
    exact Or.inl ⟨w.collators, Or.inl rfl, rfl, hp.1⟩

theorem collectFrom_keeps {f : World κ W → γ} (hc : ∀ v w, f { w with collators := v } = f w)
    (hn : ∀ reg id reply v w, f (note (.polled reg id reply v) w) = f w)
    (hp : ∀ e w, f (push e w) = f w) (parent : Hash) (hd : Header) (q : (Id × κ) × ℕ) :
    Keeps f (collectFrom P H C parent hd q) := by
  obtain ⟨⟨id, k⟩, reg⟩ := q
  intro w
  rcases collectFrom_cases (P := P) (H := H) (C := C) parent hd id k reg w with
    ⟨v, -, h, -⟩ | ⟨pvd, reply, v, -, h⟩
  · rw [h, hc]
  · rw [h]
    cases reply with
    | none => rw [repliedWorld, hn, hc]
    | some c =>
      rw [repliedWorld]
      rcases collect_cases hd reg id c
        ({ w with collators := v }.note (.polled reg id (some c) w.collators)) with
        ⟨-, hcollect⟩ | ⟨-, hcollect⟩
      · rw [hcollect, hn, hc]
      · rw [hcollect, hp, hn, hc]

theorem collectFrom_tables (parent : Hash) (hd : Header) (id : Id) (k : κ) (reg : ℕ)
    (w : World κ W) :
    let after := (collectFrom P H C parent hd ((id, k), reg) w).2
    after.relay.parachains = w.relay.parachains ∧
      (after.relay.collations = w.relay.collations ∨ ∃ c, (∀ e ∈ w.relay.collations, e.id ≠ id) ∧
        after.relay.collations = w.relay.collations ++ [⟨id, c, hd, reg, w.tickets⟩]) := by
  intro after
  have hkeep : Keeps (fun w : World κ W ↦ w.relay.parachains)
      (collectFrom P H C parent hd ((id, k), reg)) :=
    collectFrom_keeps (fun _ _ ↦ rfl) (fun _ _ _ _ _ ↦ rfl) (fun _ _ ↦ rfl) parent hd _
  refine ⟨hkeep w, ?_⟩
  rcases collectFrom_cases (P := P) (H := H) (C := C) parent hd id k reg w with
    ⟨v, -, h, -⟩ | ⟨pvd, reply, v, -, h⟩
  · exact Or.inl (congrArg (·.relay.collations) h)
  · have hafter : after = w.repliedWorld hd reg id reply v := congrArg Prod.snd h
    rw [hafter]
    cases reply with
    | none => exact Or.inl rfl
    | some c =>
      rw [repliedWorld]
      rcases collect_cases hd reg id c
        ({ w with collators := v }.note (.polled reg id (some c) w.collators)) with
        ⟨-, hc⟩ | ⟨hnew, hc⟩
      · rw [hc]
        exact Or.inl rfl
      · rw [hc]
        exact Or.inr ⟨c, hnew, rfl⟩

/-! ## An import as two loops -/

theorem zipIdx_split {γ : Type} {l : List γ} {done rest : List (γ × ℕ)} {q : γ × ℕ}
    (h : done ++ q :: rest = l.zipIdx) :
    (∀ p ∈ done, p.2 < q.2) ∧ ∀ p ∈ rest, q.2 < p.2 := by
  have hpair : (l.zipIdx.map Prod.snd).Pairwise (· < ·) := by
    rw [List.zipIdx_map_snd]
    exact List.pairwise_lt_range'
  rw [← h, List.map_append, List.map_cons, List.pairwise_append, List.pairwise_cons] at hpair
  obtain ⟨-, ⟨hrest, -⟩, hdone⟩ := hpair
  exact ⟨fun p hp ↦ hdone p.2 (List.mem_map_of_mem hp) q.2 List.mem_cons_self,
    fun p hp ↦ hrest p.2 (List.mem_map_of_mem hp)⟩

/-- The loop of `force_enact_collations`, started in `w`. -/
def enactLoop (P : RelayPrimitives) (H : RelayHost) (C : CollationBuilder κ W ε) (w : World κ W) :
    Outcome (Error ε) Unit × World κ W :=
  forEach (enactAndJudge P H C w.relay.builder.chain.bestHash w.relay.builder.chain.bestNumber)
    w.relay.collations w

/-- The loop of `collect_collations`, started in `w`. -/
def collectLoop (P : RelayPrimitives) (H : RelayHost) (C : CollationBuilder κ W ε) (hd : Header)
    (w : World κ W) : Outcome (Error ε) Unit × World κ W :=
  forEach (collectFrom P H C w.relay.builder.chain.bestHash hd) w.relay.parachains.zipIdx w

def cleared (w : World κ W) : World κ W :=
  { w with relay := { w.relay with collations := [] } }

/-- **What an import does**: it fails before the loops, or in the first loop, or it ends as the
second one does, which starts with an empty table. -/
theorem importBlock_cases (w : World κ W) :
    (((importBlock P H C w).1.isOk = false ∧
          (relayCall (ε := ε) (RelaychainBuilder.importNext H) w).1.isOk = false) ∧
        (importBlock P H C w).2 = (relayCall (ε := ε) (RelaychainBuilder.importNext H) w).2) ∨
      ∃ hd u, relayCall (ε := ε) (RelaychainBuilder.importNext H) w = (.ok hd, u) ∧
        (((enactLoop P H C u).1.isOk = false ∧ (importBlock P H C w).1.isOk = false ∧
            (importBlock P H C w).2 = (enactLoop P H C u).2) ∨
          ((enactLoop P H C u).1.isOk = true ∧
            importBlock P H C w = collectLoop P H C hd (enactLoop P H C u).2.cleared)) := by
  rw [importBlock]
  rcases bind_cases (relayCall (ε := ε) (RelaychainBuilder.importNext H)) _ w with
    ⟨hd, hn, hrest⟩ | ⟨hno, hstop⟩
  · refine Or.inr ⟨hd, _, hn, ?_⟩
    rw [hrest]
    set u := (relayCall (ε := ε) (RelaychainBuilder.importNext H) w).2
    have hloop : forceEnactCollations P H C u = (forEach (enactAndJudge P H C
        u.relay.builder.chain.bestHash u.relay.builder.chain.bestNumber) u.relay.collations >>=
          fun _ ↦ Call.modify cleared) u := rfl
    rcases bind_cases (forceEnactCollations P H C) (fun _ ↦ collectCollations P H C hd) u with
      ⟨_, henact, hcollect⟩ | ⟨henact, hstop⟩
    · rw [hcollect]
      rw [hloop] at henact ⊢
      obtain ⟨_, t, ht, hclear⟩ := bind_eq_ok.mp henact
      have hend : (enactLoop P H C u) = (.ok (), t) := ht
      rw [bind_of_ok ht, hend]
      exact Or.inr ⟨rfl, rfl⟩
    · rw [hstop.2]
      rw [hloop] at henact ⊢
      rcases bind_cases (forEach (enactAndJudge P H C u.relay.builder.chain.bestHash
        u.relay.builder.chain.bestNumber) u.relay.collations) (fun _ ↦ Call.modify cleared) u with
        ⟨_, -, hclear⟩ | ⟨hno, -, hstate⟩
      · rw [hclear] at henact
        cases henact
      · rw [hstate]
        exact Or.inl ⟨hno, hstop.1, rfl⟩
  · exact Or.inl ⟨⟨hstop.1, hno⟩, hstop.2⟩

/-- The world after the pending block `next` was imported. -/
def importedNext (next : Block × StorageProof) (b : Builder RelayStorage) (w : World κ W) :
    World κ W :=
  { w with relay :=
    { w.relay with builder := b, next := none, imports := w.relay.imports ++ [next] } }

/-- **What a successful import did**: the client gave a verdict on the pending block, and both loops
ran to their end. -/
theorem importBlock_eq_ok {w w' : World κ W} (h : importBlock P H C w = (.ok (), w')) :
    ∃ next b result u, w.relay.next = some next ∧
      H.importBlock w.relay.builder.chain (RelaychainBuilder.nextParams next.1) =
        (.ok result, b.chain) ∧
      enactLoop P H C (w.importedNext next b) = (.ok (), u) ∧
      collectLoop P H C next.1.header u.cleared = (.ok (), w') := by
  rcases importBlock_cases (P := P) (H := H) (C := C) w with ⟨⟨hno, -⟩, -⟩ | ⟨hd, v, hv, hcase⟩
  · rw [h] at hno
    cases hno
  · obtain ⟨r, hr, rfl⟩ := zoom_eq_ok.mp hv
    obtain ⟨next, b, result, hnext, rfl, himport, rfl⟩ := RelaychainBuilder.importNext_eq_ok hr
    rcases hcase with ⟨-, hno, -⟩ | ⟨hok, hcollect⟩
    · rw [h] at hno
      cases hno
    · obtain ⟨_, hu⟩ := Outcome.isOk_iff.mp hok
      exact ⟨next, b, result, _, hnext, himport, Prod.ext hu rfl, hcollect.symm.trans h⟩

end World

end Fudge
