import Fudge.Call.Run
import Fudge.Core.Pending
import Fudge.Relay.Reference
import Fudge.Relay.Steps

/-!
# What onboarding leaves in the storage

`onboard_para` writes six maps of the `Paras` pallet and adds to the builder's own list;
`update_para_head` writes one of the maps. After any sequence of such calls that returned `Ok` the
maps say the same about every registered parachain, and they say what was given last
(`onboarding_integrity`).

The invariant that carries this is `Integrity`. Its one delicate part is that the code maps are
skipped where the code hash is the current one already: the code is in `CodeByHash` then because
every current code hash has its code there, and it is the right code because the hash is injective.
-/

namespace Fudge

open Call

/-! ## The closure -/

namespace RelayStorage

variable {ε : Type} {P : RelayPrimitives} {para : FudgeParaChain} {s : RelayStorage}

/-- The code of `para` is not the one that is current for its id. No code has the hash
zero. -/
def NewCode (P : RelayPrimitives) (para : FudgeParaChain) (s : RelayStorage) : Prop :=
  (s.currentCodeHash para.id).getD 0 ≠ P.codeHash para.code

instance : Decidable (NewCode P para s) := inferInstanceAs (Decidable (_ ≠ _))

/-- What the closure of `onboard_para` writes, map by map. -/
theorem onboard_eq (P : RelayPrimitives) (para : FudgeParaChain) (s : RelayStorage) :
    onboard P para s =
      { s with
        paraLifecycles := Function.update s.paraLifecycles para.id (some .parachain)
        parachains := (pushParachain para.id s).parachains
        heads := Function.update s.heads para.id (some para.head)
        currentCodeHash := if NewCode P para s
          then Function.update s.currentCodeHash para.id (some (P.codeHash para.code))
          else s.currentCodeHash
        codeByHash := if NewCode P para s
          then Function.update s.codeByHash (P.codeHash para.code) (some para.code)
          else s.codeByHash
        codeByHashRefs := if NewCode P para s ∧ s.codeByHashRefs (P.codeHash para.code) = 0
          then Function.update s.codeByHashRefs (P.codeHash para.code) 1
          else s.codeByHashRefs
        pastCodeHash := if (s.currentCodeHash para.id).isSome
          then Function.update s.pastCodeHash (para.id, P.blockNumber s)
            (s.currentCodeHash para.id)
          else s.pastCodeHash } := by
  have hpush : pushParachain para.id s =
      { s with parachains := (pushParachain para.id s).parachains } := by
    rw [pushParachain]
    by_cases hid : para.id ∈ s.parachains
    · rw [if_pos hid]
    · rw [if_neg hid]
  rw [onboard, hpush, retireCode]
  -- the closure compares with the zero hash where the id has no current code
  rcases hcurr : s.currentCodeHash para.id with _ | old
  · by_cases hnew : 0 = P.codeHash para.code
    · simp [NewCode, hcurr, hnew, markParachain, insertHead]
    · by_cases hrefs : s.codeByHashRefs (P.codeHash para.code) = 0
      · simp [NewCode, hcurr, hnew, hrefs, insertCode, markParachain, insertHead]
      · simp [NewCode, hcurr, hnew, hrefs, insertCode, markParachain, insertHead]
  · by_cases hnew : old = P.codeHash para.code
    · simp [NewCode, hcurr, hnew, markParachain, insertHead]
    · by_cases hrefs : s.codeByHashRefs (P.codeHash para.code) = 0
      · simp [NewCode, hcurr, hnew, hrefs, insertCode, markParachain, insertHead]
      · simp [NewCode, hcurr, hnew, hrefs, insertCode, markParachain, insertHead]

theorem currentCodeHash_of_not_newCode (hzero : P.codeHash para.code ≠ 0)
    (h : ¬ NewCode P para s) : s.currentCodeHash para.id = some (P.codeHash para.code) := by
  rw [NewCode, not_not] at h
  rcases hcurr : s.currentCodeHash para.id with _ | old
  · rw [hcurr] at h
    exact absurd h.symm hzero
  · rw [hcurr] at h
    exact congrArg some h

theorem onboard_currentCodeHash (hzero : P.codeHash para.code ≠ 0) :
    (onboard P para s).currentCodeHash =
      Function.update s.currentCodeHash para.id (some (P.codeHash para.code)) := by
  rw [onboard_eq]
  change ite _ _ _ = _
  by_cases hnew : NewCode P para s
  · rw [if_pos hnew]
  · rw [if_neg hnew, ← currentCodeHash_of_not_newCode hzero hnew, Function.update_eq_self]

/-- Every current code hash keeps a code under it that has this hash. -/
theorem onboard_coded (hzero : P.codeHash para.code ≠ 0)
    (h : ∀ id hash, s.currentCodeHash id = some hash →
      ∃ code, s.codeByHash hash = some code ∧ P.codeHash code = hash) (id : Id) (hash : Hash)
    (hid : (onboard P para s).currentCodeHash id = some hash) :
    ∃ code, (onboard P para s).codeByHash hash = some code ∧ P.codeHash code = hash := by
  rw [onboard_currentCodeHash hzero] at hid
  rw [onboard_eq]
  by_cases hnew : NewCode P para s
  · simp only [if_pos hnew]
    by_cases hhash : hash = P.codeHash para.code
    · subst hhash
      exact ⟨para.code, by simp, rfl⟩
    · rw [Function.update_of_ne hhash]
      refine h id hash ?_
      by_cases hpara : id = para.id
      · subst hpara
        rw [Function.update_self] at hid
        exact absurd (Option.some.inj hid).symm hhash
      · rwa [Function.update_of_ne hpara] at hid
  · simp only [if_neg hnew]
    rw [← currentCodeHash_of_not_newCode hzero hnew, Function.update_eq_self] at hid
    exact h id hash hid

theorem pushParachain_increasing (id : Id) (h : s.parachains.Pairwise (· < ·)) :
    (pushParachain id s).parachains.Pairwise (· < ·) := by
  rw [pushParachain]
  by_cases hid : id ∈ s.parachains
  · rwa [if_pos hid]
  · rw [if_neg hid]
    have hsorted := List.pairwise_insertionSort (· ≤ ·) (s.parachains ++ [id])
    have hnodup : ((s.parachains ++ [id]).insertionSort (· ≤ ·)).Nodup := by
      rw [(List.perm_insertionSort _ _).nodup_iff, List.nodup_append]
      refine ⟨h.imp fun hlt ↦ hlt.ne, by simp, ?_⟩
      rintro a ha b hb rfl
      obtain rfl : a = id := by simpa using hb
      exact hid ha
    exact hsorted.imp₂ (fun a b hle hne ↦ lt_of_le_of_ne hle hne) hnodup

@[simp] theorem mem_pushParachain {id i : Id} :
    i ∈ (pushParachain id s).parachains ↔ i ∈ s.parachains ∨ i = id := by
  rw [pushParachain]
  by_cases hid : id ∈ s.parachains
  · rw [if_pos hid]
    exact ⟨Or.inl, fun h ↦ h.elim (fun h ↦ h) fun h ↦ by rwa [h]⟩
  · rw [if_neg hid]
    simp

/-! ## Cores -/

theorem coreIndex_eq_ok {id : Id} {core : ℕ} {t : RelayStorage} :
    coreIndex (ε := ε) id s = (.ok core, t) ↔
      s.parachains.idxOf? id = some core ∧ core < 2 ^ 32 ∧ t = s := by
  rw [coreIndex]
  constructor
  · intro h
    obtain ⟨_, _, h₁, k₁⟩ := bind_eq_ok.mp h
    obtain ⟨rfl, rfl⟩ : s.parachains = _ ∧ s = _ := by simpa using h₁
    obtain ⟨index, _, h₂, k₂⟩ := bind_eq_ok.mp k₁
    obtain ⟨hindex, rfl⟩ := require_eq_ok.mp h₂
    obtain ⟨hcore, rfl⟩ := require_eq_ok.mp k₂
    by_cases hlt : index < 2 ^ 32
    · rw [if_pos hlt] at hcore
      obtain rfl := Option.some.inj hcore
      exact ⟨hindex, hlt, rfl⟩
    · rw [if_neg hlt] at hcore
      cases hcore
  · rintro ⟨hindex, hlt, rfl⟩
    refine bind_eq_ok.mpr ⟨_, _, read_apply _ _, bind_eq_ok.mpr ⟨core, t, ?_, ?_⟩⟩
    · exact require_eq_ok.mpr ⟨hindex, rfl⟩
    · exact require_eq_ok.mpr ⟨if_pos hlt, rfl⟩

theorem coreIndex_of_mem {id : Id} (h : s.parachains.Pairwise (· < ·))
    (hbound : ∀ i ∈ s.parachains, i < 2 ^ 32) (hid : id ∈ s.parachains) :
    ∃ core, coreIndex (ε := ε) id s = (.ok core, s) := by
  have hlength : s.parachains.length ≤ 2 ^ 32 := by
    have hnodup : s.parachains.Nodup := h.imp fun hlt ↦ hlt.ne
    have hsub : s.parachains ⊆ List.range (2 ^ 32) := fun i hi ↦ List.mem_range.mpr (hbound i hi)
    calc s.parachains.length ≤ (List.range (2 ^ 32)).length :=
          (List.subperm_of_subset hnodup hsub).length_le
      _ = 2 ^ 32 := List.length_range
  obtain ⟨core, hcore⟩ : ∃ core, s.parachains.idxOf? id = some core := by
    rw [← Option.isSome_iff_exists, List.isSome_idxOf?]
    exact hid
  obtain ⟨hlt, -, -⟩ := List.idxOf?_eq_some_iff.mp hcore
  exact ⟨core, coreIndex_eq_ok.mpr ⟨hcore, by omega, rfl⟩⟩

theorem coreIndex_inj {id id' : Id} {core : ℕ} {t t' : RelayStorage}
    (h : coreIndex (ε := ε) id s = (.ok core, t))
    (h' : coreIndex (ε := ε) id' s = (.ok core, t')) : id = id' := by
  obtain ⟨hlt, hid, -⟩ := List.idxOf?_eq_some_iff.mp (coreIndex_eq_ok.mp h).1
  obtain ⟨_, hid', -⟩ := List.idxOf?_eq_some_iff.mp (coreIndex_eq_ok.mp h').1
  exact hid.symm.trans hid'

end RelayStorage

/-! ## The calls -/

namespace RelaychainBuilder

variable {κ ε R : Type} {P : RelayPrimitives} {H : RelayHost}

theorem withMutState_bestState (hL : H.toHost.Lawful P.toPrimitives)
    {exec : RelayStorage → R × RelayStorage} {r r' : RelaychainBuilder κ} {a : R}
    {s : RelayStorage} (hs : r.builder.chain.BestState s)
    (h : (withMutState P H exec : Call _ (Error ε) R) r = (.ok a, r')) :
    r'.builder.chain.BestState (exec s).2 ∧ r'.parachains = r.parachains := by
  obtain ⟨-, b, hb, rfl⟩ := withMutState_eq_ok h
  obtain ⟨s', hs', -, hpost⟩ := Builder.commit_bestState hL hb
  obtain rfl : s = s' := Option.some.inj (hs.symm.trans hs')
  exact ⟨hpost, rfl⟩

theorem onboardPara_eq_ok (hL : H.toHost.Lawful P.toPrimitives) {para : FudgeParaChain} {k : κ}
    {r r' : RelaychainBuilder κ} {s : RelayStorage} {u : Unit} (hs : r.builder.chain.BestState s)
    (h : (onboardPara P H para k : Call _ (Error ε) Unit) r = (.ok u, r')) :
    r'.builder.chain.BestState (RelayStorage.onboard P para s) ∧
      r'.parachains = r.parachains ++ [(para.id, k)] := by
  rw [onboardPara] at h
  obtain ⟨_, t, ht, hpush⟩ := bind_eq_ok.mp h
  obtain rfl := (Prod.mk.inj hpush).2
  obtain ⟨hbest, hids⟩ := withMutState_bestState hL hs ht
  exact ⟨hbest, congrArg (· ++ [(para.id, k)]) hids⟩

/-- A call that registers a parachain or sets a head. -/
inductive RegistryOp (κ : Type) where
  | onboardPara (H : RelayHost) (para : FudgeParaChain) (k : κ)
  | updateParaHead (H : RelayHost) (id : Id) (head : HeadData)

def registryStep (P : RelayPrimitives) : RegistryOp κ → Call (RelaychainBuilder κ) (Error ε) Unit
  | .onboardPara H para k => onboardPara P H para k
  | .updateParaHead H id head => updateParaHead P H id head

/-- The operation returns `Ok` on a lawful host. Ids have 32 bits. -/
def Registers (ε : Type) (P : RelayPrimitives) (op : RegistryOp κ) (r : RelaychainBuilder κ) :
    Prop :=
  (registryStep (ε := ε) P op r).1.isOk = true ∧
    match op with
    | .onboardPara H para _ => H.toHost.Lawful P.toPrimitives ∧ para.id < 2 ^ 32
    | .updateParaHead H _ _ => H.toHost.Lawful P.toPrimitives

structure Given where
  heads : Id → Option HeadData := fun _ ↦ none
  codes : Id → Option ValidationCode := fun _ ↦ none

def give : RegistryOp κ → RelaychainBuilder κ → Given → Given
  | .onboardPara _ para _, _, given =>
    ⟨Function.update given.heads para.id (some para.head),
      Function.update given.codes para.id (some para.code)⟩
  | .updateParaHead _ id head, _, given =>
    { given with heads := Function.update given.heads id (some head) }

/-- The maps of the storage `s` agree with each other and with what was `given`, for the `ids`. -/
structure Integrity (P : RelayPrimitives) (given : Given) (ids : List Id) (s : RelayStorage) :
    Prop where
  increasing : s.parachains.Pairwise (· < ·)
  bounded : ∀ id ∈ s.parachains, id < 2 ^ 32
  coded : ∀ id h, s.currentCodeHash id = some h →
    ∃ code, s.codeByHash h = some code ∧ P.codeHash code = h
  listed : ∀ id ∈ ids, id ∈ s.parachains
  lifecycle : ∀ id ∈ ids, s.paraLifecycles id = some .parachain
  head : ∀ id ∈ ids, s.heads id = given.heads id ∧ (given.heads id).isSome = true
  code : ∀ id ∈ ids, ∃ code, given.codes id = some code ∧
    s.currentCodeHash id = some (P.codeHash code)

namespace Integrity

variable {given : Given} {ids : List Id} {r : RelaychainBuilder κ} {s : RelayStorage}

theorem codeByHash (hinj : Function.Injective P.codeHash) (h : Integrity P given ids s) {id : Id}
    {code : ValidationCode} (hcode : s.currentCodeHash id = some (P.codeHash code)) :
    s.codeByHash (P.codeHash code) = some code := by
  obtain ⟨code', hcode', hhash⟩ := h.coded id _ hcode
  rw [hcode', hinj hhash]

theorem insertHead (h : Integrity P given ids s) (id : Id) (head : HeadData) :
    Integrity P { given with heads := Function.update given.heads id (some head) } ids
      (RelayStorage.insertHead id head s) := by
  refine { h with head := fun i hi ↦ ?_ }
  by_cases hid : i = id
  · subst hid
    simp [RelayStorage.insertHead]
  · simpa [RelayStorage.insertHead, hid] using h.head i hi

/-- **A registration keeps the maps in agreement.** Where the code maps are skipped, the code is the
current one of its id and is in `CodeByHash`. -/
theorem onboard (hzero : ∀ code, P.codeHash code ≠ 0) (h : Integrity P given ids s)
    {para : FudgeParaChain}
    (hid : para.id < 2 ^ 32) (k : κ) :
    Integrity P (give (.onboardPara H para k) r given) (ids ++ [para.id])
      (RelayStorage.onboard P para s) := by
  have hlist : ∀ i, i ∈ (RelayStorage.onboard P para s).parachains ↔
      i ∈ s.parachains ∨ i = para.id := by
    intro i
    rw [RelayStorage.onboard_eq]
    exact RelayStorage.mem_pushParachain
  have hmem : ∀ i ∈ ids ++ [para.id], i = para.id ∨ i ≠ para.id ∧ i ∈ ids := by
    intro i hi
    by_cases heq : i = para.id
    · exact Or.inl heq
    · exact Or.inr ⟨heq, by simpa [heq] using hi⟩
  constructor
  case increasing =>
    rw [RelayStorage.onboard_eq]
    exact RelayStorage.pushParachain_increasing _ h.increasing
  case bounded =>
    intro i hi
    rcases (hlist i).mp hi with hi | rfl
    · exact h.bounded i hi
    · exact hid
  case coded => exact RelayStorage.onboard_coded (hzero _) h.coded
  case listed =>
    intro i hi
    rcases hmem i hi with rfl | ⟨-, hi⟩
    · exact (hlist _).mpr (Or.inr rfl)
    · exact (hlist i).mpr (Or.inl (h.listed i hi))
  case lifecycle =>
    intro i hi
    rw [RelayStorage.onboard_eq]
    rcases hmem i hi with rfl | ⟨hne, hi⟩
    · simp
    · simpa [hne] using h.lifecycle i hi
  case head =>
    intro i hi
    rw [RelayStorage.onboard_eq]
    rcases hmem i hi with rfl | ⟨hne, hi⟩
    · simp [give]
    · simpa [give, hne] using h.head i hi
  case code =>
    intro i hi
    rw [RelayStorage.onboard_currentCodeHash (hzero _)]
    rcases hmem i hi with rfl | ⟨hne, hi⟩
    · exact ⟨para.code, by simp [give], by simp⟩
    · simpa [give, hne] using h.code i hi

end Integrity

theorem registryStep_integrity (hzero : ∀ code, P.codeHash code ≠ 0) (op : RegistryOp κ)
    (r : RelaychainBuilder κ) (given : Given) (hop : Registers ε P op r)
    (h : ∃ s, r.builder.chain.BestState s ∧ Integrity P given (r.parachains.map Prod.fst) s) :
    let r' := (registryStep (ε := ε) P op r).2
    ∃ s, r'.builder.chain.BestState s ∧
      Integrity P (give op r given) (r'.parachains.map Prod.fst) s := by
  obtain ⟨s, hs, hint⟩ := h
  obtain ⟨hok, hL⟩ := hop
  obtain ⟨u, hu⟩ := Outcome.isOk_iff.mp hok
  cases op with
  | onboardPara H para k =>
    obtain ⟨hbest, hids⟩ := onboardPara_eq_ok hL.1 hs (eq_of_fst hu)
    refine ⟨_, hbest, ?_⟩
    rw [registryStep, hids, List.map_append]
    exact hint.onboard hzero hL.2 k
  | updateParaHead H id head =>
    obtain ⟨hbest, hids⟩ := withMutState_bestState hL hs (eq_of_fst hu)
    refine ⟨_, hbest, ?_⟩
    rw [registryStep, updateParaHead, hids]
    exact hint.insertHead id head

/-- **Onboarding integrity.** After any sequence of registrations and new heads that returned `Ok`,
the list of ids is strictly increasing and gives every registered id a core of its own, and every
registered id has the lifecycle, the head and the code that it should have. -/
theorem onboarding_integrity (hinj : Function.Injective P.codeHash)
    (hzero : ∀ code, P.codeHash code ≠ 0) {r₀ : RelaychainBuilder κ} {s₀ : RelayStorage}
    (hids : r₀.parachains = []) (hbest : r₀.builder.chain.BestState s₀)
    (hincreasing : s₀.parachains.Pairwise (· < ·)) (hbounded : ∀ id ∈ s₀.parachains, id < 2 ^ 32)
    (hcoded : ∀ id h, s₀.currentCodeHash id = some h →
      ∃ code, s₀.codeByHash h = some code ∧ P.codeHash code = h)
    (ops : List (RegistryOp κ)) (hops : Along (registryStep (ε := ε) P) (Registers ε P) ops r₀) :
    let r := run (registryStep (ε := ε) P) ops r₀
    let given := ledger (registryStep (ε := ε) P) give ops r₀ {}
    ∃ s, r.builder.chain.BestState s ∧ s.parachains.Pairwise (· < ·) ∧
      (∀ id ∈ r.parachains.map Prod.fst, ∃ core,
        RelayStorage.coreIndex (ε := ε) id s = (.ok core, s)) ∧
      (∀ id id' core, RelayStorage.coreIndex (ε := ε) id s = (.ok core, s) →
        RelayStorage.coreIndex (ε := ε) id' s = (.ok core, s) → id = id') ∧
      ∀ id ∈ r.parachains.map Prod.fst, s.paraLifecycles id = some .parachain ∧
        (∃ head, given.heads id = some head ∧ s.heads id = some head) ∧
        ∃ h code, given.codes id = some code ∧ s.currentCodeHash id = some h ∧
          s.codeByHash h = some code := by
  intro r given
  have hstart : ∃ s, r₀.builder.chain.BestState s ∧
      Integrity P {} (r₀.parachains.map Prod.fst) s := by
    rw [hids]
    exact ⟨s₀, hbest, hincreasing, hbounded, hcoded, by simp, by simp, by simp, by simp⟩
  -- the invariant relates the storage to the heads and codes that were given so far
  obtain ⟨s, hs, hint⟩ := run_ledger (I := fun r given ↦ ∃ s, r.builder.chain.BestState s ∧
      Integrity P given (r.parachains.map Prod.fst) s)
    (fun op r given ↦ registryStep_integrity hzero op r given) ops hops hstart
  refine ⟨s, hs, hint.increasing, fun id hid ↦ ?_, fun id id' core ↦ RelayStorage.coreIndex_inj,
    fun id hid ↦ ⟨hint.lifecycle id hid, ?_, ?_⟩⟩
  · exact RelayStorage.coreIndex_of_mem hint.increasing hint.bounded (hint.listed id hid)
  · obtain ⟨hhead, hsome⟩ := hint.head id hid
    obtain ⟨head, hgiven⟩ := Option.isSome_iff_exists.mp hsome
    exact ⟨head, hgiven, hhead.trans hgiven⟩
  · obtain ⟨code, hgiven, hcode⟩ := hint.code id hid
    exact ⟨_, code, hgiven, hcode, hint.codeByHash hinj hcode⟩

/-! ## A shared code -/

/-- The relay chain in memory with a hash of codes that has no collisions. -/
def pairedCodes : RelayPrimitives :=
  { RelayPrimitives.reference with codeHash := fun code ↦ pairList (code.map UInt8.toNat) + 1 }

/-- Two parachains are onboarded with one code; one of them changes it, the other one its head. -/
def shareCode : List (RegistryOp Unit) :=
  [.onboardPara .reference ⟨2, [7], [1]⟩ (), .onboardPara .reference ⟨1, [8], [1]⟩ (),
    .onboardPara .reference ⟨2, [9], [3]⟩ (), .updateParaHead .reference 1 [5]]

theorem pairedCodes_injective : Function.Injective pairedCodes.codeHash := by
  intro code code' h
  have hlist := pairList_injective (Nat.succ_injective h)
  exact List.map_injective_iff.mpr (fun _ _ hbyte ↦ UInt8.toNat_inj.mp hbyte) hlist

theorem onboarding_integrity_shared :
    ∃ s, (run (registryStep (ε := Unit) pairedCodes) shareCode
        (genesis Unit)).builder.chain.BestState s ∧ s.parachains.Pairwise (· < ·) ∧
      s.heads 1 = some [5] ∧ s.heads 2 = some [9] := by
  have hL : RelayHost.reference.toHost.Lawful pairedCodes.toPrimitives := Host.reference_lawful _
  have hbest : (genesis Unit).builder.chain.BestState .empty := Chain.bestState_genesis _ _
  have hids : (genesis Unit).parachains = [] := rfl
  obtain ⟨s, hs, hincreasing, -, -, hall⟩ := onboarding_integrity (ε := Unit)
    pairedCodes_injective (fun _ ↦ Nat.succ_ne_zero _) hids hbest List.Pairwise.nil
    (by simp [RelayStorage.empty]) (by simp [RelayStorage.empty]) shareCode
    ⟨⟨by decide +kernel, hL, by decide⟩, fun _ ↦ ⟨⟨by decide +kernel, hL, by decide⟩, fun _ ↦
      ⟨⟨by decide +kernel, hL, by decide⟩, fun _ ↦ ⟨⟨by decide +kernel, hL⟩, fun _ ↦ trivial⟩⟩⟩⟩
  obtain ⟨-, ⟨head₁, hgiven₁, hhead₁⟩, -⟩ := hall 1 (by decide +kernel)
  obtain ⟨-, ⟨head₂, hgiven₂, hhead₂⟩, -⟩ := hall 2 (by decide +kernel)
  have hlast₁ : (ledger (registryStep (ε := Unit) pairedCodes) give shareCode (genesis Unit)
      {}).heads 1 = some [5] := by decide +kernel
  have hlast₂ : (ledger (registryStep (ε := Unit) pairedCodes) give shareCode (genesis Unit)
      {}).heads 2 = some [9] := by decide +kernel
  exact ⟨s, hs, hincreasing, hhead₁.trans (hgiven₁.symm.trans hlast₁),
    hhead₂.trans (hgiven₂.symm.trans hlast₂)⟩

end RelaychainBuilder

end Fudge
