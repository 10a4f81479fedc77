import Fudge.Relay.Codes

/-!
# The order of registrations

Parachains that are onboarded at one relay block may be onboarded in any order: the storage is the
same (`onboarding_order`). What a registration writes depends on the id's own current code, and is
written under the id, except for three places that parachains share. The list of ids is sorted after
every insertion. The code is written under its hash, and a code with the same hash is the same code.
The reference count of a code is set if it is zero, and then it is not zero any more.

So any two registrations of different ids commute (`onboard_comm`), and a permutation is a product
of transpositions.
-/

namespace Fudge

open Call

attribute [ext] RelayStorage

namespace RelayStorage

variable {P : RelayPrimitives} {para a b : FudgeParaChain} {s : RelayStorage}

/-- The block number is read from the part of the storage that is not written by hand. -/
def ReadsNumber (P : RelayPrimitives) : Prop :=
  ∀ s t : RelayStorage, t.other = s.other → P.blockNumber t = P.blockNumber s

theorem ReadsNumber.onboard (h : ReadsNumber P) (para : FudgeParaChain) (s : RelayStorage) :
    P.blockNumber (onboard P para s) = P.blockNumber s := by
  apply h
  rw [onboard_eq]

/-! ## The list of ids -/

theorem parachains_onboard (para : FudgeParaChain) (s : RelayStorage) :
    (onboard P para s).parachains = if para.id ∈ s.parachains then s.parachains
      else (s.parachains ++ [para.id]).insertionSort (· ≤ ·) := by
  rw [onboard_eq]
  change (pushParachain para.id s).parachains = _
  rw [pushParachain]
  by_cases hid : para.id ∈ s.parachains
  · rw [if_pos hid, if_pos hid]
  · rw [if_neg hid, if_neg hid]

theorem insertionSort_congr {l l' : List Id} (h : l.Perm l') :
    l.insertionSort (· ≤ ·) = l'.insertionSort (· ≤ ·) := by
  have hperm : (l.insertionSort (· ≤ ·)).Perm (l'.insertionSort (· ≤ ·)) :=
    (List.perm_insertionSort _ l).trans (h.trans (List.perm_insertionSort _ l').symm)
  exact hperm.eq_of_pairwise (fun a b _ _ hab hba ↦ Nat.le_antisymm hab hba)
    (List.pairwise_insertionSort _ l) (List.pairwise_insertionSort _ l')

theorem parachains_comm (s : RelayStorage) :
    (onboard P a (onboard P b s)).parachains = (onboard P b (onboard P a s)).parachains := by
  have hmem : ∀ {x : Id} {l : List Id} {y : Id},
      y ∈ (l ++ [x]).insertionSort (· ≤ ·) ↔ y ∈ l ∨ y = x := by
    intro x l y
    rw [List.mem_insertionSort, List.mem_append, List.mem_singleton]
  simp only [parachains_onboard]
  by_cases ha : a.id ∈ s.parachains
  · by_cases hb : b.id ∈ s.parachains
    · simp only [if_pos ha, if_pos hb]
    · simp only [if_pos ha, if_neg hb, if_pos (hmem.mpr (Or.inl ha))]
  · by_cases hb : b.id ∈ s.parachains
    · simp only [if_neg ha, if_pos hb, if_pos (hmem.mpr (Or.inl hb))]
    · by_cases hab : a.id = b.id
      · rw [hab]
      · -- both are new: either way the list holds the old ids and the two new ones
        have ha' : ¬ a.id ∈ (s.parachains ++ [b.id]).insertionSort (· ≤ ·) :=
          fun h ↦ (hmem.mp h).elim ha hab
        have hb' : ¬ b.id ∈ (s.parachains ++ [a.id]).insertionSort (· ≤ ·) :=
          fun h ↦ (hmem.mp h).elim hb (Ne.symm hab)
        rw [if_neg ha, if_neg hb, if_neg ha', if_neg hb']
        apply insertionSort_congr
        have hsort : ∀ x y : Id, ((s.parachains ++ [x]).insertionSort (· ≤ ·) ++ [y]).Perm
            (s.parachains ++ [x, y]) := by
          intro x y
          have happend := (List.perm_insertionSort (· ≤ ·) (s.parachains ++ [x])).append_right [y]
          rwa [List.append_assoc] at happend
        exact (hsort b.id a.id).trans (((List.Perm.swap a.id b.id []).append_left _).trans
          (hsort a.id b.id).symm)

/-! ## The maps -/

theorem currentCodeHash_onboard (para : FudgeParaChain) (s : RelayStorage) :
    (onboard P para s).currentCodeHash = Function.update s.currentCodeHash para.id
      (if NewCode P para s then some (P.codeHash para.code) else s.currentCodeHash para.id) := by
  rw [onboard_eq]
  change ite _ _ _ = _
  by_cases hnew : NewCode P para s
  · rw [if_pos hnew, if_pos hnew]
  · rw [if_neg hnew, if_neg hnew, Function.update_eq_self]

theorem codeByHash_onboard (para : FudgeParaChain) (s : RelayStorage) :
    (onboard P para s).codeByHash = if NewCode P para s
      then Function.update s.codeByHash (P.codeHash para.code) (some para.code)
      else s.codeByHash := by
  rw [onboard_eq]

theorem pastCodeHash_onboard (para : FudgeParaChain) (s : RelayStorage) :
    (onboard P para s).pastCodeHash =
      Function.update s.pastCodeHash (para.id, P.blockNumber s)
        (if (s.currentCodeHash para.id).isSome then s.currentCodeHash para.id
          else s.pastCodeHash (para.id, P.blockNumber s)) := by
  rw [onboard_eq]
  change ite _ _ _ = _
  by_cases hsome : (s.currentCodeHash para.id).isSome = true
  · rw [if_pos hsome, if_pos hsome]
  · rw [if_neg hsome, if_neg hsome, Function.update_eq_self]

section Maps

variable (hab : a.id ≠ b.id) (s : RelayStorage)
include hab

theorem currentCodeHash_of_ne : (onboard P a s).currentCodeHash b.id = s.currentCodeHash b.id := by
  rw [currentCodeHash_onboard, Function.update_of_ne hab.symm]

theorem newCode_of_ne : NewCode P b (onboard P a s) ↔ NewCode P b s := by
  rw [NewCode, NewCode, currentCodeHash_of_ne hab]

theorem currentCodeHash_comm :
    (onboard P a (onboard P b s)).currentCodeHash =
      (onboard P b (onboard P a s)).currentCodeHash := by
  rw [currentCodeHash_onboard a, currentCodeHash_onboard b (onboard P a s)]
  simp only [newCode_of_ne hab, newCode_of_ne hab.symm, currentCodeHash_of_ne hab,
    currentCodeHash_of_ne hab.symm]
  rw [currentCodeHash_onboard a, currentCodeHash_onboard b, Function.update_comm hab]

theorem codeByHash_comm (hinj : Function.Injective P.codeHash) :
    (onboard P a (onboard P b s)).codeByHash = (onboard P b (onboard P a s)).codeByHash := by
  simp only [codeByHash_onboard, newCode_of_ne hab, newCode_of_ne hab.symm]
  by_cases ha : NewCode P a s
  · by_cases hb : NewCode P b s
    · simp only [if_pos ha, if_pos hb]
      by_cases hcode : P.codeHash a.code = P.codeHash b.code
      · rw [hinj hcode]
      · exact Function.update_comm (Ne.symm hcode) _ _ _
    · simp only [if_pos ha, if_neg hb]
  · simp only [if_neg ha]

/-- A count is set once. -/
theorem codeByHashRefs_comm :
    (onboard P a (onboard P b s)).codeByHashRefs =
      (onboard P b (onboard P a s)).codeByHashRefs := by
  funext h
  simp only [onboard_refs, newCode_of_ne hab, newCode_of_ne hab.symm]
  by_cases ha : NewCode P a s ∧ s.codeByHashRefs h = 0 ∧ h = P.codeHash a.code
  · by_cases hb : NewCode P b s ∧ s.codeByHashRefs h = 0 ∧ h = P.codeHash b.code
    · simp [if_pos ha, if_pos hb]
    · simp [if_pos ha, if_neg hb]
  · by_cases hb : NewCode P b s ∧ s.codeByHashRefs h = 0 ∧ h = P.codeHash b.code
    · simp [if_neg ha, if_pos hb]
    · simp [if_neg ha, if_neg hb]

theorem pastCodeHash_of_ne (n : ℕ) :
    (onboard P a s).pastCodeHash (b.id, n) = s.pastCodeHash (b.id, n) := by
  rw [pastCodeHash_onboard]
  exact Function.update_of_ne (fun h ↦ hab (congrArg Prod.fst h).symm) _ _

theorem pastCodeHash_comm (hnumber : ReadsNumber P) :
    (onboard P a (onboard P b s)).pastCodeHash = (onboard P b (onboard P a s)).pastCodeHash := by
  have hkeys : (a.id, P.blockNumber s) ≠ (b.id, P.blockNumber s) :=
    fun h ↦ hab (congrArg Prod.fst h)
  rw [pastCodeHash_onboard a, pastCodeHash_onboard b (onboard P a s)]
  simp only [hnumber.onboard, currentCodeHash_of_ne hab, currentCodeHash_of_ne hab.symm,
    pastCodeHash_of_ne hab, pastCodeHash_of_ne hab.symm]
  rw [pastCodeHash_onboard a, pastCodeHash_onboard b, Function.update_comm hkeys]

/-- **Two registrations commute.** -/
theorem onboard_comm (hinj : Function.Injective P.codeHash) (hnumber : ReadsNumber P) :
    onboard P a (onboard P b s) = onboard P b (onboard P a s) := by
  have hlifecycles : (onboard P a (onboard P b s)).paraLifecycles =
      (onboard P b (onboard P a s)).paraLifecycles := by
    simp only [onboard_eq]
    exact Function.update_comm hab.symm _ _ _
  have hheads : (onboard P a (onboard P b s)).heads = (onboard P b (onboard P a s)).heads := by
    simp only [onboard_eq]
    exact Function.update_comm hab.symm _ _ _
  exact RelayStorage.ext hlifecycles (parachains_comm s) hheads (currentCodeHash_comm hab s)
    (codeByHash_comm hab s hinj) (codeByHashRefs_comm hab s) (pastCodeHash_comm hab s hnumber)
    (by simp only [onboard_eq]) (by simp only [onboard_eq]) (by simp only [onboard_eq])

end Maps

theorem foldl_onboard_perm (hinj : Function.Injective P.codeHash) (hnumber : ReadsNumber P)
    {paras paras' : List FudgeParaChain} (hids : (paras.map (·.id)).Nodup)
    (hperm : paras.Perm paras') (s : RelayStorage) :
    paras.foldl (fun s para ↦ onboard P para s) s =
      paras'.foldl (fun s para ↦ onboard P para s) s := by
  refine hperm.foldl_eq' (fun x hx y hy z ↦ ?_) s
  by_cases hxy : x = y
  · rw [hxy]
  · have hne : y.id ≠ x.id :=
      fun h ↦ hxy (List.inj_on_of_nodup_map hids hx hy h.symm)
    exact onboard_comm hne z hinj hnumber

end RelayStorage

namespace RelaychainBuilder

variable {κ ε : Type} {P : RelayPrimitives}

/-- A registration: the host it is made against, the parachain and its collator. -/
structure Onboarding (κ : Type) where
  host : RelayHost
  para : FudgeParaChain
  collator : κ

/-- The registrations, one after the other, up to the first error. -/
def onboardAll (P : RelayPrimitives) (onboardings : List (Onboarding κ)) :
    Call (RelaychainBuilder κ) (Error ε) Unit :=
  Call.forEach (fun o ↦ onboardPara P o.host o.para o.collator) onboardings

theorem onboardAll_bestState {onboardings : List (Onboarding κ)}
    (hL : ∀ o ∈ onboardings, o.host.toHost.Lawful P.toPrimitives) {r r' : RelaychainBuilder κ}
    {s : RelayStorage} (hs : r.builder.chain.BestState s) {u : Unit}
    (h : (onboardAll P onboardings : Call _ (Error ε) Unit) r = (.ok u, r')) :
    r'.builder.chain.BestState
      ((onboardings.map (·.para)).foldl (fun s para ↦ RelayStorage.onboard P para s) s) := by
  induction onboardings generalizing r s with
  | nil =>
    obtain rfl := (Prod.mk.inj h).2
    exact hs
  | cons o onboardings ih =>
    obtain ⟨hL, hrest⟩ := List.forall_mem_cons.mp hL
    obtain ⟨_, t, ht, hall⟩ := bind_eq_ok.mp h
    exact ih hrest (onboardPara_eq_ok hL hs ht).1 hall

/-- **The order of registrations** does not matter, if the ids are different: the storage is the
same, and with it the core of every id. -/
theorem onboarding_order (hinj : Function.Injective P.codeHash)
    (hnumber : RelayStorage.ReadsNumber P) {onboardings onboardings' : List (Onboarding κ)}
    (hids : (onboardings.map (·.para.id)).Nodup)
    (hperm : (onboardings.map (·.para)).Perm (onboardings'.map (·.para)))
    (hL : ∀ o ∈ onboardings ++ onboardings', o.host.toHost.Lawful P.toPrimitives)
    {r r₁ r₂ : RelaychainBuilder κ} {s : RelayStorage} (hs : r.builder.chain.BestState s)
    (h₁ : (onboardAll P onboardings : Call _ (Error ε) Unit) r = (.ok (), r₁))
    (h₂ : (onboardAll P onboardings' : Call _ (Error ε) Unit) r = (.ok (), r₂)) :
    ∃ t₁ t₂, r₁.builder.chain.BestState t₁ ∧ r₂.builder.chain.BestState t₂ ∧ t₁ = t₂ ∧
      ∀ id, (RelayStorage.coreIndex id t₁ : Outcome (Error ε) ℕ × _).1 =
        (RelayStorage.coreIndex id t₂ : Outcome (Error ε) ℕ × _).1 := by
  have hparas : ((onboardings.map (·.para)).map (·.id)).Nodup := by rwa [List.map_map]
  have hsame := RelayStorage.foldl_onboard_perm hinj hnumber hparas hperm s
  exact ⟨_, _, onboardAll_bestState (fun o ho ↦ hL o (List.mem_append_left _ ho)) hs h₁,
    onboardAll_bestState (fun o ho ↦ hL o (List.mem_append_right _ ho)) hs h₂, hsame,
    fun id ↦ by rw [hsame]⟩

def shared (id : Id) : Onboarding Unit := ⟨.reference, ⟨id, [7], [1]⟩, ()⟩

theorem onboarding_order_shared : ∃ t₁ t₂,
    ((onboardAll pairedCodes [shared 2, shared 1] : Call _ (Error Unit) Unit)
      (genesis Unit)).2.builder.chain.BestState t₁ ∧
    ((onboardAll pairedCodes [shared 1, shared 2] : Call _ (Error Unit) Unit)
      (genesis Unit)).2.builder.chain.BestState t₂ ∧ t₁ = t₂ ∧ t₁.parachains = [1, 2] := by
  have hL : RelayHost.reference.toHost.Lawful pairedCodes.toPrimitives := Host.reference_lawful _
  have hlawful : ∀ o ∈ [shared 2, shared 1] ++ [shared 1, shared 2],
      o.host.toHost.Lawful pairedCodes.toPrimitives := by
    intro o ho
    simp only [List.cons_append, List.nil_append, List.mem_cons, List.not_mem_nil, or_false] at ho
    rcases ho with rfl | rfl | rfl | rfl <;> exact hL
  have hok₁ : ((onboardAll pairedCodes [shared 2, shared 1] : Call _ (Error Unit) Unit)
      (genesis Unit)).1 = .ok () := by decide +kernel
  have hok₂ : ((onboardAll pairedCodes [shared 1, shared 2] : Call _ (Error Unit) Unit)
      (genesis Unit)).1 = .ok () := by decide +kernel
  have hperm : ([shared 2, shared 1].map (·.para)).Perm ([shared 1, shared 2].map (·.para)) :=
    List.Perm.swap _ _ []
  obtain ⟨t₁, t₂, h₁, h₂, hsame, -⟩ := onboarding_order pairedCodes_injective (fun _ _ _ ↦ rfl)
    (by decide) hperm hlawful (Chain.bestState_genesis _ _) (eq_of_fst hok₁)
    (eq_of_fst hok₂)
  refine ⟨t₁, t₂, h₁, h₂, hsame, ?_⟩
  have hids : (((onboardAll pairedCodes [shared 2, shared 1] : Call _ (Error Unit) Unit)
      (genesis Unit)).2.builder.chain.states ((onboardAll pairedCodes [shared 2, shared 1] :
        Call _ (Error Unit) Unit) (genesis Unit)).2.builder.chain.bestHash).map (·.parachains) =
          some [1, 2] := by decide +kernel
  obtain ⟨t, ht, hids⟩ := Option.map_eq_some_iff.mp hids
  rwa [← Option.some.inj (ht.symm.trans h₁)]

end RelaychainBuilder

end Fudge
