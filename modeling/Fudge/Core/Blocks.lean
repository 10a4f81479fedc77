import Fudge.Core.Commit

/-!
# Proposing and importing blocks

The two calls the three builders make on the core builder beside `with_state`. A proposal only
reads, and is made on the best header. An import leaves the chain that the client leaves, whatever
the client says; the maintenance of the pool after it does not touch the chain.
-/

namespace Fudge

namespace Builder

open Call

variable {S γ ε : Type} {P : Primitives S} {H : Host S} {f : Builder S → γ}

/-! ## Proposals -/

theorem buildBlock_keeps (inherents : InherentData) (digest : Digest) :
    Keeps f (buildBlock H inherents digest) :=
  Keeps.bind (Keeps.read _) fun _ ↦ Keeps.bind (getBlockHeader_keeps _) fun _ ↦
    Keeps.bind (ask_keeps _ _) fun _ ↦ Keeps.query _ _

theorem proposeBlock_keeps (e : Error → ε) (e₁ e₂ e₃ : InnerError → ε) :
    Keeps f (proposeBlock P H e e₁ e₂ e₃) :=
  Keeps.bind (Keeps.mapErr (Keeps.read _)) fun _ ↦
    Keeps.bind (Keeps.mapErr (withState_dryRun_keeps none _)) fun _ ↦
      Keeps.bind (Keeps.query _ _) fun _ ↦ Keeps.bind (Keeps.query _ _) fun _ ↦
        Keeps.bind (Keeps.mapErr latestHeader_keeps) fun _ ↦
          Keeps.bind (Keeps.mapErr (withState_dryRun_keeps none _)) fun _ ↦
            Keeps.bind (Keeps.query _ _) fun _ ↦ Keeps.mapErr (buildBlock_keeps _ _)

theorem buildBlock_noPanic (inherents : InherentData) (digest : Digest) :
    NoPanic (buildBlock H inherents digest) :=
  NoPanic.bind (NoPanic.read _) fun _ ↦ NoPanic.bind (getBlockHeader_noPanic _) fun _ ↦
    NoPanic.bind (NoPanic.query _ _) fun _ ↦ NoPanic.query _ _

theorem proposeBlock_noPanic (e : Error → ε) (e₁ e₂ e₃ : InnerError → ε) :
    NoPanic (proposeBlock P H e e₁ e₂ e₃) :=
  NoPanic.bind (NoPanic.mapErr (NoPanic.read _)) fun _ ↦
    NoPanic.bind (NoPanic.mapErr (withState_noPanic _ _ _)) fun _ ↦
      NoPanic.bind (NoPanic.query _ _) fun _ ↦ NoPanic.bind (NoPanic.query _ _) fun _ ↦
        NoPanic.bind (NoPanic.mapErr latestHeader_noPanic) fun _ ↦
          NoPanic.bind (NoPanic.mapErr (withState_noPanic _ _ _)) fun _ ↦
            NoPanic.bind (NoPanic.query _ _) fun _ ↦ NoPanic.mapErr (buildBlock_noPanic _ _)

theorem buildBlock_eq_ok {inherents : InherentData} {digest : Digest} {b b' : Builder S}
    {proposal : Proposal} (h : buildBlock H inherents digest b = (.ok proposal, b')) :
    ∃ hd, H.header b.chain b.chain.bestHash = .ok (some hd) ∧
      H.propose b.chain b.pool hd inherents digest = .ok proposal := by
  rw [buildBlock] at h
  simp only [bind_eq_ok, latestBlock, read_apply, getBlockHeader_eq_ok, ask_eq_ok, query_eq_ok,
    Prod.mk.injEq, Outcome.ok.injEq] at h
  obtain ⟨_, _, ⟨rfl, rfl⟩, hd, _, ⟨hhd, rfl⟩, _, _, ⟨-, rfl⟩, hprop, -⟩ := h
  exact ⟨hd, hhd, hprop⟩

theorem proposeBlock_eq_ok {e : Error → ε} {e₁ e₂ e₃ : InnerError → ε} {b b' : Builder S}
    {proposal : Proposal} (h : proposeBlock P H e e₁ e₂ e₃ b = (.ok proposal, b')) :
    b' = b ∧ ∃ hd inherents digest, H.header b.chain b.chain.bestHash = .ok (some hd) ∧
      H.propose b.chain b.pool hd inherents digest = .ok proposal := by
  have hb : b' = b := (proposeBlock_keeps (f := fun q ↦ q) e e₁ e₂ e₃).eq_of_ok h
  refine ⟨hb, ?_⟩
  -- every step before the last one reads, so the last one is made in `b`
  rw [proposeBlock] at h
  obtain ⟨_, b₁, h₁, k₁⟩ := bind_eq_ok.mp h
  obtain rfl : b₁ = b := (Keeps.mapErr (f := fun q ↦ q) (Keeps.read _)).eq_of_ok h₁
  obtain ⟨_, b₂, h₂, k₂⟩ := bind_eq_ok.mp k₁
  obtain rfl : b₂ = b₁ :=
    (Keeps.mapErr (f := fun q ↦ q) (withState_dryRun_keeps none _)).eq_of_ok h₂
  obtain ⟨_, b₃, h₃, k₃⟩ := bind_eq_ok.mp k₂
  obtain ⟨-, rfl⟩ := query_eq_ok.mp h₃
  obtain ⟨inherents, b₄, h₄, k₄⟩ := bind_eq_ok.mp k₃
  obtain ⟨-, rfl⟩ := query_eq_ok.mp h₄
  obtain ⟨_, b₅, h₅, k₅⟩ := bind_eq_ok.mp k₄
  obtain rfl : b₅ = b₄ := (Keeps.mapErr (f := fun q ↦ q) latestHeader_keeps).eq_of_ok h₅
  obtain ⟨_, b₆, h₆, k₆⟩ := bind_eq_ok.mp k₅
  obtain rfl : b₆ = b₅ :=
    (Keeps.mapErr (f := fun q ↦ q) (withState_dryRun_keeps none _)).eq_of_ok h₆
  obtain ⟨digest, b₇, h₇, k₇⟩ := bind_eq_ok.mp k₆
  obtain ⟨-, rfl⟩ := query_eq_ok.mp h₇
  obtain ⟨hd, hhd, hprop⟩ := buildBlock_eq_ok (mapErr_eq_ok.mp k₇)
  exact ⟨hd, inherents, digest, hhd, hprop⟩

/-! ## Imports -/

theorem maintainPool_keeps (prevHash : Hash) (result : ImportResult) :
    Keeps Builder.chain (maintainPool prevHash result : Call (Builder S) Error Unit) := by
  rw [maintainPool]
  by_cases hr : result = .imported
  · rw [if_pos hr]
    exact Keeps.bind (Keeps.read _) fun _ ↦
      Keeps.bind (Keeps.modify fun _ ↦ rfl) fun _ ↦ Keeps.modify fun _ ↦ rfl
  · rw [if_neg hr]
    exact Keeps.pure ()

theorem importBlock_client (params : BlockImportParams) (b : Builder S) :
    (∃ e, (H.importBlock b.chain params).1 = .error e ∧ importBlock H params b =
        (.err (.blockImporting e), { b with chain := (H.importBlock b.chain params).2 })) ∨
      ∃ result, (H.importBlock b.chain params).1 = .ok result ∧ importBlock H params b =
        maintainPool b.chain.bestHash result
          { b with chain := (H.importBlock b.chain params).2 } := by
  have hprev : importBlock H params b =
      (clientImport H params >>= maintainPool b.chain.bestHash) b := rfl
  rw [hprev]
  rcases hi : H.importBlock b.chain params with ⟨e | result, c⟩
  · have hclient : clientImport H params b = (.err (.blockImporting e), { b with chain := c }) := by
      rw [clientImport, hi]
    exact Or.inl ⟨e, rfl, bind_of_err hclient⟩
  · have hclient : clientImport H params b = (.ok result, { b with chain := c }) := by
      rw [clientImport, hi]
    exact Or.inr ⟨result, rfl, bind_of_ok hclient⟩

theorem importBlock_chain (params : BlockImportParams) (b : Builder S) :
    (importBlock H params b).2.chain = (H.importBlock b.chain params).2 := by
  rcases importBlock_client (H := H) params b with ⟨e, -, h⟩ | ⟨result, -, h⟩
  · rw [h]
  · rw [h, maintainPool_keeps]

/-- An import returns `Ok` exactly when the client gives a verdict, whichever it is. -/
theorem importBlock_isOk (params : BlockImportParams) (b : Builder S) :
    (importBlock H params b).1.isOk = true ↔
      ∃ result, (H.importBlock b.chain params).1 = .ok result := by
  have hpool : ∀ result c, (maintainPool b.chain.bestHash result c :
      Outcome Error Unit × Builder S).1.isOk = true := by
    intro result c
    rw [maintainPool]
    by_cases hr : result = .imported
    · rw [if_pos hr]
      rfl
    · rw [if_neg hr]
      rfl
  rcases importBlock_client (H := H) params b with ⟨e, hclient, h⟩ | ⟨result, hclient, h⟩
  · rw [h, hclient]
    exact ⟨fun hok ↦ (by cases hok), fun ⟨_, hok⟩ ↦ (by cases hok)⟩
  · rw [h]
    exact ⟨fun _ ↦ ⟨result, hclient⟩, fun _ ↦ hpool result _⟩

theorem importBlock_noPanic (params : BlockImportParams) :
    NoPanic (importBlock H params : Call (Builder S) Error Unit) := by
  have hclient : NoPanic (clientImport H params : Call (Builder S) Error ImportResult) := by
    intro b
    rw [clientImport]
    rcases H.importBlock b.chain params with ⟨_ | _, _⟩ <;> rfl
  refine NoPanic.bind (NoPanic.read _) fun _ ↦ NoPanic.bind hclient fun result ↦ ?_
  rw [maintainPool]
  by_cases hr : result = .imported
  · rw [if_pos hr]
    exact NoPanic.bind (NoPanic.read _) fun _ ↦ NoPanic.bind (NoPanic.modify _) fun _ ↦
      NoPanic.modify _
  · rw [if_neg hr]
    exact NoPanic.pure _

/-! ## Extrinsics -/

theorem appendExtrinsic_keeps (xt : Extrinsic) :
    Keeps Builder.chain (appendExtrinsic H xt : Call (Builder S) Error Hash) :=
  Keeps.bind (ask_keeps _ _) fun _ ↦ Keeps.bind (Keeps.modify fun _ ↦ rfl) fun _ ↦ Keeps.pure _

theorem appendExtrinsic_noPanic (xt : Extrinsic) :
    NoPanic (appendExtrinsic H xt : Call (Builder S) Error Hash) :=
  NoPanic.bind (NoPanic.query _ _) fun _ ↦ NoPanic.bind (NoPanic.modify _) fun _ ↦ NoPanic.pure _

end Builder

end Fudge
