import Fudge.Core.Commit
import Fudge.Core.Reference

/-!
# When a failed commit leaves the chain alone

`with_state(Commit)` un-finalizes the tip before it knows whether the block can be imported again.
A failure in between returns `Err` on a chain that is one block shorter than before.

The two directions are equally informative. If the revert was not reached, was refused, or had
nothing to step back from, every later failure is harmless, whatever it is; if it took effect, the
only harmless continuation is the successful one.
-/

namespace Fudge

namespace Builder

open Call

variable {S R : Type} {P : Primitives S} {H : Host S}

/-- The call gets as far as stepping back from a finalized tip, to the chain `c'`. -/
def RevertsTip (H : Host S) (c : Chain S) (at_ : Option BlockId) (h : Hash) (s : S)
    (c' : Chain S) : Prop :=
  ∃ number, Opens H c at_ h s number ∧ number ≠ 0 ∧ c.bestHash = c.finalizedHash ∧
    c.bestNumber ≠ 0 ∧ H.revert c 1 = .ok c'

/-- From the chain `c` left by the revert, every remaining step succeeds: the version lookup, the
closure's transaction, the updates and reads of the operation, and the commit. -/
def Reimports (P : Primitives S) (H : Host S) (c : Chain S) (h : Hash) (post : S) : Prop :=
  ∃ block c', Rebuilds P H c h post block ∧
    H.commitOperation c (importOperation h post block) = .ok c'

def CommitSafe (P : Primitives S) (H : Host S) (c : Chain S) (at_ : Option BlockId)
    (exec : S → R × S) : Prop :=
  ∀ h s c', RevertsTip H c at_ h s c' → Reimports P H c' h (exec s).2

/-! ## The tail of a commit -/

/-- What follows the opening of a commit. -/
def finishCommit (h : Hash) (m : Call (Builder S) Error (R × BlockImportOperation S)) (H : Host S) :
    Call (Builder S) Error R := do
  let (r, op) ← m
  commitOperation H h op
  pure r

theorem commit_of_begin {at_ : Option BlockId} {exec : S → R × S} {b : Builder S} {h : Hash} {s : S}
    {number : ℕ} (hb : beginCommit H at_ b = (.ok (h, s, number), b)) :
    commit P H at_ exec b =
      finishCommit h (mutate P H number h s { oldState := some h } exec) H b :=
  bind_of_ok hb

theorem finishCommit_of_not_ok {h : Hash} {m : Call (Builder S) Error (R × BlockImportOperation S)}
    (hm : Keeps id m) {b : Builder S} (hn : (finishCommit h m H b).1.isOk = false) :
    (finishCommit h m H b).2 = b := by
  have hkeep : (m b).2 = b := hm b
  rw [finishCommit] at hn ⊢
  rcases hr : m b with ⟨⟨r, op⟩ | _ | _, t⟩
  · obtain rfl : t = b := by rw [hr] at hkeep; exact hkeep
    rw [bind_of_ok hr] at hn ⊢
    simp only at hn ⊢
    rcases hc : commitOperation H h op t with ⟨_ | _ | _, u⟩
    · rw [bind_of_ok hc] at hn
      cases hn
    · have hu : (commitOperation H h op t).2 = t := commitOperation_of_not_ok (by rw [hc]; rfl)
      rw [hc] at hu
      rw [bind_of_err hc]
      exact hu
    · have hu : (commitOperation H h op t).2 = t := commitOperation_of_not_ok (by rw [hc]; rfl)
      rw [hc] at hu
      rw [bind_of_panic hc]
      exact hu
  · rw [bind_of_err hr]
    rw [hr] at hkeep
    exact hkeep
  · rw [bind_of_panic hr]
    rw [hr] at hkeep
    exact hkeep

theorem finishCommit_noPanic {h : Hash} {m : Call (Builder S) Error (R × BlockImportOperation S)}
    (hm : NoPanic m) : NoPanic (finishCommit h m H) :=
  NoPanic.bind hm fun _ ↦ NoPanic.bind (commitOperation_noPanic _ _) fun _ ↦ NoPanic.pure _

/-- After the revert the commit succeeds exactly when the host lets the block in again. -/
theorem finishCommit_rebuild_isOk_iff {h : Hash} {s : S} {exec : S → R × S} {b : Builder S} :
    (finishCommit h (rebuild P H h s { oldState := some h } exec) H b).1.isOk = true ↔
      Reimports P H b.chain h (exec s).2 := by
  rw [Outcome.isOk_iff]
  constructor
  · rintro ⟨r, hr⟩
    obtain ⟨q, t, hq, hf⟩ := bind_eq_ok.mp (show finishCommit h _ H b = (.ok r, _) from
      Prod.ext hr rfl)
    obtain ⟨block, hre, rfl, rfl⟩ := rebuild_eq_ok.mp hq
    obtain ⟨u, t', hc, -⟩ := bind_eq_ok.mp hf
    obtain ⟨c', hc', -⟩ := commitOperation_eq_ok.mp hc
    exact ⟨block, c', hre, hc'⟩
  · rintro ⟨block, c', hre, hc'⟩
    refine ⟨(exec s).1, ?_⟩
    have hq : rebuild P H h s { oldState := some h } exec b =
        (.ok ((exec s).1, importOperation h (exec s).2 block), b) :=
      rebuild_eq_ok.mpr ⟨block, hre, rfl, rfl⟩
    have hc : commitOperation H h (importOperation h (exec s).2 block) b =
        (.ok (), { b with chain := c' }) :=
      commitOperation_eq_ok.mpr ⟨c', hc', rfl⟩
    rw [finishCommit, bind_of_ok hq]
    simp only
    rw [bind_of_ok hc]
    rfl

/-! ## The revert -/

theorem checkBestHashAndRevert_of_ne {n : ℕ} {b : Builder S}
    (hf : b.chain.bestHash ≠ b.chain.finalizedHash) :
    checkBestHashAndRevert H n b = (.ok (), b) := if_neg hf

theorem checkBestHashAndRevert_of_error {n : ℕ} {b : Builder S}
    (hf : b.chain.bestHash = b.chain.finalizedHash) {e : InnerError}
    (hr : H.revert b.chain n = .error e) :
    checkBestHashAndRevert H n b = (.err (.backendOperationReversal e), b) := by
  rw [checkBestHashAndRevert, if_pos hf, hr]

theorem checkBestHashAndRevert_of_ok {n : ℕ} {b : Builder S} {c : Chain S}
    (hf : b.chain.bestHash = b.chain.finalizedHash) (hr : H.revert b.chain n = .ok c) :
    checkBestHashAndRevert H n b = (.ok (), { b with chain := c }) := by
  rw [checkBestHashAndRevert, if_pos hf, hr]

/-! ## The exact condition -/

theorem opens_unique {c : Chain S} {at_ : Option BlockId} {h h' : Hash} {s s' : S} {n n' : ℕ}
    (ho : Opens H c at_ h s n) (ho' : Opens H c at_ h' s' n') : h = h' ∧ s = s' ∧ n = n' := by
  obtain ⟨t, ht⟩ : ∃ b : Builder S, b.chain = c := ⟨{ chain := c }, rfl⟩
  subst ht
  have heq := (beginCommit_eq_ok (q := (h, s, n)).mpr ⟨ho, rfl⟩).symm.trans
    (beginCommit_eq_ok (q := (h', s', n')).mpr ⟨ho', rfl⟩)
  simpa using heq

theorem finishCommit_mutate_of_revert {number : ℕ} {h : Hash} {s : S} {exec : S → R × S}
    {b b' : Builder S} (hn : number ≠ 0) (hr : checkBestHashAndRevert H 1 b = (.ok (), b')) :
    finishCommit h (mutate P H number h s { oldState := some h } exec) H b =
      finishCommit h (rebuild P H h s { oldState := some h } exec) H b' := by
  have hm : mutate P H number h s { oldState := some h } exec b =
      rebuild P H h s { oldState := some h } exec b' := by
    rw [mutate, if_neg hn]
    exact bind_of_ok hr
  change Call.bind _ _ b = Call.bind _ _ b'
  rw [Call.bind, Call.bind, hm]

theorem finishCommit_mutate_of_refused {number : ℕ} {h : Hash} {s : S} {exec : S → R × S}
    {b : Builder S} {e : Error} (hn : number ≠ 0)
    (hr : checkBestHashAndRevert H 1 b = (.err e, b)) :
    finishCommit h (mutate P H number h s { oldState := some h } exec) H b = (.err e, b) := by
  have hm : mutate P H number h s { oldState := some h } exec b = (.err e, b) := by
    rw [mutate, if_neg hn]
    exact bind_of_err hr
  exact bind_of_err hm

/-- The normal path: a failure is harmless exactly if the tip was not reverted for nothing. -/
theorem finishCommit_mutate_atomic_iff (hL : H.Lawful P) {number : ℕ} (hn : number ≠ 0) (h : Hash)
    (s : S) (exec : S → R × S) (b : Builder S) :
    ((finishCommit h (mutate P H number h s { oldState := some h } exec) H b).1.isErr = true →
        (finishCommit h (mutate P H number h s { oldState := some h } exec) H b).2.chain
          = b.chain) ↔
      ∀ c', b.chain.bestHash = b.chain.finalizedHash → b.chain.bestNumber ≠ 0 →
        H.revert b.chain 1 = .ok c' → Reimports P H c' h (exec s).2 := by
  have hrebuild := fun t : Builder S ↦
    finishCommit_of_not_ok (h := h) (H := H) (b := t)
      (rebuild_keeps (P := P) (H := H) (f := id) h s { oldState := some h } exec)
  by_cases hf : b.chain.bestHash = b.chain.finalizedHash
  · cases hrev : H.revert b.chain 1 with
    | error e =>
      rw [finishCommit_mutate_of_refused hn (checkBestHashAndRevert_of_error hf hrev)]
      exact ⟨fun _ c' _ _ hc ↦ (by cases hc), fun _ _ ↦ rfl⟩
    | ok c =>
      rw [finishCommit_mutate_of_revert hn (checkBestHashAndRevert_of_ok hf hrev)]
      by_cases h0 : b.chain.bestNumber = 0
      · -- nothing to step back from: the chain after the revert is the chain before it
        obtain rfl := (hL.revert hrev).eq_of_genesis h0
        refine ⟨fun _ c' _ hne ↦ absurd h0 hne, fun _ herr ↦ ?_⟩
        rw [hrebuild _ (Outcome.isOk_of_isErr herr)]
      · have hnum := ((hL.revert hrev).reverted h0).bestNumber
        constructor
        · intro hsame c' _ _ hc
          -- a failure after the revert would leave a chain that is one block shorter
          cases hc
          rw [← finishCommit_rebuild_isOk_iff (b := { b with chain := c })]
          by_contra hok
          have hnot : (finishCommit h (rebuild P H h s { oldState := some h } exec) H
              { b with chain := c }).1.isOk = false := by simpa using hok
          have hchain := hsame
            (Outcome.isErr_of_not_ok hnot (finishCommit_noPanic (rebuild_noPanic _ _ _ _) _))
          rw [hrebuild _ hnot] at hchain
          have : c.bestNumber = b.chain.bestNumber := by rw [← hchain]
          omega
        · intro hre herr
          have hok := finishCommit_rebuild_isOk_iff (b := { b with chain := c }).mpr
            (hre c hf h0 rfl)
          rw [Outcome.isOk_of_isErr herr] at hok
          cases hok
  · rw [finishCommit_mutate_of_revert hn (checkBestHashAndRevert_of_ne hf)]
    refine ⟨fun _ c' hf' ↦ absurd hf' hf, fun _ herr ↦ ?_⟩
    rw [hrebuild _ (Outcome.isOk_of_isErr herr)]

/-- **Error atomicity of the core commit, exactly.** A failing `with_state(Commit)` leaves the chain
as it was if and only if it does not step back from a finalized tip that it then fails to import
again. -/
theorem withState_commit_atomic_iff (hL : H.Lawful P) (b : Builder S) (at_ : Option BlockId)
    (exec : S → R × S) :
    ((withState P H .commit at_ exec b).1.isErr = true →
        (withState P H .commit at_ exec b).2.chain = b.chain) ↔
      CommitSafe P H b.chain at_ exec := by
  change ((commit P H at_ exec b).1.isErr = true → (commit P H at_ exec b).2.chain = b.chain) ↔ _
  have hkeep : (beginCommit H at_ b).2 = b := beginCommit_keeps (f := id) at_ b
  rcases hb : beginCommit H at_ b with ⟨⟨h, s, number⟩ | e | _, t⟩
  · obtain rfl : t = b := by rw [hb] at hkeep; exact hkeep
    obtain ⟨hopen, -⟩ := beginCommit_eq_ok.mp hb
    rw [commit_of_begin hb]
    by_cases hn : number = 0
    · -- the genesis path reverts nothing
      subst hn
      constructor
      · rintro - h' s' c' ⟨number', hopen', hne, -⟩
        exact absurd (opens_unique hopen hopen').2.2.symm hne
      · intro _ herr
        have hgen : mutate P H 0 h s { oldState := some h } exec =
            mutateGenesis P H { oldState := some h } s exec := if_pos rfl
        rw [hgen] at herr ⊢
        rw [finishCommit_of_not_ok (mutateGenesis_keeps _ _ _) (Outcome.isOk_of_isErr herr)]
    · rw [finishCommit_mutate_atomic_iff hL hn]
      constructor
      · rintro hre h' s' c' ⟨number', hopen', -, hf, h0, hrev⟩
        obtain ⟨rfl, rfl, -⟩ := opens_unique hopen hopen'
        exact hre c' hf h0 hrev
      · intro hsafe c' hf h0 hrev
        exact hsafe h s c' ⟨number, hopen, hn, hf, h0, hrev⟩
  · obtain rfl : t = b := by rw [hb] at hkeep; exact hkeep
    have herr : commit P H at_ exec t = (.err e, t) := bind_of_err hb
    rw [herr]
    refine ⟨fun _ h s c' hrev ↦ ?_, fun _ _ ↦ rfl⟩
    obtain ⟨number, hopen, -⟩ := hrev
    have hok := beginCommit_eq_ok (q := (h, s, number)).mpr ⟨hopen, rfl⟩
    rw [hb] at hok
    cases hok
  · have := beginCommit_noPanic (H := H) at_ b
    rw [hb] at this
    cases this

theorem finishCommit_mutate_of_not_ok (hL : H.Lawful P) {number : ℕ} (hn : number ≠ 0) {h : Hash}
    {s : S} {exec : S → R × S} {b : Builder S}
    (hno : (finishCommit h (mutate P H number h s { oldState := some h } exec) H b).1.isOk =
      false) :
    ((finishCommit h (mutate P H number h s { oldState := some h } exec) H b).2 = b ∧
        ∀ c', b.chain.bestHash = b.chain.finalizedHash → b.chain.bestNumber ≠ 0 →
          H.revert b.chain 1 ≠ .ok c') ∨
      ∃ c', b.chain.bestHash = b.chain.finalizedHash ∧ b.chain.bestNumber ≠ 0 ∧
        H.revert b.chain 1 = .ok c' ∧
        (finishCommit h (mutate P H number h s { oldState := some h } exec) H b).2 =
          { b with chain := c' } := by
  have hrebuild := fun t : Builder S ↦
    finishCommit_of_not_ok (h := h) (H := H) (b := t)
      (rebuild_keeps (P := P) (H := H) (f := id) h s { oldState := some h } exec)
  by_cases hf : b.chain.bestHash = b.chain.finalizedHash
  · cases hrev : H.revert b.chain 1 with
    | error e =>
      rw [finishCommit_mutate_of_refused hn (checkBestHashAndRevert_of_error hf hrev)]
      exact Or.inl ⟨rfl, fun _ _ _ ↦ nofun⟩
    | ok c =>
      rw [finishCommit_mutate_of_revert hn (checkBestHashAndRevert_of_ok hf hrev)] at hno ⊢
      rw [hrebuild _ hno]
      by_cases h0 : b.chain.bestNumber = 0
      · obtain rfl := (hL.revert hrev).eq_of_genesis h0
        exact Or.inl ⟨rfl, fun _ _ hne ↦ absurd h0 hne⟩
      · exact Or.inr ⟨c, hf, h0, rfl, rfl⟩
  · rw [finishCommit_mutate_of_revert hn (checkBestHashAndRevert_of_ne hf)] at hno ⊢
    rw [hrebuild _ hno]
    exact Or.inl ⟨rfl, fun _ hf' ↦ absurd hf' hf⟩

/-- **A commit that fails** has changed nothing, or it is left on the chain of its revert. -/
theorem commit_of_not_ok (hL : H.Lawful P) {at_ : Option BlockId} {exec : S → R × S} {b : Builder S}
    (hno : (commit P H at_ exec b).1.isOk = false) :
    ((commit P H at_ exec b).2 = b ∧ ∀ h s c', ¬ RevertsTip H b.chain at_ h s c') ∨
      ∃ h s c', RevertsTip H b.chain at_ h s c' ∧
        (commit P H at_ exec b).2 = { b with chain := c' } := by
  have hkeep : (beginCommit H at_ b).2 = b := beginCommit_keeps (f := id) at_ b
  rcases hb : beginCommit H at_ b with ⟨⟨h, s, number⟩ | e | _, t⟩
  · obtain rfl : t = b := by rw [hb] at hkeep; exact hkeep
    obtain ⟨hopen, -⟩ := beginCommit_eq_ok.mp hb
    rw [commit_of_begin hb] at hno ⊢
    by_cases hn : number = 0
    · subst hn
      refine Or.inl ⟨?_, ?_⟩
      · have hgen : mutate P H 0 h s { oldState := some h } exec =
            mutateGenesis P H { oldState := some h } s exec := if_pos rfl
        rw [hgen] at hno ⊢
        exact finishCommit_of_not_ok (mutateGenesis_keeps _ _ _) hno
      · rintro h' s' c' ⟨number', hopen', hne, -⟩
        exact hne (opens_unique hopen hopen').2.2.symm
    · rcases finishCommit_mutate_of_not_ok hL hn hno with ⟨hsame, hrev⟩ | ⟨c', hf, h0, hrev, hleft⟩
      · exact Or.inl ⟨hsame, fun h' s' c' ⟨_, _, _, hf, h0, hc⟩ ↦ hrev c' hf h0 hc⟩
      · exact Or.inr ⟨h, s, c', ⟨number, hopen, hn, hf, h0, hrev⟩, hleft⟩
  · obtain rfl : t = b := by rw [hb] at hkeep; exact hkeep
    refine Or.inl ⟨by rw [commit, bind_of_err hb], fun h s c' ⟨number, hopen, _⟩ ↦ ?_⟩
    have hok := beginCommit_eq_ok (q := (h, s, number)).mpr ⟨hopen, rfl⟩
    rw [hb] at hok
    cases hok
  · have := beginCommit_noPanic (H := H) at_ b
    rw [hb] at this
    cases this

/-- Mutating block 1 of a chain of height 3 is refused by the backend, which has finalized beyond
it, but only after block 3 is gone. -/
theorem withState_commit_not_atomic :
    let b : Builder ℕ := { chain := counterChain 3 }
    let out := withState counter (Host.reference counter) .commit (some (.number 1))
      (fun s ↦ ((), s + 10)) b
    out.1.isErr = true ∧ b.chain.bestNumber = 3 ∧ out.2.chain.bestNumber = 2 := by
  decide

/-- The best block of the same chain can be mutated safely. -/
theorem withState_commit_atomic_best :
    CommitSafe counter (Host.reference counter) (counterChain 3) none fun s ↦ ((), s + 10) :=
  (withState_commit_atomic_iff (Host.reference_lawful counter) { chain := counterChain 3 } none
    fun s ↦ ((), s + 10)).mp fun herr ↦ absurd herr (by decide)

end Builder

end Fudge
