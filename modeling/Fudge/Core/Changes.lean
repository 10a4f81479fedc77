import Fudge.Core.Atomicity
import Fudge.Core.Tip

/-!
# Two ways to commit changes

`with_state(Commit)` runs a closure and commits what it changed; `commit_storage_changes` is given
the changes. Both un-finalize the tip and import it again with `mutate_normal`. They differ in how
far they step back: by one block, or by the number of the block, which is all the way to genesis.

On a chain of height one the two numbers are the same. At genesis neither reverts anything, and the
two headers, one made anew and one taken from the chain, agree because a genesis header has no
freedom. From height two on the blocks between genesis and the tip are gone.
-/

namespace Fudge

namespace Chain

variable {S : Type}

theorem RevertedBy.bestNumber {n : ℕ} {c c' : Chain S} (h : RevertedBy n c c') :
    c'.bestNumber = c.bestNumber - n := by
  induction h with
  | zero => rfl
  | genesis h0 => rw [h0, Nat.zero_sub]
  | step _ hd _ ih =>
    rw [ih, hd.bestNumber]
    omega

theorem RevertedBy.contents_none {n : ℕ} {c c' : Chain S} (h : RevertedBy n c c') {k : Hash}
    (hk : c.contents k = none) : c'.contents k = none := by
  induction h with
  | zero => exact hk
  | genesis => exact hk
  | step _ hone _ ih =>
    refine ih (Option.eq_none_iff_forall_ne_some.mpr fun ct hct ↦ ?_)
    rw [hone.contents k ct hct] at hk
    cases hk

theorem RevertedBy.contents_parent {n : ℕ} {c c' : Chain S} {hd : Header}
    (h : RevertedBy (n + 2) c c') (hn : 2 ≤ c.bestNumber)
    (hhd : c.headers c.bestHash = some hd) : c'.contents hd.parentHash = none := by
  cases h with
  | genesis h0 => omega
  | @step _ _ d _ _ hd₁ hrest =>
    cases hrest with
    | genesis h0 =>
      rw [hd₁.bestNumber] at h0
      omega
    | step _ hd₂ hrest =>
      apply hrest.contents_none
      rw [← hd₁.best hd hhd, hd₂.contents_best]

/-- What two chains have in common after a mutation of the tip: its number and state, the finalized
block, and every block below with its header, state and contents. -/
structure SameMutation (c c' : Chain S) : Prop where
  bestNumber : c'.bestNumber = c.bestNumber
  bestState : c'.states c'.bestHash = c.states c.bestHash
  finalizedHash : c'.finalizedHash = c.finalizedHash
  earlier : ∀ n, n < c.bestNumber → c'.canonical n = c.canonical n ∧
    ∀ k, c.canonical n = some k →
      c'.headers k = c.headers k ∧ c'.states k = c.states k ∧ c'.contents k = c.contents k

/-- The block below the best one is stored, under its number and with its contents. -/
def ParentStored (c : Chain S) : Prop :=
  ∀ hd, c.headers c.bestHash = some hd → 2 ≤ c.bestNumber →
    c.canonical (c.bestNumber - 1) = some hd.parentHash ∧ c.contents hd.parentHash ≠ none

end Chain

namespace Builder

open Call Chain

variable {S R : Type} {P : Primitives S} {H : Host S}

/-! ## The steps of `commit_storage_changes` -/

/-- What `commit_storage_changes` does after the revert. -/
def finishChanges (P : Primitives S) (H : Host S) (changes : StorageChanges S) (h k : Hash) :
    Call (Builder S) Error Unit := do
  let op ← mutateNormal P H { oldState := some k } changes (.hash h)
  commitOperationAt H (.hash h) op

theorem finishChanges_eq_ok {changes : StorageChanges S} {h k : Hash} {b b' : Builder S}
    {u : Unit} : finishChanges P H changes h k b = (.ok u, b') ↔
      ∃ hd ct c, H.header b.chain h = .ok (some hd) ∧ AcceptsUpdates H changes.post ∧
        ReadsContents H b.chain (P.hash hd) ct ∧
        H.setBlockData ⟨{ hd with stateRoot := changes.root }, ct⟩ = .ok () ∧
        H.commitOperation b.chain
          (importOperation k changes.post ⟨{ hd with stateRoot := changes.root }, ct⟩) = .ok c ∧
        b' = { b with chain := c } := by
  rw [finishChanges, bind_eq_ok]
  constructor
  · rintro ⟨op, t, hm, hcom⟩
    obtain ⟨hd, ct, hhd, hup, hct, hset, rfl, rfl⟩ := mutateNormal_eq_ok.mp hm
    obtain ⟨c, hc, rfl⟩ := commitOperation_eq_ok (h := h).mp hcom
    exact ⟨hd, ct, c, hhd, hup, hct, hset, hc, rfl⟩
  · rintro ⟨hd, ct, c, hhd, hup, hct, hset, hc, rfl⟩
    exact ⟨_, b, mutateNormal_eq_ok.mpr ⟨hd, ct, hhd, hup, hct, hset, rfl, rfl⟩,
      commitOperation_eq_ok (h := h).mpr ⟨c, hc, rfl⟩⟩

theorem finishChanges_of_not_ok {changes : StorageChanges S} {h k : Hash} {b : Builder S}
    (hn : (finishChanges P H changes h k b).1.isOk = false) :
    (finishChanges P H changes h k b).2 = b := by
  have hkeep : ∀ op, (mutateNormal P H op changes (.hash h) b).2 = b :=
    fun op ↦ mutateNormal_keeps (f := id) op changes (.hash h) b
  rw [finishChanges] at hn ⊢
  rcases bind_cases (mutateNormal P H { oldState := some k } changes (.hash h))
    (commitOperationAt H (.hash h)) b with ⟨op, -, hrest⟩ | ⟨-, -, hrest⟩
  · rw [hrest, hkeep] at hn ⊢
    exact commitOperation_of_not_ok (h := h) hn
  · rw [hrest, hkeep]

theorem finishChanges_cases (hL : H.Lawful P) {post : S} {root k : Hash} {h : Hash}
    {b b' : Builder S} {hd : Header} (hhd : ∀ x, b.chain.headers h = some x → x = hd)
    {o : Outcome Error Unit} (hout : finishChanges P H ⟨post, root⟩ h k b = (o, b')) :
    (∃ ct, Committed P b.chain ⟨{ hd with stateRoot := root }, ct⟩ post b'.chain) ∨
      (o.isOk = false ∧ b'.chain = b.chain) := by
  by_cases hok : o.isOk = true
  · obtain ⟨u, rfl⟩ := Outcome.isOk_iff.mp hok
    obtain ⟨hd', ct, c, hhd', -, -, -, hcom, rfl⟩ := finishChanges_eq_ok.mp hout
    obtain rfl : hd' = hd := hhd hd' (hL.header hhd').symm
    exact Or.inl ⟨ct, hL.commitOperation (by rfl) (by rfl) hcom⟩
  · have hno : o.isOk = false := by simpa using hok
    have hleft := finishChanges_of_not_ok (by rw [hout]; exact hno)
    rw [hout] at hleft
    exact Or.inr ⟨hno, congrArg chain hleft⟩

/-- `commit_storage_changes` on a finalized tip is refused before it writes anything, or it goes on
on the chain that its revert leaves. -/
theorem commitStorageChanges_refusedOr (hL : H.Lawful P) (changes : StorageChanges S)
    {b : Builder S} {hd : Header} (hhd : b.chain.headers b.chain.bestHash = some hd)
    (hf : b.chain.bestHash = b.chain.finalizedHash) :
    RefusedOr b (fun out ↦ ∃ d, H.revert b.chain hd.number = .ok d ∧
        out = finishChanges P H changes b.chain.bestHash (P.hash hd) { b with chain := d })
      (commitStorageChanges P H changes (.hash b.chain.bestHash)) := by
  refine RefusedOr.bind (ask_keeps _ _) fun _ _ ↦ ?_
  refine RefusedOr.bind (getBlockHeader_keeps _) fun hd' hok ↦ ?_
  obtain rfl : hd' = hd :=
    header_of_headers hL (fun _ _ hx ↦ hx) hhd (getBlockHeader_eq_ok.mp hok).1
  refine RefusedOr.bind (ask_keeps _ _) fun _ _ ↦ ?_
  rw [RefusedOr]
  cases hr : H.revert b.chain hd'.number with
  | error e =>
    rw [bind_of_err (checkBestHashAndRevert_of_error hf hr)]
    exact Or.inl ⟨rfl, rfl⟩
  | ok d =>
    rw [bind_of_ok (checkBestHashAndRevert_of_ok hf hr)]
    exact Or.inr ⟨d, rfl, rfl⟩

theorem commitStorageChanges_effect (hL : H.Lawful P) {changes : StorageChanges S}
    {b b' : Builder S} {hd : Header} (hhd : b.chain.headers b.chain.bestHash = some hd)
    (hf : b.chain.bestHash = b.chain.finalizedHash) {o : Outcome Error Unit}
    (h : commitStorageChanges P H changes (.hash b.chain.bestHash) b = (o, b'))
    (heffect : o.isOk = true ∨ b'.chain ≠ b.chain) :
    ∃ d, H.revert b.chain hd.number = .ok d ∧
      (o, b') = finishChanges P H changes b.chain.bestHash (P.hash hd) { b with chain := d } := by
  have hcases := commitStorageChanges_refusedOr hL changes hhd hf
  rw [RefusedOr, h] at hcases
  -- a refused call returned an error and left the chain as it was, so it took no effect
  rcases hcases with ⟨hno, rfl⟩ | hcases
  · rcases heffect with hok | hne
    · rw [hno] at hok
      cases hok
    · exact absurd rfl hne
  · exact hcases

/-! ## Agreement -/

theorem sameMutation_genesis (hempty : ∀ v w, P.emptyTrieRoot v = P.emptyTrieRoot w)
    {c c₁ c₂ : Chain S} {hd : Header} {v : StateVersion} {post : S} {ct : Contents}
    (hset : c.Settled P) (hhd : c.headers c.bestHash = some hd) (hn : c.bestNumber = 0)
    (h₁ : Committed P c (remadeGenesis P v post) post c₁)
    (h₂ : Committed P c (remade P v hd post ct) post c₂) : SameMutation c₁ c₂ := by
  obtain ⟨hparent, hdigest, w, hroot⟩ := hset.genesis hd hhd hn
  obtain ⟨hd', hhd', hnumber, -⟩ := hset.header
  obtain rfl := Option.mem_unique hhd hhd'
  have hheader : (remade P v hd post ct).header = (remadeGenesis P v post).header := by
    obtain ⟨p, n, s, x, g⟩ := hd
    simp only at hparent hdigest hroot hnumber
    simp only [remade, remadeGenesis, hparent, hdigest, hnumber, hn, hroot, hempty w v]
  have hbest : c₂.bestHash = c₁.bestHash := by rw [h₂.best, h₁.best, hheader]
  refine ⟨by rw [h₂.bestNumber, h₁.bestNumber, hheader], ?_, ?_, ?_⟩
  · rw [h₂.states, h₁.states, h₂.best, h₁.best, Function.update_self, Function.update_self]
  · rw [h₂.finalized, h₁.finalized, hheader]
  · intro n hlt
    rw [h₁.bestNumber] at hlt
    exact absurd hlt (Nat.not_lt_zero n)

/-- From height two on, the block below the tip is gone. -/
theorem not_sameMutation_of_deep (hinj : Function.Injective P.hash) {c c₁ d c₂ : Chain S}
    {hd : Header} {s post post' : S} {n : ℕ} {block : PendingBlock} (hset : c.Settled P)
    (hstored : c.ParentStored) (hhd : c.headers c.bestHash = some hd) (hn : c.bestNumber = n + 2)
    (hm : Mutated P c s post c₁) (hrev : RevertedBy (n + 2) c d)
    (hnumber : block.header.number = hd.number) (h₂ : Committed P d block post' c₂) :
    ¬ SameMutation c₁ c₂ := by
  intro hsame
  have hle : 2 ≤ c.bestNumber := by omega
  have hlt : c.bestNumber - 1 < c.bestNumber := by omega
  obtain ⟨hcanonical, hcontents⟩ := hstored hd hhd hle
  obtain ⟨hd', hhd', hbest, -⟩ := hset.header
  obtain rfl := Option.mem_unique hhd hhd'
  -- the new block has another number than the parent, so another hash
  have hne : hd.parentHash ≠ P.hash block.header := by
    obtain ⟨parent, -, hnum, hhash⟩ := hset.canonical _ _ (by omega) hcanonical
    intro heq
    obtain rfl : parent = block.header := hinj (hhash.trans heq)
    omega
  have hgone : c₂.contents hd.parentHash = none := by
    rw [h₂.contents, Function.update_of_ne hne]
    exact hrev.contents_parent hle hhd
  have hkept := (hm.earlier _ _ hlt hcanonical).2.2
  have hcanonical₁ : c₁.canonical (c.bestNumber - 1) = some hd.parentHash := by
    rw [hm.canonical _ hlt, hcanonical]
  obtain ⟨-, hblocks⟩ := hsame.earlier _ (by rw [hm.bestNumber]; exact hlt)
  have hequal := (hblocks _ hcanonical₁).2.2
  rw [hgone, hkept] at hequal
  exact hcontents hequal.symm

/-- **The two commit paths, exactly.** On a finalized tip, a mutation by `with_state(Commit)` and
the commit of the changes it produced leave the same chain if and only if the chain has at most one
block above genesis. The second call is one that took effect: it returned `Ok`, or it left another
chain. -/
theorem commitStorageChanges_agrees_iff (hinj : Function.Injective P.hash)
    (hempty : ∀ v w, P.emptyTrieRoot v = P.emptyTrieRoot w) (hL : H.Lawful P) {b b₁ : Builder S}
    (hset : b.chain.Settled P) (hstored : b.chain.ParentStored) {exec : S → R × S} {r : R}
    (h₁ : withState P H .commit none exec b = (.ok r, b₁)) {h : Hash} {s : S} {n : ℕ}
    {v : StateVersion} {t : Builder S}
    (hv : commitVersion P H none b = (.ok (h, s, n, v), t)) {o : Outcome Error Unit}
    {b₂ : Builder S} (h₂ : commitStorageChanges P H ⟨(exec s).2, P.storageRoot v (exec s).2⟩
      (.hash b.chain.bestHash) b = (o, b₂))
    (heffect : o.isOk = true ∨ b₂.chain ≠ b.chain) :
    SameMutation b₁.chain b₂.chain ↔ b.chain.bestNumber ≤ 1 := by
  obtain ⟨hd, hhd, hbest, hhash⟩ := hset.header
  obtain ⟨h', s', n', d₁, block, c₁, ho', hp, hcom, rfl, rfl⟩ := commit_eq_ok.mp h₁
  obtain ⟨ho, d', hd', hdecl, rfl⟩ := commitVersion_eq_ok.mp hv
  obtain ⟨rfl, rfl, rfl⟩ := opens_unique ho ho'
  have hnumber : n = b.chain.bestNumber := (ho.number hL hhd).trans hbest
  obtain ⟨rfl, -⟩ := ho
  obtain ⟨d, hrev, hout⟩ :=
    commitStorageChanges_effect hL hhd hset.finalized.symm h₂ heffect
  have hreverted := hL.revert hrev
  have hend := finishChanges_cases hL (b := { b with chain := d })
    (fun _ hx ↦ Option.mem_unique (hreverted.headers hx) hhd) hout.symm
  rcases hp with ⟨h0, rfl, v₁, hdecl₁, -, -, -, rfl, -⟩ |
    ⟨hne, ⟨-, hrev₁⟩ | ⟨hnf, -⟩, v₁, hd₁, ct₁, hdecl₁, -, -, hhd₁, hup₁, hct₁, rfl, hset₁⟩
  · -- genesis
    have hheight : b.chain.bestNumber = 0 := hnumber.symm.trans h0
    obtain rfl : d = b.chain := hreverted.eq_of_genesis hheight
    obtain rfl := unfinalized_unique hd' (Or.inl ⟨h0, rfl⟩)
    obtain rfl := declaresVersion_unique hdecl hdecl₁
    refine ⟨fun _ ↦ by omega, fun _ ↦ ?_⟩
    rcases hend with ⟨ct, hcommitted₂⟩ | ⟨hno, hchain⟩
    · exact sameMutation_genesis hempty hset hhd hheight
        (hL.commitOperation (by rfl) (by rfl) hcom) hcommitted₂
    · rcases heffect with hok | hchanged
      · rw [hno] at hok
        cases hok
      · exact absurd hchain hchanged
  · by_cases hheight : b.chain.bestNumber = 1
    · -- one block: both calls step back to genesis
      obtain rfl : d = d₁ := by
        rw [hbest, hheight] at hrev
        exact Except.ok.inj (hrev.symm.trans hrev₁)
      obtain rfl : d = d' :=
        unfinalized_unique (Or.inr ⟨hne, Or.inl ⟨hset.finalized.symm, hrev₁⟩⟩) hd'
      obtain rfl : v = v₁ := declaresVersion_unique hdecl hdecl₁
      have hsame : finishChanges P H ⟨(exec s).2, P.storageRoot v (exec s).2⟩ b.chain.bestHash
          (P.hash hd) { b with chain := d } = (.ok (), { b with chain := c₁ }) :=
        finishChanges_eq_ok.mpr ⟨hd₁, ct₁, c₁, hhd₁, hup₁, hct₁, hset₁, hhash ▸ hcom, rfl⟩
      rw [hsame] at hout
      cases hout
      exact ⟨fun _ ↦ by omega, fun _ ↦ ⟨rfl, rfl, rfl, fun _ _ ↦ ⟨rfl, fun _ _ ↦ ⟨rfl, rfl, rfl⟩⟩⟩⟩
    · obtain ⟨m, hm⟩ : ∃ m, b.chain.bestNumber = m + 2 := ⟨b.chain.bestNumber - 2, by omega⟩
      obtain ⟨s', -, hmutated, -⟩ := commit_mutated hinj hempty hL hset h₁
      refine ⟨fun hsame ↦ ?_, fun hle ↦ by omega⟩
      rcases hend with ⟨ct, hcommitted₂⟩ | ⟨-, hchain⟩
      · rw [hbest, hm] at hreverted
        exact absurd hsame (not_sameMutation_of_deep hinj hset hstored hhd hm hmutated hreverted rfl
          hcommitted₂)
      · -- the second call stopped at genesis
        have hzero := hsame.bestNumber
        rw [hchain, hreverted.bestNumber, hmutated.bestNumber, hbest] at hzero
        omega
  · exact absurd hset.finalized.symm hnf

/-- On a chain of two blocks both calls mutate block two and return `Ok`. The first steps back to
block one, the second to genesis, and so block one has lost its lookup entry and its body. -/
theorem commitStorageChanges_loses_block :
    let b : Builder ℕ := { chain := counterChain 2 }
    let H := Host.reference counter
    let out₁ := withState counter H .commit none (fun s ↦ ((), s + 10)) b
    let out₂ := commitStorageChanges counter H ⟨12, counter.storageRoot .v1 12⟩
      (.hash b.chain.bestHash) b
    (b.chain.bestHash = b.chain.finalizedHash ∧ out₁.1 = .ok () ∧ out₂.1 = .ok () ∧
      out₁.2.chain.bestNumber = 2 ∧ out₂.2.chain.bestNumber = 2 ∧
      out₁.2.chain.canonical 1 = some (counterChain 1).bestHash ∧
      out₁.2.chain.contents (counterChain 1).bestHash = some ⟨some [], none, none⟩ ∧
      out₂.2.chain.contents (counterChain 1).bestHash = none) ∧
    ¬ SameMutation out₁.2.chain out₂.2.chain := by
  intro b H out₁ out₂
  have hruns : b.chain.bestHash = b.chain.finalizedHash ∧ out₁.1 = .ok () ∧ out₂.1 = .ok () ∧
      out₁.2.chain.bestNumber = 2 ∧ out₂.2.chain.bestNumber = 2 ∧
      out₁.2.chain.canonical 1 = some (counterChain 1).bestHash ∧
      out₁.2.chain.contents (counterChain 1).bestHash = some ⟨some [], none, none⟩ ∧
      out₂.2.chain.contents (counterChain 1).bestHash = none := by
    decide +kernel
  refine ⟨hruns, fun hsame ↦ ?_⟩
  obtain ⟨-, -, -, hnumber, -, hone, hkept, hgone⟩ := hruns
  have hcontents := ((hsame.earlier 1 (by rw [hnumber]; decide)).2 _ hone).2.2
  rw [hkept, hgone] at hcontents
  cases hcontents

theorem commitStorageChanges_agrees_counter :
    SameMutation (withState counter (Host.reference counter) .commit none (fun s ↦ ((), s + 10))
        { chain := counterChain 1 }).2.chain
      (commitStorageChanges counter (Host.reference counter) ⟨11, counter.storageRoot .v1 11⟩
        (.hash (counterChain 1).bestHash) { chain := counterChain 1 }).2.chain :=
  (commitStorageChanges_agrees_iff pairHash_injective (fun _ _ ↦ rfl)
    (Host.reference_lawful counter) (counterChain_settled 1).1
    (fun _ _ hle ↦ absurd hle (by decide +kernel)) counter_commit
    (h := (counterChain 1).bestHash) (s := 1) (n := 1) (v := .v1)
    (t := (commitVersion counter (Host.reference counter) none { chain := counterChain 1 }).2)
    (eq_of_fst (by decide +kernel)) (o := .ok ()) (eq_of_fst (by decide +kernel))
    (Or.inl rfl)).mpr (by decide +kernel)

end Builder

end Fudge
