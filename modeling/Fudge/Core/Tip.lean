import Fudge.Core.Mutation

/-!
# What a commit does to the tip beside its state

`with_state(Commit)` takes the best block off the chain, and puts it back with another state. Three
things are decided between the two, each by a rule that reads the chain at its own moment:

* the state version, declared by the code of the block that is best *after* the revert;
* the body, the indexed body and the justifications, read by the hash of a block that is reverted;
* finality: the revert is made for a finalized block only, the new block is always final.

Each section states when the rule agrees with what was there before the call. The three conditions
concern the chain the call starts from, and no closure or host can change the answer.
-/

namespace Fudge

namespace Chain

variable {S : Type}

/-- The best block and the finalized one are stored. Nothing is said about which block is
finalized. -/
structure Linked (P : Primitives S) (c : Chain S) : Prop where
  best : ∃ hd, c.headers c.bestHash = some hd ∧ hd.number = c.bestNumber ∧ P.hash hd = c.bestHash
  finalized : ∃ hd, c.headers c.finalizedHash = some hd ∧ hd.number = c.finalizedNumber

variable {P : Primitives S} {c : Chain S}

theorem Settled.linked (h : c.Settled P) : c.Linked P := by
  obtain ⟨hd, hhd, hn, hh⟩ := h.header
  refine ⟨⟨hd, hhd, hn, hh⟩, hd, ?_, ?_⟩
  · rw [h.finalized, hhd]
  · rw [h.finalizedNumber, hn]

theorem counterChain_linked (n : ℕ) : (counterChain n).Linked counter :=
  (Builder.counterChain_settled n).1.linked

end Chain

namespace Builder

open Call Chain

variable {S R : Type} {P : Primitives S} {H : Host S}

theorem Opens.number_eq (hL : H.Lawful P) {c : Chain S} {h : Hash} {s : S} {n : ℕ}
    (ho : Opens H c none h s n) (hl : c.Linked P) : n = c.bestNumber := by
  obtain ⟨hd, hhd, hbest, -⟩ := hl.best
  exact (ho.number hL hhd).trans hbest

/-! ## The state version -/

section Version

variable (P H)

/-- The operation that `mutate_genesis` fills after the closure ran. -/
def genesisOperation (op : BlockImportOperation S) (changes : StorageChanges S) :
    Call (Builder S) Error (BlockImportOperation S) := do
  let op ← updateOperation H none op changes
  let version ← stateVersion P H
  let header : Header :=
    { parentHash := 0, number := 0, stateRoot := changes.root,
      extrinsicsRoot := P.emptyTrieRoot version, digest := [] }
  setBlockData H none op ⟨header, ⟨some [], none, none⟩⟩

/-- The revert of a committing `with_state`, which genesis is spared. -/
def unfinalize (number : ℕ) : Call (Builder S) Error Unit :=
  if number = 0 then pure () else checkBestHashAndRevert H 1

/-- A committing `with_state` up to the version it passes to `execute_with_mut`. -/
def commitVersion (at_ : Option BlockId) :
    Call (Builder S) Error (Hash × S × ℕ × StateVersion) := do
  let (h, s, number) ← beginCommit H at_
  unfinalize H number
  let version ← stateVersion P H
  pure (h, s, number, version)

/-- A committing `with_state` from `execute_with_mut` on, which the closure is passed to. -/
def commitFrom (exec : S → R × S) (h : Hash) (s : S) (number : ℕ) (version : StateVersion) :
    Call (Builder S) Error R := do
  let id : BlockId := if number = 0 then .number 0 else .hash h
  let (r, changes) ← executeWithMut P H (some id) exec version s
  let op ← if number = 0 then genesisOperation P H { oldState := some h } changes
    else mutateNormal P H { oldState := some h } changes (.hash h)
  commitOperation H h op
  pure r

/-- Every commit passes through `execute_with_mut`, with the version of `commitVersion`. -/
theorem commit_eq_commitFrom (at_ : Option BlockId) (exec : S → R × S) :
    commit P H at_ exec = commitVersion P H at_ >>= fun (h, s, number, version) ↦
      commitFrom P H exec h s number version := by
  rw [commit, commitVersion, bind_assoc]
  congr 1
  funext q
  obtain ⟨h, s, number⟩ := q
  by_cases hn : number = 0
  · subst hn
    simp only [mutate, mutateGenesis, unfinalize, if_true, bind_assoc, pure_bind, commitFrom,
      genesisOperation]
  · simp only [mutate, rebuild, unfinalize, if_neg hn, bind_assoc, pure_bind, commitFrom]

end Version

theorem unfinalized_unique {n : ℕ} {c d d' : Chain S}
    (hd : (n = 0 ∧ d = c) ∨ (n ≠ 0 ∧ Unfinalizes H c d))
    (hd' : (n = 0 ∧ d' = c) ∨ (n ≠ 0 ∧ Unfinalizes H c d')) : d = d' := by
  rcases hd with ⟨h0, rfl⟩ | ⟨hne, ⟨hf, hrev⟩ | ⟨hf, rfl⟩⟩
  · rcases hd' with ⟨-, rfl⟩ | ⟨hne, -⟩
    · rfl
    · exact absurd h0 hne
  · rcases hd' with ⟨h0, -⟩ | ⟨-, ⟨-, hrev'⟩ | ⟨hnf, -⟩⟩
    · exact absurd h0 hne
    · exact Except.ok.inj (hrev.symm.trans hrev')
    · exact absurd hf hnf
  · rcases hd' with ⟨h0, -⟩ | ⟨-, ⟨hf', -⟩ | ⟨-, rfl⟩⟩
    · exact absurd h0 hne
    · exact absurd hf' hf
    · rfl

theorem unfinalize_eq_ok {n : ℕ} {b b' : Builder S} {u : Unit} :
    unfinalize H n b = (.ok u, b') ↔
      ∃ d, ((n = 0 ∧ d = b.chain) ∨ (n ≠ 0 ∧ Unfinalizes H b.chain d)) ∧
        b' = { b with chain := d } := by
  rw [unfinalize]
  by_cases hn : n = 0
  · rw [if_pos hn]
    constructor
    · intro h
      exact ⟨b.chain, Or.inl ⟨hn, rfl⟩, (Prod.mk.inj h).2.symm⟩
    · rintro ⟨d, ⟨-, rfl⟩ | ⟨hne, -⟩, rfl⟩
      · rfl
      · exact absurd hn hne
  · rw [if_neg hn, checkBestHashAndRevert_eq_ok]
    constructor
    · rintro ⟨d, hd, rfl⟩
      exact ⟨d, Or.inr ⟨hn, hd⟩, rfl⟩
    · rintro ⟨d, ⟨h0, -⟩ | ⟨-, hd⟩, rfl⟩
      · exact absurd h0 hn
      · exact ⟨d, hd, rfl⟩

theorem commitVersion_eq_ok {at_ : Option BlockId} {b b' : Builder S} {h : Hash} {s : S} {n : ℕ}
    {v : StateVersion} :
    commitVersion P H at_ b = (.ok (h, s, n, v), b') ↔ Opens H b.chain at_ h s n ∧
      ∃ d, ((n = 0 ∧ d = b.chain) ∨ (n ≠ 0 ∧ Unfinalizes H b.chain d)) ∧ DeclaresVersion P H d v ∧
        b' = { b with chain := d } := by
  rw [commitVersion, bind_eq_ok]
  constructor
  · rintro ⟨⟨h', s', n'⟩, t, hb, ht⟩
    obtain ⟨ho, rfl⟩ := beginCommit_eq_ok.mp hb
    obtain ⟨_, u, hrev, hu⟩ := bind_eq_ok.mp ht
    obtain ⟨d, hd, rfl⟩ := unfinalize_eq_ok.mp hrev
    obtain ⟨v', w, hv, hw⟩ := bind_eq_ok.mp hu
    obtain ⟨hdecl, rfl⟩ := stateVersion_eq_ok.mp hv
    obtain ⟨heq, rfl⟩ : (h', s', n', v') = (h, s, n, v) ∧ _ = b' := by simpa using hw
    cases heq
    exact ⟨ho, d, hd, hdecl, rfl⟩
  · rintro ⟨ho, d, hd, hv, rfl⟩
    exact ⟨(h, s, n), b, beginCommit_eq_ok.mpr ⟨ho, rfl⟩,
      bind_eq_ok.mpr ⟨(), _, unfinalize_eq_ok.mpr ⟨d, hd, rfl⟩,
        bind_eq_ok.mpr ⟨v, _, stateVersion_eq_ok.mpr ⟨hv, rfl⟩, rfl⟩⟩⟩

/-- The code of the state `s` declares the version `v`. -/
def StateDeclares (P : Primitives S) (H : Host S) (s : S) (v : StateVersion) : Prop :=
  ∃ code, P.code s = some code ∧ H.runtimeVersion code = .ok v

theorem declaresVersion_iff (hL : H.Lawful P) {c : Chain S} {v : StateVersion}
    (hv : DeclaresVersion P H c v) : ∃ s, c.states c.bestHash = some s ∧ StateDeclares P H s v := by
  obtain ⟨s, code, hs, hcode, hversion⟩ := hv
  exact ⟨s, hL.stateAt hs, code, hcode, hversion⟩

/-- The version a commit reads is that of the best state: nothing is reverted before it is read, or
the parent's state declares the same one. -/
def KeepsVersion (P : Primitives S) (H : Host S) (c : Chain S) : Prop :=
  c.bestNumber = 0 ∨ c.bestHash ≠ c.finalizedHash ∨
    ∃ hd s s' v, c.headers c.bestHash = some hd ∧ c.states c.bestHash = some s ∧
      c.states hd.parentHash = some s' ∧ StateDeclares P H s v ∧ StateDeclares P H s' v

theorem stateDeclares_unique {s : S} {v w : StateVersion} (hv : StateDeclares P H s v)
    (hw : StateDeclares P H s w) : v = w := by
  obtain ⟨code, hc, hv⟩ := hv
  obtain ⟨code', hc', hw⟩ := hw
  obtain rfl := Option.mem_unique hc hc'
  rw [hv] at hw
  cases hw
  rfl

/-- On the path that reverts, the version is the one of the parent's code. -/
theorem version_of_reverted (hL : H.Lawful P) {c d : Chain S} {hd : Header} {v : StateVersion}
    (hhd : c.headers c.bestHash = some hd) (hrev : Reverted c d) (hv : DeclaresVersion P H d v) :
    ∃ s, c.states hd.parentHash = some s ∧ StateDeclares P H s v := by
  obtain ⟨s, hs, hdecl⟩ := declaresVersion_iff hL hv
  exact ⟨s, hrev.states _ s (hrev.best hd hhd ▸ hs), hdecl⟩

/-- **The version of a commit, exactly.** Every commit goes through `execute_with_mut` with the
version that `commitVersion` reads. It is the version declared by the code of the best state if and
only if no revert comes before the reading, or the code of the parent declares the same version. -/
theorem commit_version_iff (hL : H.Lawful P) (b : Builder S) (hl : b.chain.Linked P) :
    (∀ (R : Type) (exec : S → R × S), withState P H .commit none exec =
      commitVersion P H none >>= fun (h, s, number, version) ↦
        commitFrom P H exec h s number version) ∧
    ∀ h s n v b', commitVersion P H none b = (.ok (h, s, n, v), b') →
      ((b.chain.states b.chain.bestHash = some s ∧ StateDeclares P H s v) ↔
        KeepsVersion P H b.chain) := by
  refine ⟨fun R exec ↦ commit_eq_commitFrom P H none exec, ?_⟩
  intro h s n v b' hc
  obtain ⟨ho, d, hd, hv, -⟩ := commitVersion_eq_ok.mp hc
  have hnum : n = b.chain.bestNumber := ho.number_eq hL hl
  obtain ⟨rfl, hs, -⟩ := ho
  have hs := hL.stateAt hs
  have hsame : d = b.chain → StateDeclares P H s v := by
    rintro rfl
    obtain ⟨s', hs', hdecl⟩ := declaresVersion_iff hL hv
    obtain rfl := Option.mem_unique hs hs'
    exact hdecl
  rcases hd with ⟨h0, hsub⟩ | ⟨hn, ⟨hf, hrev⟩ | ⟨hf, hsub⟩⟩
  · exact ⟨fun _ ↦ Or.inl (hnum ▸ h0), fun _ ↦ ⟨hs, hsame hsub⟩⟩
  · -- the best block is gone when the version is read
    obtain ⟨hd, hhd, -⟩ := hl.best
    obtain ⟨s', hs', hdecl'⟩ :=
      version_of_reverted hL hhd ((hL.revert hrev).reverted (hnum ▸ hn)) hv
    constructor
    · rintro ⟨-, hdecl⟩
      exact Or.inr (Or.inr ⟨hd, s, s', v, hhd, hs, hs', hdecl, hdecl'⟩)
    · rintro (h0 | hne | ⟨hd₁, s₁, s₁', w, hhd₁, hs₁, hs₁', hw, hw'⟩)
      · exact absurd (hnum.trans h0) hn
      · exact absurd hf hne
      · obtain rfl := Option.mem_unique hhd hhd₁
        obtain rfl := Option.mem_unique hs hs₁
        obtain rfl := Option.mem_unique hs' hs₁'
        rw [stateDeclares_unique hdecl' hw']
        exact ⟨hs, hw⟩
  · exact ⟨fun _ ↦ Or.inr (Or.inl hf), fun _ ↦ ⟨hs, hsame hsub⟩⟩

/-- A chain whose code is its state, and a runtime that declares another version from the first
block on. -/
def upgrading : Primitives ℕ := { counter with code := fun s ↦ some [UInt8.ofNat s] }

def upgradingHost : Host ℕ :=
  { Host.reference upgrading with
    runtimeVersion := fun code ↦ .ok (if code = [0] then .v0 else .v1) }

/-- The best block brought the code that declares `V1`; the mutation of its state runs under the
`V0` of the block before. -/
theorem commit_version_of_parent :
    ((counterChain 1).states (counterChain 1).bestHash).bind upgrading.code = some [1] ∧
      upgradingHost.runtimeVersion [1] = .ok .v1 ∧
      (commitVersion upgrading upgradingHost none { chain := counterChain 1 }).1 =
        .ok ((counterChain 1).bestHash, 1, 1, .v0) := by
  decide +kernel

/-- On the counting chain, where the code never changes, the version is the right one. -/
theorem commit_version_counter :
    KeepsVersion counter (Host.reference counter) (counterChain 1) :=
  ((commit_version_iff (Host.reference_lawful counter) { chain := counterChain 1 }
    (counterChain_linked 1)).2 (counterChain 1).bestHash 1 1 .v1
      (commitVersion counter (Host.reference counter) none { chain := counterChain 1 }).2
      (Prod.ext (by decide +kernel) rfl)).mp ⟨by decide +kernel, [], rfl, rfl⟩

/-! ## The contents -/

/-- The body, the indexed body and the justifications a database has for a block. -/
def contentsOf (c : Chain S) (h : Hash) : Contents :=
  (c.contents h).getD ⟨none, none, none⟩

theorem contentsOf_eq_of_reads (hL : H.Lawful P) {c : Chain S} {h : Hash} {ct : Contents}
    (hr : ReadsContents H c h ct) : ct = contentsOf c h := by
  obtain ⟨hb, hi, hj⟩ := hr
  have hb := hL.body hb
  have hi := hL.blockIndexedBody hi
  have hj := hL.justifications hj
  obtain ⟨body, indexedBody, justifications⟩ := ct
  rw [contentsOf]
  cases hc : c.contents h with
  | none => simp_all
  | some ct => simp_all

/-- **The contents of a mutated block, exactly.** The best block keeps its body, its indexed body
and its justifications through a commit if and only if it had none of them. -/
theorem commit_contents_iff (hL : H.Lawful P) {b b' : Builder S} (hl : b.chain.Linked P)
    (hn : b.chain.bestNumber ≠ 0) (hf : b.chain.bestHash = b.chain.finalizedHash)
    {exec : S → R × S} {r : R} (hc : withState P H .commit none exec b = (.ok r, b')) :
    contentsOf b'.chain b'.chain.bestHash = contentsOf b.chain b.chain.bestHash ↔
      contentsOf b.chain b.chain.bestHash = ⟨none, none, none⟩ := by
  obtain ⟨h, s, n, d, block, c, ho, hp, hcom, -, rfl⟩ := commit_eq_ok.mp hc
  have hnum : n = b.chain.bestNumber := ho.number_eq hL hl
  obtain ⟨rfl, -⟩ := ho
  obtain ⟨hd, hhd, -, hhash⟩ := hl.best
  rcases hp with ⟨h0, -⟩ | ⟨-, ⟨-, hrev⟩ | ⟨hne, -⟩, v, hd', ct, -, -, -, hhd', -, hct, rfl, -⟩
  · exact absurd (hnum.symm.trans h0) hn
  · -- the contents are read after the revert, by the hash of the reverted block
    have hreverted := (hL.revert hrev).reverted hn
    obtain rfl : hd' = hd := header_of_headers hL hreverted.headers hhd hhd'
    have hnone : ct = ⟨none, none, none⟩ := by
      rw [contentsOf_eq_of_reads hL hct, hhash, contentsOf, hreverted.contents_best]
      rfl
    have hcommitted := hL.commitOperation (by rfl) (by rfl) hcom
    have hnew : contentsOf c c.bestHash = ⟨none, none, none⟩ := by
      rw [contentsOf, hcommitted.contents, hcommitted.best, Function.update_self]
      exact hnone
    rw [hnew, eq_comm]
  · exact absurd hf hne

/-- The body of the best block is lost. -/
theorem commit_contents_lost :
    let b : Builder ℕ := { chain := counterChain 1 }
    let out := withState counter (Host.reference counter) .commit none (fun s ↦ ((), s + 10)) b
    out.1 = .ok () ∧ contentsOf b.chain b.chain.bestHash = ⟨some [], none, none⟩ ∧
      contentsOf out.2.chain out.2.chain.bestHash = ⟨none, none, none⟩ := by
  decide +kernel

theorem counter_commit :
    withState counter (Host.reference counter) .commit none (fun s ↦ ((), s + 10))
        { chain := counterChain 1 } =
      (.ok (), (withState counter (Host.reference counter) .commit none (fun s ↦ ((), s + 10))
        { chain := counterChain 1 }).2) :=
  eq_of_fst (by decide +kernel)

theorem commit_contents_counter :
    contentsOf (counterChain 1) (counterChain 1).bestHash ≠ ⟨none, none, none⟩ :=
  fun hnone ↦ absurd ((commit_contents_iff (Host.reference_lawful counter) (counterChain_linked 1)
    (by decide +kernel) (by decide +kernel) counter_commit).mpr hnone) (by decide +kernel)

/-! ## Finality -/

/-- **Finality of a mutated tip, exactly.** A commit leaves finality as it found it if and only if
the best block was the finalized one. -/
theorem commit_finality_iff (hL : H.Lawful P) {b b' : Builder S} (hl : b.chain.Linked P)
    {exec : S → R × S} {r : R} (hc : withState P H .commit none exec b = (.ok r, b')) :
    (b'.chain.finalizedNumber = b.chain.finalizedNumber ∧
      (b'.chain.bestHash = b'.chain.finalizedHash ↔ b.chain.bestHash = b.chain.finalizedHash)) ↔
    b.chain.bestHash = b.chain.finalizedHash := by
  obtain ⟨h, s, n, d, block, c, ho, hp, hcom, -, rfl⟩ := commit_eq_ok.mp hc
  have hnum : n = b.chain.bestNumber := ho.number_eq hL hl
  obtain ⟨rfl, -⟩ := ho
  obtain ⟨hd, hhd, hbest, -⟩ := hl.best
  have hcommitted := hL.commitOperation (by rfl) (by rfl) hcom
  have hboth : c.bestHash = c.finalizedHash := hcommitted.best.trans hcommitted.finalized.symm
  -- on every path the new block has the number of the old one
  have hnumber : c.finalizedNumber = b.chain.bestNumber := by
    rw [hcommitted.finalizedNumber]
    rcases hp with ⟨h0, -, v, -, -, -, -, rfl, -⟩ |
      ⟨hne, hu, v, hd', ct, -, -, -, hhd', -, -, rfl, -⟩
    · exact h0.symm.trans hnum
    · obtain rfl : hd' = hd := header_of_headers hL (hu.headers hL) hhd hhd'
      exact hbest
  constructor
  · rintro ⟨-, hiff⟩
    exact hiff.mp hboth
  · intro hf
    refine ⟨?_, fun _ ↦ hf, fun _ ↦ hboth⟩
    -- the finalized block is the best one, so it has the number of the new block
    obtain ⟨hd', hhd', hfin⟩ := hl.finalized
    rw [← hf, hhd] at hhd'
    cases hhd'
    exact hnumber.trans (hbest.symm.trans hfin)

/-- A chain as a database may open: the best block is one ahead of the finalized one. -/
def aheadChain : Chain ℕ :=
  { counterChain 2 with
    finalizedHash := (counterChain 1).bestHash, finalizedNumber := 1 }

/-- The mutation of the best block finalizes it. -/
theorem commit_finalizes :
    let b : Builder ℕ := { chain := aheadChain }
    let out := withState counter (Host.reference counter) .commit none (fun s ↦ ((), s + 10)) b
    out.1 = .ok () ∧ b.chain.finalizedNumber = 1 ∧ out.2.chain.finalizedNumber = 2 ∧
      b.chain.bestHash ≠ b.chain.finalizedHash ∧
      out.2.chain.bestHash = out.2.chain.finalizedHash := by
  decide +kernel

theorem commit_finality_counter :
    (counterChain 1).bestHash = (counterChain 1).finalizedHash :=
  (commit_finality_iff (Host.reference_lawful counter) (counterChain_linked 1)
    counter_commit).mp ⟨by decide +kernel, by decide +kernel⟩

end Builder

end Fudge
