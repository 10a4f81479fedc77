import Fudge.Call.Run
import Fudge.Core.Blocks
import Fudge.Core.Commit
import Fudge.Core.Reference

/-!
# What a committed mutation means

On a chain whose best block is finalized, `with_state(Commit, None, f)` replaces the tip: same
number, same parent, same digest and extrinsics, new state. The two paths of the code come to this
from opposite sides. The normal path reverts the tip and imports it again under its old header with
another root; the genesis path reverts nothing and makes the header from scratch.

`best = finalized` is what makes the revert happen at all, so the invariant is carried over whole
runs: every import with the builders' parameters moves both or neither, and a commit moves both.

## What the genesis path rests on

A remade genesis header agrees with the old one because genesis headers have no freedom: parent and
digest are the defaults, and the extrinsics root is the root of the empty trie, which does not
depend on the state version.
-/

namespace Fudge

namespace Chain

variable {S : Type} (P : Primitives S)

/-- The chain a client is started with: one final block in the form of a genesis block. -/
structure IsGenesis (c : Chain S) : Prop where
  bestNumber : c.bestNumber = 0
  finalized : c.finalizedHash = c.bestHash
  finalizedNumber : c.finalizedNumber = c.bestNumber
  header : ∃ v root, c.headers c.bestHash = some
    { parentHash := 0, number := 0, stateRoot := root, extrinsicsRoot := P.emptyTrieRoot v,
      digest := [] }
  hash : ∀ hd, c.headers c.bestHash = some hd → P.hash hd = c.bestHash
  canonical : ∀ n k, c.canonical n = some k → n = 0 ∧ k = c.bestHash

/-- The invariant of every chain the builders drive: the best block is finalized, the database
knows the block each number up to the best one stands for, and a best genesis has the form of a
genesis. -/
structure Settled (c : Chain S) : Prop where
  finalized : c.finalizedHash = c.bestHash
  finalizedNumber : c.finalizedNumber = c.bestNumber
  header : ∃ hd, c.headers c.bestHash = some hd ∧ hd.number = c.bestNumber ∧ P.hash hd = c.bestHash
  canonical : ∀ n k, n ≤ c.bestNumber → c.canonical n = some k →
    ∃ hd, c.headers k = some hd ∧ hd.number = n ∧ P.hash hd = k
  genesis : ∀ hd, c.headers c.bestHash = some hd → c.bestNumber = 0 →
    hd.parentHash = 0 ∧ hd.digest = [] ∧ ∃ v, hd.extrinsicsRoot = P.emptyTrieRoot v

/-- `c'` is `c` with the state of its best block changed from `s` to `post`. -/
structure Mutated (c : Chain S) (s post : S) (c' : Chain S) : Prop where
  bestNumber : c'.bestNumber = c.bestNumber
  state : c.states c.bestHash = some s
  state' : c'.states c'.bestHash = some post
  header : ∃ hd hd' v, c.headers c.bestHash = some hd ∧ c'.headers c'.bestHash = some hd' ∧
    hd'.parentHash = hd.parentHash ∧ hd'.number = hd.number ∧ hd'.digest = hd.digest ∧
    hd'.extrinsicsRoot = hd.extrinsicsRoot ∧ hd'.stateRoot = P.storageRoot v post
  canonical : ∀ n, n < c.bestNumber → c'.canonical n = c.canonical n
  earlier : ∀ n k, n < c.bestNumber → c.canonical n = some k →
    c'.headers k = c.headers k ∧ c'.states k = c.states k ∧ c'.contents k = c.contents k

variable {P}

theorem IsGenesis.settled {c : Chain S} (h : c.IsGenesis P) : c.Settled P where
  finalized := h.finalized
  finalizedNumber := h.finalizedNumber
  header := by
    obtain ⟨v, root, hh⟩ := h.header
    exact ⟨_, hh, h.bestNumber.symm, h.hash _ hh⟩
  canonical n k _ hk := by
    obtain ⟨rfl, rfl⟩ := h.canonical n k hk
    obtain ⟨v, root, hh⟩ := h.header
    exact ⟨_, hh, rfl, h.hash _ hh⟩
  genesis hd hh _ := by
    obtain ⟨v, root, hh'⟩ := h.header
    obtain rfl := Option.mem_unique hh hh'
    exact ⟨rfl, rfl, v, rfl⟩

/-- A header stored under its hash is not displaced by another one stored under its own. -/
theorem headers_update_of_hash (hinj : Function.Injective P.hash) {c : Chain S} {k : Hash}
    {hd : Header} (hk : c.headers k = some hd) (hh : P.hash hd = k) (x : Header) :
    Function.update c.headers (P.hash x) (some x) k = some hd := by
  by_cases hx : k = P.hash x
  · obtain rfl : hd = x := hinj (hh.trans hx)
    rw [hx, Function.update_self]
  · rw [Function.update_of_ne hx, hk]

theorem Settled.imported_final {c c' : Chain S} {p : BlockImportParams}
    (hinj : Function.Injective P.hash) (h : c.Settled P) (hi : Imported P c p c')
    (hf : p.finalized = true) (hb : p.forkChoice = some (.custom true)) : c'.Settled P := by
  obtain ⟨hbest, hnum⟩ := hi.best hb
  obtain ⟨hfin, hfnum⟩ := hi.finalized hf
  have hself : c'.headers c'.bestHash = some p.header := by
    rw [hi.headers, hbest, Function.update_self]
  refine ⟨hfin.trans hbest.symm, hfnum.trans hnum.symm, ⟨p.header, hself, hnum.symm, hbest.symm⟩,
    ?_, ?_⟩
  · intro n k hle hk
    rcases hi.canonical_sound n k hle hk with ⟨hle', hk'⟩ | hnew
    · obtain ⟨hd, hhd, hn, hh⟩ := h.canonical n k hle' hk'
      exact ⟨hd, by rw [hi.headers]; exact headers_update_of_hash hinj hhd hh _, hn, hh⟩
    · exact hnew
  · intro hd _ h0
    obtain ⟨parent, -, hn⟩ := hi.parent
    omega

theorem Settled.imported_aside {c c' : Chain S} {p : BlockImportParams}
    (hinj : Function.Injective P.hash) (h : c.Settled P) (hi : Imported P c p c')
    (hf : p.finalized = false) (hb : p.forkChoice = some (.custom false)) : c'.Settled P := by
  obtain ⟨hbest, hnum, hcan⟩ := hi.notBest hb
  obtain ⟨hfin, hfnum⟩ := hi.notFinalized hf
  obtain ⟨hd, hhd, hn, hh⟩ := h.header
  have hself : c'.headers c'.bestHash = some hd := by
    rw [hi.headers, hbest]
    exact headers_update_of_hash hinj hhd hh _
  refine ⟨?_, ?_, ⟨hd, hself, hn.trans hnum.symm, hh.trans hbest.symm⟩, ?_, ?_⟩
  · rw [hfin, hbest, h.finalized]
  · rw [hfnum, hnum, h.finalizedNumber]
  · intro n k hle hk
    rw [hcan] at hk
    obtain ⟨hd', hhd', hn', hh'⟩ := h.canonical n k (hnum ▸ hle) hk
    exact ⟨hd', by rw [hi.headers]; exact headers_update_of_hash hinj hhd' hh' _, hn', hh'⟩
  · intro hd' hhd' h0
    obtain rfl := Option.mem_unique hself hhd'
    exact h.genesis hd hhd (hnum ▸ h0)

theorem Settled.propose_on_tip {H : Host S} (hL : H.Lawful P) {c : Chain S} (h : c.Settled P)
    {pool : Pool} {hd : Header} {inherents : InherentData} {digest : Digest} {proposal : Proposal}
    (hhd : H.header c c.bestHash = .ok (some hd))
    (hp : H.propose c pool hd inherents digest = .ok proposal) :
    proposal.block.header.parentHash = c.bestHash ∧
      proposal.block.header.number = c.bestNumber + 1 := by
  obtain ⟨hd', hhd', hn, hh⟩ := h.header
  obtain rfl : hd = hd' := by
    have heq := hL.header hhd
    rw [hhd'] at heq
    exact Option.some.inj heq
  obtain ⟨hparent, hnum⟩ := hL.propose hp
  exact ⟨hparent.trans hh, by omega⟩

theorem Settled.importBlock_aside {H : Host S} {c c' : Chain S} {p : BlockImportParams}
    {r : Except InnerError ImportResult} (hinj : Function.Injective P.hash)
    (hL : H.Lawful P) (h : c.Settled P) (hn : p.header.number = c.bestNumber + 1)
    (hf : p.finalized = false) (hb : p.forkChoice = some (.custom false))
    (hi : H.importBlock c p = (r, c')) :
    c'.Settled P ∧ c'.bestHash = c.bestHash ∧ c'.bestNumber = c.bestNumber ∧
      c'.states c'.bestHash = c.states c.bestHash := by
  by_cases hr : r = .ok .imported
  · subst hr
    have himp := hL.importBlock hi
    obtain ⟨hbest, hnum, -⟩ := himp.notBest hb
    refine ⟨h.imported_aside hinj himp hf hb, hbest, hnum, ?_⟩
    obtain ⟨hd, hhd, hhdn, hhash⟩ := h.header
    -- the new block has another number than the best one, so another hash
    have hne : c.bestHash ≠ P.hash p.header := by
      intro heq
      obtain rfl : hd = p.header := hinj (hhash.trans heq)
      omega
    obtain ⟨s', -, hstates⟩ := himp.states
    rw [hstates, hbest, Function.update_of_ne hne]
  · obtain rfl : c' = c := hL.importBlock_refused hi hr
    exact ⟨h, rfl, rfl, rfl⟩

/-- A block on the tip that is imported as best and final is the new tip, with the state its
execution leads to. -/
theorem Settled.importBlock_best {H : Host S} {c c' : Chain S} {p : BlockImportParams}
    (hinj : Function.Injective P.hash) (hL : H.Lawful P) (h : c.Settled P)
    (hp : p.header.parentHash = c.bestHash)
    (hf : p.finalized = true) (hb : p.forkChoice = some (.custom true))
    (hi : H.importBlock c p = (.ok .imported, c')) :
    c'.Settled P ∧ c'.bestNumber = c.bestNumber + 1 ∧
      c'.headers c'.bestHash = some p.header ∧ ∃ s, c.states c.bestHash = some s ∧
      c'.states c'.bestHash = some (P.execute s ⟨p.header, p.body.getD []⟩) := by
  have himp := hL.importBlock hi
  obtain ⟨hbest, hnum⟩ := himp.best hb
  refine ⟨h.imported_final hinj himp hf hb, ?_, ?_, ?_⟩
  · obtain ⟨hd, hhd, hhdn, -⟩ := h.header
    obtain ⟨parent, hparent, hnext⟩ := himp.parent
    rw [hp, hhd] at hparent
    cases hparent
    omega
  · rw [himp.headers, hbest, Function.update_self]
  · obtain ⟨s, hs, hstates⟩ := himp.states
    refine ⟨s, by rw [← hp, hs], ?_⟩
    rw [hstates, hbest, Function.update_self]

/-- Storing a final block at the number of the old tip, on what is left of the settled chain `c`
below it, mutates the tip. -/
theorem Settled.mutated_of_committed {c d c' : Chain S} {s post : S} {hd : Header}
    {block : PendingBlock} {v : StateVersion} (hinj : Function.Injective P.hash) (h : c.Settled P)
    (hhd : c.headers c.bestHash = some hd) (hs : c.states c.bestHash = some s)
    (hcut : c.CutBack d)
    (hparent : block.header.parentHash = hd.parentHash) (hnumber : block.header.number = hd.number)
    (hdigest : block.header.digest = hd.digest)
    (hroot : block.header.extrinsicsRoot = hd.extrinsicsRoot)
    (hstate : block.header.stateRoot = P.storageRoot v post) (hc : Committed P d block post c') :
    Mutated P c s post c' := by
  obtain ⟨hd₀, hhd₀, hbestNumber, -⟩ := h.header
  obtain rfl : hd₀ = hd := by rw [hhd₀] at hhd; cases hhd; rfl
  have hself : c'.headers c'.bestHash = some block.header := by
    rw [hc.headers, hc.best, Function.update_self]
  refine ⟨by rw [hc.bestNumber, hnumber, hbestNumber], hs, ?_, ?_, ?_, ?_⟩
  · rw [hc.states, hc.best, Function.update_self]
  · exact ⟨hd₀, block.header, v, hhd, hself, hparent, hnumber, hdigest, hroot, hstate⟩
  · intro n hn
    rw [hc.canonical n (by omega), hcut.canonical n hn]
  · intro n k hn hk
    obtain ⟨hdk, hhdk, hnk, hhk⟩ := h.canonical n k (le_of_lt hn) hk
    -- a block of a smaller number is left, and is not the new one
    have hold := hcut.below k hdk hhdk (by omega)
    have hnew : k ≠ P.hash block.header := by
      intro heq
      obtain rfl : hdk = block.header := hinj (hhk.trans heq)
      omega
    refine ⟨?_, ?_, ?_⟩
    · rw [hc.headers, Function.update_of_ne hnew, hold.headers]
    · rw [hc.states, Function.update_of_ne hnew, hold.states]
    · rw [hc.contents, Function.update_of_ne hnew, hold.contents]

theorem Settled.of_mutated {c d c' : Chain S} {s post : S} {block : PendingBlock}
    (hinj : Function.Injective P.hash) (h : c.Settled P) (hcut : c.CutBack d)
    (hc : Committed P d block post c') (hm : Mutated P c s post c') : c'.Settled P := by
  have hself : c'.headers c'.bestHash = some block.header := by
    rw [hc.headers, hc.best, Function.update_self]
  refine ⟨hc.finalized.trans hc.best.symm, hc.finalizedNumber.trans hc.bestNumber.symm,
    ⟨block.header, hself, hc.bestNumber.symm, hc.best.symm⟩, ?_, ?_⟩
  · intro n k hle hk
    rw [hm.bestNumber] at hle
    rcases Nat.lt_or_eq_of_le hle with hlt | rfl
    · rw [hm.canonical n hlt] at hk
      obtain ⟨hd, hhd, hn, hh⟩ := h.canonical n k hle hk
      refine ⟨hd, ?_, hn, hh⟩
      rw [hc.headers]
      exact headers_update_of_hash hinj ((hcut.below k hd hhd (by omega)).headers.trans hhd) hh _
    · rw [← hm.bestNumber, hc.bestNumber, hc.canonical_self] at hk
      cases hk
      exact ⟨block.header, hc.best ▸ hself, by rw [← hc.bestNumber, hm.bestNumber], rfl⟩
  · intro hd' hhd' h0
    obtain ⟨hd, hd₁, v, hhd, hhd₁, hparent, -, hdigest, hroot, -⟩ := hm.header
    obtain rfl := Option.mem_unique hhd' hhd₁
    obtain ⟨hp, hdg, w, hw⟩ := h.genesis hd hhd (by rw [← hm.bestNumber, h0])
    exact ⟨hparent.trans hp, hdigest.trans hdg, w, hroot.trans hw⟩

end Chain

namespace Builder

open Call Chain

variable {S R : Type} {P : Primitives S} {H : Host S}

/-! ## One commit -/

theorem reverted_of_unfinalizes (hL : H.Lawful P) {c d : Chain S} (h : c.Settled P)
    (hn : c.bestNumber ≠ 0) (hu : Unfinalizes H c d) : Reverted c d := by
  rcases hu with ⟨-, hr⟩ | ⟨hne, -⟩
  · exact (hL.revert hr).reverted hn
  · exact absurd h.finalized.symm hne

theorem Unfinalizes.headers (hL : H.Lawful P) {c d : Chain S} (hu : Unfinalizes H c d) (k : Hash)
    (hd : Header) (hk : d.headers k = some hd) : c.headers k = some hd := by
  rcases hu with ⟨-, hr⟩ | ⟨-, rfl⟩
  · exact (hL.revert hr).headers hk
  · exact hk

theorem Opens.number (hL : H.Lawful P) {c : Chain S} {h : Hash} {s : S} {n : ℕ}
    (ho : Opens H c none h s n) {hd : Header} (hhd : c.headers c.bestHash = some hd) :
    n = hd.number := by
  obtain ⟨rfl, -, -, -, hnum⟩ := ho
  have hheader := hL.blockNumberFromId hnum
  rw [hhd] at hheader
  exact Option.some.inj hheader

theorem header_of_headers (hL : H.Lawful P) {c d : Chain S} {h : Hash} {hd hd' : Header}
    (hheaders : ∀ k x, d.headers k = some x → c.headers k = some x)
    (hhd : c.headers h = some hd) (hhd' : H.header d h = .ok (some hd')) : hd' = hd :=
  Option.mem_unique (hheaders h hd' (hL.header hhd').symm) hhd

/-- **One commit on a settled chain**: the tip is mutated by the closure and the chain stays
settled. -/
theorem commit_mutated (hinj : Function.Injective P.hash)
    (hempty : ∀ v w, P.emptyTrieRoot v = P.emptyTrieRoot w) (hL : H.Lawful P) {exec : S → R × S}
    {b b' : Builder S} {r : R} (h : b.chain.Settled P)
    (hc : commit P H none exec b = (.ok r, b')) :
    ∃ s, r = (exec s).1 ∧ Mutated P b.chain s (exec s).2 b'.chain ∧ b'.chain.Settled P := by
  obtain ⟨k, s, number, d, block, c', ho, hp, hcom, rfl, rfl⟩ := commit_eq_ok.mp hc
  obtain ⟨hd, hhd, hbest, hhash⟩ := h.header
  have hnumber : number = b.chain.bestNumber := (ho.number hL hhd).trans hbest
  obtain ⟨rfl, hs, -⟩ := ho
  have hcommitted := hL.commitOperation (by rfl) (by rfl) hcom
  refine ⟨s, rfl, ?_⟩
  rcases hp with ⟨h0, rfl, v, -, -, -, -, rfl, -⟩ |
    ⟨hne, hu, v, hd', ct, -, -, -, hhd', -, -, rfl, -⟩
  · -- genesis: the header is made anew, and there is only one form it can have
    obtain ⟨hparent, hdigest, w, hroot⟩ := h.genesis hd hhd (hnumber ▸ h0)
    have hcut := CutBack.refl b.chain
    have hm := h.mutated_of_committed (v := v) hinj hhd (hL.stateAt hs) hcut hparent.symm
      (by rw [hbest, ← hnumber, h0]; rfl) hdigest.symm
      (by rw [hroot]; exact hempty v w) rfl hcommitted
    exact ⟨hm, h.of_mutated hinj hcut hcommitted hm⟩
  · -- the normal path: what the header cache has kept after the revert is the old header
    have hcut := (reverted_of_unfinalizes hL h (hnumber ▸ hne) hu).cutBack
    obtain rfl : hd' = hd := header_of_headers hL hcut.headers hhd hhd'
    have hm := h.mutated_of_committed (v := v) hinj hhd (hL.stateAt hs) hcut rfl rfl rfl rfl rfl
      hcommitted
    exact ⟨hm, h.of_mutated hinj hcut hcommitted hm⟩

/-! ## Runs -/

/-- The import parameters of the three builders: final and best, or neither. -/
def BuilderParams (p : BlockImportParams) : Prop :=
  (p.finalized = true ∧ p.forkChoice = some (.custom true)) ∨
    (p.finalized = false ∧ p.forkChoice = some (.custom false))

/-- What happens to a chain: blocks are imported and the tip is mutated. -/
inductive ChainOp (S : Type) where
  | importBlock (H : Host S) (params : BlockImportParams)
  | commit (H : Host S) (exec : S → S)

def chainStep (P : Primitives S) : ChainOp S → Call (Builder S) Error Unit
  | .importBlock H params => importBlock H params
  | .commit H exec => withState P H .commit none fun s ↦ ((), exec s)

/-- Imports use the builders' parameters, and mutations return `Ok`. -/
def Admissible (P : Primitives S) : ChainOp S → Builder S → Prop
  | .importBlock H params, _ => H.Lawful P ∧ BuilderParams params
  | .commit H exec, b => H.Lawful P ∧
      (withState P H .commit none (fun s ↦ ((), exec s)) b).1.isOk = true

theorem chainStep_settled (hinj : Function.Injective P.hash)
    (hempty : ∀ v w, P.emptyTrieRoot v = P.emptyTrieRoot w) (op : ChainOp S) (b : Builder S)
    (hop : Admissible P op b) (h : b.chain.Settled P) : (chainStep P op b).2.chain.Settled P := by
  cases op with
  | importBlock H params =>
    obtain ⟨hL, hparams⟩ := hop
    change (importBlock H params b).2.chain.Settled P
    rw [importBlock_chain]
    rcases hi : H.importBlock b.chain params with ⟨result, c⟩
    by_cases hr : result = .ok .imported
    · subst hr
      rcases hparams with ⟨hf, hb⟩ | ⟨hf, hb⟩
      · exact h.imported_final hinj (hL.importBlock hi) hf hb
      · exact h.imported_aside hinj (hL.importBlock hi) hf hb
    · rw [show c = b.chain from hL.importBlock_refused hi hr]
      exact h
  | commit H exec =>
    obtain ⟨hL, hok⟩ := hop
    obtain ⟨r, hr⟩ := Outcome.isOk_iff.mp hok
    obtain ⟨s, -, -, hs⟩ := commit_mutated hinj hempty hL h (Prod.ext hr rfl)
    exact hs

/-- **The meaning of a committed mutation.** Over every run from a genesis, best is finalized, an
`Ok` mutation replaces the tip and nothing below it, and mutations compose: two of them leave the
best state that one closure running both would leave. -/
theorem withState_commit_meaning (hinj : Function.Injective P.hash)
    (hempty : ∀ v w, P.emptyTrieRoot v = P.emptyTrieRoot w) {b₀ : Builder S}
    (hg : b₀.chain.IsGenesis P) (ops : List (ChainOp S))
    (hops : Along (chainStep P) (Admissible P) ops b₀) :
    (run (chainStep P) ops b₀).chain.bestHash = (run (chainStep P) ops b₀).chain.finalizedHash ∧
    (∀ (R : Type) (H : Host S) (exec : S → R × S) (r : R) (b' : Builder S), H.Lawful P →
      withState P H .commit none exec (run (chainStep P) ops b₀) = (.ok r, b') →
      ∃ s, r = (exec s).1 ∧ Mutated P (run (chainStep P) ops b₀).chain s (exec s).2 b'.chain) ∧
    (∀ (R R' : Type) (H₁ H₂ H₃ : Host S) (f : S → R × S) (g : S → R' × S) (r₁ : R) (r₂ r₃ : R')
      (b₁ b₂ b₃ : Builder S), H₁.Lawful P → H₂.Lawful P → H₃.Lawful P →
      withState P H₁ .commit none f (run (chainStep P) ops b₀) = (.ok r₁, b₁) →
      withState P H₂ .commit none g b₁ = (.ok r₂, b₂) →
      withState P H₃ .commit none (fun s ↦ g (f s).2) (run (chainStep P) ops b₀) = (.ok r₃, b₃) →
      b₂.chain.states b₂.chain.bestHash = b₃.chain.states b₃.chain.bestHash) := by
  have hset : (run (chainStep P) ops b₀).chain.Settled P :=
    run_invariant (I := fun b ↦ b.chain.Settled P) (chainStep_settled hinj hempty) ops hops
      hg.settled
  refine ⟨hset.finalized.symm, ?_, ?_⟩
  · intro R H exec r b' hL hc
    obtain ⟨s, hr, hm, -⟩ := commit_mutated hinj hempty hL hset hc
    exact ⟨s, hr, hm⟩
  · intro R R' H₁ H₂ H₃ f g r₁ r₂ r₃ b₁ b₂ b₃ hL₁ hL₂ hL₃ h₁ h₂ h₃
    obtain ⟨s, -, hm₁, hset₁⟩ := commit_mutated hinj hempty hL₁ hset h₁
    obtain ⟨t, -, hm₂, -⟩ := commit_mutated hinj hempty hL₂ hset₁ h₂
    obtain ⟨u, -, hm₃, -⟩ := commit_mutated hinj hempty hL₃ hset h₃
    obtain rfl : (f s).2 = t := Option.some.inj (hm₁.state'.symm.trans hm₂.state)
    obtain rfl : s = u := Option.some.inj (hm₁.state.symm.trans hm₃.state)
    rw [hm₂.state', hm₃.state']

theorem isGenesis_genesis (P : Primitives S) (s : S) : (Chain.genesis P s).IsGenesis P where
  bestNumber := rfl
  finalized := rfl
  finalizedNumber := rfl
  header := ⟨.v1, P.storageRoot .v1 s, Function.update_self _ _ _⟩
  hash hd hh := by
    have hself : (Chain.genesis P s).headers (Chain.genesis P s).bestHash = some _ :=
      Function.update_self _ _ _
    obtain rfl := Option.mem_unique hself hh
    rfl
  canonical n k hk := by
    by_cases hn : n = 0
    · subst hn
      cases hk
      exact ⟨rfl, rfl⟩
    · have hnone : (Chain.genesis P s).canonical n = none := Function.update_of_ne hn _ _
      rw [hnone] at hk
      cases hk

theorem imported_extend {c : Chain S} {s : S} (h : c.Settled P)
    (hs : c.states c.bestHash = some s) :
    ∃ p, Imported P c p (c.extend P) ∧ p.header.parentHash = c.bestHash ∧ p.finalized = true ∧
      p.forkChoice = some (.custom true) := by
  obtain ⟨hd, hhd, hn, -⟩ := h.header
  have hfin := h.finalizedNumber
  rw [Chain.extend, hhd, hs]
  have hlater : c.finalizedNumber < hd.number + 1 := by omega
  exact ⟨_, imported_importOn hhd rfl hs hlater fun _ ↦ hn, rfl, rfl, rfl⟩

theorem counterChain_settled (n : ℕ) : (counterChain n).Settled counter ∧
    ∃ s, (counterChain n).states (counterChain n).bestHash = some s := by
  induction n with
  | zero =>
    refine ⟨(isGenesis_genesis counter 0).settled, 0, ?_⟩
    simp [counterChain, Chain.genesis, Chain.commitFinal]
  | succ n ih =>
    obtain ⟨hset, s, hs⟩ := ih
    obtain ⟨p, himp, -, hf, hb⟩ := imported_extend hset hs
    obtain ⟨t, -, hstates⟩ := himp.states
    refine ⟨hset.imported_final pairHash_injective himp hf hb,
      counter.execute t ⟨p.header, p.body.getD []⟩, ?_⟩
    rw [counterChain, hstates, (himp.best hb).1, Function.update_self]

/-- A run on the counting chain: genesis is mutated, then the block imported on it. -/
def counterRun : List (ChainOp ℕ) :=
  [.commit (Host.reference counter) (· + 10),
    .importBlock (Host.reference counter)
      { origin := .networkInitialSync, finalized := true, forkChoice := some (.custom true),
        header :=
          { parentHash := pairHash ⟨0, 0, 10, 0, []⟩, number := 1, stateRoot := 11,
            extrinsicsRoot := 0, digest := [] } },
    .commit (Host.reference counter) (· + 100)]

theorem withState_commit_meaning_counter :
    (run (chainStep counter) counterRun { chain := counterChain 0 }).chain.bestHash =
        (run (chainStep counter) counterRun { chain := counterChain 0 }).chain.finalizedHash ∧
      (run (chainStep counter) counterRun { chain := counterChain 0 }).chain.bestNumber = 1 :=
  have hL := Host.reference_lawful counter
  ⟨(withState_commit_meaning pairHash_injective (fun _ _ ↦ rfl) (isGenesis_genesis counter 0)
    counterRun ⟨⟨hL, by decide⟩, fun _ ↦ ⟨⟨hL, Or.inl ⟨rfl, rfl⟩⟩, fun _ ↦
      ⟨⟨hL, by decide⟩, fun _ ↦ trivial⟩⟩⟩).1, by decide⟩

end Builder

end Fudge
