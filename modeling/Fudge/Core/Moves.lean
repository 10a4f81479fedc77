import Fudge.Call.Walks
import Fudge.Core.Anchored

/-!
# What the builders do to a database

Every call of the core builder, whatever it is asked and however it ends, changes the database by a
few kinds of moves: the client imports a block, the topmost blocks are reverted, a stored block is
put back under a new storage root, or genesis is made anew. A mutation that fails half way made a
first part of its moves.

So what each move keeps, every call keeps: the best block is stored under its number, and a header
stays while the reverts come from above it. A revert takes one block at a time, except in
`commit_storage_changes`. This is also true of the mutations that the other builders do not offer,
of older blocks and of changes made elsewhere.
-/

namespace Fudge

open Relation (ReflTransGen)

namespace Chain

variable {S : Type} {P : Primitives S} {c c' : Chain S} {m : ℕ}

/-- A change that a builder makes to its database. No block below the number `m` is reverted. -/
inductive Move (P : Primitives S) (m : ℕ) : Chain S → Chain S → Prop where
  /-- The client imported a block, as best block or aside. -/
  | imported {c c' : Chain S} (params : BlockImportParams) (isBest : Bool)
      (hfork : params.forkChoice = some (.custom isBest)) (h : Imported P c params c') :
      Move P m c c'
  /-- The topmost blocks were reverted. -/
  | reverted {c c' : Chain S} (n : ℕ) (h : RevertedBy n c c') (hm : m ≤ c.bestNumber + 1 - n) :
      Move P m c c'
  /-- A stored block was put back under another storage root. -/
  | remade {c c' : Chain S} (k : Hash) (hd : Header) (root : Hash) (ct : Contents) (s : S)
      (hk : c.headers k = some hd) (h : Committed P c ⟨{ hd with stateRoot := root }, ct⟩ s c') :
      Move P m c c'
  /-- A genesis block was put in. -/
  | genesis {c c' : Chain S} (block : PendingBlock) (s : S) (hn : block.header.number = 0)
      (h : Committed P c block s c') : Move P m c c'

/-- `c'` has the headers that `c` has below the number `m`, and its best block is stored. -/
structure Spares (P : Primitives S) (m : ℕ) (c c' : Chain S) : Prop where
  anchored : c'.Anchored P
  kept : ∀ k hd, c.headers k = some hd → hd.number < m → c'.headers k = some hd

theorem Anchored.spares (h : c.Anchored P) (m : ℕ) : c.Spares P m c := ⟨h, fun _ _ hk _ ↦ hk⟩

theorem Spares.trans {d : Chain S} (h : c.Spares P m d) (h' : d.Spares P m c') :
    c.Spares P m c' :=
  ⟨h'.anchored, fun k hd hk hlt ↦ h'.kept k hd (h.kept k hd hk hlt) hlt⟩

theorem Anchored.kept_store (hinj : Function.Injective P.hash) (h : c.Anchored P) {x : Header}
    (hh : c'.headers = Function.update c.headers (P.hash x) (some x)) (k : Hash) (hd : Header)
    (hk : c.headers k = some hd) : c'.headers k = some hd := by
  rw [hh]
  exact headers_update_of_hash hinj hk (h.hashed k hd hk) x

theorem RevertedBy.kept {n : ℕ} (hr : RevertedBy n c c') (hm : m ≤ c.bestNumber + 1 - n)
    {k : Hash} {hd : Header} (hk : c.headers k = some hd) (hlt : hd.number < m) :
    c'.headers k = some hd := by
  induction hr with
  | zero => exact hk
  | genesis => exact hk
  | @step n c d _ h0 hone _ ih =>
    have hsame := hone.below k hd hk (by omega)
    have hnumber := hone.bestNumber
    exact ih (by omega) (hsame.headers.trans hk)

/-- **Every move spares what it does not revert.** -/
theorem Move.spares (hinj : Function.Injective P.hash) (h : Move P m c c') (hc : c.Anchored P) :
    c.Spares P m c' := by
  cases h with
  | imported params isBest hfork himp =>
    refine ⟨?_, fun k hd hk _ ↦ hc.kept_store hinj himp.headers k hd hk⟩
    cases isBest with
    | true =>
      obtain ⟨hbest, hnum⟩ := himp.best hfork
      exact hc.store himp.headers hbest hnum
    | false =>
      obtain ⟨hbest, hnum, -⟩ := himp.notBest hfork
      exact hc.storeAside hinj himp.headers hbest hnum
  | reverted n hrev hm => exact ⟨hc.revertedBy hrev, fun k hd hk hlt ↦ hrev.kept hm hk hlt⟩
  | remade k hd root ct s hk hcom =>
    exact ⟨hc.store hcom.headers hcom.best hcom.bestNumber,
      fun k hd hk _ ↦ hc.kept_store hinj hcom.headers k hd hk⟩
  | genesis block s hn hcom =>
    exact ⟨hc.store hcom.headers hcom.best hcom.bestNumber,
      fun k hd hk _ ↦ hc.kept_store hinj hcom.headers k hd hk⟩

theorem Moves.spares (hinj : Function.Injective P.hash) (h : ReflTransGen (Move P m) c c')
    (hc : c.Anchored P) : c.Spares P m c' := by
  induction h with
  | refl => exact hc.spares m
  | tail _ hmove ih => exact ih.trans (hmove.spares hinj ih.anchored)

end Chain

namespace Builder

open Call Chain

variable {S R ε : Type} {P : Primitives S} {H : Host S} {m : ℕ}

theorem checkBestHashAndRevert_walks (hL : H.Lawful P) (n : ℕ) (b : Builder S)
    (hm : m ≤ b.chain.bestNumber + 1 - n) :
    Walks (Move P m) Builder.chain (checkBestHashAndRevert H n) b := by
  rw [Walks, checkBestHashAndRevert]
  by_cases hf : b.chain.bestHash = b.chain.finalizedHash
  · rw [if_pos hf]
    cases hrev : H.revert b.chain n with
    | error e => exact ReflTransGen.refl
    | ok d => exact ReflTransGen.single (Move.reverted n (hL.revert hrev) hm)
  · rw [if_neg hf]

theorem commitOperation_walks (hL : H.Lawful P) {op : BlockImportOperation S} {block : PendingBlock}
    {post : S} (hblock : op.block = some block) (hpost : op.dbStorage = some post) {b : Builder S}
    (hmove : ∀ c, Committed P b.chain block post c → Move P m b.chain c) (h : Hash) :
    Walks (Move P m) Builder.chain (commitOperation H h op) b := by
  rw [Walks, commitOperation]
  cases hcom : H.commitOperation b.chain op with
  | error e => exact ReflTransGen.refl
  | ok c => exact ReflTransGen.single (hmove c (hL.commitOperation hblock hpost hcom))

/-- **A mutation makes a revert and a commit, or a first part of that**, whichever block it is of
and however it ends. -/
theorem commit_walks (hL : H.Lawful P) (at_ : Option BlockId) (exec : S → R × S) (b : Builder S)
    (hm : m ≤ b.chain.bestNumber) : Walks (Move P m) Builder.chain (commit P H at_ exec) b := by
  refine Walks.read_bind (beginCommit_keeps at_) fun ⟨h, s, number⟩ _ ↦ ?_
  refine Walks.bind ?_ fun ⟨r, op⟩ t ht ↦ ?_
  · rw [mutate]
    by_cases hn : number = 0
    · rw [if_pos hn]
      exact Walks.of_keeps (mutateGenesis_keeps _ _ _)
    · rw [if_neg hn]
      exact Walks.bind (checkBestHashAndRevert_walks hL 1 b hm)
        fun _ _ _ ↦ Walks.of_keeps (rebuild_keeps _ _ _ _)
  · obtain ⟨d, block, hp, hq, rfl⟩ := mutate_eq_ok.mp ht
    obtain ⟨-, rfl⟩ := Prod.mk.inj hq
    refine Walks.bind (commitOperation_walks hL rfl rfl (fun c hc ↦ ?_) h)
      fun _ _ _ ↦ Walks.of_keeps (Keeps.pure _)
    rcases hp with ⟨-, -, v, -, -, -, -, rfl, -⟩ | ⟨-, -, v, hd, ct, -, -, -, hhd, -, -, rfl, -⟩
    · exact Move.genesis _ _ rfl hc
    · exact Move.remade h hd _ ct _ (hL.header hhd).symm hc

theorem withState_walks (hL : H.Lawful P) (op : Operation) (at_ : Option BlockId)
    (exec : S → R × S) (b : Builder S) (hm : m ≤ b.chain.bestNumber) :
    Walks (Move P m) Builder.chain (withState P H op at_ exec) b := by
  cases op with
  | commit => exact commit_walks hL at_ exec b hm
  | dryRun => exact Walks.of_keeps (dryRun_keeps at_ exec)

theorem importBlock_walks (hL : H.Lawful P) {params : BlockImportParams} {isBest : Bool}
    (hfork : params.forkChoice = some (.custom isBest)) (b : Builder S) :
    Walks (Move P m) Builder.chain (importBlock H params : Call _ Error Unit) b := by
  rw [Walks, importBlock_chain]
  rcases hi : H.importBlock b.chain params with ⟨result, c⟩
  by_cases hr : result = .ok .imported
  · subst hr
    exact ReflTransGen.single (Move.imported params isBest hfork (hL.importBlock hi))
  · rw [show c = b.chain from hL.importBlock_refused hi hr]

/-! ## Runs of the core builder -/

/-- A call of a public method of the core builder that is about its chain, with the host it is made
against. -/
inductive CoreOp (S : Type) where
  | withState (H : Host S) (op : Operation) (at_ : Option BlockId) (exec : S → S)
  | commitStorageChanges (H : Host S) (changes : StorageChanges S) (at_ : BlockId)
  | appendExtrinsic (H : Host S) (xt : Extrinsic)
  | appendTransition (pair : StoragePair)
  | buildBlock (H : Host S) (inherents : InherentData) (digest : Digest)
  | importBlock (H : Host S) (params : BlockImportParams)

/-- The host keeps the laws, and an import says whether the block becomes the best one. -/
def CoreOp.Lawful (P : Primitives S) : CoreOp S → Prop
  | .withState H _ _ _ => H.Lawful P
  | .commitStorageChanges H _ _ => H.Lawful P
  | .importBlock H params =>
    H.Lawful P ∧ ∃ isBest, params.forkChoice = some (.custom isBest)
  | _ => True

end Builder

end Fudge
