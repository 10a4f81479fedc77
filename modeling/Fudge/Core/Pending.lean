import Fudge.Core.Atomicity
import Fudge.Core.Blocks
import Fudge.Core.Reference

/-!
# A block that waits for its import

The stand-alone and the relay chain builder hold the block they built in a slot until it is
imported. Two things are said of such a block, under assumptions of very different strength.

* It sits on the best block (`PendingOn`). This needs no more than that headers are stored under
  their hashes, and survives every call, the failing ones included.
* The best state is the one that the committed mutations and the accepted blocks lead to
  (`BestState`). This is lost when a mutation fails after its revert, and with it the state of the
  block that was reverted.
-/

namespace Fudge

namespace Chain

variable {S : Type} {P : Primitives S} {c c' : Chain S}

def Hashed (P : Primitives S) (c : Chain S) : Prop :=
  ∀ h hd, c.headers h = some hd → P.hash hd = h

theorem Hashed.of_headers (h : c.Hashed P)
    (hh : ∀ k hd, c'.headers k = some hd → c.headers k = some hd) : c'.Hashed P :=
  fun k hd hk ↦ h k hd (hh k hd hk)

theorem Hashed.store (h : c.Hashed P) {hd : Header}
    (hh : c'.headers = Function.update c.headers (P.hash hd) (some hd)) : c'.Hashed P := by
  intro k hd' hk
  rw [hh] at hk
  by_cases heq : k = P.hash hd
  · rw [heq, Function.update_self] at hk
    cases hk
    exact heq.symm
  · rw [Function.update_of_ne heq] at hk
    exact h k hd' hk

theorem Hashed.revertedBy (h : c.Hashed P) {n : ℕ} (hr : RevertedBy n c c') : c'.Hashed P :=
  h.of_headers fun _ _ ↦ hr.headers

theorem hashed_genesis (P : Primitives S) (s : S) : (Chain.genesis P s).Hashed P :=
  Hashed.store (c := { Chain.genesis P s with headers := fun _ ↦ none })
    (fun _ _ hk ↦ by cases hk) rfl

/-- A block that waits to be imported sits on the best block. -/
structure PendingOn (P : Primitives S) (c : Chain S) (next : Option (Block × StorageProof)) :
    Prop where
  hashed : c.Hashed P
  tip : ∀ b, next = some b → b.1.header.parentHash = c.bestHash

/-- The best block has the state `s`. -/
def BestState (c : Chain S) (s : S) : Prop := c.states c.bestHash = some s

/-- The block under the best one has the state `s`. -/
def ParentState (c : Chain S) (s : S) : Prop :=
  ∃ hd, c.headers c.bestHash = some hd ∧ c.states hd.parentHash = some s

theorem bestState_genesis (P : Primitives S) (s : S) : BestState (Chain.genesis P s) s := by
  simp [BestState, Chain.genesis, Chain.commitFinal]

theorem states_genesis {P : Primitives S} {s t : S} {h : Hash}
    (ht : (Chain.genesis P s).states h = some t) : s = t := by
  simp only [Chain.genesis, Chain.commitFinal, Function.update_apply] at ht
  split at ht
  · exact Option.some.inj ht
  · cases ht

end Chain

namespace Builder

open Call Chain

variable {S R ε : Type} {P : Primitives S} {H : Host S}

theorem RevertsTip.bestState_iff (hL : H.Lawful P) {c c' : Chain S} {h : Hash} {s t : S}
    (hrev : RevertsTip H c none h s c') : BestState c' t ↔ ParentState c t := by
  obtain ⟨number, ⟨rfl, -, -, -, hnumber⟩, -, -, h0, hr⟩ := hrev
  have hreverted := (hL.revert hr).reverted h0
  obtain ⟨hd, hhd, -⟩ := Option.map_eq_some_iff.mp (hL.blockNumberFromId hnumber).symm
  obtain ⟨parent, hparent, hn⟩ := hreverted.best_stored
  have hbest := hreverted.best hd hhd
  have hsame := hreverted.below _ parent (hreverted.headers _ _ hparent) (by
    have := hreverted.bestNumber
    omega)
  rw [BestState, hsame.states, hbest]
  constructor
  · exact fun ht ↦ ⟨hd, hhd, ht⟩
  · rintro ⟨hd', hhd', ht⟩
    obtain rfl := Option.mem_unique hhd hhd'
    exact ht

/-! ## Hashed headers -/

theorem commit_hashed (hL : H.Lawful P) (exec : S → R × S) :
    Preserves (fun b ↦ b.chain.Hashed P) (withState P H .commit none exec) := by
  intro b hb
  change (commit P H none exec b).2.chain.Hashed P
  by_cases hok : (commit P H none exec b).1.isOk = true
  · obtain ⟨r, hr⟩ := Outcome.isOk_iff.mp hok
    obtain ⟨h, s, n, d, block, c, -, hp, hcom, -, hb'⟩ := commit_eq_ok.mp (eq_of_fst hr)
    rw [hb']
    have hd : d.Hashed P := by
      rcases hp with ⟨-, rfl, -⟩ | ⟨-, ⟨-, hrev⟩ | ⟨-, rfl⟩, -⟩
      · exact hb
      · exact hb.revertedBy (hL.revert hrev)
      · exact hb
    exact hd.store (hL.commitOperation (by rfl) (by rfl) hcom).headers
  · rcases commit_of_not_ok hL (by simpa using hok) with
      ⟨h, -⟩ | ⟨_, _, d, ⟨_, _, _, _, _, hrev⟩, h⟩
    · rw [h]
      exact hb
    · rw [h]
      exact hb.revertedBy (hL.revert hrev)

theorem importBlock_hashed (hL : H.Lawful P) (params : BlockImportParams) :
    Preserves (fun b ↦ b.chain.Hashed P) (importBlock H params : Call (Builder S) Error Unit) := by
  intro b hb
  rw [importBlock_chain]
  rcases hi : H.importBlock b.chain params with ⟨result, c⟩
  by_cases hr : result = .ok .imported
  · subst hr
    exact hb.store (hL.importBlock hi).headers
  · rw [show c = b.chain from hL.importBlock_refused hi hr]
    exact hb

theorem proposal_on_tip (hL : H.Lawful P) {c : Chain S} (h : c.Hashed P) {pool : Pool}
    {hd : Header} {inherents : InherentData} {digest : Digest} {proposal : Proposal}
    (hhd : H.header c c.bestHash = .ok (some hd))
    (hp : H.propose c pool hd inherents digest = .ok proposal) :
    PendingOn P c (some (proposal.block, proposal.proof)) := by
  refine ⟨h, ?_⟩
  rintro _ ⟨⟩
  exact (hL.propose hp).1.trans (h _ hd (hL.header hhd).symm)

/-! ## The best state -/

/-- What a mutation does to the best state: its closure is applied, if it is committed. -/
def commitEffect (P : Primitives S) (H : Host S) (exec : S → R × S) (b : Builder S) (s : S) : S :=
  if (withState P H .commit none exec b).1.isOk then (exec s).2 else s

def takes : Except InnerError ImportResult → Bool
  | .ok .imported => true
  | _ => false

theorem takes_iff {v : Except InnerError ImportResult} : takes v = true ↔ v = .ok .imported := by
  rcases v with _ | _ | _ | _ | _ | _ <;> simp [takes]

/-- What an import as best block does to the best state: the block is executed, if the client takes
it. -/
def importEffect (P : Primitives S) (H : Host S) (params : BlockImportParams) (b : Builder S)
    (s : S) : S :=
  if takes (H.importBlock b.chain params).1
  then P.execute s ⟨params.header, params.body.getD []⟩ else s

/-- A mutation that is committed, or fails without having reverted the tip. -/
theorem commit_state (hL : H.Lawful P) {exec : S → R × S} {b : Builder S} {s : S}
    (h : BestState b.chain s) (hsafe : CommitSafe P H b.chain none exec) :
    BestState (withState P H .commit none exec b).2.chain (commitEffect P H exec b s) := by
  rw [commitEffect]
  by_cases hok : (withState P H .commit none exec b).1.isOk = true
  · obtain ⟨r, hr⟩ := Outcome.isOk_iff.mp hok
    obtain ⟨t, ht, -, hpost⟩ := commit_bestState hL (eq_of_fst hr)
    obtain rfl : s = t := Option.some.inj (h.symm.trans ht)
    rw [if_pos hok]
    exact hpost
  · have hno : (withState P H .commit none exec b).1.isOk = false := by simpa using hok
    have hsame := (withState_commit_atomic_iff hL b none exec).mpr hsafe
      (Outcome.isErr_of_not_ok hno (withState_noPanic .commit none exec b))
    rw [if_neg hok, hsame]
    exact h

theorem importBlock_state (hL : H.Lawful P) {params : BlockImportParams} {b : Builder S} {s : S}
    (h : BestState b.chain s) (hparent : params.header.parentHash = b.chain.bestHash)
    (hb : params.forkChoice = some (.custom true)) :
    BestState (importBlock H params b).2.chain (importEffect P H params b s) := by
  rw [importBlock_chain, importEffect]
  rcases hi : H.importBlock b.chain params with ⟨result, c⟩
  by_cases hr : result = .ok .imported
  · subst hr
    have himp := hL.importBlock hi
    obtain ⟨t, ht, hstates⟩ := himp.states
    obtain rfl : s = t := by
      rw [hparent] at ht
      exact Option.some.inj (h.symm.trans ht)
    rw [if_pos (takes_iff.mpr rfl), BestState, hstates, (himp.best hb).1, Function.update_self]
  · rw [if_neg (fun ht ↦ hr (takes_iff.mp ht))]
    rw [show c = b.chain from hL.importBlock_refused hi hr]
    exact h

end Builder

end Fudge
