import Fudge.Core.Mutation
import Fudge.Core.Pending

/-!
# The best block is there

Whatever the builders do to a chain, its best block is stored, under the number it is best with. A
commit and an import store the block they make the best one, and a revert steps back to a block
that the database has. So the number of the best block is that of the header stored for it also
after a mutation that failed half way, when `Settled` is long lost.
-/

namespace Fudge

namespace Chain

variable {S : Type} {P : Primitives S} {c c' : Chain S}

/-- Headers are stored under their hashes, and the best one under the number it is best with. -/
structure Anchored (P : Primitives S) (c : Chain S) : Prop where
  hashed : c.Hashed P
  best : ∃ hd, c.headers c.bestHash = some hd ∧ hd.number = c.bestNumber

theorem Anchored.number (h : c.Anchored P) :
    (c.headers c.bestHash).map (·.number) = some c.bestNumber := by
  obtain ⟨hd, hhd, hn⟩ := h.best
  rw [hhd, Option.map_some, hn]

theorem Anchored.store (h : c.Anchored P) {hd : Header}
    (hh : c'.headers = Function.update c.headers (P.hash hd) (some hd))
    (hbest : c'.bestHash = P.hash hd) (hnum : c'.bestNumber = hd.number) : c'.Anchored P := by
  refine ⟨h.hashed.store hh, hd, ?_, hnum.symm⟩
  rw [hh, hbest, Function.update_self]

theorem Anchored.storeAside (hinj : Function.Injective P.hash) (h : c.Anchored P) {hd : Header}
    (hh : c'.headers = Function.update c.headers (P.hash hd) (some hd))
    (hbest : c'.bestHash = c.bestHash) (hnum : c'.bestNumber = c.bestNumber) : c'.Anchored P := by
  obtain ⟨best, hb, hn⟩ := h.best
  refine ⟨h.hashed.store hh, best, ?_, hn.trans hnum.symm⟩
  rw [hh, hbest]
  exact headers_update_of_hash hinj hb (h.hashed _ _ hb) hd

theorem Anchored.revertedBy (h : c.Anchored P) {n : ℕ} (hr : RevertedBy n c c') :
    c'.Anchored P := by
  induction hr with
  | zero => exact h
  | genesis => exact h
  | step _ hd _ ih => exact ih ⟨h.hashed.of_headers hd.headers, hd.best_stored⟩

theorem anchored_genesis (P : Primitives S) (s : S) : (Chain.genesis P s).Anchored P :=
  ⟨hashed_genesis P s, _, Function.update_self _ _ _, rfl⟩

end Chain

namespace Builder

open Call Chain

variable {S R : Type} {P : Primitives S} {H : Host S}

theorem commit_anchored (hL : H.Lawful P) (exec : S → R × S) :
    Preserves (fun b ↦ b.chain.Anchored P) (withState P H .commit none exec) := by
  intro b hb
  change (commit P H none exec b).2.chain.Anchored P
  by_cases hok : (commit P H none exec b).1.isOk = true
  · obtain ⟨r, hr⟩ := Outcome.isOk_iff.mp hok
    obtain ⟨h, s, n, d, block, c, -, hp, hcom, -, hb'⟩ := commit_eq_ok.mp (eq_of_fst hr)
    rw [hb']
    have hcommitted := hL.commitOperation (by rfl) (by rfl) hcom
    have hd : d.Anchored P := by
      rcases hp with ⟨-, rfl, -⟩ | ⟨-, ⟨-, hrev⟩ | ⟨-, rfl⟩, -⟩
      · exact hb
      · exact hb.revertedBy (hL.revert hrev)
      · exact hb
    exact hd.store hcommitted.headers hcommitted.best hcommitted.bestNumber
  · rcases commit_of_not_ok hL (by simpa using hok) with
      ⟨h, -⟩ | ⟨_, _, d, ⟨_, _, _, _, _, hrev⟩, h⟩
    · rw [h]
      exact hb
    · rw [h]
      exact hb.revertedBy (hL.revert hrev)

theorem commit_number_of_ok (hL : H.Lawful P) {exec : S → R × S} {b b' : Builder S} {r : R}
    (hb : b.chain.Anchored P) (h : withState P H .commit none exec b = (.ok r, b')) :
    b'.chain.bestNumber = b.chain.bestNumber := by
  obtain ⟨k, s, n, d, block, c, ho, hp, hcom, -, rfl⟩ := commit_eq_ok.mp h
  have hcommitted := hL.commitOperation (by rfl) (by rfl) hcom
  obtain ⟨hd, hhd, hbest⟩ := hb.best
  have hnumber : n = hd.number := ho.number hL hhd
  obtain ⟨rfl, -⟩ := ho
  refine hcommitted.bestNumber.trans ?_
  rcases hp with ⟨h0, rfl, v, -, -, -, -, rfl, -⟩ |
    ⟨-, hu, v, hd', ct, -, -, -, hhd', -, -, rfl, -⟩
  · exact (h0.symm.trans hnumber).trans hbest
  · -- the header that is read after the revert is that of the best block
    obtain rfl : hd' = hd := header_of_headers hL (hu.headers hL) hhd hhd'
    exact hbest

/-- A mutation that does not lose the tip keeps the number of the best block. -/
theorem commit_number (hL : H.Lawful P) {exec : S → R × S} {b : Builder S}
    (hb : b.chain.Anchored P) (hsafe : CommitSafe P H b.chain none exec) :
    (withState P H .commit none exec b).2.chain.bestNumber = b.chain.bestNumber := by
  by_cases hok : (withState P H .commit none exec b).1.isOk = true
  · obtain ⟨r, hr⟩ := Outcome.isOk_iff.mp hok
    exact commit_number_of_ok hL hb (eq_of_fst hr)
  · have hno : (withState P H .commit none exec b).1.isOk = false := by simpa using hok
    rw [(withState_commit_atomic_iff hL b none exec).mpr hsafe
      (Outcome.isErr_of_not_ok hno (withState_noPanic .commit none exec b))]

theorem importBlock_anchored (hL : H.Lawful P) {params : BlockImportParams}
    (hbest : params.forkChoice = some (.custom true)) :
    Preserves (fun b ↦ b.chain.Anchored P)
      (importBlock H params : Call (Builder S) Error Unit) := by
  intro b hb
  rw [importBlock_chain]
  rcases hi : H.importBlock b.chain params with ⟨result, c⟩
  by_cases hr : result = .ok .imported
  · subst hr
    have himp := hL.importBlock hi
    exact hb.store himp.headers (himp.best hbest).1 (himp.best hbest).2
  · rw [show c = b.chain from hL.importBlock_refused hi hr]
    exact hb

theorem counterChain_anchored (n : ℕ) : (counterChain n).Anchored counter := by
  induction n with
  | zero => exact anchored_genesis counter 0
  | succ n ih =>
    obtain ⟨hset, s, hs⟩ := counterChain_settled n
    obtain ⟨p, himp, -, -, hbest⟩ := imported_extend hset hs
    exact ih.store himp.headers (himp.best hbest).1 (himp.best hbest).2

end Builder

end Fudge
