import Fudge.Call.Journal
import Fudge.Core.Anchored

/-!
# The states below the best block

The best block of a chain has a state, and so have the blocks below it down to genesis. `Recorded`
lists them, each with the hash of its block. An import on the best block puts one on top, and a
mutation replaces the topmost one, under a new hash. Neither reaches below: a database forgets
nothing but the best block, and that only when a mutation fails after its revert.
-/

namespace Fudge

namespace Chain

variable {S : Type} {P : Primitives S} {c c' : Chain S}

/-- The blocks below a header, with their states. -/
def Ancestors (c : Chain S) : Header → List (Hash × S) → Prop
  | hd, [] => hd.number = 0
  | hd, (k, s) :: l => hd.parentHash = k ∧ c.states k = some s ∧
    ∃ x, c.headers k = some x ∧ hd.number = x.number + 1 ∧ Ancestors c x l

/-- The best block and those below it, with their states. -/
structure Recorded (P : Primitives S) (c : Chain S) (l : List (Hash × S)) : Prop where
  hashed : c.Hashed P
  blocks : ∃ hd s below, l = (c.bestHash, s) :: below ∧ c.headers c.bestHash = some hd ∧
    c.states c.bestHash = some s ∧ c.Ancestors hd below
  number : l.length = c.bestNumber + 1

theorem Ancestors.number {l : List (Hash × S)} : ∀ {hd : Header}, c.Ancestors hd l →
    hd.number = l.length := by
  induction l with
  | nil => exact fun h ↦ h
  | cons e l ih =>
    rintro hd ⟨-, -, x, -, hn, hx⟩
    rw [List.length_cons, hn, ih hx]

theorem Ancestors.congr {l : List (Hash × S)} : ∀ {hd : Header}, c.Ancestors hd l →
    (∀ k x, c.headers k = some x → x.number < hd.number →
      c'.headers k = some x ∧ c'.states k = c.states k) → c'.Ancestors hd l := by
  induction l with
  | nil => exact fun h _ ↦ h
  | cons e l ih =>
    rintro hd ⟨hk, hs, x, hx, hn, hl⟩ hsame
    obtain ⟨hx', hs'⟩ := hsame e.1 x hx (by omega)
    exact ⟨hk, hs'.trans hs, x, hx', hn, ih hl fun k y hy hlt ↦ hsame k y hy (by omega)⟩

theorem Ancestors.root {hd : Header} {l : List (Hash × S)} (h : c.Ancestors hd l) (root : Hash) :
    c.Ancestors { hd with stateRoot := root } l := by
  cases l with
  | nil => exact h
  | cons e l => exact h

theorem Ancestors.mem_states {l : List (Hash × S)} : ∀ {hd : Header}, c.Ancestors hd l →
    ∀ e ∈ l, c.states e.1 = some e.2 := by
  induction l with
  | nil => exact fun _ e he ↦ absurd he List.not_mem_nil
  | cons e l ih =>
    rintro hd ⟨-, hs, x, -, -, hl⟩ e' he
    rcases List.mem_cons.mp he with rfl | he
    · exact hs
    · exact ih hl e' he

theorem Recorded.mem_states {l : List (Hash × S)} (h : c.Recorded P l) {e : Hash × S}
    (he : e ∈ l) : c.states e.1 = some e.2 := by
  obtain ⟨hd, s, below, rfl, -, hs, hbelow⟩ := h.blocks
  rcases List.mem_cons.mp he with rfl | he
  · exact hs
  · exact hbelow.mem_states e he

theorem Recorded.store (hinj : Function.Injective P.hash) (hc : c.Hashed P) {hd : Header} {s : S}
    {l : List (Hash × S)} (hl : c.Ancestors hd l)
    (hh : c'.headers = Function.update c.headers (P.hash hd) (some hd))
    (hs : c'.states = Function.update c.states (P.hash hd) (some s))
    (hbest : c'.bestHash = P.hash hd) (hnum : c'.bestNumber = hd.number) :
    c'.Recorded P ((P.hash hd, s) :: l) := by
  refine ⟨hc.store hh, ⟨hd, s, l, ?_, ?_, ?_, hl.congr fun k x hk hlt ↦ ?_⟩, ?_⟩
  · rw [hbest]
  · rw [hh, hbest, Function.update_self]
  · rw [hs, hbest, Function.update_self]
  · -- the block has another number, and so another hash
    have hne : k ≠ P.hash hd := by
      rintro rfl
      obtain rfl := hinj (hc _ x hk)
      exact Nat.lt_irrefl _ hlt
    rw [hh, hs, Function.update_of_ne hne, Function.update_of_ne hne]
    exact ⟨hk, rfl⟩
  · rw [List.length_cons, hnum, hl.number]

theorem Ancestors.reverted {hd : Header} {l : List (Hash × S)} (h : c.Ancestors hd l)
    (hn : hd.number = c.bestNumber) (hr : Reverted c c') : c'.Ancestors hd l := by
  refine h.congr fun k x hk hlt ↦ ?_
  have hkept := hr.below k x hk (hn ▸ hlt)
  exact ⟨hkept.headers.trans hk, hkept.states⟩

theorem Recorded.best_number {l : List (Hash × S)} (h : c.Recorded P l) {hd : Header}
    (hhd : c.headers c.bestHash = some hd) : hd.number = c.bestNumber := by
  obtain ⟨x, s, below, rfl, hx, -, hbelow⟩ := h.blocks
  obtain rfl := Option.mem_unique hhd hx
  have hnumber := h.number
  rw [List.length_cons] at hnumber
  rw [hbelow.number]
  omega

theorem Recorded.reverted {l : List (Hash × S)} (h : c.Recorded P l) (hn : c.bestNumber ≠ 0)
    (hr : Reverted c c') : c'.Recorded P l.tail := by
  obtain ⟨hd, s, below, rfl, hhd, -, hbelow⟩ := h.blocks
  have hlen : below.length = c.bestNumber := by simpa using h.number
  have hkept : c'.Ancestors hd below := hbelow.reverted (h.best_number hhd) hr
  cases below with
  | nil => exact absurd hlen.symm hn
  | cons e l =>
    obtain ⟨k, t⟩ := e
    obtain ⟨hk, ht, x, hx, -, hl⟩ := hkept
    have hbest : c'.bestHash = k := (hr.best hd hhd).trans hk
    refine ⟨h.hashed.of_headers hr.headers, ⟨x, t, l, ?_, ?_, ?_, hl⟩, ?_⟩
    · rw [hbest, List.tail_cons]
    · rw [hbest, hx]
    · rw [hbest, ht]
    · rw [hr.bestNumber, ← hlen, List.tail_cons, List.length_cons, Nat.add_sub_cancel]

theorem Recorded.imported (hinj : Function.Injective P.hash) {l : List (Hash × S)}
    (h : c.Recorded P l) {p : BlockImportParams} (himp : Imported P c p c')
    (hparent : p.header.parentHash = c.bestHash) (hbest : p.forkChoice = some (.custom true)) :
    ∃ s, c'.Recorded P ((P.hash p.header, s) :: l) := by
  obtain ⟨hd, t, below, rfl, hhd, ht, hbelow⟩ := h.blocks
  obtain ⟨x, hx, hn⟩ := himp.parent
  obtain ⟨s, -, hstates⟩ := himp.states
  obtain rfl : x = hd := Option.mem_unique (hparent ▸ hx) hhd
  obtain ⟨hash, number⟩ := himp.best hbest
  have hl : c.Ancestors p.header ((c.bestHash, t) :: below) := ⟨hparent, ht, x, hhd, hn, hbelow⟩
  exact ⟨_, Recorded.store hinj h.hashed hl himp.headers hstates hash number⟩

theorem recorded_genesis (P : Primitives S) (s : S) :
    (Chain.genesis P s).Recorded P [((Chain.genesis P s).bestHash, s)] := by
  refine ⟨hashed_genesis P s, ⟨_, s, [], rfl, Function.update_self _ _ _, ?_, ?_⟩, rfl⟩
  · exact bestState_genesis P s
  · rfl

end Chain

namespace Builder

open Call Chain

variable {S R : Type} {P : Primitives S} {H : Host S}

/-- **A mutation replaces the newest state**, or loses it when it fails after its revert. -/
theorem commit_journals (hinj : Function.Injective P.hash) (hL : H.Lawful P) (exec : S → R × S)
    (b : Builder S) :
    Journals (fun b : Builder S ↦ b.chain.Recorded P) (withState P H .commit none exec) b := by
  intro l hl
  change ∃ l', (commit P H none exec b).2.chain.Recorded P l' ∧
    Survives (commit P H none exec b).1.isOk l l'
  by_cases hok : (commit P H none exec b).1.isOk = true
  · obtain ⟨r, hr⟩ := Outcome.isOk_iff.mp hok
    obtain ⟨h, s, n, d, block, c, ho, hp, hcom, -, hb'⟩ := commit_eq_ok.mp (eq_of_fst hr)
    have hcommitted := hL.commitOperation (by rfl) (by rfl) hcom
    obtain ⟨hd, t, below, rfl, hhd, ht, hbelow⟩ := hl.blocks
    have hnumber : n = hd.number := ho.number hL hhd
    obtain ⟨rfl, -⟩ := ho
    refine ⟨(P.hash block.header, (exec s).2) :: below, ?_, Survives.of_ok List.suffix_rfl⟩
    rw [hb']
    rcases hp with ⟨h0, rfl, v, -, -, -, -, rfl, -⟩ |
      ⟨hne, hu, v, hd', ct, -, -, -, hhd', -, -, rfl, -⟩
    · -- a new genesis has nothing below it, as the old one
      have hnil : below = [] := by
        rw [← List.length_eq_zero_iff, ← hbelow.number, ← hnumber, h0]
      subst hnil
      exact Recorded.store hinj hl.hashed rfl hcommitted.headers hcommitted.states
        hcommitted.best hcommitted.bestNumber
    · have hbest : b.chain.bestNumber ≠ 0 := by
        have hlen : below.length + 1 = b.chain.bestNumber + 1 := hl.number
        have hbelow := hbelow.number
        omega
      -- the block is put back on the ancestors of the one it replaces
      have hkept : d.Ancestors hd below := by
        rcases hu with ⟨-, hrev⟩ | ⟨-, rfl⟩
        · exact hbelow.reverted (hl.best_number hhd) ((hL.revert hrev).reverted hbest)
        · exact hbelow
      have hheaders := hu.headers hL
      obtain rfl : hd' = hd := header_of_headers hL hheaders hhd hhd'
      exact Recorded.store hinj (hl.hashed.of_headers hheaders) (hkept.root _) hcommitted.headers
        hcommitted.states hcommitted.best hcommitted.bestNumber
  · rcases commit_of_not_ok hL (by simpa using hok) with
      ⟨h, -⟩ | ⟨_, _, d, ⟨_, _, _, _, hn, hrev⟩, h⟩
    · rw [h]
      exact ⟨l, hl, Survives.refl _ l⟩
    · rw [h, show (commit P H none exec b).1.isOk = false by simpa using hok]
      exact ⟨l.tail, hl.reverted hn ((hL.revert hrev).reverted hn), List.suffix_rfl⟩

/-- **An import on the best block keeps what is recorded**, whatever the client says to it. -/
theorem importBlock_journals (hinj : Function.Injective P.hash) (hL : H.Lawful P)
    {params : BlockImportParams} (hbest : params.forkChoice = some (.custom true)) {b : Builder S}
    (hparent : params.header.parentHash = b.chain.bestHash) :
    Journals (fun b : Builder S ↦ b.chain.Recorded P)
      (importBlock H params : Call (Builder S) Error Unit) b := by
  intro l hl
  change ∃ l', (importBlock H params b : Outcome Error Unit × Builder S).2.chain.Recorded P l' ∧
    Survives (importBlock H params b : Outcome Error Unit × Builder S).1.isOk l l'
  rw [importBlock_chain]
  rcases hi : H.importBlock b.chain params with ⟨result, c⟩
  by_cases hr : result = .ok .imported
  · subst hr
    obtain ⟨s, hs⟩ := hl.imported hinj (hL.importBlock hi) hparent hbest
    exact ⟨_, hs, Survives.of_ok (List.tail_suffix l)⟩
  · rw [show c = b.chain from hL.importBlock_refused hi hr]
    exact ⟨l, hl, Survives.refl _ l⟩

/-- What is read at a block that is recorded. -/
theorem dryRun_of_recorded (hL : H.Lawful P) {b b' : Builder S} {l : List (Hash × S)}
    (hl : b.chain.Recorded P l) {e : Hash × S} (he : e ∈ l) {exec : S → R × S} {r : R}
    (h : withState P H .dryRun (some (.hash e.1)) exec b = (.ok r, b')) : r = (exec e.2).1 := by
  obtain ⟨k, s, hk, hs, rfl, -⟩ := dryRun_eq_ok.mp h
  obtain rfl : k = e.1 := hk
  obtain rfl : s = e.2 := Option.mem_unique (hL.stateAt hs) (hl.mem_states he)
  rfl

theorem counterChain_recorded (n : ℕ) : ∃ l, (counterChain n).Recorded counter l := by
  induction n with
  | zero => exact ⟨_, recorded_genesis counter 0⟩
  | succ n ih =>
    obtain ⟨l, hl⟩ := ih
    obtain ⟨hset, s, hs⟩ := counterChain_settled n
    obtain ⟨p, himp, htip, -, hbest⟩ := imported_extend hset hs
    obtain ⟨t, ht⟩ := hl.imported pairHash_injective himp htip hbest
    exact ⟨_, ht⟩

end Builder

end Fudge
