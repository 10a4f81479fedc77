import Mathlib.Data.Nat.Pairing
import Fudge.Codec.Basic
import Fudge.Core.Chain

/-!
# A reference host

A database in memory that answers every question it can. It is one lawful `Host`, so the laws are
consistent, and it is the host on which concrete runs are evaluated: everything here computes.

Its only refusals are those of the real libraries: a `Final` block that does not follow the
finalized one, unless that is genesis, a revert to a block that is not there, and an import on a
parent the database does not look up. A block that was reverted is not looked up any more; its
header and state can still be read, as from the header cache and the state database of an archive
node. A call that fails for any other reason is obtained by overriding one answer of this host.
-/

namespace Fudge

namespace Chain

variable {S : Type} (P : Primitives S)

/-- The header of a block that the database looks up. -/
def lookup (c : Chain S) (h : Hash) : Option Header :=
  if (c.contents h).isSome then c.headers h else none

/-- The best header, if the block below it is there to step back to. -/
def bestOnStored (c : Chain S) : Option Header :=
  (c.headers c.bestHash).bind fun hd ↦ (c.headers hd.parentHash).bind fun parent ↦
    if hd.number = c.bestNumber ∧ parent.number + 1 = c.bestNumber then some hd else none

def isAbove (c : Chain S) (h : Hash) : Bool :=
  match c.headers h with
  | some hd => decide (c.bestNumber < hd.number)
  | none => false

/-- Step back from the best block, whose header is `hd`, and from what is on top of it. -/
def stepBack (c : Chain S) (hd : Header) : Chain S :=
  { c with
    contents := fun h ↦ if h = c.bestHash ∨ c.isAbove h = true then none else c.contents h
    bestHash := hd.parentHash, bestNumber := c.bestNumber - 1
    finalizedHash := hd.parentHash, finalizedNumber := c.bestNumber - 1 }

/-- Step back `n` blocks, not beyond genesis. -/
def revertMany : ℕ → Chain S → Option (Chain S)
  | 0, c => some c
  | n + 1, c =>
    if c.bestNumber = 0 then some c
    else match c.bestOnStored with
      | some hd => revertMany n (c.stepBack hd)
      | none => none

/-- Store a final block with its state. -/
def commitFinal (c : Chain S) (b : PendingBlock) (s : S) : Chain S where
  headers := Function.update c.headers (P.hash b.header) (some b.header)
  states := Function.update c.states (P.hash b.header) (some s)
  contents := Function.update c.contents (P.hash b.header) (some b.contents)
  canonical := Function.update c.canonical b.header.number (some (P.hash b.header))
  bestHash := P.hash b.header
  bestNumber := b.header.number
  finalizedHash := P.hash b.header
  finalizedNumber := b.header.number

/-- Store an imported block whose parent state is `s`. -/
def importOn (c : Chain S) (p : BlockImportParams) (s : S) : Chain S :=
  let h := P.hash p.header
  let best := p.forkChoice = some (.custom true)
  { headers := Function.update c.headers h (some p.header)
    states := Function.update c.states h (some (P.execute s ⟨p.header, p.body.getD []⟩))
    contents := Function.update c.contents h (some ⟨p.body, none, none⟩)
    canonical := if best then Function.update c.canonical p.header.number (some h) else c.canonical
    bestHash := if best then h else c.bestHash
    bestNumber := if best then p.header.number else c.bestNumber
    finalizedHash := if p.finalized then h else c.finalizedHash
    finalizedNumber := if p.finalized then p.header.number else c.finalizedNumber }

end Chain

namespace Host

variable {S : Type}

/-- What a client says to an import, and the chain it leaves. -/
def referenceImport (P : Primitives S) (c : Chain S) (p : BlockImportParams) :
    Except InnerError ImportResult × Chain S :=
  match c.lookup p.header.parentHash, c.states p.header.parentHash with
  | some hd, some s =>
    if p.header.number = hd.number + 1 ∧ c.finalizedNumber < p.header.number ∧
        (p.forkChoice = some (.custom true) → hd.number = c.bestNumber) then
      if p.importExisting = false ∧ (c.headers (P.hash p.header)).isSome then
        (.ok .alreadyInChain, c)
      else (.ok .imported, c.importOn P p s)
    else (.ok .knownBad, c)
  | none, _ => (.ok .unknownParent, c)
  | some _, none => (.ok .missingState, c)

/-- The host in memory. Its proposer puts the ready extrinsics into a block on the given header, and
proves the execution with one node: the storage root it started from. -/
def reference (P : Primitives S) : Host S where
  stateAt c h := match c.states h with
    | some s => .ok s
    | none => .error "UnknownBlock"
  hash c n := .ok (c.canonical n)
  header c h := .ok (c.headers h)
  blockNumberFromId c h := .ok ((c.headers h).map (·.number))
  body c h := .ok ((c.contents h).bind (·.body))
  blockIndexedBody c h := .ok ((c.contents h).bind (·.indexedBody))
  justifications c h := .ok ((c.contents h).bind (·.justifications))
  beginOperation _ := .ok ()
  beginStateOperation _ _ := .ok ()
  updateDbStorage _ := .ok ()
  updateStorage _ := .ok ()
  updateTransactionIndex _ := .ok ()
  setBlockData _ := .ok ()
  commitOperation c op := match op.block, op.dbStorage with
    | some b, some s =>
      if c.finalizedNumber ≠ 0 ∧ b.header.parentHash ≠ c.finalizedHash then
        .error "NonSequentialFinalization"
      else .ok (c.commitFinal P b s)
    | _, _ => .ok c
  revert c n := match c.revertMany n with
    | some c' => .ok c'
    | none => .error "UnknownBlock"
  importBlock := referenceImport P
  runtimeVersion _ := .ok .v1
  storageCommitTransaction _ := .ok ()
  drainStorageChanges _ := .ok ()
  submitOne _ _ := .ok 0
  createInherentDataProviders _ _ := .ok (.ok [])
  createDigest _ _ _ := .ok []
  initProposer _ := .ok ()
  propose c pool hd _ d := match c.states (P.hash hd) with
    | some s =>
      let header : Header :=
        { parentHash := P.hash hd, number := hd.number + 1, stateRoot := 0,
          extrinsicsRoot := pool.ready.length, digest := d }
      .ok ⟨⟨{ header with stateRoot := P.storageRoot .v1 (P.execute s ⟨header, pool.ready⟩) },
        pool.ready⟩, [Codec.number.write hd.stateRoot]⟩
    | none => .error "UnknownBlock"

end Host

/-! ## Reference primitives -/

/-- An injective code of a list of numbers. -/
def pairList : List ℕ → ℕ
  | [] => 0
  | x :: xs => Nat.pair x (pairList xs) + 1

theorem pairList_injective : Function.Injective pairList := by
  intro xs
  induction xs with
  | nil =>
    intro ys h
    cases ys with
    | nil => rfl
    | cons y ys => exact absurd h (by simp [pairList])
  | cons x xs ih =>
    intro ys h
    cases ys with
    | nil => exact absurd h (by simp [pairList])
    | cons y ys =>
      have hpair : Nat.pair x (pairList xs) = Nat.pair y (pairList ys) := by
        simpa [pairList] using h
      obtain ⟨rfl, hrest⟩ := Nat.pair_eq_pair.mp hpair
      rw [ih hrest]

/-- A hash of a header without collisions. -/
def pairHash (h : Header) : Hash :=
  pairList [h.number, h.parentHash, h.stateRoot, h.extrinsicsRoot,
    pairList (h.digest.map fun item ↦ pairList (item.map UInt8.toNat))]

theorem pairHash_injective : Function.Injective pairHash := by
  have hbytes : Function.Injective fun item : Bytes ↦ pairList (item.map UInt8.toNat) :=
    pairList_injective.comp (List.map_injective_iff.mpr fun _ _ h ↦ UInt8.toNat_inj.mp h)
  have hdigest : Function.Injective fun d : Digest ↦
      pairList (d.map fun item ↦ pairList (item.map UInt8.toNat)) :=
    pairList_injective.comp (List.map_injective_iff.mpr hbytes)
  intro h h' heq
  have hfields := pairList_injective heq
  simp only [List.cons.injEq, and_true] at hfields
  obtain ⟨hn, hp, hs, hx, hd⟩ := hfields
  obtain ⟨p, n, s, x, d⟩ := h
  obtain ⟨p', n', s', x', d'⟩ := h'
  simp only at hn hp hs hx
  obtain rfl : d = d' := hdigest hd
  rw [hn, hp, hs, hx]

def headerCodec : Codec Header :=
  (Codec.number.both (Codec.number.both (Codec.number.both (Codec.number.both
    (Codec.list (Codec.list Codec.byte)))))).through
    (fun h ↦ (h.parentHash, h.number, h.stateRoot, h.extrinsicsRoot, h.digest))
    (fun x ↦ ⟨x.1, x.2.1, x.2.2.1, x.2.2.2.1, x.2.2.2.2⟩) fun _ ↦ rfl

/-- Primitives with the collision-free hash, for a state that is rooted by `root`. The code is
always there, and a block does to the state what `execute` says. -/
def Primitives.reference {S : Type} (root : S → Hash) (execute : S → Block → S) : Primitives S where
  hash := pairHash
  encode := headerCodec.write
  decode bytes := match headerCodec.readAll bytes with
    | some h => .ok h
    | none => .error "Codec"
  storageRoot _ := root
  emptyTrieRoot _ := 0
  code _ := some []
  execute := execute

theorem Primitives.reference_decode {S : Type} (root : S → Hash) (execute : S → Block → S)
    (hd : Header) : (reference root execute).decode ((reference root execute).encode hd) =
      .ok hd := by
  simp only [reference, Codec.readAll_write]

/-- A chain that consists of one final block without a parent. -/
def Chain.genesis {S : Type} (P : Primitives S) (s : S) : Chain S :=
  let header : Header :=
    { parentHash := 0, number := 0, stateRoot := P.storageRoot .v1 s,
      extrinsicsRoot := P.emptyTrieRoot .v1, digest := [] }
  Chain.commitFinal P
    { headers := fun _ ↦ none, states := fun _ ↦ none, contents := fun _ ↦ none,
      canonical := fun _ ↦ none, bestHash := 0, bestNumber := 0, finalizedHash := 0,
      finalizedNumber := 0 }
    ⟨header, ⟨some [], none, none⟩⟩ s

/-- The chain with one more final block, empty but for the state change of `execute`. -/
def Chain.extend {S : Type} (P : Primitives S) (c : Chain S) : Chain S :=
  match c.headers c.bestHash, c.states c.bestHash with
  | some hd, some s =>
    let header : Header :=
      { parentHash := c.bestHash, number := hd.number + 1, stateRoot := 0, extrinsicsRoot := 0,
        digest := [] }
    let root := P.storageRoot .v1 (P.execute s ⟨header, []⟩)
    c.importOn P
      { origin := .networkInitialSync, header := { header with stateRoot := root },
        body := some [], finalized := true, forkChoice := some (.custom true) } s
  | _, _ => c

/-- A chain whose state counts its blocks. -/
def counter : Primitives ℕ := .reference id fun s _ ↦ s + 1

/-- The counting chain of a given height, all of it final. -/
def counterChain : ℕ → Chain ℕ
  | 0 => Chain.genesis counter 0
  | n + 1 => (counterChain n).extend counter

/-! ## The reference host is lawful -/

namespace Chain

variable {S : Type} {P : Primitives S}

theorem headers_of_lookup {c : Chain S} {h : Hash} {hd : Header} (hh : c.lookup h = some hd) :
    c.headers h = some hd := by
  rw [lookup] at hh
  split at hh
  · exact hh
  · cases hh

theorem bestOnStored_eq_some {c : Chain S} {hd : Header} : c.bestOnStored = some hd ↔
    c.headers c.bestHash = some hd ∧ hd.number = c.bestNumber ∧
      ∃ parent, c.headers hd.parentHash = some parent ∧ parent.number + 1 = c.bestNumber := by
  simp only [bestOnStored, Option.bind_eq_some_iff, Option.ite_none_right_eq_some,
    Option.some.injEq]
  constructor
  · rintro ⟨x, hx, parent, hparent, ⟨hn, hpn⟩, rfl⟩
    exact ⟨hx, hn, parent, hparent, hpn⟩
  · rintro ⟨hhd, hn, parent, hparent, hpn⟩
    exact ⟨hd, hhd, parent, hparent, ⟨hn, hpn⟩, rfl⟩

theorem reverted_stepBack {c : Chain S} {hd : Header} (h : c.bestOnStored = some hd) :
    Reverted c (c.stepBack hd) := by
  obtain ⟨hh, hn, parent, hparent, hpn⟩ := bestOnStored_eq_some.mp h
  exact
    { headers := fun _ _ hk ↦ hk
      states := fun _ _ hk ↦ hk
      contents := by
        intro k ct hk
        simp only [stepBack] at hk
        split at hk
        · cases hk
        · exact hk
      contents_best := if_pos (Or.inl rfl)
      below := by
        intro k x hk hx
        -- neither the best block nor one above it
        have hbest : k ≠ c.bestHash := by
          rintro rfl
          obtain rfl := Option.mem_unique hh hk
          omega
        have habove : c.isAbove k ≠ true := by
          simp only [isAbove, hk, ne_eq, decide_eq_true_eq]
          omega
        exact ⟨rfl, rfl, if_neg (not_or.mpr ⟨hbest, habove⟩)⟩
      canonical := fun _ _ ↦ rfl
      best := by
        intro x hx
        obtain rfl := Option.mem_unique hh hx
        rfl
      bestNumber := rfl
      best_stored := ⟨parent, hparent, Nat.eq_sub_of_add_eq hpn⟩
      finalized := rfl
      finalizedNumber := rfl }

theorem revertedBy_revertMany {n : ℕ} {c c' : Chain S} (h : revertMany n c = some c') :
    RevertedBy n c c' := by
  induction n generalizing c with
  | zero =>
    cases h
    exact RevertedBy.zero _
  | succ n ih =>
    rw [revertMany] at h
    by_cases h0 : c.bestNumber = 0
    · obtain rfl := Option.mem_unique (if_pos h0) h
      exact RevertedBy.genesis h0
    · rw [if_neg h0] at h
      cases hh : c.bestOnStored with
      | none =>
        rw [hh] at h
        cases h
      | some hd =>
        rw [hh] at h
        exact RevertedBy.step h0 (reverted_stepBack hh) (ih h)

theorem committed_commitFinal (c : Chain S) (b : PendingBlock) (s : S) :
    Committed P c b s (c.commitFinal P b s) where
  headers := rfl
  states := rfl
  contents := rfl
  canonical _ hn := Function.update_of_ne (Nat.ne_of_lt hn) _ _
  canonical_self := Function.update_self _ _ _
  best := rfl
  bestNumber := rfl
  finalized := rfl
  finalizedNumber := rfl

theorem imported_importOn {c : Chain S} {p : BlockImportParams} {hd : Header} {s : S}
    (hh : c.headers p.header.parentHash = some hd) (hn : p.header.number = hd.number + 1)
    (hs : c.states p.header.parentHash = some s) (hf : c.finalizedNumber < p.header.number)
    (hb : p.forkChoice = some (.custom true) → hd.number = c.bestNumber) :
    Imported P c p (c.importOn P p s) where
  parent := ⟨hd, hh, hn⟩
  headers := rfl
  states := ⟨s, hs, rfl⟩
  contents := ⟨_, rfl, rfl⟩
  canonical n hle := by
    by_cases hc : p.forkChoice = some (.custom true)
    · simp only [importOn, if_pos hc]
      exact Function.update_of_ne (by omega) _ _
    · simp only [importOn, if_neg hc]
  canonical_sound n k hle hk := by
    -- a new best block adds its own number to the canonical map, and no other
    by_cases hc : p.forkChoice = some (.custom true)
    · simp only [importOn, if_pos hc] at hk hle
      by_cases hnum : n = p.header.number
      · subst hnum
        rw [Function.update_self] at hk
        cases hk
        exact Or.inr ⟨p.header, Function.update_self _ _ _, rfl, rfl⟩
      · rw [Function.update_of_ne hnum] at hk
        have hbest := hb hc
        exact Or.inl ⟨by omega, hk⟩
    · simp only [importOn, if_neg hc] at hk hle
      exact Or.inl ⟨hle, hk⟩
  best hb := ⟨if_pos hb, if_pos hb⟩
  notBest hb := by simp [importOn, hb]
  finalized hfin := ⟨if_pos hfin, if_pos hfin⟩
  notFinalized hfin := by simp [importOn, hfin]

end Chain

namespace Host

variable {S : Type} {P : Primitives S}

theorem referenceImport_imported {c c' : Chain S} {p : BlockImportParams}
    (h : referenceImport P c p = (.ok .imported, c')) : Chain.Imported P c p c' := by
  rw [referenceImport] at h
  split at h
  · rename_i hd s hh hs
    split at h
    · rename_i hnum
      split at h
      · cases h
      · cases h
        exact Chain.imported_importOn (Chain.headers_of_lookup hh) hnum.1 hs hnum.2.1 hnum.2.2
    · cases h
  · cases h
  · cases h

theorem referenceImport_refused {c c' : Chain S} {p : BlockImportParams}
    {r : Except InnerError ImportResult} (h : referenceImport P c p = (r, c'))
    (hr : r ≠ .ok .imported) : c' = c := by
  rw [referenceImport] at h
  split at h
  · split at h
    · split at h
      · cases h
        rfl
      · cases h
        exact absurd rfl hr
    · cases h
      rfl
  · cases h
    rfl
  · cases h
    rfl

/-- **The laws are consistent.** -/
theorem reference_lawful (P : Primitives S) : (reference P).Lawful P where
  stateAt {c h s} hs := by
    simp only [reference] at hs
    cases hc : c.states h with
    | none =>
      rw [hc] at hs
      cases hs
    | some s' =>
      rw [hc] at hs
      cases hs
      rfl
  hash h := by cases h; rfl
  header h := by cases h; rfl
  blockNumberFromId h := by cases h; rfl
  body h := by cases h; rfl
  blockIndexedBody h := by cases h; rfl
  justifications h := by cases h; rfl
  commitOperation {c op b s c'} hb hs h := by
    simp only [reference, hb, hs] at h
    split at h
    · cases h
    · cases h
      exact Chain.committed_commitFinal _ _ _
  revert {c n c'} h := by
    simp only [reference] at h
    split at h
    · rename_i d hd
      cases h
      exact Chain.revertedBy_revertMany hd
    · cases h
  importBlock := referenceImport_imported
  importBlock_refused := referenceImport_refused
  propose {c pool hd i d p} h := by
    simp only [reference] at h
    split at h
    · cases h
      exact ⟨rfl, rfl⟩
    · cases h

/-- A client that imports every block it could import, also again, and refuses the others with an
error. -/
def eagerImport (P : Primitives S) (c : Chain S) (p : BlockImportParams) :
    Except InnerError ImportResult × Chain S :=
  match referenceImport P c { p with importExisting := true } with
  | (.ok .imported, c') => (.ok .imported, c')
  | _ => (.error "ClientImport", c)

/-- The host in memory, with that client. -/
def eager (P : Primitives S) : Host S := { reference P with importBlock := eagerImport P }

theorem eagerImport_cases (c : Chain S) (p : BlockImportParams) :
    (∃ c', eagerImport P c p = (.ok .imported, c') ∧
        referenceImport P c { p with importExisting := true } = (.ok .imported, c')) ∨
      ∃ e, eagerImport P c p = (.error e, c) := by
  rw [eagerImport]
  rcases h : referenceImport P c { p with importExisting := true } with ⟨e | _ | _ | _ | _ | _, c'⟩
  · exact Or.inr ⟨_, rfl⟩
  · exact Or.inl ⟨c', rfl, rfl⟩
  · exact Or.inr ⟨_, rfl⟩
  · exact Or.inr ⟨_, rfl⟩
  · exact Or.inr ⟨_, rfl⟩
  · exact Or.inr ⟨_, rfl⟩

theorem eager_lawful (P : Primitives S) : (eager P).Lawful P :=
  { reference_lawful P with
    importBlock := by
      intro c p c' h
      rcases eagerImport_cases (P := P) c p with ⟨d, hd, himport⟩ | ⟨e, he⟩
      · obtain ⟨-, rfl⟩ := Prod.mk.inj (hd.symm.trans h)
        obtain ⟨h₁, h₂, h₃, h₄, h₅, h₆, h₇, h₈, h₉, h₁₀⟩ := referenceImport_imported himport
        exact ⟨h₁, h₂, h₃, h₄, h₅, h₆, h₇, h₈, h₉, h₁₀⟩
      · obtain ⟨hno, -⟩ := Prod.mk.inj (he.symm.trans h)
        cases hno
    importBlock_refused := by
      intro c p r c' h hr
      rcases eagerImport_cases (P := P) c p with ⟨d, hd, -⟩ | ⟨e, he⟩
      · exact absurd (Prod.mk.inj (hd.symm.trans h)).1.symm hr
      · exact (Prod.mk.inj (he.symm.trans h)).2.symm }

theorem eager_reportsImported (P : Primitives S) : (eager P).ReportsImported := by
  intro c p r c' _ h
  rcases eagerImport_cases (P := P) c p with ⟨d, hd, -⟩ | ⟨e, he⟩
  · exact (Except.ok.inj (Prod.mk.inj (hd.symm.trans h)).1).symm
  · exact absurd (Prod.mk.inj (he.symm.trans h)).1 (by simp)

end Host

end Fudge
