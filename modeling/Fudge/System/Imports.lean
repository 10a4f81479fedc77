import Fudge.Relay.Heads
import Fudge.System.Builders

/-!
# A successful relay chain import

What an import did that returned `Ok`, on a settled relay chain whose client imports what is built
on its best block. The block itself adds one to the chain and leaves `Heads` alone. An import that
starts with an empty table only collects; an import that starts with one entry enacts it, which sets
one head and moves one block to the next-import slot, and then collects.

What is collected is said for any registrations (`Gathered`): the ids in the table are distinct,
every entry is a collation of a block some builder has to offer, and every builder with a block is
covered. With at most one block on offer this pins the table down.
-/

namespace Fudge

namespace World

open Call
open RelaychainBuilder (IsFirst nextParams)
open ParachainBuilder (Collates CollatorError)

/-! ## The block -/

section Block

variable {κ W : Type} {P : RelayPrimitives} {H : RelayHost}

theorem head_of_bestState {w : World κ W} {s : RelayStorage}
    (hs : w.relay.builder.chain.states w.relay.builder.chain.bestHash = some s) (id : Id) :
    w.head id = s.heads id := by
  rw [head, hs]
  rfl

/-- The world `w'` is `w` with one more relay chain block, and nothing pending. -/
structure Extended (P : RelayPrimitives) (next : Block × StorageProof) (w w' : World κ W) :
    Prop where
  taken : w'.relay.next = none
  imports : w'.relay.imports = w.relay.imports ++ [next]
  parachains : w'.relay.parachains = w.relay.parachains
  settled : w'.relay.builder.chain.Settled P.toPrimitives
  number : w'.relay.builder.chain.bestNumber = w.relay.builder.chain.bestNumber + 1

theorem importedNext_extended (hinj : Function.Injective P.hash) (hP : P.KeepsHeads)
    (hL : H.toHost.Lawful P.toPrimitives) (hreport : H.toHost.ReportsImported) {w : World κ W}
    (hset : w.relay.builder.chain.Settled P.toPrimitives) {next : Block × StorageProof}
    (htip : next.1.header.parentHash = w.relay.builder.chain.bestHash) {b : Builder RelayStorage}
    {result : ImportResult} (hi : H.importBlock w.relay.builder.chain (nextParams next.1) =
      (.ok result, b.chain)) :
    Extended P next w (w.importedNext next b) ∧
      ∀ id, (w.importedNext next b).head id = w.head id := by
  obtain rfl := hreport htip hi
  obtain ⟨hset', hnumber, -, s, hs, hs'⟩ := hset.importBlock_best hinj hL htip rfl rfl hi
  refine ⟨⟨rfl, rfl, rfl, hset', hnumber⟩, fun id ↦ ?_⟩
  rw [head_of_bestState hs, head_of_bestState (w := w.importedNext next b) hs', hP]

end Block

/-! ## The table -/

section Table

variable {κ : Type} {T : κ → Type} {R : RelayPrimitives}
  {P : ∀ k, Primitives (T k)} {H : RelayHost} {hosts : ∀ k, ParaHost (T k)}

/-- The table once the registrations `done` were polled, the builders being `v`. -/
structure Gathered (P : ∀ k, Primitives (T k)) (done : List ((Id × κ) × ℕ)) (v : Builders T)
    (w : World κ (Builders T)) : Prop where
  nodup : (w.relay.collations.map (·.id)).Nodup
  made : ∀ e ∈ w.relay.collations, ∃ q ∈ done, e.id = q.1.1 ∧
    ∃ build, (v q.1.2).blockStorage.nextBlock = some build ∧ Collates (P q.1.2) build e.collation
  covered : Covered done v w

namespace Gathered

variable {done : List ((Id × κ) × ℕ)} {v : Builders T} {w w' : World κ (Builders T)}

theorem made_concat (h : Gathered P done v w) (q : (Id × κ) × ℕ) {e : CollationEntry}
    (he : e ∈ w.relay.collations) : ∃ q' ∈ done ++ [q], e.id = q'.1.1 ∧
      ∃ build, (v q'.1.2).blockStorage.nextBlock = some build ∧
        Collates (P q'.1.2) build e.collation := by
  obtain ⟨q', hq', hmade⟩ := h.made e he
  exact ⟨q', List.mem_append_left _ hq', hmade⟩

theorem skip (h : Gathered P done v w) (hc : w'.relay.collations = w.relay.collations)
    {q : (Id × κ) × ℕ} (hq : (v q.1.2).blockStorage.nextBlock.isSome = true →
      ∃ e ∈ w.relay.collations, e.id = q.1.1) : Gathered P (done ++ [q]) v w' := by
  refine ⟨by rw [hc]; exact h.nodup, fun e he ↦ ?_, h.covered.concat (fun e he ↦ ?_) ?_⟩
  · rw [hc] at he
    exact h.made_concat q he
  · rwa [hc]
  · rwa [hc]

theorem push (h : Gathered P done v w) {q : (Id × κ) × ℕ} {e : CollationEntry}
    {build : Block × StorageProof} (hc : w'.relay.collations = w.relay.collations ++ [e])
    (hid : e.id = q.1.1) (hnew : ∀ e' ∈ w.relay.collations, e'.id ≠ q.1.1)
    (hslot : (v q.1.2).blockStorage.nextBlock = some build)
    (hcollates : Collates (P q.1.2) build e.collation) : Gathered P (done ++ [q]) v w' := by
  constructor
  · rw [hc, List.map_append, List.nodup_append]
    refine ⟨h.nodup, by simp, ?_⟩
    intro a ha b hb hab
    obtain ⟨e', he', rfl⟩ := List.mem_map.mp ha
    obtain rfl : b = e.id := by simpa using hb
    exact hnew e' he' (hab.trans hid)
  · intro e' he'
    rw [hc] at he'
    rcases List.mem_append.mp he' with he' | he'
    · exact h.made_concat q he'
    · obtain rfl := List.mem_singleton.mp he'
      exact ⟨q, by simp, hid, build, hslot, hcollates⟩
  · refine h.covered.concat (fun e' he' ↦ ?_) fun _ ↦ ⟨e, ?_, hid⟩
    · rw [hc]
      exact List.mem_append_left _ he'
    · rw [hc]
      simp

theorem eq_nil (h : Gathered P done v w) (hv : ∀ k, (v k).blockStorage.nextBlock = none) :
    w.relay.collations = [] := by
  rw [List.eq_nil_iff_forall_not_mem]
  intro e he
  obtain ⟨q, -, -, build, hslot, -⟩ := h.made e he
  rw [hv] at hslot
  cases hslot

/-- One builder has a block to offer, under one id: the table is its collation. -/
theorem eq_singleton (h : Gathered P done v w) {k : κ} {id : Id} {build : Block × StorageProof}
    (hslot : (v k).blockStorage.nextBlock = some build)
    (hothers : ∀ l, l ≠ k → (v l).blockStorage.nextBlock = none)
    (hids : ∀ q ∈ done, q.1.2 = k → q.1.1 = id) (hreg : ∃ q ∈ done, q.1.2 = k) :
    ∃ e, w.relay.collations = [e] ∧ e.id = id ∧ Collates (P k) build e.collation := by
  have hall : ∀ e ∈ w.relay.collations, e.id = id ∧ Collates (P k) build e.collation := by
    intro e he
    obtain ⟨q, hq, hid, build', hslot', hcollates⟩ := h.made e he
    have hk : q.1.2 = k := by
      by_contra hne
      rw [hothers _ hne] at hslot'
      cases hslot'
    obtain ⟨⟨qid, l⟩, reg⟩ := q
    obtain rfl : l = k := hk
    obtain rfl : build = build' := Option.some.inj (hslot.symm.trans hslot')
    exact ⟨hid.trans (hids _ hq rfl), hcollates⟩
  obtain ⟨q, hq, hk⟩ := hreg
  obtain ⟨e, he, -⟩ := h.covered q hq (by rw [hk, hslot]; rfl)
  -- all entries have the same id, so there is only one
  have hnodup := h.nodup
  match htable : w.relay.collations with
  | [] => exact absurd he (by simp [htable])
  | [e₁] =>
    obtain ⟨hid, hcollates⟩ := hall e₁ (by simp [htable])
    exact ⟨e₁, rfl, hid, hcollates⟩
  | e₁ :: e₂ :: es =>
    have h₁ := (hall e₁ (by simp [htable])).1
    have h₂ := (hall e₂ (by simp [htable])).1
    simp [htable, h₁, h₂] at hnodup

end Gathered

variable [DecidableEq κ]

theorem collectFrom_gathered (hhosts : ∀ k, (hosts k).Lawful (P k)) {v : Builders T} {parent : Hash}
    {hd : Header} (done : List ((Id × κ) × ℕ)) (q : (Id × κ) × ℕ) :
    Triple (fun w ↦ w.collators = v ∧ Gathered P done v w)
      (collectFrom R H (fudgeCollators P hosts) parent hd q)
      (fun _ w ↦ w.collators = v ∧ Gathered P (done ++ [q]) v w) (fun _ ↦ True) := by
  obtain ⟨⟨id, k⟩, reg⟩ := q
  rintro w ⟨rfl, hgathered⟩
  rcases collectFrom_fudge_cases (R := R) (P := P) (H := H) hosts parent hd id k reg w with
    ⟨-, hno⟩ | ⟨hslot, h⟩ | ⟨build, c, hslot, hcollates, h⟩
  · exact Triple.of_stopped (E := fun _ ↦ True) hno trivial
  · refine Triple.of_returned (E := fun _ ↦ True) h ⟨rfl, hgathered.skip ?_ fun hsome ↦ ?_⟩
    · rfl
    · rw [hslot] at hsome
      cases hsome
  · refine Triple.of_returned (E := fun _ ↦ True) h
      ⟨(collectFrom_keeps_collators parent hd _).eq_of_ok h, ?_⟩
    rcases collect_cases hd reg id c (w.note (.polled reg id (some c) w.collators)) with
      ⟨hold, hcollect⟩ | ⟨hnew, hcollect⟩
    · rw [hcollect]
      refine hgathered.skip ?_ fun _ ↦ hold
      rfl
    · rw [hcollect]
      exact hgathered.push (e := ⟨id, c, hd, reg, w.tickets⟩) rfl rfl hnew hslot
        (hcollates (hhosts k))

/-- **The second loop**, started with an empty table: it changes the table only, and that is what
the builders have to offer. -/
theorem collectLoop_eq_ok (hhosts : ∀ k, (hosts k).Lawful (P k)) {hd : Header}
    {w w' : World κ (Builders T)} (hc : w.relay.collations = [])
    (h : collectLoop R H (fudgeCollators P hosts) hd w = (.ok (), w')) :
    w'.relay = { w.relay with collations := w'.relay.collations } ∧ w'.collators = w.collators ∧
      Gathered P w.relay.parachains.zipIdx w.collators w' := by
  have hrelay : Keeps (fun w : World κ (Builders T) ↦ { w.relay with collations := [] })
      (forEach (collectFrom R H (fudgeCollators P hosts) w.relay.builder.chain.bestHash hd)
        w.relay.parachains.zipIdx) :=
    Keeps.forEach (fun q ↦ collectFrom_keeps (fun _ _ ↦ rfl) (fun _ _ _ _ _ ↦ rfl)
      (fun _ _ ↦ rfl) _ _ q) _
  have hloop := Triple.forEach (I := fun done _ u ↦ u.collators = w.collators ∧
      Gathered P done w.collators u) (E := fun _ ↦ True)
    (f := collectFrom R H (fudgeCollators P hosts) w.relay.builder.chain.bestHash hd)
    (fun done q _ ↦ collectFrom_gathered hhosts done q) w.relay.parachains.zipIdx []
  have hstart : w.collators = w.collators ∧ Gathered P [] w.collators w := by
    refine ⟨rfl, by simp [hc], fun e he ↦ ?_, fun q hq ↦ absurd hq List.not_mem_nil⟩
    rw [hc] at he
    exact absurd he List.not_mem_nil
  obtain ⟨hcollators, hgathered⟩ := hloop.ok hstart h
  refine ⟨?_, hcollators, by simpa using hgathered⟩
  have heq := hrelay.eq_of_ok h
  simp only [RelaychainBuilder.mk.injEq] at heq
  obtain ⟨hb, hn, hi, hp, -⟩ := heq
  rcases hr : w'.relay with ⟨b, next, imports, parachains, collations⟩
  rw [hr] at hb hn hi hp
  simp_all

/-! ## The import -/

/-- **The first loop**, on a table with one entry: it is enacted, and the block of the first builder
registered under its id is moved. -/
theorem enactLoop_singleton {w u : World κ (Builders T)} {e : CollationEntry}
    (hc : w.relay.collations = [e])
    (h : enactLoop R H (fudgeCollators P hosts) w = (.ok (), u)) :
    ∃ b reg k build, EnactedBy CollatorError R H w.relay.builder.chain.bestHash
        w.relay.builder.chain.bestNumber e w.relay.builder b ∧
      IsFirst w.relay.parachains e.id reg k ∧
      (w.collators k).blockStorage.nextBlock = some build ∧
      u.relay = { w.relay with builder := b } ∧
      u.collators =
        Function.update w.collators k (ParachainBuilder.approvedBuilder build (w.collators k)) := by
  rw [enactLoop, hc, forEach_cons] at h
  obtain ⟨_, t, ht, hend⟩ := bind_eq_ok.mp h
  obtain rfl : t = u := (Prod.mk.inj hend).2
  obtain ⟨b, ⟨hno, -⟩ | ⟨hby, reg, k, build, hfirst, hslot, hok⟩⟩ :=
    enactAndJudge_fudge_cases (R := R) (P := P) (H := H) hosts w.relay.builder.chain.bestHash
      w.relay.builder.chain.bestNumber e w
  · rw [ht] at hno
    cases hno
  · obtain rfl : t = (w.enactedWorld b e).approvedWorld reg k e build :=
      (Prod.mk.inj (ht.symm.trans hok)).2
    exact ⟨b, reg, k, build, hby, hfirst, hslot, rfl, rfl⟩

/-- A committed enactment keeps a relay chain settled, at the same height, and sets one head. -/
theorem EnactedBy.settled (hinj : Function.Injective R.hash)
    (hempty : ∀ v v', R.emptyTrieRoot v = R.emptyTrieRoot v')
    (hL : H.toHost.Lawful R.toPrimitives) {parent : Hash} {m : ℕ} {e : CollationEntry}
    {b₀ b : Builder RelayStorage} (hset : b₀.chain.Settled R.toPrimitives)
    (h : EnactedBy CollatorError R H parent m e b₀ b) :
    b.chain.Settled R.toPrimitives ∧ b.chain.bestNumber = b₀.chain.bestNumber := by
  obtain ⟨pvd, result, hc⟩ := h
  obtain ⟨s, -, hm, hset'⟩ := Builder.commit_mutated hinj hempty hL hset hc
  exact ⟨hset', hm.bestNumber⟩

/-- **An import with an empty table** adds its block and collects. -/
theorem importBlock_collecting (hinj : Function.Injective R.hash) (hkeeps : R.KeepsHeads)
    (hL : H.toHost.Lawful R.toPrimitives) (hreport : H.toHost.ReportsImported)
    (hhosts : ∀ k, (hosts k).Lawful (P k)) {w w' : World κ (Builders T)}
    (hset : w.relay.builder.chain.Settled R.toPrimitives) {next : Block × StorageProof}
    (hnext : w.relay.next = some next)
    (htip : next.1.header.parentHash = w.relay.builder.chain.bestHash)
    (hc : w.relay.collations = [])
    (h : importBlock R H (fudgeCollators P hosts) w = (.ok (), w')) :
    Extended R next w w' ∧ (∀ id, w'.head id = w.head id) ∧ w'.collators = w.collators ∧
      Gathered P w.relay.parachains.zipIdx w.collators w' := by
  obtain ⟨next', b, result, u, hnext', himport, henact, hcollect⟩ := importBlock_eq_ok h
  obtain rfl : next = next' := Option.some.inj (hnext.symm.trans hnext')
  obtain ⟨hext, hhead⟩ := importedNext_extended hinj hkeeps hL hreport hset htip himport
  -- the first loop has nothing to do
  rw [enactLoop, show (w.importedNext next b).relay.collations = [] from hc] at henact
  obtain rfl := (Prod.mk.inj henact).2
  obtain ⟨hrelay, hcollators, hgathered⟩ := collectLoop_eq_ok hhosts rfl hcollect
  refine ⟨?_, fun id ↦ ?_, hcollators, hgathered⟩
  · rw [cleared] at hrelay
    constructor
    all_goals rw [hrelay]
    exacts [hext.taken, hext.imports, hext.parachains, hext.settled, hext.number]
  · rw [← hhead id, head, hrelay]
    rfl

/-- **An import with one entry in the table** adds its block, enacts the entry, and collects. -/
theorem importBlock_enacting (hinj : Function.Injective R.hash)
    (hempty : ∀ v v', R.emptyTrieRoot v = R.emptyTrieRoot v') (henacts : R.EnactsHeads)
    (hkeeps : R.KeepsHeads) (hL : H.toHost.Lawful R.toPrimitives)
    (hreport : H.toHost.ReportsImported) (hhosts : ∀ k, (hosts k).Lawful (P k))
    {w w' : World κ (Builders T)} (hset : w.relay.builder.chain.Settled R.toPrimitives)
    {next : Block × StorageProof} (hnext : w.relay.next = some next)
    (htip : next.1.header.parentHash = w.relay.builder.chain.bestHash) {e : CollationEntry}
    (hc : w.relay.collations = [e])
    (h : importBlock R H (fudgeCollators P hosts) w = (.ok (), w')) :
    Extended R next w w' ∧
      (w'.head e.id = some e.collation.headData ∧ ∀ id, id ≠ e.id → w'.head id = w.head id) ∧
      (∃ reg k build, IsFirst w.relay.parachains e.id reg k ∧
        (w.collators k).blockStorage.nextBlock = some build ∧ w'.collators =
          Function.update w.collators k (ParachainBuilder.approvedBuilder build (w.collators k))) ∧
      Gathered P w.relay.parachains.zipIdx w'.collators w' := by
  obtain ⟨next', b, result, u, hnext', himport, henact, hcollect⟩ := importBlock_eq_ok h
  obtain rfl : next = next' := Option.some.inj (hnext.symm.trans hnext')
  obtain ⟨hext, hhead⟩ := importedNext_extended hinj hkeeps hL hreport hset htip himport
  obtain ⟨b', reg, k, build, hby, hfirst, hslot, hurelay, hucollators⟩ :=
    enactLoop_singleton (w := w.importedNext next b) hc henact
  obtain ⟨hset', hnumber⟩ := EnactedBy.settled hinj hempty hL hext.settled hby
  obtain ⟨s, s', hs, hs', hheads⟩ := hby.heads henacts hL
  obtain ⟨hrelay, hcollators, hgathered⟩ := collectLoop_eq_ok hhosts rfl hcollect
  have hbest : w'.relay.builder = b' := by rw [hrelay, cleared, hurelay]
  have hhead' : ∀ id, w'.head id = s'.heads id :=
    head_of_bestState (by rw [hbest]; exact hs')
  -- collecting changes the table only, so the chain is the one that the enactment left
  refine ⟨?_, ⟨?_, fun id hid ↦ ?_⟩, ?_, ?_⟩
  · rw [cleared, hurelay] at hrelay
    constructor
    all_goals rw [hrelay]
    exacts [hext.taken, hext.imports, hext.parachains, hset', hnumber.trans hext.number]
  · rw [hhead', hheads, Function.update_self]
  · rw [hhead', hheads, Function.update_of_ne hid, ← hhead id]
    exact (head_of_bestState (w := w.importedNext next b) hs id).symm
  · exact ⟨reg, k, build, hfirst, hslot, hcollators.trans hucollators⟩
  · rw [hcollators]
    have hregs : u.cleared.relay.parachains = w.relay.parachains := by
      rw [cleared, hurelay]
      rfl
    rw [hregs] at hgathered
    exact hgathered

end Table

end World

end Fudge
