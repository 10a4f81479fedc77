import Fudge.Companion.Builder
import Fudge.System.Imports

/-!
# One round of `evolve`

`evolve` makes the same calls for each field. Followed from a quiet companion, they carry one block
through all three slots: `build_block` puts it into the parachain's next-block slot, the first relay
chain import collects it, the second one enacts it and moves it to the next-import slot, and
`import_block` takes it from there. There is one lemma for each call, and a round is their sequence.

## Two ids

Before the round the relay chain is told the head of the parachain under the id of the *builder*;
at its end the new head is enacted under the id the field was onboarded under. So a round may
change two entries of `Heads`, and sets only one of them right.

## Where `Ok` is used

That the field is the first one onboarded under its id is not assumed. If it were not, the verdict
would go to another builder, whose slot is empty, and the round would fail.
-/

namespace Fudge

open Call

theorem ParachainBuilder.head_eq_ok {T : Type} {P : Primitives T} {H : ParaHost T}
    (hL : H.Lawful P) {p p' : ParachainBuilder T} {answer : HeadData}
    (h : ParachainBuilder.head P H p = (.ok answer, p')) : p.bestHead P = some answer := by
  obtain ⟨hd, t, hhd, hpure⟩ := bind_eq_ok.mp h
  obtain ⟨b, hb, -⟩ := zoom_eq_ok.mp (mapErr_eq_ok.mp hhd)
  have hbest := hL.host.header (Builder.latestHeader_eq_ok.mp hb).1
  obtain ⟨rfl, -⟩ : P.encode hd = answer ∧ t = p' := by simpa using hpure
  rw [bestHead, ← hbest]
  rfl

namespace Companion

open World (Extended Gathered)
open RelaychainBuilder (Error IsFirst firstFor)
open ParachainBuilder (CollatorError Collates)

variable {κ : Type} {T : κ → Type} {α : Type}

/-! ## What is assumed -/

/-- The chains have collision-free hashes, empty tries have one root, and the relay chain's runtime
enacts candidates and leaves `Heads` alone in a block without any. -/
structure Laws (Rl : RelayPrimitives) (P : ∀ k, Primitives (T k)) : Prop where
  enactsHeads : Rl.EnactsHeads
  keepsHeads : Rl.KeepsHeads
  relayHash : Function.Injective Rl.hash
  relayTrie : ∀ v v', Rl.emptyTrieRoot v = Rl.emptyTrieRoot v'
  paraHash : ∀ k, Function.Injective (P k).hash
  paraTrie : ∀ k v v', (P k).emptyTrieRoot v = (P k).emptyTrieRoot v'

structure Hosts.Lawful (Rl : RelayPrimitives) (P : ∀ k, Primitives (T k)) (hosts : Hosts T) :
    Prop where
  relay : hosts.relay.toHost.Lawful Rl.toPrimitives
  paras : ∀ k, (hosts.paras k).Lawful (P k)

/-- The hosts of a call answer lawfully, and import what is built on the best block. -/
structure Hosts.Reporting (Rl : RelayPrimitives) (P : ∀ k, Primitives (T k)) (hosts : Hosts T) :
    Prop extends hosts.Lawful Rl P where
  relayReports : hosts.relay.toHost.ReportsImported
  parasReport : ∀ k, (hosts.paras k).toHost.ReportsImported

structure RoundHosts.All (p : Hosts T → Prop) (hosts : RoundHosts T) : Prop where
  head : p hosts.head
  updateParaHead : p hosts.updateParaHead
  buildRelay : p hosts.buildRelay
  buildPara : p hosts.buildPara
  importCollecting : p hosts.importCollecting
  buildEnacting : p hosts.buildEnacting
  importEnacting : p hosts.importEnacting
  importPara : p hosts.importPara

variable (Rl : RelayPrimitives) (P : ∀ k, Primitives (T k)) (d : CompanionDef κ)

/-- What `new` registers with the relay chain builder. -/
def registrations : List (Id × κ) := d.fields.map fun k ↦ (d.ids k, k)

/-- Nothing is pending anywhere, and all chains are settled. -/
structure Quiet (regs : List (Id × κ)) (w : Companion T) : Prop where
  registered : w.relay.parachains = regs
  relay : w.relay.builder.chain.Settled Rl.toPrimitives
  paras : ∀ k, (w.collators k).builder.chain.Settled (P k)
  next : w.relay.next = none
  collations : w.relay.collations = []
  slots : ∀ k, (w.collators k).blockStorage = {}

/-- The block `build` of the parachain `k` is in its next-block slot, on the tip, and no other block
is in any slot. -/
structure Built (k : κ) (build : Block × StorageProof) (w : Companion T) : Prop where
  field : k ∈ d.fields
  registered : w.relay.parachains = registrations d
  relay : w.relay.builder.chain.Settled Rl.toPrimitives
  para : (w.collators k).builder.chain.Settled (P k)
  tip : build.1.header.parentHash = (w.collators k).builder.chain.bestHash
  slot : (w.collators k).blockStorage = ⟨some build, none⟩
  others : ∀ j, j ≠ k → (w.collators j).blockStorage = {}

/-- The companion `w'` is quiet, and compared with `w` the parachain `k` is one block further and
the relay chain two; the relay chain knows the new head of the parachain. -/
structure Rounded (k : κ) (w w' : Companion T) : Prop where
  quiet : Quiet Rl P (registrations d) w'
  others : ∀ j, j ≠ k → w'.collators j = w.collators j
  id : (w'.collators k).id = (w.collators k).id
  number : (w'.collators k).builder.chain.bestNumber = (w.collators k).builder.chain.bestNumber + 1
  imports : ∃ block, (w'.collators k).imports = (w.collators k).imports ++ [block]
  relayNumber : w'.relay.builder.chain.bestNumber = w.relay.builder.chain.bestNumber + 2
  relayImports : ∃ a b, w'.relay.imports = w.relay.imports ++ [a, b]
  head : ∃ head, w'.head (d.ids k) = some head ∧ (w'.collators k).bestHead (P k) = some head
  heads : ∀ id, id ≠ d.ids k → id ≠ (w.collators k).id → w'.head id = w.head id
  first : firstFor (registrations d) (d.ids k) = some k

variable {Rl P d}

theorem mem_registrations {q : Id × κ} (h : q ∈ registrations d) : q.1 = d.ids q.2 := by
  obtain ⟨k, -, rfl⟩ := List.mem_map.mp h
  rfl

theorem Quiet.withBuilder {regs : List (Id × κ)} {w : Companion T} (h : Quiet Rl P regs w)
    {b : Builder RelayStorage} (hset : b.chain.Settled Rl.toPrimitives) :
    Quiet Rl P regs (w.withBuilder b) :=
  ⟨h.registered, hset, h.paras, h.next, h.collations, h.slots⟩

namespace Built

variable {k : κ} {build : Block × StorageProof} {w w' : Companion T}

theorem congr (h : Built Rl P d k build w) (hp : w'.relay.parachains = w.relay.parachains)
    (hset : w'.relay.builder.chain.Settled Rl.toPrimitives) (hv : w'.collators = w.collators) :
    Built Rl P d k build w' := by
  refine ⟨h.field, hp.trans h.registered, hset, ?_, ?_, ?_, ?_⟩
  all_goals rw [hv]
  exacts [h.para, h.tip, h.slot, h.others]

theorem nextBlock (h : Built Rl P d k build w) :
    (w.collators k).blockStorage.nextBlock = some build := by
  rw [h.slot]

theorem nextBlock_of_ne (h : Built Rl P d k build w) {j : κ} (hj : j ≠ k) :
    (w.collators j).blockStorage.nextBlock = none := by
  rw [h.others j hj]

end Built

/-- A round may be counted from before the calls that neither import nor enact anything. -/
theorem Rounded.congr {k : κ} {u w w' : Companion T} (h : Rounded Rl P d k u w')
    (hothers : ∀ j, j ≠ k → u.collators j = w.collators j)
    (hid : (u.collators k).id = (w.collators k).id)
    (hnumber : (u.collators k).builder.chain.bestNumber = (w.collators k).builder.chain.bestNumber)
    (himports : (u.collators k).imports = (w.collators k).imports)
    (hrelayNumber : u.relay.builder.chain.bestNumber = w.relay.builder.chain.bestNumber)
    (hrelayImports : u.relay.imports = w.relay.imports)
    (hheads : ∀ id, id ≠ (w.collators k).id → u.head id = w.head id) :
    Rounded Rl P d k w w' where
  quiet := h.quiet
  others j hj := (h.others j hj).trans (hothers j hj)
  id := h.id.trans hid
  number := by rw [h.number, hnumber]
  imports := by
    rw [← himports]
    exact h.imports
  relayNumber := by rw [h.relayNumber, hrelayNumber]
  relayImports := by
    rw [← hrelayImports]
    exact h.relayImports
  head := h.head
  heads id hne hne' := (h.heads id hne (by rwa [hid])).trans (hheads id hne')
  first := h.first

/-! ## The counting world -/

theorem laws_reference : Laws RelayPrimitives.reference fun _ : κ ↦ counter where
  enactsHeads := RelayPrimitives.reference_enactsHeads
  keepsHeads := RelayPrimitives.reference_keepsHeads
  relayHash := pairHash_injective
  relayTrie _ _ := rfl
  paraHash _ := pairHash_injective
  paraTrie _ _ _ := rfl

theorem Hosts.reference_reporting :
    (Hosts.reference κ).Reporting RelayPrimitives.reference fun _ ↦ counter where
  relay := Host.eager_lawful _
  relayReports := Host.eager_reportsImported _
  paras _ := { ParaHost.reference_lawful counter with host := Host.eager_lawful counter }
  parasReport _ := Host.eager_reportsImported _

theorem RoundHosts.reference_all {p : (Hosts fun _ : κ ↦ ℕ) → Prop} (h : p (Hosts.reference κ)) :
    (RoundHosts.reference κ).All p :=
  ⟨h, h, h, h, h, h, h, h⟩

theorem fields_quiet (builderIds : κ → Id) :
    Quiet .reference (fun _ ↦ counter) [] (fields builderIds) where
  registered := rfl
  relay := (Builder.isGenesis_genesis _ _).settled
  paras _ := (Builder.isGenesis_genesis counter 0).settled
  next := rfl
  collations := rfl
  slots _ := rfl

/-! ## Calls that returned -/

theorem onRelay_eq_ok {c : Call (RelaychainBuilder κ) (Error CollatorError) α}
    {w w' : Companion T} {a : α} :
    onRelay c w = (.ok a, w') ↔ ∃ r, c w.relay = (.ok a, r) ∧ w' = { w with relay := r } :=
  mapErr_eq_ok.trans zoom_eq_ok

theorem onRelay_withMutState_eq_ok (laws : Laws Rl P) {H : RelayHost}
    (hL : H.toHost.Lawful Rl.toPrimitives) {exec : RelayStorage → α × RelayStorage}
    {w w' : Companion T} {a : α} (hset : w.relay.builder.chain.Settled Rl.toPrimitives)
    (h : onRelay (RelaychainBuilder.withMutState Rl H exec) w = (.ok a, w')) :
    ∃ b s, w' = w.withBuilder b ∧ b.chain.Settled Rl.toPrimitives ∧
      b.chain.bestNumber = w.relay.builder.chain.bestNumber ∧ (∀ id, w.head id = s.heads id) ∧
      ∀ id, w'.head id = (exec s).2.heads id := by
  obtain ⟨r, hr, rfl⟩ := onRelay_eq_ok.mp h
  obtain ⟨-, b, hb, rfl⟩ := RelaychainBuilder.withMutState_eq_ok hr
  obtain ⟨s, -, hm, hset'⟩ := Builder.commit_mutated laws.relayHash laws.relayTrie hL hset hb
  exact ⟨b, s, rfl, hset', hm.bestNumber, World.head_of_bestState hm.state,
    World.head_of_bestState (w := w.withBuilder b) hm.state'⟩

theorem buildRelay_eq_ok {hosts : Hosts T} (hL : hosts.relay.toHost.Lawful Rl.toPrimitives)
    {w w' : Companion T} (hset : w.relay.builder.chain.Settled Rl.toPrimitives)
    (h : buildRelay Rl hosts w = (.ok (), w')) :
    ∃ next, w' = { w with relay := { w.relay with next := some next } } ∧
      next.1.header.parentHash = w.relay.builder.chain.bestHash := by
  obtain ⟨block, u, hu, hpure⟩ := bind_eq_ok.mp h
  obtain rfl : u = w' := (Prod.mk.inj hpure).2
  obtain ⟨r, hr, rfl⟩ := onRelay_eq_ok.mp hu
  obtain ⟨-, hd, inherents, digest, proposal, hhd, hpropose, rfl⟩ :=
    RelaychainBuilder.buildBlock_eq_ok hr
  exact ⟨_, rfl, (hset.propose_on_tip hL hhd hpropose).1⟩

variable [DecidableEq κ]

theorem onPara_eq_ok {k : κ} {c : Call (ParachainBuilder (T k)) ParachainBuilder.Error α}
    {w w' : Companion T} {a : α} (h : onPara k c w = (.ok a, w')) :
    ∃ p, c (w.collators k) = (.ok a, p) ∧ w' = w.withPara k p := by
  obtain ⟨v, hv, rfl⟩ := zoom_eq_ok.mp (mapErr_eq_ok.mp h)
  obtain ⟨p, hp, rfl⟩ := zoom_eq_ok.mp hv
  exact ⟨p, hp, rfl⟩

theorem onPara_of_read {k : κ} {c : Call (ParachainBuilder (T k)) ParachainBuilder.Error α}
    (hc : Keeps (fun p ↦ p) c) {w w' : Companion T} {a : α} (h : onPara k c w = (.ok a, w')) :
    w' = w := by
  obtain ⟨p, hp, rfl⟩ := onPara_eq_ok h
  obtain rfl : p = w.collators k := hc.eq_of_ok hp
  exact w.withPara_self k

/-! ## The calls of a round -/

theorem prepareField_eq_ok (laws : Laws Rl P) {hosts : RoundHosts T}
    (hL : hosts.All (Hosts.Reporting Rl P))
    {k : κ} {w w' : Companion T} (hset : w.relay.builder.chain.Settled Rl.toPrimitives)
    (h : prepareField Rl P hosts k w = (.ok (), w')) :
    ∃ b next, w' = { w with relay := { w.relay with builder := b, next := some next } } ∧
      b.chain.Settled Rl.toPrimitives ∧
      b.chain.bestNumber = w.relay.builder.chain.bestNumber ∧
      next.1.header.parentHash = b.chain.bestHash ∧
      ∀ id, id ≠ (w.collators k).id → w'.head id = w.head id := by
  rw [prepareField] at h
  obtain ⟨paraHead, u, hu, hrest⟩ := bind_eq_ok.mp h
  obtain rfl := onPara_of_read ParachainBuilder.head_keeps hu
  obtain ⟨id, t, ht, htell⟩ := bind_eq_ok.mp hrest
  obtain ⟨rfl, rfl⟩ : (u.collators k).id = id ∧ u = t := by simpa using ht
  obtain ⟨_, v, hv, hbuilt⟩ := bind_eq_ok.mp htell
  obtain ⟨b, s, rfl, hset', hnumber, hs, hs'⟩ :=
    onRelay_withMutState_eq_ok laws hL.updateParaHead.relay hset hv
  obtain ⟨next, rfl, htip⟩ :=
    buildRelay_eq_ok hL.buildRelay.relay (w := u.withBuilder b) hset' hbuilt
  refine ⟨b, next, rfl, hset', hnumber, htip, fun id hid ↦ ?_⟩
  rw [hs id]
  refine (hs' id).trans ?_
  exact Function.update_of_ne hid _ _

namespace Built

variable {k : κ} {build : Block × StorageProof} {w w' : Companion T}

/-- **Collecting**: a relay chain import puts the collation of the block into the table. -/
theorem collect (laws : Laws Rl P) {hosts : Hosts T} (hL : hosts.Reporting Rl P)
    (h : Built Rl P d k build w) {next : Block × StorageProof} (hnext : w.relay.next = some next)
    (htip : next.1.header.parentHash = w.relay.builder.chain.bestHash)
    (hc : w.relay.collations = []) (hok : importRelay Rl P hosts w = (.ok (), w')) :
    Extended Rl next w w' ∧ (∀ id, w'.head id = w.head id) ∧ w'.collators = w.collators ∧
      ∃ e, w'.relay.collations = [e] ∧ e.id = d.ids k ∧ Collates (P k) build e.collation := by
  obtain ⟨hext, hheads, hcollators, hgathered⟩ := World.importBlock_collecting laws.relayHash
    laws.keepsHeads hL.relay hL.relayReports hL.paras h.relay hnext htip hc (mapErr_eq_ok.mp hok)
  rw [h.registered] at hgathered
  refine ⟨hext, hheads, hcollators, ?_⟩
  refine hgathered.eq_singleton h.nextBlock (fun j hj ↦ h.nextBlock_of_ne hj) ?_ ?_
  · rintro q hq rfl
    exact mem_registrations (List.fst_mem_of_mem_zipIdx hq)
  · have hk : (d.ids k, k) ∈ registrations d :=
      List.mem_map.mpr ⟨k, h.field, rfl⟩
    obtain ⟨reg, hreg⟩ := List.mem_iff_getElem?.mp hk
    exact ⟨((d.ids k, k), reg), List.mk_mem_zipIdx_iff_getElem?.mpr hreg, rfl⟩

/-- **Enacting**: the next relay chain import sets the head of the parachain and moves the block to
the next-import slot. -/
theorem enact (laws : Laws Rl P) {hosts : Hosts T} (hL : hosts.Reporting Rl P)
    (h : Built Rl P d k build w) {next : Block × StorageProof} (hnext : w.relay.next = some next)
    (htip : next.1.header.parentHash = w.relay.builder.chain.bestHash) {e : CollationEntry}
    (hc : w.relay.collations = [e]) (hid : e.id = d.ids k)
    (hok : importRelay Rl P hosts w = (.ok (), w')) :
    Extended Rl next w w' ∧ w'.relay.collations = [] ∧
      (w'.head (d.ids k) = some e.collation.headData ∧
        ∀ id, id ≠ d.ids k → w'.head id = w.head id) ∧
      w'.collators =
        Function.update w.collators k (ParachainBuilder.approvedBuilder build (w.collators k)) ∧
      firstFor (registrations d) (d.ids k) = some k := by
  obtain ⟨hext, hheads, ⟨reg, j, build', hfirst, hslot, hcollators⟩, hgathered⟩ :=
    World.importBlock_enacting laws.relayHash laws.relayTrie laws.enactsHeads laws.keepsHeads
      hL.relay hL.relayReports
      hL.paras h.relay hnext htip hc (mapErr_eq_ok.mp hok)
  -- the verdict was taken, so it went to the only builder with a block
  have hj : j = k := by
    by_contra hne
    rw [h.nextBlock_of_ne hne] at hslot
    cases hslot
  rw [hj] at hslot hcollators hfirst
  obtain rfl : build = build' := Option.some.inj (h.nextBlock.symm.trans hslot)
  rw [hid] at hheads hfirst
  rw [h.registered] at hfirst
  refine ⟨hext, hgathered.eq_nil fun l ↦ ?_, hheads, hcollators, hfirst.firstFor⟩
  rw [hcollators]
  by_cases hl : l = k
  · subst hl
    rw [Function.update_self]
    rfl
  · rw [Function.update_of_ne hl]
    exact h.nextBlock_of_ne hl

/-- **Importing**: the parachain imports the block that was moved for it, which is still on its tip.
No block is in any slot then. -/
theorem take (laws : Laws Rl P) {hosts : Hosts T} (hL : hosts.Reporting Rl P)
    (h : Built Rl P d k build w) {u : Companion T}
    (hu : u.collators =
      Function.update w.collators k (ParachainBuilder.approvedBuilder build (w.collators k)))
    (hok : onPara k (ParachainBuilder.importBlock (hosts.paras k)) u = (.ok (), w')) :
    ∃ b p, w' = u.withPara k p ∧ w'.collators k = p ∧
      (∀ j, j ≠ k → w'.collators j = w.collators j) ∧
      p = ParachainBuilder.importedBuilder build b
        (ParachainBuilder.approvedBuilder build (w.collators k)) ∧
      b.chain.Settled (P k) ∧
      b.chain.bestNumber = (w.collators k).builder.chain.bestNumber + 1 ∧
      b.chain.headers b.chain.bestHash = some build.1.header := by
  obtain ⟨p, hp, rfl⟩ := onPara_eq_ok hok
  have hself : u.collators k = ParachainBuilder.approvedBuilder build (w.collators k) := by
    rw [hu, Function.update_self]
  rw [hself] at hp
  obtain ⟨b, hp, hset, hnumber, hheader⟩ := ParachainBuilder.importBlock_on_tip
    (p := ParachainBuilder.approvedBuilder build (w.collators k)) (laws.paraHash k)
    (hL.paras k) (hL.parasReport k) h.para rfl h.tip hp
  refine ⟨b, p, rfl, Function.update_self _ _ _, fun j hj ↦ ?_, hp, hset, hnumber, hheader⟩
  change Function.update u.collators k _ j = _
  rw [Function.update_of_ne hj, hu, Function.update_of_ne hj]

theorem finish (laws : Laws Rl P) {hosts : RoundHosts T}
    (hL : hosts.All (Hosts.Reporting Rl P))
    (h : Built Rl P d k build w) (hset : ∀ j, (w.collators j).builder.chain.Settled (P j))
    {next : Block × StorageProof} (hnext : w.relay.next = some next)
    (htip : next.1.header.parentHash = w.relay.builder.chain.bestHash)
    (hc : w.relay.collations = []) (hok : finishField Rl P hosts k w = (.ok (), w')) :
    Rounded Rl P d k w w' := by
  rw [finishField] at hok
  obtain ⟨_, w₁, hw₁, h₁⟩ := bind_eq_ok.mp hok
  obtain ⟨hext₁, hheads₁, hcoll₁, e, htable, hid, hcollates⟩ :=
    h.collect laws hL.importCollecting hnext htip hc hw₁
  have hbuilt₁ := h.congr hext₁.parachains hext₁.settled hcoll₁
  obtain ⟨_, w₂, hw₂, h₂⟩ := bind_eq_ok.mp h₁
  obtain ⟨next₂, rfl, htip₂⟩ := buildRelay_eq_ok hL.buildEnacting.relay hext₁.settled hw₂
  have hbuilt₂ : Built Rl P d k build
      { w₁ with relay := { w₁.relay with next := some next₂ } } :=
    hbuilt₁.congr rfl hext₁.settled rfl
  obtain ⟨_, w₃, hw₃, h₃⟩ := bind_eq_ok.mp h₂
  obtain ⟨hext₃, hempty, ⟨hhead, hheads₃⟩, hcoll₃, hfirst⟩ :=
    hbuilt₂.enact laws hL.importEnacting rfl htip₂ htable hid hw₃
  -- of the calls so far only the verdict changed a parachain
  have hcoll : w₃.collators = Function.update w.collators k
      (ParachainBuilder.approvedBuilder build (w.collators k)) := by
    rw [hcoll₃]
    change Function.update w₁.collators k _ = _
    rw [hcoll₁]
  obtain ⟨b, p, rfl, hk, hne, rfl, hsetk, hnumber, hheader⟩ := h.take laws hL.importPara hcoll h₃
  constructor
  case quiet =>
    refine ⟨hext₃.parachains.trans hbuilt₁.registered, hext₃.settled, fun j ↦ ?_, hext₃.taken,
      hempty, fun j ↦ ?_⟩
    · by_cases hj : j = k
      · subst hj
        rw [hk]
        exact hsetk
      · rw [hne j hj]
        exact hset j
    · by_cases hj : j = k
      · subst hj
        rw [hk]
        rfl
      · rw [hne j hj]
        exact h.others j hj
  case others => exact hne
  case id =>
    rw [hk]
    rfl
  case number =>
    rw [hk]
    exact hnumber
  case imports =>
    rw [hk]
    exact ⟨build, rfl⟩
  case relayNumber =>
    have h₃ : w₃.relay.builder.chain.bestNumber = w₁.relay.builder.chain.bestNumber + 1 :=
      hext₃.number
    have h₁ := hext₁.number
    change w₃.relay.builder.chain.bestNumber = _
    omega
  case relayImports =>
    refine ⟨next, next₂, ?_⟩
    have h₃ : w₃.relay.imports = w₁.relay.imports ++ [next₂] := hext₃.imports
    change w₃.relay.imports = _
    rw [h₃, hext₁.imports, List.append_assoc]
    rfl
  case head =>
    refine ⟨(P k).encode build.1.header, ?_, ?_⟩
    · rw [← hcollates.headData]
      exact hhead
    · rw [hk, ParachainBuilder.bestHead]
      change (b.chain.headers b.chain.bestHash).map _ = _
      rw [hheader]
      rfl
  case heads =>
    intro id hid _
    exact (hheads₃ id hid).trans (hheads₁ id)
  case first => exact hfirst

end Built

/-- **One round**, from a quiet companion. -/
theorem evolveField_rounded (laws : Laws Rl P) {hosts : RoundHosts T}
    (hL : hosts.All (Hosts.Reporting Rl P))
    {k : κ} (hk : k ∈ d.fields) {w w' : Companion T} (hq : Quiet Rl P (registrations d) w)
    (h : evolveField Rl P hosts k w = (.ok (), w')) : Rounded Rl P d k w w' := by
  rw [evolveField] at h
  obtain ⟨_, u, hu, hrest⟩ := bind_eq_ok.mp h
  obtain ⟨b, next, rfl, hset, hnumber, htip, hheads⟩ := prepareField_eq_ok laws hL hq.relay hu
  obtain ⟨_, v, hv, hfinish⟩ := bind_eq_ok.mp hrest
  obtain ⟨p, hp, rfl⟩ := onPara_eq_ok hv
  obtain ⟨c, build, rfl, hsetk, -, hnumberk, -, htipk⟩ := ParachainBuilder.buildBlock_on_tip
    (laws.paraHash k) (hL.buildPara.paras k) (hq.paras k) hp
  set u : Companion T :=
    { w with relay := { w.relay with builder := b, next := some next } } with hudef
  set p := ParachainBuilder.setNextBlock (some build) { w.collators k with builder := c } with hpdef
  have hself : (u.withPara k p).collators k = p := Function.update_self _ _ _
  have hne : ∀ j, j ≠ k → (u.withPara k p).collators j = w.collators j :=
    fun j hj ↦ Function.update_of_ne hj _ _
  -- the companion was quiet, so the new block is the only pending one
  have hbuilt : Built Rl P d k build (u.withPara k p) := by
    refine ⟨hk, hq.registered, hset, ?_, ?_, ?_, fun j hj ↦ ?_⟩
    · rw [hself]
      exact hsetk
    · rw [hself]
      exact htipk
    · rw [hself]
      exact congrArg (BlockStorage.mk (some build) ·.nextImport) (hq.slots k)
    · rw [hne j hj]
      exact hq.slots j
  have hsets : ∀ j, ((u.withPara k p).collators j).builder.chain.Settled (P j) := by
    intro j
    by_cases hj : j = k
    · subst hj
      exact hbuilt.para
    · rw [hne j hj]
      exact hq.paras j
  have hround := hbuilt.finish laws hL hsets rfl htip hq.collations hfinish
  refine hround.congr hne ?_ ?_ ?_ hnumber rfl hheads
  all_goals rw [hself]
  exacts [rfl, hnumberk, rfl]

end Companion

end Fudge
