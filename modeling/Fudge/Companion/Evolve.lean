import Fudge.Call.Run
import Fudge.Companion.Round

/-!
# What `evolve` does

`evolve` makes a round for each field, in order. Over the fields the rounds add up: every parachain
is one block further, the relay chain two blocks for each field, and nothing is pending again. That
nothing is pending is what the next `evolve` starts from, and what every call that returns `Ok`
keeps.

## Heads

A round sets the head of its field right, under the id the field was onboarded under. The rounds
after it leave that entry alone unless one of them tells the relay chain an old head under the same
id, which it does under the id of its *builder*. So the heads are right in the end if no field has a
builder with the id an earlier field was onboarded under (`Apart`). `new` does not check this.
-/

namespace Fudge

namespace Companion

open Call
open RelaychainBuilder (firstFor)

variable {κ : Type} {T : κ → Type} (Rl : RelayPrimitives)
  (P : ∀ k, Primitives (T k)) (d : CompanionDef κ)

/-- No field has a builder with the id that an earlier field was onboarded under. -/
def Apart (w : Companion T) : Prop :=
  d.fields.Pairwise fun i j ↦ (w.collators j).id ≠ d.ids i

instance (w : Companion T) : Decidable (Apart d w) :=
  inferInstanceAs (Decidable (List.Pairwise _ d.fields))

theorem Apart.congr {d : CompanionDef κ} {w w' : Companion T} (h : Apart d w)
    (hids : ∀ k, (w'.collators k).id = (w.collators k).id) : Apart d w' :=
  List.Pairwise.imp (fun {_ j} hne ↦ by rwa [hids j]) h

/-- **All chains moved forward together**: what a call did that led from `w` to `w'`. -/
structure Synchronised (w w' : Companion T) : Prop where
  paraNumber : ∀ k ∈ d.fields, (w'.collators k).builder.chain.bestNumber =
    (w.collators k).builder.chain.bestNumber + 1
  paraImports : ∀ k ∈ d.fields, ∃ block,
    (w'.collators k).imports = (w.collators k).imports ++ [block]
  relayNumber : w'.relay.builder.chain.bestNumber =
    w.relay.builder.chain.bestNumber + 2 * d.fields.length
  relayImports : ∃ blocks, blocks.length = 2 * d.fields.length ∧
    w'.relay.imports = w.relay.imports ++ blocks
  heads : ∀ k ∈ d.fields, ∃ head, w'.head (d.ids k) = some head ∧
    ∀ (H : ParaHost (T k)) answer p, H.Lawful (P k) →
      ParachainBuilder.head (P k) H (w'.collators k) = (.ok answer, p) → answer = head
  next : w'.relay.next = none
  collations : w'.relay.collations = []
  slots : ∀ k ∈ d.fields, (w'.collators k).blockStorage.nextBlock = none ∧
    (w'.collators k).blockStorage.nextImport = none

/-- The companion `w` after the rounds of the fields `done`, counted from `w₀`. -/
structure Evolved (done : List κ) (w₀ w : Companion T) : Prop where
  quiet : Quiet Rl P (registrations d) w
  ids : ∀ k, (w.collators k).id = (w₀.collators k).id
  rest : ∀ k, k ∉ done → w.collators k = w₀.collators k
  number : ∀ k ∈ done, (w.collators k).builder.chain.bestNumber =
    (w₀.collators k).builder.chain.bestNumber + 1
  imports : ∀ k ∈ done, ∃ block, (w.collators k).imports = (w₀.collators k).imports ++ [block]
  relayNumber : w.relay.builder.chain.bestNumber =
    w₀.relay.builder.chain.bestNumber + 2 * done.length
  relayImports : ∃ blocks, blocks.length = 2 * done.length ∧
    w.relay.imports = w₀.relay.imports ++ blocks
  head : ∀ k ∈ done, ∃ head, w.head (d.ids k) = some head ∧
    (w.collators k).bestHead (P k) = some head
  first : ∀ k ∈ done, firstFor (registrations d) (d.ids k) = some k

variable {Rl P d}

/-! ## The rounds of one `evolve` -/

theorem Evolved.nil {w : Companion T} (h : Quiet Rl P (registrations d) w) :
    Evolved Rl P d [] w w :=
  ⟨h, fun _ ↦ rfl, fun _ _ ↦ rfl, by simp, by simp, rfl, ⟨[], by simp⟩, by simp, by simp⟩

theorem Evolved.synchronised {w₀ w : Companion T} (h : Evolved Rl P d d.fields w₀ w) :
    Synchronised P d w₀ w where
  paraNumber := h.number
  paraImports := h.imports
  relayNumber := h.relayNumber
  relayImports := h.relayImports
  heads k hk := by
    obtain ⟨head, hhead, hbest⟩ := h.head k hk
    refine ⟨head, hhead, fun H answer p hL hanswer ↦ ?_⟩
    rw [ParachainBuilder.head_eq_ok hL hanswer] at hbest
    exact Option.some.inj hbest
  next := h.quiet.next
  collations := h.quiet.collations
  slots k _ := by
    rw [h.quiet.slots k]
    exact ⟨rfl, rfl⟩

/-- What `head` returns then is what the relay chain has. -/
theorem Synchronised.head_answer {w w' : Companion T} (h : Synchronised P d w w') {k : κ}
    (hk : k ∈ d.fields) {H : ParaHost (T k)} (hL : H.Lawful (P k))
    (hok : (ParachainBuilder.head (P k) H (w'.collators k)).1.isOk = true) :
    (ParachainBuilder.head (P k) H (w'.collators k)).1 = .ok ((w'.head (d.ids k)).getD []) := by
  obtain ⟨answer, hcall⟩ := Outcome.isOk_iff.mp hok
  obtain ⟨head, hhead, hanswer⟩ := h.heads k hk
  rw [hcall, hhead, hanswer H answer _ hL (Prod.ext hcall rfl)]
  rfl

variable [DecidableEq κ]

/-- One more round, of a field whose builder has none of the ids that were set before. -/
theorem Evolved.concat {done : List κ} {w₀ w w' : Companion T}
    (h : Evolved Rl P d done w₀ w) {k : κ} (hk : k ∉ done)
    (hapart : ∀ i ∈ done, (w₀.collators k).id ≠ d.ids i) (hr : Rounded Rl P d k w w') :
    Evolved Rl P d (done ++ [k]) w₀ w' := by
  have hne : ∀ i ∈ done, i ≠ k := fun i hi heq ↦ hk (heq ▸ hi)
  constructor
  case quiet => exact hr.quiet
  case ids =>
    intro i
    by_cases hi : i = k
    · subst hi
      exact hr.id.trans (h.ids i)
    · rw [hr.others i hi]
      exact h.ids i
  case rest =>
    intro i hi
    rw [List.mem_append, List.mem_singleton, not_or] at hi
    exact (hr.others i hi.2).trans (h.rest i hi.1)
  case number =>
    intro i hi
    rcases List.mem_append.mp hi with hi | hi
    · rw [hr.others i (hne i hi)]
      exact h.number i hi
    · obtain rfl := List.mem_singleton.mp hi
      rw [hr.number, h.rest i hk]
  case imports =>
    intro i hi
    rcases List.mem_append.mp hi with hi | hi
    · rw [hr.others i (hne i hi)]
      exact h.imports i hi
    · obtain rfl := List.mem_singleton.mp hi
      rw [← h.rest i hk]
      exact hr.imports
  case relayNumber =>
    rw [hr.relayNumber, h.relayNumber, List.length_append, List.length_singleton]
    omega
  case relayImports =>
    obtain ⟨blocks, hlength, hblocks⟩ := h.relayImports
    obtain ⟨a, b, hab⟩ := hr.relayImports
    refine ⟨blocks ++ [a, b], ?_, by rw [hab, hblocks, List.append_assoc]⟩
    simp only [List.length_append, List.length_cons, List.length_nil]
    omega
  case head =>
    intro i hi
    rcases List.mem_append.mp hi with hi | hi
    · obtain ⟨head, hhead, hbest⟩ := h.head i hi
      refine ⟨head, ?_, by rw [hr.others i (hne i hi)]; exact hbest⟩
      -- the round sets the head of another id, and tells one that was not set before
      have hids : d.ids i ≠ d.ids k := by
        intro heq
        have hfirst := h.first i hi
        rw [heq, hr.first] at hfirst
        exact hne i hi (Option.some.inj hfirst).symm
      rw [hr.heads (d.ids i) hids (by rw [h.ids k]; exact (hapart i hi).symm), hhead]
    · obtain rfl := List.mem_singleton.mp hi
      exact hr.head
  case first =>
    intro i hi
    rcases List.mem_append.mp hi with hi | hi
    · exact h.first i hi
    · obtain rfl := List.mem_singleton.mp hi
      exact hr.first

theorem evolve_evolved (laws : Laws Rl P) {hosts : κ → RoundHosts T}
    (hL : ∀ k, (hosts k).All (Hosts.Reporting Rl P)) {w w' : Companion T}
    (hq : Quiet Rl P (registrations d) w) (hapart : Apart d w)
    (h : evolve Rl P d hosts w = (.ok (), w')) : Evolved Rl P d d.fields w w' := by
  have hloop := Triple.forEach (f := fun k ↦ evolveField Rl P (hosts k) k)
    (I := fun done rest u ↦ done ++ rest = d.fields ∧ Evolved Rl P d done w u)
    (E := fun _ ↦ True) ?_ d.fields []
  · have hend := hloop.ok ⟨rfl, Evolved.nil hq⟩ h
    simpa using hend.2
  · rintro done k rest u ⟨hsplit, hu⟩
    refine ⟨fun _ u' hround ↦ ⟨by simpa using hsplit, ?_⟩, fun _ ↦ trivial⟩
    -- the fields come in order, so what is said of earlier fields holds of those in `done`
    have hnodup := d.nodup
    rw [← hsplit, List.nodup_append] at hnodup
    have hpairs : (done ++ k :: rest).Pairwise fun i j ↦ (w.collators j).id ≠ d.ids i := by
      rw [hsplit]
      exact hapart
    rw [List.pairwise_append] at hpairs
    refine hu.concat (fun hk ↦ hnodup.2.2 k hk k List.mem_cons_self rfl)
      (fun i hi ↦ hpairs.2.2 i hi k List.mem_cons_self) ?_
    have hk : k ∈ d.fields := by
      rw [← hsplit]
      simp
    exact evolveField_rounded laws (hL k) hk hu.quiet hround

/-! ## Calls on one chain -/

section Settles

variable {S α : Type} {P : Primitives S} {H : Host S}

/-- A call of the core builder that keeps a settled chain settled, if it returns. -/
def Settles (P : Primitives S) (c : Call (Builder S) Builder.Error α) : Prop :=
  ∀ b b' a, b.chain.Settled P → c b = (.ok a, b') → b'.chain.Settled P

theorem Settles.of_keeps {c : Call (Builder S) Builder.Error α} (hc : Keeps Builder.chain c) :
    Settles P c := by
  intro b b' a hset h
  rw [hc.eq_of_ok h]
  exact hset

theorem settles_appendExtrinsic (xt : Extrinsic) : Settles P (Builder.appendExtrinsic H xt) :=
  .of_keeps (Builder.appendExtrinsic_keeps xt)

theorem settles_withState (exec : S → α × S) :
    Settles P (Builder.withState P H .dryRun none exec) :=
  .of_keeps (Builder.withState_dryRun_keeps none exec)

theorem settles_withMutState (hinj : Function.Injective P.hash)
    (htrie : ∀ v v', P.emptyTrieRoot v = P.emptyTrieRoot v') (hL : H.Lawful P)
    (exec : S → α × S) : Settles P (Builder.withState P H .commit none exec) := by
  intro b b' a hset h
  obtain ⟨s, -, -, hset'⟩ := Builder.commit_mutated hinj htrie hL hset h
  exact hset'

end Settles

/-- What every call keeps: nothing is pending, and the ids are apart. -/
def Ready (Rl : RelayPrimitives) (P : ∀ k, Primitives (T k)) (d : CompanionDef κ)
    (w : Companion T) : Prop :=
  Quiet Rl P (registrations d) w ∧ Apart d w

variable {A α : Type}

omit [DecidableEq κ] in
theorem onRelay_core_ready {c : Call (Builder RelayStorage) Builder.Error α}
    (hc : Settles Rl.toPrimitives c) {w w' : Companion T} {a : α} (hw : Ready Rl P d w)
    (h : onRelay (RelaychainBuilder.core c) w = (.ok a, w')) : Ready Rl P d w' := by
  obtain ⟨r, hr, rfl⟩ := onRelay_eq_ok.mp h
  obtain ⟨b, hb, rfl⟩ := zoom_eq_ok.mp (mapErr_eq_ok.mp hr)
  exact ⟨hw.1.withBuilder (hc _ _ _ hw.1.relay hb), hw.2⟩

theorem onPara_core_ready {k : κ} {c : Call (Builder (T k)) Builder.Error α}
    (hc : Settles (P k) c) {w w' : Companion T} {a : α} (hw : Ready Rl P d w)
    (h : onPara k (ParachainBuilder.core c) w = (.ok a, w')) : Ready Rl P d w' := by
  obtain ⟨hq, hapart⟩ := hw
  obtain ⟨p, hp, rfl⟩ := onPara_eq_ok h
  obtain ⟨b, hb, hpb⟩ := zoom_eq_ok.mp (mapErr_eq_ok.mp hp)
  have hset : p.builder.chain.Settled (P k) := by
    rw [hpb]
    exact hc _ _ _ (hq.paras k) hb
  have hslot : p.blockStorage = {} := by
    rw [hpb]
    exact hq.slots k
  have hid : p.id = (w.collators k).id := by rw [hpb]
  -- a property of all builders is one of the new builder and of the others
  have hparas := (Function.forall_update_iff w.collators fun j p ↦
    p.builder.chain.Settled (P j)).mpr ⟨hset, fun j _ ↦ hq.paras j⟩
  have hslots := (Function.forall_update_iff w.collators fun _ p ↦
    p.blockStorage = {}).mpr ⟨hslot, fun j _ ↦ hq.slots j⟩
  have hids := (Function.forall_update_iff w.collators fun j p ↦
    p.id = (w.collators j).id).mpr ⟨hid, fun _ _ ↦ rfl⟩
  exact ⟨⟨hq.registered, hq.relay, hparas, hq.next, hq.collations, hslots⟩, hapart.congr hids⟩

/-! ## Every call keeps the companion ready -/

def CompanionOp.All (p : Hosts T → Prop) : CompanionOp T A → Prop
  | .appendExtrinsic hosts _ _ => p hosts
  | .appendExtrinsics _ xts => ∀ xt ∈ xts, p xt.1
  | .withState hosts _ _ => p hosts
  | .withMutState hosts _ _ => p hosts
  | .evolve hosts => ∀ k, (hosts k).All p

/-- An operation is made against lawful hosts and returns `Ok`. -/
def Returns (Rl : RelayPrimitives) (P : ∀ k, Primitives (T k)) (d : CompanionDef κ)
    (op : CompanionOp T A) (w : Companion T) : Prop :=
  op.All (Hosts.Reporting Rl P) ∧ (companionStep Rl P d op w).1.isOk = true

theorem onField_ready {id : Id} {c : ∀ k, Call (Builder (T k)) Builder.Error α}
    (hc : ∀ k, Settles (P k) (c k)) {w w' : Companion T} {a : α} (hw : Ready Rl P d w)
    (h : (match d.fieldFor id with
      | some k => onPara k (ParachainBuilder.core (c k))
      | none => Call.fail (.parachainNotFound id) : Call (Companion T) BuilderError α) w =
        (.ok a, w')) : Ready Rl P d w' := by
  cases hfield : d.fieldFor id with
  | none =>
    rw [hfield] at h
    cases h
  | some k =>
    rw [hfield] at h
    exact onPara_core_ready (hc k) hw h

theorem appendExtrinsic_ready {hosts : Hosts T} {chain : Chain} {xt : Bytes}
    {w w' : Companion T} (hw : Ready Rl P d w)
    (h : appendExtrinsic d hosts chain xt w = (.ok (), w')) : Ready Rl P d w' := by
  cases chain with
  | relay =>
    obtain ⟨xt', u, hu, h₁⟩ := bind_eq_ok.mp h
    obtain ⟨-, rfl⟩ := query_eq_ok.mp hu
    obtain ⟨_, v, hv, h₂⟩ := bind_eq_ok.mp h₁
    obtain rfl := (Prod.mk.inj h₂).2
    exact onRelay_core_ready (settles_appendExtrinsic xt') hw hv
  | para id =>
    rw [appendExtrinsic] at h
    cases hfield : d.fieldFor id with
    | none =>
      rw [hfield] at h
      cases h
    | some k =>
      rw [hfield] at h
      obtain ⟨xt', u, hu, h₁⟩ := bind_eq_ok.mp h
      obtain ⟨-, rfl⟩ := query_eq_ok.mp hu
      obtain ⟨_, v, hv, h₂⟩ := bind_eq_ok.mp h₁
      obtain rfl := (Prod.mk.inj h₂).2
      exact onPara_core_ready (settles_appendExtrinsic xt') hw hv

theorem appendExtrinsics_ready {chain : Chain} :
    ∀ (xts : List (Hosts T × Bytes)) {w w' : Companion T}, Ready Rl P d w →
      appendExtrinsics d chain xts w = (.ok (), w') → Ready Rl P d w' := by
  intro xts
  induction xts with
  | nil =>
    intro w w' hw h
    obtain rfl := (Prod.mk.inj h).2
    exact hw
  | cons xt xts ih =>
    intro w w' hw h
    obtain ⟨_, u, hu, hrest⟩ := bind_eq_ok.mp h
    exact ih (appendExtrinsic_ready hw hu) hrest

theorem evolve_ready (laws : Laws Rl P) {hosts : κ → RoundHosts T}
    (hL : ∀ k, (hosts k).All (Hosts.Reporting Rl P)) {w w' : Companion T} (hw : Ready Rl P d w)
    (h : evolve Rl P d hosts w = (.ok (), w')) : Ready Rl P d w' := by
  have hend := evolve_evolved laws hL hw.1 hw.2 h
  exact ⟨hend.quiet, hw.2.congr hend.ids⟩

/-- **Every call that returns `Ok`** leaves nothing pending. -/
theorem companionStep_ready (laws : Laws Rl P) (op : CompanionOp T A) (w : Companion T)
    (hop : Returns Rl P d op w) (hw : Ready Rl P d w) :
    Ready Rl P d (companionStep Rl P d op w).2 := by
  obtain ⟨hL, hok⟩ := hop
  obtain ⟨a, ha⟩ := Outcome.isOk_iff.mp hok
  have h : companionStep Rl P d op w = (.ok a, (companionStep Rl P d op w).2) := Prod.ext ha rfl
  cases op with
  | appendExtrinsic hosts chain xt =>
    obtain ⟨_, h, -⟩ := map_eq_ok.mp h
    exact appendExtrinsic_ready hw h
  | appendExtrinsics chain xts =>
    obtain ⟨_, h, -⟩ := map_eq_ok.mp h
    exact appendExtrinsics_ready xts hw h
  | withState hosts chain exec =>
    obtain ⟨_, h, -⟩ := map_eq_ok.mp h
    cases chain with
    | relay => exact onRelay_core_ready (settles_withState _) hw h
    | para id => exact onField_ready (fun k ↦ settles_withState _) hw h
  | withMutState hosts chain exec =>
    obtain ⟨_, h, -⟩ := map_eq_ok.mp h
    cases chain with
    | relay =>
      obtain ⟨b, s, hu, hset, -⟩ := onRelay_withMutState_eq_ok laws hL.relay hw.1.relay h
      rw [hu]
      exact ⟨hw.1.withBuilder hset, hw.2⟩
    | para id =>
      exact onField_ready (fun k ↦ settles_withMutState (laws.paraHash k) (laws.paraTrie k)
        (hL.paras k).host _) hw h
  | evolve hosts =>
    obtain ⟨_, h, -⟩ := map_eq_ok.mp h
    exact evolve_ready laws hL hw h

/-! ## Creating a companion -/

/-- All hosts by which a field is onboarded have a property. -/
structure OnboardHosts.All (p : Hosts T → Prop) (hosts : OnboardHosts T) : Prop where
  head : p hosts.head
  code : p hosts.code
  onboard : p hosts.onboard

theorem onboardField_eq_ok {hosts : OnboardHosts T} {k : κ} {w w' : Companion T}
    (h : onboardField Rl P d hosts k w = (.ok (), w')) :
    ∃ para b, Builder.commit Rl.toPrimitives hosts.onboard.relay.toHost none
        (fun s ↦ ((), RelayStorage.onboard Rl para s)) w.relay.builder = (.ok (), b) ∧
      w' = { w with relay := { w.relay with
        builder := b, parachains := w.relay.parachains ++ [(d.ids k, k)] } } := by
  rw [onboardField] at h
  obtain ⟨head, u, hu, h₁⟩ := bind_eq_ok.mp h
  obtain rfl := onPara_of_read ParachainBuilder.head_keeps hu
  obtain ⟨code, v, hv, h₂⟩ := bind_eq_ok.mp h₁
  obtain rfl := onPara_of_read ParachainBuilder.code_keeps hv
  obtain ⟨r, hr, rfl⟩ := onRelay_eq_ok.mp h₂
  obtain ⟨_, t, ht, hpush⟩ := bind_eq_ok.mp hr
  obtain ⟨-, b, hb, rfl⟩ := RelaychainBuilder.withMutState_eq_ok ht
  obtain rfl := (Prod.mk.inj hpush).2
  exact ⟨_, b, hb, rfl⟩

theorem onboardField_quiet (laws : Laws Rl P) {hosts : OnboardHosts T}
    (hL : hosts.All (Hosts.Reporting Rl P))
    {k : κ} {regs : List (Id × κ)} {w w' : Companion T} (hq : Quiet Rl P regs w)
    (h : onboardField Rl P d hosts k w = (.ok (), w')) :
    Quiet Rl P (regs ++ [(d.ids k, k)]) w' ∧ w'.collators = w.collators := by
  obtain ⟨para, b, hb, rfl⟩ := onboardField_eq_ok h
  obtain ⟨s, -, -, hset⟩ :=
    Builder.commit_mutated laws.relayHash laws.relayTrie hL.onboard.relay hq.relay hb
  exact ⟨⟨congrArg (· ++ [(d.ids k, k)]) hq.registered, hset, hq.paras, hq.next, hq.collations,
    hq.slots⟩, rfl⟩

theorem importRelay_quiet (laws : Laws Rl P) {hosts : Hosts T} (hL : hosts.Reporting Rl P)
    {regs : List (Id × κ)} {w w' : Companion T} (hq : Quiet Rl P regs w)
    {next : Block × StorageProof}
    (htip : next.1.header.parentHash = w.relay.builder.chain.bestHash)
    (h : importRelay Rl P hosts { w with relay := { w.relay with next := some next } } =
      (.ok (), w')) :
    Quiet Rl P regs w' ∧ w'.collators = w.collators := by
  obtain ⟨hext, -, hcollators, hgathered⟩ := World.importBlock_collecting
    (w := { w with relay := { w.relay with next := some next } }) laws.relayHash laws.keepsHeads
    hL.relay hL.relayReports hL.paras hq.relay rfl htip hq.collations (mapErr_eq_ok.mp h)
  have hslots : ∀ k, (w.collators k).blockStorage.nextBlock = none := by
    intro k
    rw [hq.slots k]
  refine ⟨⟨hext.parachains.trans hq.registered, hext.settled, ?_, hext.taken,
    hgathered.eq_nil hslots, ?_⟩, hcollators⟩
  · rw [hcollators]
    exact hq.paras
  · rw [hcollators]
    exact hq.slots

/-- **A companion that `new` returns** has onboarded all fields, and nothing is pending. -/
theorem new_quiet (laws : Laws Rl P) {hosts : κ → OnboardHosts T} {build importing : Hosts T}
    (hL : ∀ k, (hosts k).All (Hosts.Reporting Rl P)) (hbuild : build.Reporting Rl P)
    (himporting : importing.Reporting Rl P) {w₀ w : Companion T} (hq : Quiet Rl P [] w₀)
    (h : new Rl P d hosts build importing w₀ = (.ok (), w)) :
    Quiet Rl P (registrations d) w ∧ w.collators = w₀.collators := by
  rw [new] at h
  obtain ⟨_, u, hu, h₁⟩ := bind_eq_ok.mp h
  have hloop := Triple.forEach (f := fun k ↦ onboardField Rl P d (hosts k) k)
    (I := fun done _ v ↦ Quiet Rl P (done.map fun k ↦ (d.ids k, k)) v ∧
      v.collators = w₀.collators) (E := fun _ ↦ True) ?_ d.fields []
  · obtain ⟨hqu, hcollu⟩ := hloop.ok ⟨hq, rfl⟩ hu
    obtain ⟨_, v, hv, h₂⟩ := bind_eq_ok.mp h₁
    obtain ⟨next, rfl, htip⟩ := buildRelay_eq_ok hbuild.relay hqu.relay hv
    obtain ⟨hqw, hcollw⟩ := importRelay_quiet laws himporting hqu htip h₂
    exact ⟨hqw, hcollw.trans hcollu⟩
  · rintro done k rest v ⟨hv, hcollv⟩
    refine ⟨fun _ v' hv' ↦ ?_, fun _ ↦ trivial⟩
    obtain ⟨hqv', hcollv'⟩ := onboardField_quiet laws (hL k) hv hv'
    rw [List.map_append]
    exact ⟨hqv', hcollv'.trans hcollv⟩

/-- **One `evolve` moves all chains forward together**, after every run of `Ok` calls on a companion
made of fresh builders, no one of which has the id an earlier field was onboarded under. -/
theorem evolve_synchronises (laws : Laws Rl P) {hosts : κ → OnboardHosts T}
    {build importing : Hosts T} (hL : ∀ k, (hosts k).All (Hosts.Reporting Rl P))
    (hbuild : build.Reporting Rl P) (himporting : importing.Reporting Rl P)
    {w₀ w : Companion T} (hfresh : Quiet Rl P [] w₀)
    (hapart : Apart d w₀) (hnew : new Rl P d hosts build importing w₀ = (.ok (), w))
    (ops : List (CompanionOp T A)) (hops : Along (companionStep Rl P d) (Returns Rl P d) ops w)
    {round : κ → RoundHosts T} (hround : ∀ k, (round k).All (Hosts.Reporting Rl P))
    {w' : Companion T}
    (h : evolve Rl P d round (run (companionStep Rl P d) ops w) = (.ok (), w')) :
    Synchronised P d (run (companionStep Rl P d) ops w) w' := by
  obtain ⟨hq, hcollators⟩ := new_quiet laws hL hbuild himporting hfresh hnew
  have hready : Ready Rl P d w := ⟨hq, hapart.congr fun k ↦ by rw [hcollators]⟩
  obtain ⟨hq', hapart'⟩ := run_invariant (companionStep_ready laws) ops hops hready
  exact (evolve_evolved laws hround hq' hapart' h).synchronised

/-! ## Two builders with one id -/

/-- Two fields, onboarded under the ids 1 and 2. -/
def twoFields : CompanionDef (Fin 2) := ⟨[0, 1], by decide, fun k ↦ k + 1⟩

/-- The call of `evolve` on their companion. -/
def evolveTwo : Call (Companion fun _ : Fin 2 ↦ ℕ) BuilderError Unit :=
  evolve .reference (fun _ ↦ counter) twoFields fun _ ↦ .reference (Fin 2)

/-- Both builders were made with the id 1. The second round tells the relay chain an old head under
this id, and the first parachain is left with it. -/
theorem head_overwritten :
    new .reference (fun _ ↦ counter) twoFields
        (fun _ ↦ .reference (Fin 2)) (.reference (Fin 2)) (.reference (Fin 2))
        (fields fun _ ↦ 1) = (.ok (), reference twoFields fun _ ↦ 1) ∧
      (evolveTwo (reference twoFields fun _ ↦ 1)).1 = .ok () ∧
      ¬ Synchronised (fun _ ↦ counter) twoFields (reference twoFields fun _ ↦ 1)
        (evolveTwo (reference twoFields fun _ ↦ 1)).2 := by
  refine ⟨new_reference (by decide +kernel), by decide +kernel, fun hsync ↦ ?_⟩
  have hanswer := hsync.head_answer (k := 0) (H := .reference counter) (by decide)
    (ParaHost.reference_lawful counter) (by decide +kernel)
  exact absurd hanswer (by decide +kernel)

/-- The second parachain is mutated, and all chains are moved on once. -/
def mutateSecond : List (CompanionOp (fun _ : Fin 2 ↦ ℕ) Unit) :=
  [.withMutState (.reference (Fin 2)) (.para 2) ⟨fun s ↦ ((), s), fun _ s ↦ ((), s + 10)⟩,
    .evolve fun _ ↦ .reference (Fin 2)]

theorem evolve_synchronises_mutateSecond :
    Synchronised (fun _ ↦ counter) twoFields
      (run (companionStep .reference (fun _ ↦ counter) twoFields) mutateSecond
        (reference twoFields fun k ↦ k + 1))
      (evolveTwo (run (companionStep .reference (fun _ ↦ counter) twoFields) mutateSecond
        (reference twoFields fun k ↦ k + 1))).2 := by
  have hL : (Hosts.reference (Fin 2)).Reporting RelayPrimitives.reference fun _ ↦ counter :=
    Hosts.reference_reporting
  have hops : Along (companionStep .reference (fun _ ↦ counter) twoFields)
      (Returns .reference (fun _ ↦ counter) twoFields) mutateSecond
      (reference twoFields fun k ↦ k + 1) :=
    ⟨⟨hL, by decide +kernel⟩, fun _ ↦
      ⟨⟨fun _ ↦ RoundHosts.reference_all hL, by decide +kernel⟩, fun _ ↦ trivial⟩⟩
  have hevolve : (evolveTwo (run (companionStep .reference (fun _ ↦ counter) twoFields)
      mutateSecond (reference twoFields fun k ↦ k + 1))).1 = .ok () := by
    decide +kernel
  exact evolve_synchronises laws_reference (fun _ ↦ ⟨hL, hL, hL⟩) hL hL (fields_quiet _)
    (by decide) (new_reference (by decide +kernel)) mutateSecond hops
    (fun _ ↦ RoundHosts.reference_all hL) (eq_of_fst hevolve)

end Companion

end Fudge
