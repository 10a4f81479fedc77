import Fudge.Companion.Evolve
import Fudge.System.Offered

/-!
# What an id stands for

A companion resolves the id of a parachain in three ways. A call on one chain goes to the first
field with the id in its attribute. A verdict goes to the first collator that is registered under
the id with the relay chain builder. And `evolve` writes the head of a field to `Heads`, under the
id that the builder of the field was made with before the block is built, and under the registered
id when the block is enacted.

`new` ties the first two together, since it registers the fields under the ids in their attributes.
It ties the third one to nothing. What all three go by is settled when `new` returns (`Tidy`): no
call changes it, whatever the call returns.
-/

namespace Fudge

open Call
open ParachainBuilder (CollatorError)

/-! ## Frames of a parachain builder -/

namespace ParachainBuilder

variable {T : Type} {P : Primitives T} {H : ParaHost T}

theorem buildBlock_keeps_id : Keeps (fun p ↦ p.id) (buildBlock P H) := by
  intro p
  rcases buildBlock_cases (P := P) (H := H) p with
    ⟨h, -⟩ | ⟨_, _, _, _, b, -, -, -, ⟨h, -⟩ | ⟨-, h⟩⟩
  · rw [h]
  · rw [h]
  · rw [h]
    rfl

theorem importBlock_keeps_id : Keeps (fun p ↦ p.id) (importBlock H : Call _ Error Unit) := by
  intro p
  rcases importBlock_cases (H := H) p with ⟨h, -⟩ | ⟨next, b, -, -, ⟨h, -⟩ | ⟨-, h⟩⟩
  · rw [h]
  · rw [h]
  · rw [h]
    rfl

end ParachainBuilder

/-- The field carries the id in its attribute. -/
def CompanionDef.Carries {κ : Type} (d : CompanionDef κ) (id : Id) (k : κ) : Prop :=
  k ∈ d.fields ∧ d.ids k = id

namespace Companion

open World (Later OffersUnder TableOffered)

variable {κ : Type} {T : κ → Type} {R A α : Type} {Rl : RelayPrimitives}
  {P : ∀ k, Primitives (T k)} {d : CompanionDef κ} {w₀ w : Companion T}

/-! ## What `new` is called with -/

/-- What `new` is called with: the fields carry different ids, and every builder was made with the
id in the attribute of its field. What the relay chain builder had registered before is a field
under its own id; or it is none of the fields, under an id that no field carries, and has no block
to offer. -/
structure Consistent (d : CompanionDef κ) (w₀ : Companion T) : Prop where
  distinct : ∀ i ∈ d.fields, ∀ j ∈ d.fields, d.ids i = d.ids j → i = j
  builders : ∀ k ∈ d.fields, (w₀.collators k).id = d.ids k
  registered : ∀ q ∈ w₀.relay.parachains, ∀ k ∈ d.fields, d.ids k = q.1 ↔ k = q.2
  silent : ∀ q ∈ w₀.relay.parachains, q.2 ∉ d.fields →
    (w₀.collators q.2).blockStorage.nextBlock = none

theorem Consistent.fieldFor (h : Consistent d w₀) {k : κ} (hk : k ∈ d.fields) :
    d.fieldFor (d.ids k) = some k := by
  rw [CompanionDef.fieldFor]
  cases hj : d.fields.find? fun j ↦ d.ids j == d.ids k with
  | none => exact absurd (List.find?_eq_none.mp hj k hk) (by simp)
  | some j =>
    have hid := List.find?_some hj
    rw [h.distinct j (List.mem_of_find?_eq_some hj) k hk (by simpa using hid)]

theorem Consistent.registered_append (h : Consistent d w₀) :
    ∀ q ∈ w₀.relay.parachains ++ registrations d, ∀ k ∈ d.fields, d.ids k = q.1 ↔ k = q.2 := by
  intro q hq k hk
  rcases List.mem_append.mp hq with hq | hq
  · exact h.registered q hq k hk
  · obtain ⟨j, hj, rfl⟩ := List.mem_map.mp hq
    exact ⟨h.distinct k hk j hj, congrArg d.ids⟩

theorem Consistent.offers (h : Consistent d w₀) (hcoll : w.collators = w₀.collators)
    (hregs : w.relay.parachains = w₀.relay.parachains ++ registrations d) :
    OffersUnder d.Carries w := by
  intro q hq
  rw [hregs] at hq
  by_cases hfield : q.2 ∈ d.fields
  · exact Or.inl ⟨hfield, (h.registered_append q hq q.2 hfield).mpr rfl⟩
  · right
    rcases List.mem_append.mp hq with hq | hq
    · rw [hcoll]
      exact h.silent q hq hfield
    · obtain ⟨j, hj, rfl⟩ := List.mem_map.mp hq
      exact absurd hj hfield

variable [DecidableEq κ]

/-- The companion `w` is a later one than `w₀`, and still resolves ids as it should: every
registration stands for the field that carries its id, if one does; only fields have blocks to
offer; and the table holds heads that the fields offered. -/
structure Tidy (P : ∀ k, Primitives (T k)) (d : CompanionDef κ) (w₀ w : Companion T) : Prop
    extends Later w₀ w where
  ids : ∀ k, (w.collators k).id = (w₀.collators k).id
  registered : ∀ q ∈ w.relay.parachains, ∀ k ∈ d.fields, d.ids k = q.1 ↔ k = q.2
  offers : OffersUnder d.Carries w
  table : TableOffered P d.Carries w

theorem Tidy.refl (h : Tidy P d w₀ w) : Tidy P d w w :=
  ⟨Later.refl w, fun _ ↦ rfl, h.registered, h.offers, h.table⟩

theorem Tidy.relay (h : Tidy P d w₀ w) {r : RelaychainBuilder κ}
    (hr : (r.parachains, r.collations) = (w.relay.parachains, w.relay.collations)) :
    Tidy P d w₀ { w with relay := r } := by
  obtain ⟨hregs, htable⟩ := Prod.mk.inj hr
  have hlater : Later w { w with relay := r } := ⟨hregs, List.prefix_rfl⟩
  refine ⟨h.toLater.trans hlater, h.ids, ?_, ?_, h.table.later hlater htable⟩
  · intro q hq
    exact h.registered q (hregs ▸ hq)
  · intro q hq
    exact h.offers q (hregs ▸ hq)

theorem Tidy.withPara (h : Tidy P d w₀ w) {k : κ} (hk : k ∈ d.fields) {p : ParachainBuilder (T k)}
    (hid : p.id = (w.collators k).id) : Tidy P d w₀ (w.withPara k p) := by
  refine ⟨⟨h.parachains, h.log⟩, fun j ↦ ?_, h.registered, fun q hq ↦ ?_, h.table⟩
  · rw [← h.ids j]
    change (Function.update w.collators k p j).id = _
    by_cases hj : j = k
    · subst hj
      rw [Function.update_self, hid]
    · rw [Function.update_of_ne hj]
  · change _ ∨ (Function.update w.collators k p q.2).blockStorage.nextBlock = none
    by_cases hq2 : q.2 = k
    · exact Or.inl ⟨hq2 ▸ hk, (h.registered q hq q.2 (hq2 ▸ hk)).mpr rfl⟩
    · rw [Function.update_of_ne hq2]
      exact h.offers q hq

/-! ## What every call keeps -/

theorem onRelay_tidy {c : Call (RelaychainBuilder κ) (RelaychainBuilder.Error CollatorError) α}
    (hc : Keeps (fun r ↦ (r.parachains, r.collations)) c) :
    Preserves (Tidy P d w₀) (onRelay c : Call (Companion T) _ α) := by
  intro w hw
  rw [onRelay, mapErr_snd, World.relayCall_apply]
  exact hw.relay (hc w.relay)

theorem onPara_tidy {k : κ} (hk : k ∈ d.fields)
    {c : Call (ParachainBuilder (T k)) ParachainBuilder.Error α} (hc : Keeps (fun p ↦ p.id) c) :
    Preserves (Tidy P d w₀) (onPara k c : Call (Companion T) _ α) := by
  intro w hw
  rw [onPara, mapErr_snd, World.builderCall_snd]
  exact hw.withPara hk (hc (w.collators k))

theorem buildRelay_tidy (hosts : Hosts T) : Preserves (Tidy P d w₀) (buildRelay Rl hosts) :=
  Preserves.bind (onRelay_tidy (RelaychainBuilder.buildBlock_keeps fun _ _ ↦ rfl))
    fun _ ↦ Preserves.of_read (Keeps.pure _)

theorem importRelay_keeps_id (hosts : Hosts T) (k : κ) :
    Keeps (fun w ↦ (w.collators k).id) (importRelay Rl P hosts) :=
  Keeps.mapErr (World.importBlock_frame fun _ _ ↦ rfl)

/-- A relay chain import fills the table from the slots of the fields. -/
theorem importRelay_tidy {hosts : Hosts T} (hL : ∀ k, (hosts.paras k).Lawful (P k)) :
    Preserves (Tidy P d w₀) (importRelay Rl P hosts) := by
  intro w hw
  have hids : ∀ k, ((importRelay Rl P hosts w).2.collators k).id = (w.collators k).id :=
    fun k ↦ importRelay_keeps_id hosts k w
  rw [importRelay, mapErr_snd] at hids ⊢
  obtain ⟨hoffers, htable, hlater⟩ :=
    World.importBlock_offered (R := Rl) (H := hosts.relay) hL hw.offers fun _ ↦ hw.table
  refine ⟨hw.toLater.trans hlater, fun k ↦ (hids k).trans (hw.ids k), ?_, hoffers, htable⟩
  rw [hlater.parachains]
  exact hw.registered

theorem prepareField_tidy (hosts : RoundHosts T) {k : κ} (hk : k ∈ d.fields) :
    Preserves (Tidy P d w₀) (prepareField Rl P hosts k) :=
  Preserves.bind (onPara_tidy hk ParachainBuilder.head_keeps) fun _ ↦
    Preserves.bind (Preserves.of_read (Keeps.read _)) fun _ ↦
      Preserves.bind (onRelay_tidy (RelaychainBuilder.updateParaHead_keeps (fun _ _ ↦ rfl) _ _))
        fun _ ↦ buildRelay_tidy _

theorem finishField_tidy {hosts : RoundHosts T}
    (hL : hosts.All (Hosts.Lawful Rl P)) {k : κ}
    (hk : k ∈ d.fields) : Preserves (Tidy P d w₀) (finishField Rl P hosts k) :=
  Preserves.bind (importRelay_tidy hL.importCollecting.paras) fun _ ↦
    Preserves.bind (buildRelay_tidy _) fun _ ↦
      Preserves.bind (importRelay_tidy hL.importEnacting.paras) fun _ ↦
        onPara_tidy hk ParachainBuilder.importBlock_keeps_id

theorem evolve_tidy {hosts : κ → RoundHosts T} (hL : ∀ k, (hosts k).All (Hosts.Lawful Rl P)) :
    Preserves (Tidy P d w₀) (evolve Rl P d hosts) :=
  Preserves.forEach fun k hk ↦ Preserves.bind (prepareField_tidy (hosts k) hk) fun _ ↦
    Preserves.bind (onPara_tidy hk ParachainBuilder.buildBlock_keeps_id) fun _ ↦
      finishField_tidy (hL k) hk

theorem onField_tidy {id : Id}
    {c : ∀ k, Call (ParachainBuilder (T k)) ParachainBuilder.Error R}
    (hc : ∀ k, Keeps (fun p ↦ p.id) (c k)) :
    Preserves (Tidy P d w₀) (match d.fieldFor id with
      | some k => onPara k (c k)
      | none => Call.fail (.parachainNotFound id) : Call (Companion T) BuilderError R) := by
  cases hfield : d.fieldFor id with
  | none => exact fun _ hw ↦ hw
  | some k => exact onPara_tidy (List.mem_of_find?_eq_some hfield) (hc k)

theorem appendExtrinsic_tidy (hosts : Hosts T) (chain : Chain) (xt : Bytes) :
    Preserves (Tidy P d w₀) (appendExtrinsic d hosts chain xt) := by
  cases chain with
  | relay =>
    exact Preserves.bind (Preserves.of_read (Keeps.query _ _)) fun _ ↦
      Preserves.bind (onRelay_tidy (RelaychainBuilder.core_keeps fun _ _ ↦ rfl)) fun _ ↦
        Preserves.of_read (Keeps.pure _)
  | para id =>
    rw [appendExtrinsic]
    cases hfield : d.fieldFor id with
    | none => exact fun _ hw ↦ hw
    | some k =>
      exact Preserves.bind (Preserves.of_read (Keeps.query _ _)) fun _ ↦
        Preserves.bind (onPara_tidy (List.mem_of_find?_eq_some hfield)
          (ParachainBuilder.core_keeps fun _ _ ↦ rfl)) fun _ ↦ Preserves.of_read (Keeps.pure _)

/-- **Every call** keeps a companion tidy, whatever it returns. -/
theorem companionStep_tidy (op : CompanionOp T A) (hop : op.All (Hosts.Lawful Rl P)) :
    Preserves (Tidy P d w₀) (companionStep Rl P d op) := by
  cases op with
  | appendExtrinsic hosts chain xt => exact Preserves.map (appendExtrinsic_tidy hosts chain xt)
  | appendExtrinsics chain xts =>
    exact Preserves.map (Preserves.forEach fun xt _ ↦ appendExtrinsic_tidy xt.1 chain xt.2)
  | withState hosts chain exec =>
    refine Preserves.map ?_
    cases chain with
    | relay => exact onRelay_tidy (RelaychainBuilder.withState_keeps _)
    | para id => exact onField_tidy fun k ↦ ParachainBuilder.withState_keeps (exec.para k)
  | withMutState hosts chain exec =>
    refine Preserves.map ?_
    cases chain with
    | relay => exact onRelay_tidy (RelaychainBuilder.withMutState_keeps (fun _ _ ↦ rfl) _)
    | para id => exact onField_tidy fun k ↦ ParachainBuilder.core_keeps fun _ _ ↦ rfl
  | evolve hosts => exact Preserves.map (evolve_tidy hop)

/-! ## Creating a companion -/

/-- The fields are registered one after the other, and their builders stay as they are. -/
theorem onboardFields_registers {hosts : κ → OnboardHosts T} {u : Unit}
    (h : forEach (fun k ↦ onboardField Rl P d (hosts k) k) d.fields w₀ = (.ok u, w)) :
    w.collators = w₀.collators ∧
      w.relay.parachains = w₀.relay.parachains ++ registrations d := by
  have hloop := Triple.forEach (f := fun k ↦ onboardField Rl P d (hosts k) k)
    (I := fun done _ v ↦ v.collators = w₀.collators ∧
      v.relay.parachains = w₀.relay.parachains ++ done.map fun k ↦ (d.ids k, k))
    (E := fun _ ↦ True) ?_ d.fields []
  · exact hloop.ok ⟨rfl, by rw [List.map_nil, List.append_nil]⟩ h
  · rintro done k rest v ⟨hcoll, hregs⟩
    refine ⟨fun _ v' hv' ↦ ?_, fun _ ↦ trivial⟩
    obtain ⟨para, b, -, rfl⟩ := onboardField_eq_ok hv'
    refine ⟨hcoll, ?_⟩
    change v.relay.parachains ++ [(d.ids k, k)] = _
    rw [hregs, List.map_append, ← List.append_assoc]
    rfl

/-- **`new`** registers all fields after those that were registered before, and makes a new
table. -/
theorem new_tidy {hosts : κ → OnboardHosts T} {build importing : Hosts T}
    (himporting : ∀ k, (importing.paras k).Lawful (P k)) (hw₀ : Consistent d w₀)
    (h : new Rl P d hosts build importing w₀ = (.ok (), w)) :
    Tidy P d w w ∧ w.relay.parachains = w₀.relay.parachains ++ registrations d ∧
      ∀ k, (w.collators k).id = (w₀.collators k).id := by
  rw [new] at h
  obtain ⟨_, u, hu, h₁⟩ := bind_eq_ok.mp h
  obtain ⟨_, v, hv, h₂⟩ := bind_eq_ok.mp h₁
  obtain ⟨hcoll, hregs⟩ := onboardFields_registers hu
  obtain ⟨_, t, ht, hpure⟩ := bind_eq_ok.mp hv
  obtain rfl := (Prod.mk.inj hpure).2
  obtain ⟨r, hr, rfl⟩ := onRelay_eq_ok.mp ht
  have hsame : r.parachains = u.relay.parachains :=
    (RelaychainBuilder.buildBlock_keeps (f := fun r ↦ r.parachains) fun _ _ ↦ rfl).eq_of_ok hr
  have hbuilt : ({ u with relay := r } : Companion T).relay.parachains =
      w₀.relay.parachains ++ registrations d := hsame.trans hregs
  have hids : ∀ k, (w.collators k).id = (w₀.collators k).id := by
    intro k
    have hkept : (w.collators k).id = (u.collators k).id :=
      (importRelay_keeps_id importing k).eq_of_ok (s := { u with relay := r }) h₂
    rw [← hcoll]
    exact hkept
  -- the import returned `Ok`, so the table is a new one
  have himport := mapErr_eq_ok.mp h₂
  obtain ⟨hoffers, htable, hlater⟩ := World.importBlock_offered (R := Rl)
    (H := importing.relay) himporting (hw₀.offers (w := { u with relay := r }) hcoll hbuilt)
    fun hno ↦ by rw [himport] at hno; cases hno
  rw [himport] at hoffers htable hlater
  refine ⟨⟨Later.refl w, fun _ ↦ rfl, ?_, hoffers, htable⟩, hlater.parachains.trans hbuilt, hids⟩
  rw [hlater.parachains, hbuilt]
  exact hw₀.registered_append

/-! ## Dispatching and judging -/

/-- Collations made for `id` are judged by the collator of the field `k`. -/
def Judges (w : Companion T) (id : Id) (k : κ) : Prop :=
  ∃ reg, RelaychainBuilder.collatorFor (ε := CollatorError) id w.relay = (.ok (reg, k), w.relay)

theorem Tidy.judges (h : Tidy P d w₀ w) {k : κ} (hk : k ∈ d.fields)
    (hmem : (d.ids k, k) ∈ w.relay.parachains) : Judges w (d.ids k) k := by
  obtain ⟨⟨reg, j⟩, hcall⟩ := RelaychainBuilder.collatorFor_of_mem (ε := CollatorError)
    (List.mem_map.mpr ⟨(d.ids k, k), hmem, rfl⟩)
  obtain ⟨hfirst, -⟩ := RelaychainBuilder.collatorFor_eq_ok hcall
  have hj : (d.ids k, j) ∈ w.relay.parachains := List.mem_of_getElem? hfirst.1
  obtain rfl : k = j := (h.registered _ hj k hk).mp rfl
  exact ⟨reg, hcall⟩

end Companion

end Fudge
