import Mathlib.Data.List.Forall2
import Fudge.Provider.State

/-!
# Merging genesis storages

A storage has three kinds of places: the keys of the top map, the infos of the child tries, and the
keys of the child tries. Two storages with the same at all places are the same. If the child tries
agree on their infos, then a merge overwrites each place that the new storage has and leaves the
others alone, whether a child trie is put in whole or extended key by key.

So the genesis of a provider is, place by place, what was written last (`genesis_last_writer`), and
it does not matter which of the storages were merged before.
-/

namespace Fudge

open Std

namespace Storage

variable {g s t : Storage} {entries : List (Bytes × StorageChild)}

/-! ## Places -/

/-- A place of a storage. -/
inductive Place where
  | top (key : Bytes)
  | info (child : Bytes)
  | value (child key : Bytes)
deriving DecidableEq, Repr

def childValue (child key : Bytes) (s : Storage) : Option Bytes :=
  s.childrenDefault[child]?.bind (·.data[key]?)

def childInfo (child : Bytes) (s : Storage) : Option Bytes :=
  s.childrenDefault[child]?.map (·.childInfo.data)

def lookup : Place → Storage → Option Bytes
  | .top key, s => s.top[key]?
  | .info child, s => s.childInfo child
  | .value child key, s => s.childValue child key

/-- A storage is what is at its places. -/
theorem ext_lookup (h : ∀ place, lookup place s = lookup place t) : s = t := by
  refine Storage.ext (ExtTreeMap.ext_getElem? fun key ↦ h (.top key))
    (ExtTreeMap.ext_getElem? fun child ↦ ?_)
  have hinfo : s.childInfo child = t.childInfo child := h (.info child)
  rw [childInfo, childInfo] at hinfo
  have hvalue : ∀ key, s.childValue child key = t.childValue child key :=
    fun key ↦ h (.value child key)
  simp only [childValue] at hvalue
  rcases hs : s.childrenDefault[child]? with _ | ⟨data, info⟩
  · rw [hs] at hinfo
    exact (Option.map_eq_none_iff.mp hinfo.symm).symm
  · rw [hs] at hinfo hvalue
    obtain ⟨⟨data', info'⟩, ht, hinfos⟩ := Option.map_eq_some_iff.mp hinfo.symm
    rw [ht] at hvalue
    have hdata : data = data' := ExtTreeMap.ext_getElem? hvalue
    have hsame : info'.data = info.data := hinfos
    rw [ht, hdata, show info = info' from (ChildInfo.mk.injEq _ _).mpr hsame.symm]

theorem lookup_empty (place : Place) : lookup place {} = none := by
  have hchild : ∀ child : Bytes, ({} : Storage).childrenDefault[child]? = none :=
    fun child ↦ ExtTreeMap.getElem?_empty
  cases place with
  | top key => exact ExtTreeMap.getElem?_empty
  | info child => rw [lookup, childInfo, hchild, Option.map_none]
  | value child key => rw [lookup, childValue, hchild, Option.bind_none]

/-! ## A merge, place by place -/

theorem foldl_putChild_of_mem (hkeys : (entries.map Prod.fst).Nodup) {child : Bytes}
    {otherMap : StorageChild} (hmem : (child, otherMap) ∈ entries) (g : Storage) :
    (entries.foldl putChild g).childrenDefault[child]? =
      some (mergeChild g.childrenDefault[child]? otherMap) := by
  induction entries generalizing g with
  | nil => cases hmem
  | cons entry entries ih =>
    obtain ⟨hentry, hkeys⟩ := List.nodup_cons.mp hkeys
    rw [List.foldl_cons]
    rcases List.mem_cons.mp hmem with rfl | hmem
    · have hother : ∀ e ∈ entries, e.1 ≠ child :=
        fun e he heq ↦ hentry (List.mem_map.mpr ⟨e, he, heq⟩)
      rw [foldl_putChild_of_ne hother, putChild_self _ (child, otherMap)]
    · have hne : entry.1 ≠ child := fun heq ↦ hentry (List.mem_map.mpr ⟨_, hmem, heq.symm⟩)
      rw [ih hkeys hmem, putChild_of_ne hne]

/-- The children of two storages agree on their infos wherever their keys coincide. -/
def Agree (s t : Storage) : Prop :=
  ∀ (child : Bytes) (a b : StorageChild), s.childrenDefault[child]? = some a →
    t.childrenDefault[child]? = some b → a.childInfo = b.childInfo

theorem Agree.symm (h : Agree s t) : Agree t s :=
  fun child a b ha hb ↦ (h child b a hb ha).symm

/-- The genesis after a merge that was not refused. -/
def merge (O : ChildOrder) (g s : Storage) : Storage :=
  (O.iter s.childrenDefault).foldl putChild (g.extendTop s.top)

theorem merge_child (O : ChildOrder) (g s : Storage) (child : Bytes) :
    (merge O g s).childrenDefault[child]? = match s.childrenDefault[child]? with
      | some otherMap => some (mergeChild g.childrenDefault[child]? otherMap)
      | none => g.childrenDefault[child]? := by
  rcases hs : s.childrenDefault[child]? with _ | otherMap
  · refine foldl_putChild_of_ne (fun entry hentry heq ↦ ?_) _
    rw [← heq, O.mem_iter.mp hentry] at hs
    cases hs
  · exact foldl_putChild_of_mem (O.nodup_keys _) (O.mem_iter.mpr hs) _

/-- **A merge overwrites** every place that the new storage has. -/
theorem lookup_merge (O : ChildOrder) (h : Agree g s) (place : Place) :
    lookup place (merge O g s) = (lookup place s).or (lookup place g) := by
  cases place with
  | top key =>
    change (merge O g s).top[key]? = _
    rw [merge, foldl_putChild_top]
    exact getElem?_extend g.top s.top key
  | info child =>
    change (merge O g s).childInfo child = (s.childInfo child).or (g.childInfo child)
    rw [childInfo, merge_child, childInfo, childInfo]
    rcases hs : s.childrenDefault[child]? with _ | otherMap
    · rfl
    · rcases hg : g.childrenDefault[child]? with _ | map
      · rfl
      · exact congrArg (fun info : ChildInfo ↦ some info.data) (h child map otherMap hg hs)
  | value child key =>
    change (merge O g s).childValue child key =
      (s.childValue child key).or (g.childValue child key)
    rw [childValue, merge_child, childValue, childValue]
    rcases hs : s.childrenDefault[child]? with _ | otherMap
    · rfl
    · rcases hg : g.childrenDefault[child]? with _ | map
      · exact (Option.or_none).symm
      · exact getElem?_extend map.data otherMap.data key

theorem Agree.merge (O : ChildOrder) (hg : Agree g t) (hs : Agree s t) :
    Agree (Storage.merge O g s) t := by
  intro child a b ha hb
  rw [merge_child] at ha
  rcases hother : s.childrenDefault[child]? with _ | otherMap
  · rw [hother] at ha
    exact hg child a b ha hb
  · rw [hother] at ha
    obtain rfl := Option.some.inj ha
    rcases hmap : g.childrenDefault[child]? with _ | map
    · exact hs child otherMap b hother hb
    · exact hg child map b hmap hb

/-! ## Merges one after the other -/

/-- **Every place** is what was written there last. -/
theorem lookup_foldl_merge (O : ChildOrder) {ss : List Storage} (hss : ss.Pairwise Agree)
    (hg : ∀ s ∈ ss, Agree g s) (place : Place) :
    lookup place (ss.foldl (merge O) g) = lastWrite (lookup place g) (ss.map (lookup place)) := by
  induction ss generalizing g with
  | nil => rfl
  | cons s ss ih =>
    obtain ⟨hs, hss⟩ := List.pairwise_cons.mp hss
    obtain ⟨hgs, hgss⟩ := List.forall_mem_cons.mp hg
    rw [List.foldl_cons, ih hss fun t ht ↦ (hgss t ht).merge O (hs t ht), lookup_merge O hgs]
    rfl

theorem agree_foldl_merge (O : ChildOrder) {ss : List Storage} (hg : Agree g t)
    (hss : ∀ s ∈ ss, Agree s t) : Agree (ss.foldl (merge O) g) t := by
  induction ss generalizing g with
  | nil => exact hg
  | cons s ss ih =>
    obtain ⟨hs, hss⟩ := List.forall_mem_cons.mp hss
    exact ih (hg.merge O hs) hss

theorem agree_of_childless (hg : g.childrenDefault = ∅) (s : Storage) : Agree g s := by
  intro child a b ha
  rw [hg, ExtTreeMap.getElem?_empty] at ha
  cases ha

section Groups

variable {groups : List (List Storage)} (O : ChildOrder)

theorem pairwise_agree_merged (hbetween : groups.Pairwise fun group group' ↦
    ∀ s ∈ group, ∀ t ∈ group', Agree s t) :
    (groups.map fun group ↦ group.foldl (merge O) {}).Pairwise Agree := by
  rw [List.pairwise_map]
  refine hbetween.imp fun hagree ↦ ?_
  apply agree_foldl_merge O (agree_of_childless rfl _)
  intro s hs
  apply Agree.symm
  apply agree_foldl_merge O (agree_of_childless rfl _)
  exact fun t ht ↦ (hagree s hs t ht).symm

theorem lookup_merged (hwithin : ∀ group ∈ groups, group.Pairwise Agree) (place : Place) :
    (groups.map fun group ↦ group.foldl (merge O) {}).map (lookup place) =
      (groups.map (·.map (lookup place))).map (lastWrite none) := by
  rw [List.map_map, List.map_map]
  refine List.map_congr_left fun group hgroup ↦ ?_
  have h := lookup_foldl_merge O (hwithin group hgroup) (g := {})
    (fun s _ ↦ agree_of_childless rfl s) place
  rwa [lookup_empty] at h

end Groups

end Storage

namespace StateProvider

open Call
open Storage (Agree Place lookup merge)

variable {B : Type} {O : ChildOrder}

/-! ## Insertions -/

theorem insertStorage_of_agree {s : Storage} {p : StateProvider B} (h : Agree p.pseudoGenesis s) :
    insertStorage O s p = (.ok (), p.withGenesis (merge O p.pseudoGenesis s)) := by
  have hcompatible : ∀ entry ∈ O.iter s.childrenDefault, p.pseudoGenesis.Compatible entry := by
    rintro ⟨child, otherMap⟩ hentry map hmap
    exact h child map otherMap hmap (O.mem_iter.mp hentry)
  rw [insertStorage_eq, verdict, if_pos hcompatible, Storage.visited_of_compatible hcompatible]
  rfl

/-- **Insertions one after the other** return `Ok`. -/
theorem insertStorages_of_agree {ss : List Storage} (hss : ss.Pairwise Agree)
    {p : StateProvider B} (hp : ∀ s ∈ ss, Agree p.pseudoGenesis s) :
    forEach (insertStorage O) ss p =
      (.ok (), p.withGenesis (ss.foldl (merge O) p.pseudoGenesis)) := by
  induction ss generalizing p with
  | nil => rfl
  | cons s ss ih =>
    obtain ⟨hs, hss⟩ := List.pairwise_cons.mp hss
    obtain ⟨hps, hpss⟩ := List.forall_mem_cons.mp hp
    have hnext : ∀ t ∈ ss, Agree (merge O p.pseudoGenesis s) t :=
      fun t ht ↦ (hpss t ht).merge O (hs t ht)
    rw [forEach_cons, bind_of_ok (insertStorage_of_agree hps)]
    exact ih hss hnext

/-- `empty_default(code)`, followed by `insert_storage` of each storage. -/
def assemble (O : ChildOrder) (db : Except InnerError B) (code : Option Bytes)
    (ss : List Storage) : Outcome Error (StateProvider B) :=
  match emptyDefault O db code with
  | .ok p => built (forEach (insertStorage O) ss) p
  | o => o

theorem built_of_ok {c : Call (StateProvider B) Error Unit} {p p' : StateProvider B} {u : Unit}
    (h : c p = (.ok u, p')) : built c p = .ok p' := by
  rw [built, h]

theorem agree_codeStorage (code : Option Bytes) (s : Storage) : Agree (codeStorage code) s := by
  apply Storage.agree_of_childless
  cases code <;> rfl

theorem lookup_codeStorage (code : Option Bytes) (place : Place) :
    lookup place (codeStorage code) = if place = .top codeKey then code else none := by
  cases code with
  | none =>
    rw [ite_self]
    exact Storage.lookup_empty place
  | some code =>
    cases place with
    | top key =>
      change ((∅ : StorageMap).insert codeKey code)[key]? = _
      by_cases hkey : codeKey = key
      · rw [hkey, ExtTreeMap.getElem?_insert_self, if_pos rfl]
      · rw [if_neg fun heq ↦ hkey (Place.top.inj heq).symm, ExtTreeMap.getElem?_insert, if_neg,
          ExtTreeMap.getElem?_empty]
        rwa [LawfulEqOrd.compare_eq_iff_eq]
    | info child => exact Storage.lookup_empty (.info child)
    | value child key => exact Storage.lookup_empty (.value child key)

theorem insertStorage_of_empty (b : B) (s : Storage) :
    insertStorage O s ⟨b, {}⟩ = (.ok (), ⟨b, s⟩) := by
  have hagree : Agree ({} : Storage) s := Storage.agree_of_childless rfl s
  have hmerge : merge O {} s = s := by
    refine Storage.ext_lookup fun place ↦ ?_
    rw [Storage.lookup_merge O hagree, Storage.lookup_empty, Option.or_none]
  have hinsert := insertStorage_of_agree (O := O) (p := ⟨b, {}⟩) hagree
  rwa [hmerge] at hinsert

theorem emptyDefault_eq (b : B) (code : Option Bytes) :
    emptyDefault O (.ok b) code = .ok ⟨b, codeStorage code⟩ :=
  built_of_ok (insertStorage_of_empty b _)

theorem assemble_of_agree (b : B) (code : Option Bytes) {ss : List Storage}
    (hss : ss.Pairwise Agree) :
    assemble O (.ok b) code ss = .ok ⟨b, ss.foldl (merge O) (codeStorage code)⟩ := by
  rw [assemble, emptyDefault_eq]
  exact built_of_ok (insertStorages_of_agree hss fun s _ ↦ agree_codeStorage code s)

/-- **Genesis merging.** The last writer wins at every key; the code is that of `empty_default` if
no storage has one; and storages may be merged in groups before they are inserted. -/
theorem genesis_last_writer (O : ChildOrder) (b : B) (code : Option Bytes) {ss : List Storage}
    (hss : ss.Pairwise Agree) :
    ∃ p g, assemble O (.ok b) code ss = .ok p ∧ p.buildStorage = .ok g ∧
      (∀ key v, g.top[key]? = some v ↔ WrittenLast (fun s : Storage ↦ s.top[key]?) ss v ∨
        ((∀ s ∈ ss, s.top[key]? = none) ∧ key = codeKey ∧ code = some v)) ∧
      (∀ child key v, g.childValue child key = some v ↔
        WrittenLast (Storage.childValue child key) ss v) ∧
      (∀ child info, g.childInfo child = some info ↔
        WrittenLast (Storage.childInfo child) ss info) ∧
      ∀ (O' : ChildOrder) (b' : B) (groups : List (List Storage)), groups.flatten = ss →
        ∃ merged, List.Forall₂ (fun group m ↦ ∃ q, assemble O' (.ok b') none group = .ok q ∧
            q.buildStorage = .ok m) groups merged ∧
          assemble O' (.ok b) code merged = .ok p := by
  have hcode : ∀ s ∈ ss, Agree (codeStorage code) s := fun s _ ↦ agree_codeStorage code s
  have hplace := fun place ↦ Storage.lookup_foldl_merge O hss hcode place
  refine ⟨_, _, assemble_of_agree b code hss, rfl, fun key v ↦ ?_, fun child key v ↦ ?_,
    fun child info ↦ ?_, fun O' b' groups hgroups ↦ ?_⟩
  · have h := hplace (.top key)
    rw [lookup_codeStorage] at h
    change (ss.foldl (merge O) (codeStorage code)).top[key]? = _ at h
    rw [h, lastWrite_eq_some_iff]
    refine or_congr Iff.rfl (and_congr Iff.rfl ?_)
    by_cases hkey : key = codeKey
    · simp [hkey]
    · simp [hkey]
  · have h := hplace (.value child key)
    rw [lookup_codeStorage, if_neg (by simp)] at h
    change (ss.foldl (merge O) (codeStorage code)).childValue child key = _ at h
    rw [h, lastWrite_eq_some_iff]
    exact or_iff_left fun hno ↦ Option.some_ne_none v hno.2.symm
  · have h := hplace (.info child)
    rw [lookup_codeStorage, if_neg (by simp)] at h
    change (ss.foldl (merge O) (codeStorage code)).childInfo child = _ at h
    rw [h, lastWrite_eq_some_iff]
    exact or_iff_left fun hno ↦ Option.some_ne_none info hno.2.symm
  · subst hgroups
    obtain ⟨hwithin, hbetween⟩ := List.pairwise_flatten.mp hss
    refine ⟨groups.map fun group ↦ group.foldl (merge O') {}, ?_, ?_⟩
    · rw [List.forall₂_map_right_iff, List.forall₂_same]
      exact fun group hgroup ↦ ⟨_, assemble_of_agree b' none (hwithin group hgroup), rfl⟩
    · have hmerged := Storage.pairwise_agree_merged O' hbetween
      rw [assemble_of_agree b code hmerged]
      refine congrArg (fun g ↦ Outcome.ok (StateProvider.mk b g))
        (Storage.ext_lookup fun place ↦ ?_)
      rw [hplace, Storage.lookup_foldl_merge O' hmerged fun s _ ↦ agree_codeStorage code s,
        Storage.lookup_merged O' hwithin, ← lastWrite_flatten, List.map_flatten]

/-- A storage with one key, and one child trie with one key. -/
def smallStorage (value childValue : UInt8) : Storage where
  top := (∅ : StorageMap).insert [5] [value]
  childrenDefault := (∅ : ExtTreeMap Bytes StorageChild).insert [1] (oneEntry 1 7 childValue)

theorem agree_smallStorage (v w v' w' : UInt8) : Agree (smallStorage v w) (smallStorage v' w') := by
  have hinfo : ∀ (v w : UInt8) (child : Bytes) (a : StorageChild),
      (smallStorage v w).childrenDefault[child]? = some a → a.childInfo = ⟨[1]⟩ := by
    intro v w child a ha
    rw [smallStorage, ExtTreeMap.getElem?_insert] at ha
    by_cases hchild : compare [1] child = .eq
    · rw [if_pos hchild] at ha
      exact congrArg StorageChild.childInfo (Option.some.inj ha).symm
    · rw [if_neg hchild, ExtTreeMap.getElem?_empty] at ha
      cases ha
  intro child a b ha hb
  rw [hinfo v w child a ha, hinfo v' w' child b hb]

theorem genesis_last_writer_two :
    ∃ p g, assemble .byKey (.ok ()) (some [0]) [smallStorage 6 7, smallStorage 8 9] = .ok p ∧
      p.buildStorage = .ok g ∧ g.top[([5] : Bytes)]? = some [8] ∧
      g.childValue [1] [7] = some [9] ∧ g.top[codeKey]? = some [0] := by
  have hagree : [smallStorage 6 7, smallStorage 8 9].Pairwise Agree :=
    List.pairwise_pair.mpr (agree_smallStorage _ _ _ _)
  obtain ⟨p, g, hp, hg, htop, hvalue, -⟩ := genesis_last_writer .byKey () (some [0]) hagree
  refine ⟨p, g, hp, hg, (htop _ _).mpr (Or.inl ?_), (hvalue _ _ _).mpr ?_,
    (htop _ _).mpr (Or.inr ⟨?_, rfl, rfl⟩)⟩
  · exact ⟨[smallStorage 6 7], smallStorage 8 9, [], rfl, by decide +kernel, by simp⟩
  · exact ⟨[smallStorage 6 7], smallStorage 8 9, [], rfl, by decide +kernel, by simp⟩
  · decide +kernel

end StateProvider

end Fudge
