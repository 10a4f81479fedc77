import Fudge.Call.Rules
import Fudge.Core.Chain
import Fudge.Map.Extend

/-!
# The state provider

`StateProvider` collects the storages that a builder starts from into one genesis. The definitions
follow `provider/state.rs`; the database behind a provider is handed on and never looked at.

`insert_storage` merges one storage. It extends the top map, then it goes through the child tries of
the new storage: one that is not there is put in whole, one that is there is extended, and only then
compared. A child trie with another info is the one way in which the merge fails, and by then the
top map, the child tries visited before and the data of this very child are written. When that does
no harm is `insertStorage_atomic_iff`.

The order in which the child tries are visited is that of their map type. It is a parameter,
`ChildOrder`, of which nothing is assumed but that it visits every entry once.
-/

namespace Fudge

open Std

abbrev StorageMap := ExtTreeMap Bytes Bytes

/-- `ChildInfo`, as far as it is compared. -/
structure ChildInfo where
  data : Bytes
deriving DecidableEq, Repr

/-- `ChildInfo::try_update`: whether the two are the same. Nothing is changed. -/
def ChildInfo.tryUpdate (info other : ChildInfo) : Bool := info.data == other.data

theorem ChildInfo.tryUpdate_iff {info other : ChildInfo} :
    info.tryUpdate other = true ↔ info = other := by
  rw [ChildInfo.tryUpdate, beq_iff_eq, ChildInfo.mk.injEq]

structure StorageChild where
  data : StorageMap
  childInfo : ChildInfo

/-- `sp_storage::Storage`. -/
@[ext] structure Storage where
  top : StorageMap := ∅
  childrenDefault : ExtTreeMap Bytes StorageChild := ∅

/-- The order in which the entries of `children_default` are visited. -/
structure ChildOrder where
  iter : ExtTreeMap Bytes StorageChild → List (Bytes × StorageChild)
  perm : ∀ m, (iter m).Perm m.toList

def ChildOrder.byKey : ChildOrder := ⟨fun m ↦ m.toList, fun _ ↦ .refl _⟩

/-- `well_known_keys::CODE`, which is `:code`. -/
def codeKey : Bytes := [58, 99, 111, 100, 101]

/-! ## The merge of one child trie -/

/-- A child trie after it was extended, or the new one where there was none. The info is that of the
old one. -/
def mergeChild : Option StorageChild → StorageChild → StorageChild
  | some map, otherMap => { map with data := extend map.data otherMap.data }
  | none, otherMap => otherMap

namespace Storage

/-- What one round of the loop of `insert_storage` writes. -/
def putChild (g : Storage) (entry : Bytes × StorageChild) : Storage :=
  { g with
    childrenDefault := g.childrenDefault.insert entry.1
      (mergeChild g.childrenDefault[entry.1]? entry.2) }

/-- `top.extend(other)`. -/
def extendTop (g : Storage) (top : StorageMap) : Storage := { g with top := extend g.top top }

end Storage

structure StateProvider (B : Type) where
  backend : B
  pseudoGenesis : Storage := {}

namespace StateProvider

/-- `state::Error`. -/
inductive Error where
  | incompatibleChildInfoUpdate
  | dbBackendCreation (e : InnerError)
deriving DecidableEq, Repr

variable {B : Type} (O : ChildOrder)

def write (f : Storage → Storage) : Call (StateProvider B) Error Unit :=
  Call.modify fun p ↦ { p with pseudoGenesis := f p.pseudoGenesis }

/-- The loop body of `insert_storage`: the child is written, and then its info is compared. -/
def insertChild (entry : Bytes × StorageChild) : Call (StateProvider B) Error Unit := do
  let known ← Call.read (·.pseudoGenesis.childrenDefault[entry.1]?)
  write (·.putChild entry)
  match known with
  | some map =>
    if map.childInfo.tryUpdate entry.2.childInfo then pure ()
    else Call.fail .incompatibleChildInfoUpdate
  | none => pure ()

def insertStorage (s : Storage) : Call (StateProvider B) Error Unit := do
  write (·.extendTop s.top)
  Call.forEach insertChild (O.iter s.childrenDefault)

/-- The provider itself as the result of a call on it. -/
def built (c : Call (StateProvider B) Error Unit) (p : StateProvider B) :
    Outcome Error (StateProvider B) :=
  match c p with
  | (.ok _, p') => .ok p'
  | (.err e, _) => .err e
  | (.panic, _) => .panic

/-- `with_in_mem_db`, given the outcome of opening the database. -/
def withInMemDb : Except InnerError B → Outcome Error (StateProvider B)
  | .ok backend => .ok { backend := backend }
  | .error e => .err (.dbBackendCreation e)

/-- The storage that `empty_default` starts from. -/
def codeStorage : Option Bytes → Storage
  | some code => { top := (∅ : StorageMap).insert codeKey code }
  | none => {}

def emptyDefault (db : Except InnerError B) (code : Option Bytes) :
    Outcome Error (StateProvider B) :=
  match withInMemDb db with
  | .ok p => built (insertStorage O (codeStorage code)) p
  | o => o

def fromStorage (db : Except InnerError B) (s : Storage) : Outcome Error (StateProvider B) :=
  match emptyDefault O db none with
  | .ok p => built (insertStorage O s) p
  | o => o

/-- `build_storage`, which has no error. -/
def buildStorage (p : StateProvider B) : Except String Storage := .ok p.pseudoGenesis

end StateProvider

/-! ## What a child trie is after a merge -/

namespace Storage

variable {g : Storage} {entry : Bytes × StorageChild} {entries : List (Bytes × StorageChild)}

theorem putChild_self (g : Storage) (entry : Bytes × StorageChild) :
    (g.putChild entry).childrenDefault[entry.1]? =
      some (mergeChild g.childrenDefault[entry.1]? entry.2) :=
  ExtTreeMap.getElem?_insert_self

theorem putChild_of_ne {key : Bytes} (h : entry.1 ≠ key) (g : Storage) :
    (g.putChild entry).childrenDefault[key]? = g.childrenDefault[key]? := by
  rw [putChild, ExtTreeMap.getElem?_insert, if_neg]
  rwa [LawfulEqOrd.compare_eq_iff_eq]

@[simp] theorem putChild_top (g : Storage) (entry : Bytes × StorageChild) :
    (g.putChild entry).top = g.top := rfl

@[simp] theorem foldl_putChild_top (entries : List (Bytes × StorageChild)) (g : Storage) :
    (entries.foldl putChild g).top = g.top := by
  induction entries generalizing g with
  | nil => rfl
  | cons entry entries ih => rw [List.foldl_cons, ih, putChild_top]

theorem foldl_putChild_of_ne {key : Bytes} (h : ∀ entry ∈ entries, entry.1 ≠ key) (g : Storage) :
    (entries.foldl putChild g).childrenDefault[key]? = g.childrenDefault[key]? := by
  induction entries generalizing g with
  | nil => rfl
  | cons entry entries ih =>
    obtain ⟨hentry, hentries⟩ := List.forall_mem_cons.mp h
    rw [List.foldl_cons, ih hentries, putChild_of_ne hentry]

/-- The genesis has a child trie under the key, with all entries of the new one. -/
def Present (g : Storage) (entry : Bytes × StorageChild) : Prop :=
  ∃ map, g.childrenDefault[entry.1]? = some map ∧ Included entry.2.data map.data

/-- No child trie with another info is in the way. -/
def Compatible (g : Storage) (entry : Bytes × StorageChild) : Prop :=
  ∀ map, g.childrenDefault[entry.1]? = some map → map.childInfo = entry.2.childInfo

instance (g : Storage) (entry : Bytes × StorageChild) : Decidable (Compatible g entry) :=
  match h : g.childrenDefault[entry.1]? with
  | some map => decidable_of_iff (map.childInfo = entry.2.childInfo) (by rw [Compatible]; simp [h])
  | none => isTrue (by rw [Compatible]; simp [h])

theorem compatible_congr {g' : Storage}
    (h : g'.childrenDefault[entry.1]? = g.childrenDefault[entry.1]?) :
    Compatible g' entry ↔ Compatible g entry := by
  rw [Compatible, Compatible, h]

theorem putChild_eq_self (h : (g.putChild entry).childrenDefault[entry.1]? =
    g.childrenDefault[entry.1]?) : g.putChild entry = g := by
  refine Storage.ext (putChild_top g entry) (ExtTreeMap.ext_getElem? fun key ↦ ?_)
  by_cases hkey : entry.1 = key
  · rw [← hkey, h]
  · rw [putChild_of_ne hkey]

theorem putChild_eq_self_iff : g.putChild entry = g ↔ g.Present entry := by
  constructor
  · intro h
    have hself := putChild_self g entry
    rw [h] at hself
    rcases hknown : g.childrenDefault[entry.1]? with _ | map
    · rw [hknown] at hself
      cases hself
    · rw [hknown] at hself
      have hdata : map.data = extend map.data entry.2.data :=
        congrArg StorageChild.data (Option.some.inj hself)
      exact ⟨map, hknown, extend_eq_self_iff.mp hdata.symm⟩
  · rintro ⟨map, hknown, hincluded⟩
    have hmerge : mergeChild (some map) entry.2 = map := by
      rw [mergeChild, extend_eq_self_iff.mpr hincluded]
    apply putChild_eq_self
    rw [putChild_self, hknown, hmerge]

/-- Entries under different keys are all there before exactly if they change nothing. -/
theorem foldl_putChild_eq_self_iff (hkeys : (entries.map Prod.fst).Nodup) (g : Storage) :
    entries.foldl putChild g = g ↔ ∀ entry ∈ entries, g.Present entry := by
  induction entries generalizing g with
  | nil => simp
  | cons entry entries ih =>
    obtain ⟨hentry, hkeys⟩ := List.nodup_cons.mp hkeys
    have hother : ∀ e ∈ entries, e.1 ≠ entry.1 :=
      fun e he heq ↦ hentry (List.mem_map.mpr ⟨e, he, heq⟩)
    rw [List.foldl_cons, List.forall_mem_cons]
    constructor
    · intro h
      -- the rest of the entries does not touch this child, so it was not changed here either
      have hchild := foldl_putChild_of_ne hother (g.putChild entry)
      rw [h] at hchild
      have hself : g.putChild entry = g := putChild_eq_self hchild.symm
      rw [hself] at h
      exact ⟨putChild_eq_self_iff.mp hself, (ih hkeys g).mp h⟩
    · rintro ⟨hpresent, hrest⟩
      rw [putChild_eq_self_iff.mpr hpresent]
      exact (ih hkeys g).mpr hrest

end Storage

/-! ## The order of the children -/

theorem ChildOrder.nodup_keys (O : ChildOrder) (m : ExtTreeMap Bytes StorageChild) :
    ((O.iter m).map Prod.fst).Nodup := by
  rw [((O.perm m).map Prod.fst).nodup_iff, ExtTreeMap.map_fst_toList_eq_keys]
  exact ExtTreeMap.nodup_keys

theorem ChildOrder.mem_iter (O : ChildOrder) {m : ExtTreeMap Bytes StorageChild} {key : Bytes}
    {child : StorageChild} : (key, child) ∈ O.iter m ↔ m[key]? = some child := by
  rw [(O.perm m).mem_iff, ExtTreeMap.mem_toList_iff_getElem?_eq_some]

/-! ## What a merge does -/

namespace Storage

/-- The entries that the loop gets to: those up to the first one with another info. -/
def visited (g : Storage) : List (Bytes × StorageChild) → List (Bytes × StorageChild)
  | [] => []
  | entry :: entries => if g.Compatible entry then entry :: visited g entries else [entry]

variable {g g' : Storage} {entries : List (Bytes × StorageChild)}

theorem visited_sublist (g : Storage) (entries : List (Bytes × StorageChild)) :
    (g.visited entries).Sublist entries := by
  induction entries with
  | nil => exact .slnil
  | cons entry entries ih =>
    rw [visited]
    by_cases h : g.Compatible entry
    · rw [if_pos h]
      exact ih.cons_cons entry
    · rw [if_neg h]
      exact (List.nil_sublist entries).cons_cons entry

theorem visited_of_compatible (h : ∀ entry ∈ entries, g.Compatible entry) :
    g.visited entries = entries := by
  induction entries with
  | nil => rfl
  | cons entry entries ih =>
    obtain ⟨hentry, hentries⟩ := List.forall_mem_cons.mp h
    rw [visited, if_pos hentry, ih hentries]

theorem visited_congr (h : ∀ entry ∈ entries,
    g'.childrenDefault[entry.1]? = g.childrenDefault[entry.1]?) :
    g'.visited entries = g.visited entries := by
  induction entries with
  | nil => rfl
  | cons entry entries ih =>
    obtain ⟨hentry, hentries⟩ := List.forall_mem_cons.mp h
    simp only [visited, compatible_congr hentry, ih hentries]

end Storage

namespace StateProvider

open Call

variable {B : Type} {O : ChildOrder}

def withGenesis (g : Storage) (p : StateProvider B) : StateProvider B :=
  { p with pseudoGenesis := g }

@[simp] theorem withGenesis_pseudoGenesis (g : Storage) (p : StateProvider B) :
    (p.withGenesis g).pseudoGenesis = g := rfl

theorem write_apply (f : Storage → Storage) (p : StateProvider B) :
    write f p = (.ok (), p.withGenesis (f p.pseudoGenesis)) := rfl

def verdict (compatible : Prop) [Decidable compatible] : Outcome Error Unit :=
  if compatible then .ok () else .err .incompatibleChildInfoUpdate

theorem insertChild_eq (entry : Bytes × StorageChild) (p : StateProvider B) :
    insertChild entry p = (verdict (p.pseudoGenesis.Compatible entry),
      p.withGenesis (p.pseudoGenesis.putChild entry)) := by
  rw [insertChild, bind_of_ok (read_apply _ p), bind_of_ok (write_apply _ p), verdict]
  rcases hknown : p.pseudoGenesis.childrenDefault[entry.1]? with _ | map
  · have hcompatible : p.pseudoGenesis.Compatible entry := by simp [Storage.Compatible, hknown]
    rw [if_pos hcompatible]
    rfl
  · by_cases hinfo : map.childInfo = entry.2.childInfo
    · have hcompatible : p.pseudoGenesis.Compatible entry := by
        simpa [Storage.Compatible, hknown] using hinfo
      simp only [if_pos hcompatible, if_pos (ChildInfo.tryUpdate_iff.mpr hinfo)]
      rfl
    · have hcompatible : ¬ p.pseudoGenesis.Compatible entry := by
        simpa [Storage.Compatible, hknown] using hinfo
      simp only [if_neg hcompatible, if_neg (mt ChildInfo.tryUpdate_iff.mp hinfo)]
      rfl

/-- **The loop** writes the children up to the first one with another info, that one included. -/
theorem insertChildren_eq {entries : List (Bytes × StorageChild)}
    (hkeys : (entries.map Prod.fst).Nodup) (p : StateProvider B) :
    forEach insertChild entries p =
      (verdict (∀ entry ∈ entries, p.pseudoGenesis.Compatible entry),
        p.withGenesis ((p.pseudoGenesis.visited entries).foldl Storage.putChild
          p.pseudoGenesis)) := by
  induction entries generalizing p with
  | nil => rfl
  | cons entry entries ih =>
    obtain ⟨hentry, hkeys⟩ := List.nodup_cons.mp hkeys
    -- the children that come later are still those of the old genesis
    have hlater : ∀ e ∈ entries, (p.pseudoGenesis.putChild entry).childrenDefault[e.1]? =
        p.pseudoGenesis.childrenDefault[e.1]? := fun e he ↦
      Storage.putChild_of_ne (fun heq ↦ hentry (List.mem_map.mpr ⟨e, he, heq.symm⟩)) _
    have hiff : (∀ e ∈ entries, (p.pseudoGenesis.putChild entry).Compatible e) ↔
        ∀ e ∈ entries, p.pseudoGenesis.Compatible e :=
      forall₂_congr fun e he ↦ Storage.compatible_congr (hlater e he)
    have hstep := insertChild_eq entry p
    rw [forEach_cons, Storage.visited]
    by_cases hcompatible : p.pseudoGenesis.Compatible entry
    · rw [verdict, if_pos hcompatible] at hstep
      rw [bind_of_ok hstep, ih hkeys, if_pos hcompatible, List.foldl_cons]
      simp only [withGenesis, verdict, hiff, Storage.visited_congr hlater, List.forall_mem_cons,
        hcompatible, true_and]
    · rw [verdict, if_neg hcompatible] at hstep
      rw [bind_of_err hstep, if_neg hcompatible, verdict, if_neg]
      · rfl
      · exact fun hall ↦ hcompatible (hall entry List.mem_cons_self)

/-- **What `insert_storage` does**: it extends the top map and merges the children that it gets
to. -/
theorem insertStorage_eq (s : Storage) (p : StateProvider B) :
    insertStorage O s p =
      (verdict (∀ entry ∈ O.iter s.childrenDefault, p.pseudoGenesis.Compatible entry),
        p.withGenesis ((p.pseudoGenesis.visited (O.iter s.childrenDefault)).foldl Storage.putChild
          (p.pseudoGenesis.extendTop s.top))) := by
  rw [insertStorage, bind_of_ok (write_apply _ p), insertChildren_eq (O.nodup_keys _)]
  have hchildren : ∀ entry ∈ O.iter s.childrenDefault,
      (p.pseudoGenesis.extendTop s.top).childrenDefault[entry.1]? =
        p.pseudoGenesis.childrenDefault[entry.1]? := fun _ _ ↦ rfl
  rw [withGenesis_pseudoGenesis, Storage.visited_congr hchildren]
  rfl

/-! ## A refused merge -/

/-- Everything is there already that a refused merge of `s` gets to write: the entries of the top
map, and the child tries up to the first one with another info, with their entries. -/
def NothingNew (O : ChildOrder) (s g : Storage) : Prop :=
  (∃ entry ∈ O.iter s.childrenDefault, ¬ g.Compatible entry) →
    Included s.top g.top ∧
      ∀ entry ∈ g.visited (O.iter s.childrenDefault), g.Present entry

/-- **A refused merge** changes nothing if and only if there was nothing new in it. -/
theorem insertStorage_atomic_iff (O : ChildOrder) (s : Storage) (p : StateProvider B) :
    ((insertStorage O s p).1 = .err .incompatibleChildInfoUpdate →
        (insertStorage O s p).2.pseudoGenesis = p.pseudoGenesis) ↔
      NothingNew O s p.pseudoGenesis := by
  let entries := O.iter s.childrenDefault
  have hkeys : ((p.pseudoGenesis.visited entries).map Prod.fst).Nodup :=
    (O.nodup_keys _).sublist ((Storage.visited_sublist _ entries).map Prod.fst)
  have hrefused : verdict (∀ entry ∈ entries, p.pseudoGenesis.Compatible entry) =
      .err .incompatibleChildInfoUpdate ↔
        ∃ entry ∈ entries, ¬ p.pseudoGenesis.Compatible entry := by
    rw [verdict]
    by_cases hall : ∀ entry ∈ entries, p.pseudoGenesis.Compatible entry
    · simpa [if_pos hall] using hall
    · simpa [if_neg hall] using hall
  have hsame : (p.pseudoGenesis.visited entries).foldl Storage.putChild
      (p.pseudoGenesis.extendTop s.top) = p.pseudoGenesis ↔
        Included s.top p.pseudoGenesis.top ∧
          ∀ entry ∈ p.pseudoGenesis.visited entries, p.pseudoGenesis.Present entry := by
    constructor
    · intro h
      have htop : p.pseudoGenesis.extendTop s.top = p.pseudoGenesis := by
        have htop := congrArg Storage.top h
        rw [Storage.foldl_putChild_top] at htop
        exact Storage.ext htop rfl
      rw [htop] at h
      exact ⟨extend_eq_self_iff.mp (congrArg Storage.top htop),
        (Storage.foldl_putChild_eq_self_iff hkeys _).mp h⟩
    · rintro ⟨htop, hpresent⟩
      have htop : p.pseudoGenesis.extendTop s.top = p.pseudoGenesis :=
        Storage.ext (extend_eq_self_iff.mpr htop) rfl
      rw [htop]
      exact (Storage.foldl_putChild_eq_self_iff hkeys _).mpr hpresent
  rw [insertStorage_eq, NothingNew]
  exact imp_congr hrefused hsame

def oneEntry (info key value : UInt8) : StorageChild :=
  ⟨(∅ : StorageMap).insert [key] [value], ⟨[info]⟩⟩

/-- The genesis has a child trie `[1]`, and the new storage has one of the same key with another
info. The merge is refused, and the top map has a new entry. -/
theorem insertStorage_not_atomic :
    let p : StateProvider Unit :=
      { backend := (), pseudoGenesis :=
          { childrenDefault := (∅ : ExtTreeMap Bytes StorageChild).insert [1] (oneEntry 1 7 7) } }
    let s : Storage :=
      { top := (∅ : StorageMap).insert [5] [6]
        childrenDefault := (∅ : ExtTreeMap Bytes StorageChild).insert [1] (oneEntry 2 8 8) }
    let out := insertStorage .byKey s p
    out.1 = .err .incompatibleChildInfoUpdate ∧ p.pseudoGenesis.top[([5] : Bytes)]? = none ∧
      out.2.pseudoGenesis.top[([5] : Bytes)]? = some [6] ∧
      out.2.pseudoGenesis ≠ p.pseudoGenesis := by
  intro p s out
  have hnew : out.2.pseudoGenesis.top[([5] : Bytes)]? = some [6] := by decide +kernel
  have hold : p.pseudoGenesis.top[([5] : Bytes)]? = none := by decide +kernel
  refine ⟨by decide +kernel, hold, hnew, fun heq ↦ ?_⟩
  rw [heq, hold] at hnew
  cases hnew

end StateProvider

end Fudge
