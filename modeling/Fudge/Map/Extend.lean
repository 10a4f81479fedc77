import Mathlib.Data.List.Basic

/-!
# Ordered maps that are extended

`BTreeMap::extend` overwrites: where both maps have a key, the value of the added map stays. This
file has the few facts about it that are needed, for any ordered key type, and the reading of a
whole sequence of extensions.

A sequence of writes to one place is a list of options, oldest first, in which `none` is a write
that does not touch the place. `lastWrite` is what is read afterwards. A structure of maps is
analysed one place at a time, and then the whole theory of merging is that of this one fold.
-/

namespace Fudge

open Std

/-! ## One place -/

section Place

variable {σ α V : Type}

/-- What is read after the writes `os` to a place that holds `before`. -/
def lastWrite (before : Option V) (os : List (Option V)) : Option V :=
  os.foldl (fun o write ↦ write.or o) before

@[simp] theorem lastWrite_nil (before : Option V) : lastWrite before [] = before := rfl

@[simp] theorem lastWrite_cons (before o : Option V) (os : List (Option V)) :
    lastWrite before (o :: os) = lastWrite (o.or before) os := rfl

/-- The place goes back to what it held before exactly if no later write reached it. -/
theorem lastWrite_eq_or (before : Option V) (os : List (Option V)) :
    lastWrite before os = (lastWrite none os).or before := by
  induction os generalizing before with
  | nil => rfl
  | cons o os ih =>
    rw [lastWrite_cons, lastWrite_cons, ih, ih (o.or none), Option.or_none, Option.or_assoc]

theorem lastWrite_append (before : Option V) (os os' : List (Option V)) :
    lastWrite before (os ++ os') = lastWrite (lastWrite before os) os' := List.foldl_append

theorem lastWrite_flatten (before : Option V) (groups : List (List (Option V))) :
    lastWrite before groups.flatten = lastWrite before (groups.map (lastWrite none)) := by
  induction groups generalizing before with
  | nil => rfl
  | cons os groups ih =>
    rw [List.flatten_cons, lastWrite_append, ih, List.map_cons, lastWrite_cons,
      ← lastWrite_eq_or]

/-- The last of the writers `l` that wrote to the place wrote `v`. -/
def WrittenLast (write : α → Option V) (l : List α) (v : V) : Prop :=
  ∃ pre a post, l = pre ++ a :: post ∧ write a = some v ∧ ∀ b ∈ post, write b = none

/-- **The last writer wins.** -/
theorem lastWrite_eq_some_iff {before : Option V} {write : α → Option V} {l : List α} {v : V} :
    lastWrite before (l.map write) = some v ↔
      WrittenLast write l v ∨ ((∀ a ∈ l, write a = none) ∧ before = some v) := by
  induction l generalizing before with
  | nil => simp [WrittenLast]
  | cons a l ih =>
    rw [List.map_cons, lastWrite_cons, ih]
    constructor
    · rintro (⟨pre, b, post, rfl, hb⟩ | ⟨hnone, hbefore⟩)
      · exact Or.inl ⟨a :: pre, b, post, rfl, hb⟩
      · rcases ha : write a with _ | w
        · rw [ha] at hbefore
          exact Or.inr ⟨List.forall_mem_cons.mpr ⟨ha, hnone⟩, hbefore⟩
        · rw [ha] at hbefore
          exact Or.inl ⟨[], a, l, rfl, ha.trans hbefore, hnone⟩
    · rintro (⟨pre, b, post, hsplit, hb, hpost⟩ | ⟨hnone, rfl⟩)
      · rcases pre with _ | ⟨c, pre⟩
        · obtain ⟨rfl, rfl⟩ := List.cons.inj hsplit
          exact Or.inr ⟨hpost, by rw [hb]; rfl⟩
        · obtain ⟨-, rfl⟩ := List.cons.inj hsplit
          exact Or.inl ⟨pre, b, post, rfl, hb, hpost⟩
      · obtain ⟨ha, hl⟩ := List.forall_mem_cons.mp hnone
        exact Or.inr ⟨hl, by rw [ha]; rfl⟩

end Place

/-! ## Maps -/

section Maps

variable {K V : Type} [Ord K] [TransOrd K] [LawfulEqOrd K]

/-- `m.extend(n.into_iter())`. -/
def extend (m n : ExtTreeMap K V) : ExtTreeMap K V := m.insertMany n.toList

theorem getElem?_extend (m n : ExtTreeMap K V) (k : K) : (extend m n)[k]? = n[k]?.or m[k]? := by
  classical
  rcases hk : n[k]? with _ | v
  · have hnot : ((n.toList).map Prod.fst).contains k = false := by
      rw [ExtTreeMap.map_fst_toList_eq_keys, ← Bool.not_eq_true, List.contains_iff_mem,
        ExtTreeMap.mem_keys, ExtTreeMap.mem_iff_isSome_getElem?, hk]
      exact Bool.false_ne_true
    exact ExtTreeMap.getElem?_insertMany_list_of_contains_eq_false hnot
  · exact ExtTreeMap.getElem?_insertMany_list_of_mem (ReflOrd.compare_self)
      ExtTreeMap.distinct_keys_toList (ExtTreeMap.mem_toList_iff_getElem?_eq_some.mpr hk)

/-- Every entry of `n` is one of `m`. -/
def Included (n m : ExtTreeMap K V) : Prop := ∀ (k : K) (v : V), n[k]? = some v → m[k]? = some v

theorem extend_eq_self_iff {m n : ExtTreeMap K V} : extend m n = m ↔ Included n m := by
  constructor
  · intro h k v hk
    rw [← h, getElem?_extend, hk]
    rfl
  · intro h
    refine ExtTreeMap.ext_getElem? fun k ↦ ?_
    rw [getElem?_extend]
    rcases hk : n[k]? with _ | v
    · rfl
    · exact (h k v hk).symm

end Maps

end Fudge
