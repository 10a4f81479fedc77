import Mathlib.Data.List.Basic
import Mathlib.Data.List.Perm.Basic

/-!
# Two slots in a row

Items go into a first slot, advance to a second one and are taken out of it, in this order. A slot
holds one item, and whoever writes it does not look at what is there, so an item can be overwritten
in either slot; in the first one it can also be dropped. Nothing else can happen to it:

* what comes out, comes out in the order in which it went in (`run_sublist`),
* and every item that went in is out, in a slot or among the lost ones, once (`run_perm`).
-/

namespace Fudge

/-- Two slots, and what was taken out of the second one. -/
structure Pipeline (α : Type) where
  first : Option α
  second : Option α
  out : List α
deriving DecidableEq, Repr

namespace Pipeline

/-- What can happen to the slots. -/
inductive Event (α : Type) where
  | put (a : α)
  | advance
  | drop
  | take
deriving DecidableEq, Repr

variable {α : Type}

def apply : Event α → Pipeline α → Pipeline α
  | .put a, p => { p with first := some a }
  | .advance, p => match p.first with
    | some a => { p with first := none, second := some a }
    | none => p
  | .drop, p => { p with first := none }
  | .take, p => { p with second := none, out := p.out ++ p.second.toList }

def gained : Event α → List α
  | .put a => [a]
  | _ => []

def lost : Event α → Pipeline α → List α
  | .put _, p => p.first.toList
  | .advance, p => if p.first.isSome then p.second.toList else []
  | .drop, p => p.first.toList
  | .take, _ => []

def content (p : Pipeline α) : List α := p.out ++ p.second.toList ++ p.first.toList

/-! ## One event -/

theorem apply_sublist (e : Event α) (p : Pipeline α) :
    (apply e p).content.Sublist (p.content ++ gained e) := by
  obtain ⟨first, second, out⟩ := p
  cases e with
  | put a => exact (List.sublist_append_left _ _).append (List.Sublist.refl [a])
  | advance =>
    cases first with
    | none => exact List.sublist_append_left _ _
    | some a =>
      -- the first slot comes after the second one in the order anyway
      simp [apply, content, gained]
  | drop => simp [apply, content, gained]
  | take => simp [apply, content, gained]

/-- No item is made up, and none disappears but the lost one. -/
theorem apply_perm (e : Event α) (p : Pipeline α) :
    ((apply e p).content ++ lost e p).Perm (p.content ++ gained e) := by
  obtain ⟨first, second, out⟩ := p
  cases e with
  | put a =>
    have h : ([a] ++ first.toList).Perm (first.toList ++ [a]) := List.perm_append_comm
    simpa [apply, content, gained, lost] using (h.append_left second.toList).append_left out
  | advance =>
    cases first with
    | none => simp [apply, content, gained, lost]
    | some a =>
      have h : ([a] ++ second.toList).Perm (second.toList ++ [a]) := List.perm_append_comm
      simpa [apply, content, gained, lost] using h.append_left out
  | drop => simp [apply, content, gained, lost]
  | take => simp [apply, content, gained, lost]

/-! ## Many events -/

def run : List (Event α) → Pipeline α → Pipeline α
  | [], p => p
  | e :: es, p => run es (apply e p)

/-- The items that a list of events makes disappear. -/
def losses : List (Event α) → Pipeline α → List α
  | [], _ => []
  | e :: es, p => lost e p ++ losses es (apply e p)

theorem run_append (es es' : List (Event α)) : ∀ p : Pipeline α,
    run (es ++ es') p = run es' (run es p) := by
  induction es with
  | nil => exact fun _ ↦ rfl
  | cons e es ih => exact fun p ↦ ih (apply e p)

/-- **The order is kept.** -/
theorem run_sublist (es : List (Event α)) : ∀ p : Pipeline α,
    (run es p).content.Sublist (p.content ++ es.flatMap gained) := by
  induction es with
  | nil => exact fun p ↦ List.sublist_append_left _ _
  | cons e es ih =>
    intro p
    rw [run, List.flatMap_cons, ← List.append_assoc]
    exact (ih (apply e p)).trans ((apply_sublist e p).append (List.Sublist.refl _))

theorem perm_swap_last (l m n : List α) : (l ++ m ++ n).Perm (l ++ n ++ m) := by
  rw [List.append_assoc, List.append_assoc]
  exact List.perm_append_comm.append_left l

/-- **The books balance.** -/
theorem run_perm (es : List (Event α)) : ∀ p : Pipeline α,
    ((run es p).content ++ losses es p).Perm (p.content ++ es.flatMap gained) := by
  induction es with
  | nil => exact fun p ↦ List.Perm.refl _
  | cons e es ih =>
    intro p
    rw [run, losses, List.flatMap_cons, ← List.append_assoc, ← List.append_assoc]
    calc (run es (apply e p)).content ++ lost e p ++ losses es (apply e p)
      List.Perm _ ((run es (apply e p)).content ++ losses es (apply e p) ++ lost e p) :=
          perm_swap_last _ _ _
      List.Perm _ ((apply e p).content ++ es.flatMap gained ++ lost e p) :=
          (ih (apply e p)).append_right _
      List.Perm _ ((apply e p).content ++ lost e p ++ es.flatMap gained) := perm_swap_last _ _ _
      List.Perm _ (p.content ++ gained e ++ es.flatMap gained) :=
          (apply_perm e p).append_right _

theorem run_complete_iff (es : List (Event α)) (p : Pipeline α) :
    (run es p).content = p.content ++ es.flatMap gained ↔ losses es p = [] := by
  have hlength := (run_perm es p).length_eq
  rw [List.length_append] at hlength
  constructor
  · intro h
    rw [h] at hlength
    exact List.eq_nil_of_length_eq_zero (by omega)
  · intro h
    refine (run_sublist es p).eq_of_length ?_
    rw [← hlength, h]
    rfl

end Pipeline

end Fudge
