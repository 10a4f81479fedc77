import Fudge.Overlay.Basic

/-!
# Overlays in layers

The usual overlay keeps one layer of changes for each open transaction, and one below them for the
changes that no transaction holds back. A key that a layer does not mention is looked up in the
layer below it, and at last in the store. Opening a transaction puts an empty layer on top,
committing one merges the two topmost layers, and rolling one back takes the top away.
-/

namespace Fudge

/-- Changes to a store: a value to put under a key, or the key removed. -/
abbrev Changes (K V : Type) : Type := K → Option (Option V)

namespace Changes

variable {K V : Type}

def on (c : Changes K V) (s : Store K V) : Store K V := fun k ↦ (c k).getD (s k)

/-- The changes of a layer, and below it those of another one. -/
def atop (c d : Changes K V) : Changes K V := fun k ↦ (c k).or (d k)

theorem atop_on (c d : Changes K V) (s : Store K V) : on (atop c d) s = on c (on d s) := by
  funext k
  rw [on, atop, on, on]
  cases c k <;> rfl

theorem update_on [DecidableEq K] (c : Changes K V) (s : Store K V) (k : K) (v : Option V) :
    on (Function.update c k (some v)) s = Function.update (on c s) k v := by
  funext l
  rw [on]
  by_cases hl : l = k
  · subst hl
    rw [Function.update_self, Function.update_self]
    rfl
  · rw [Function.update_of_ne hl, Function.update_of_ne hl, on]

end Changes

/-- The layers of an overlay: the top one, and those below it. -/
structure Layers (K V : Type) where
  top : Changes K V
  below : List (Changes K V)

namespace Layers

variable {K V : Type}

/-- A store under layers of changes. -/
def under (b : Store K V) : List (Changes K V) → Store K V
  | [] => b
  | c :: cs => Changes.on c (under b cs)

/-- What the open transactions go back to. -/
def saved (b : Store K V) : List (Changes K V) → List (Store K V)
  | [] => []
  | c :: cs => under b (c :: cs) :: saved b cs

def abs (b : Store K V) (o : Layers K V) : Savepoints (Store K V) :=
  ⟨under b (o.top :: o.below), saved b o.below⟩

def noChanges : Changes K V := fun _ ↦ none

theorem abs_start (b : Store K V) (o : Layers K V) :
    abs b ⟨noChanges, o.top :: o.below⟩ = (abs b o).start := rfl

theorem abs_commit (b : Store K V) (top c : Changes K V) (cs : List (Changes K V)) :
    some (abs b ⟨Changes.atop top c, cs⟩) = (abs b ⟨top, c :: cs⟩).commit := by
  refine congrArg some ?_
  rw [abs, under, Changes.atop_on]
  rfl

/-- **Layers are an overlay.** -/
def overlay (K V : Type) [DecidableEq K] : Overlay (Layers K V) K V where
  empty := ⟨noChanges, []⟩
  get b o k := under b (o.top :: o.below) k
  place k v o := { o with top := Function.update o.top k (some v) }
  start o := ⟨noChanges, o.top :: o.below⟩
  commit o := match o.below with
    | [] => none
    | c :: cs => some ⟨Changes.atop o.top c, cs⟩
  rollback o := match o.below with
    | [] => none
    | c :: cs => some ⟨c, cs⟩
  isOpen o := !o.below.isEmpty
  abs := abs
  abs_empty _ := rfl
  get_abs _ _ := rfl
  place_abs b k v o := by
    rw [abs, under, Changes.update_on]
    rfl
  start_abs := abs_start
  commit_abs b o := by
    obtain ⟨top, below⟩ := o
    cases below with
    | nil => rfl
    | cons c cs => exact abs_commit b top c cs
  rollback_abs b o := by
    obtain ⟨top, below⟩ := o
    cases below <;> rfl
  isOpen_abs b o := by
    obtain ⟨top, below⟩ := o
    cases below <;> rfl

end Layers

end Fudge
