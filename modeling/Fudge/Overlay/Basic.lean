import Mathlib.Data.List.Basic
import Mathlib.Logic.Function.Basic

/-!
# Transactional overlays

A closure that runs on top of a store writes to an overlay, not to the store. The overlay knows
nested transactions: what was written since the last one was opened can be kept or thrown away.

`Savepoints` is what an overlay means: a current state, and the states to which the open
transactions can go back. An implementation is an `Overlay`, which carries the proof that its
operations mean those of `Savepoints`; `Closure.exec_abs` says that then no closure can tell them
apart, however it branches on what it reads.

A closure is usually meant to leave the transactions of its caller alone, and to close its own
ones. `Keeps` says so of a closure in a state, and `eval_frame` is what its caller gets: what the
closure does is what it does without any transactions around it.
-/

namespace Fudge

abbrev Store (K V : Type) : Type := K → Option V

/-! ## Savepoints -/

/-- A state, and what the open transactions would go back to, the innermost first. -/
structure Savepoints (S : Type) where
  current : S
  saved : List S := []
deriving DecidableEq, Repr

namespace Savepoints

variable {S : Type}

def write (f : S → S) (p : Savepoints S) : Savepoints S := { p with current := f p.current }

def start (p : Savepoints S) : Savepoints S := { p with saved := p.current :: p.saved }

/-- Close the innermost transaction and keep its changes. -/
def commit (p : Savepoints S) : Option (Savepoints S) :=
  match p.saved with
  | [] => none
  | _ :: saved => some { p with saved := saved }

/-- Close the innermost transaction and throw its changes away. -/
def rollback (p : Savepoints S) : Option (Savepoints S) :=
  match p.saved with
  | [] => none
  | s :: saved => some ⟨s, saved⟩

/-- With more transactions around the open ones. -/
def around (p : Savepoints S) (outer : List S) : Savepoints S :=
  { p with saved := p.saved ++ outer }

end Savepoints

/-! ## Implementations -/

/-- An overlay over a store, which is no part of it, and what it means on each store. -/
structure Overlay (O K V : Type) [DecidableEq K] where
  empty : O
  get : Store K V → O → K → Option V
  place : K → Option V → O → O
  start : O → O
  commit : O → Option O
  rollback : O → Option O
  isOpen : O → Bool
  abs : Store K V → O → Savepoints (Store K V)
  abs_empty : ∀ b, abs b empty = ⟨b, []⟩
  get_abs : ∀ b o, get b o = (abs b o).current
  place_abs : ∀ b k v o, abs b (place k v o) = (abs b o).write fun s ↦ Function.update s k v
  start_abs : ∀ b o, abs b (start o) = (abs b o).start
  commit_abs : ∀ b o, (commit o).map (abs b) = (abs b o).commit
  rollback_abs : ∀ b o, (rollback o).map (abs b) = (abs b o).rollback
  isOpen_abs : ∀ b o, isOpen o = !(abs b o).saved.isEmpty

/-! ## Closures -/

/-- What a closure does with the store it runs on. Closing a transaction tells it whether there was
one. -/
inductive Closure (K V R : Type) where
  | ret (r : R)
  | get (k : K) (next : Option V → Closure K V R)
  | place (k : K) (v : Option V) (next : Closure K V R)
  | start (next : Closure K V R)
  | commit (next : Bool → Closure K V R)
  | rollback (next : Bool → Closure K V R)
  | panic

namespace Closure

variable {O K V R : Type} [DecidableEq K]

/-- Run the closure on an overlay. A closure that panics returns nothing. -/
def exec (I : Overlay O K V) (b : Store K V) : Closure K V R → O → Option R × O
  | ret r, o => (some r, o)
  | get k next, o => exec I b (next (I.get b o k)) o
  | place k v next, o => exec I b next (I.place k v o)
  | start next, o => exec I b next (I.start o)
  | commit next, o => match I.commit o with
    | some o' => exec I b (next true) o'
    | none => exec I b (next false) o
  | rollback next, o => match I.rollback o with
    | some o' => exec I b (next true) o'
    | none => exec I b (next false) o
  | panic, o => (none, o)

def eval : Closure K V R → Savepoints (Store K V) → Option R × Savepoints (Store K V)
  | ret r, p => (some r, p)
  | get k next, p => eval (next (p.current k)) p
  | place k v next, p => eval next (p.write fun s ↦ Function.update s k v)
  | start next, p => eval next p.start
  | commit next, p => match p.commit with
    | some p' => eval (next true) p'
    | none => eval (next false) p
  | rollback next, p => match p.rollback with
    | some p' => eval (next true) p'
    | none => eval (next false) p
  | panic, p => (none, p)

/-- **An overlay means its savepoints**, to every closure. -/
theorem exec_abs (I : Overlay O K V) (b : Store K V) (c : Closure K V R) : ∀ o : O,
    (exec I b c o).1 = (eval c (I.abs b o)).1 ∧
      I.abs b (exec I b c o).2 = (eval c (I.abs b o)).2 := by
  induction c with
  | ret r => exact fun o ↦ ⟨rfl, rfl⟩
  | get k next ih =>
    intro o
    rw [exec, eval, ← I.get_abs]
    exact ih _ o
  | place k v next ih =>
    intro o
    rw [exec, eval, ← I.place_abs]
    exact ih _
  | start next ih =>
    intro o
    rw [exec, eval, ← I.start_abs]
    exact ih _
  | commit next ih =>
    intro o
    rw [exec, eval, ← I.commit_abs]
    cases I.commit o with
    | none => exact ih false o
    | some o' => exact ih true o'
  | rollback next ih =>
    intro o
    rw [exec, eval, ← I.rollback_abs]
    cases I.rollback o with
    | none => exact ih false o
    | some o' => exact ih true o'
  | panic => exact fun o ↦ ⟨rfl, rfl⟩

/-- The closure as a function of the store, without transactions around it. -/
def meaning (c : Closure K V R) (s : Store K V) : Option R × Store K V :=
  ((eval c ⟨s, []⟩).1, (eval c ⟨s, []⟩).2.current)

/-! ## Closures that keep to their own transactions -/

/-- With the transactions `p.saved` of its own open, the closure closes no others, and it has closed
all of its own when it returns. -/
def Keeps : Closure K V R → Savepoints (Store K V) → Prop
  | ret _, p => p.saved = []
  | get k next, p => Keeps (next (p.current k)) p
  | place k v next, p => Keeps next (p.write fun s ↦ Function.update s k v)
  | start next, p => Keeps next p.start
  | commit next, p => match p.commit with
    | some p' => Keeps (next true) p'
    | none => False
  | rollback next, p => match p.rollback with
    | some p' => Keeps (next true) p'
    | none => False
  | panic, _ => True

/-- **The transactions of the caller make no difference.** -/
theorem eval_frame (outer : List (Store K V)) (c : Closure K V R) :
    ∀ p : Savepoints (Store K V), Keeps c p →
      eval c (p.around outer) = ((eval c p).1, (eval c p).2.around outer) := by
  induction c with
  | ret r => exact fun p _ ↦ rfl
  | get k next ih => exact fun p h ↦ ih _ p h
  | place k v next ih => exact fun p h ↦ ih (p.write fun s ↦ Function.update s k v) h
  | start next ih => exact fun p h ↦ ih p.start h
  | commit next ih =>
    rintro ⟨s, saved⟩ h
    cases saved with
    | nil => exact absurd h id
    | cons t saved => exact ih true ⟨s, saved⟩ h
  | rollback next ih =>
    rintro ⟨s, saved⟩ h
    cases saved with
    | nil => exact absurd h id
    | cons t saved => exact ih true ⟨t, saved⟩ h
  | panic => exact fun p _ ↦ rfl

/-- A closure that returned has closed its transactions. -/
theorem Keeps.closed {c : Closure K V R} : ∀ {p : Savepoints (Store K V)}, Keeps c p →
    ∀ {r : R}, (eval c p).1 = some r → (eval c p).2.saved = [] := by
  induction c with
  | ret r => exact fun h _ _ ↦ h
  | get k next ih => exact fun h _ hr ↦ ih _ h hr
  | place k v next ih => exact fun h _ hr ↦ ih h hr
  | start next ih => exact fun h _ hr ↦ ih h hr
  | commit next ih =>
    rintro ⟨s, saved⟩ h r hr
    cases saved with
    | nil => exact absurd h id
    | cons t saved => exact ih true h hr
  | rollback next ih =>
    rintro ⟨s, saved⟩ h r hr
    cases saved with
    | nil => exact absurd h id
    | cons t saved => exact ih true h hr
  | panic =>
    intro p _ r hr
    cases hr

end Closure

end Fudge
