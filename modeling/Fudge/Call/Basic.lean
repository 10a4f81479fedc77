import Mathlib.Logic.Function.Basic
import Mathlib.Data.List.Basic

/-!
# Calls on a shared state

A method call on a mutable object ends in one of three ways: it returns a value, it returns an
error, or it panics. In each case it leaves the object in some state, and nothing undoes what was
written before the call gave up. `Call σ ε α` is that behaviour as a function: from a state to an
outcome *and* the state left behind.

This is deliberately not `StateT σ (Except ε)`, where an error forgets the state. Every question
about early returns is a question about the state an error leaves.

## Inversion rather than execution

The lemmas are stated for calls that returned: a sequence returned a value exactly when each of its
parts did, so a proof peels a successful call apart with `obtain` and never unfolds the monad.
-/

namespace Fudge

/-- How a call ended. -/
inductive Outcome (ε α : Type) where
  /-- The call returned a value. -/
  | ok (a : α)
  /-- The call returned an error. -/
  | err (e : ε)
  /-- An assertion failed and the caller was unwound. -/
  | panic
deriving DecidableEq, Repr

namespace Outcome

variable {ε α : Type}

def isOk : Outcome ε α → Bool
  | ok _ => true
  | _ => false

def isErr : Outcome ε α → Bool
  | err _ => true
  | _ => false

/-- An assertion failed. -/
def isPanic : Outcome ε α → Bool
  | panic => true
  | _ => false

def toOption : Outcome ε α → Option α
  | ok a => some a
  | _ => none

def map {β : Type} (f : α → β) : Outcome ε α → Outcome ε β
  | ok a => ok (f a)
  | err e => err e
  | panic => panic

theorem map_isOk {β : Type} (f : α → β) (o : Outcome ε α) : (o.map f).isOk = o.isOk := by
  cases o <;> rfl

theorem map_isPanic {β : Type} (f : α → β) (o : Outcome ε α) :
    (o.map f).isPanic = o.isPanic := by
  cases o <;> rfl

theorem isOk_iff {o : Outcome ε α} : o.isOk = true ↔ ∃ a, o = ok a := by
  cases o <;> simp [isOk]

theorem isOk_of_isErr {o : Outcome ε α} (h : o.isErr = true) : o.isOk = false := by
  cases o <;> simp_all [isErr, isOk]

theorem isPanic_of_isOk {o : Outcome ε α} (h : o.isOk = true) : o.isPanic = false := by
  cases o <;> simp_all [isOk, isPanic]

theorem isErr_of_not_ok {o : Outcome ε α} (h : o.isOk = false) (hp : o.isPanic = false) :
    o.isErr = true := by
  cases o <;> simp_all [isErr, isOk, isPanic]

end Outcome

/-- A call on an object of type `σ` that may return an error of type `ε` or a value of type `α`,
or panic, and that leaves a state in each case. -/
def Call (σ ε α : Type) : Type := σ → Outcome ε α × σ

namespace Call

variable {σ τ ε δ α β : Type}

protected def pure (a : α) : Call σ ε α := fun s ↦ (.ok a, s)

/-- Run `c`, then `f` on its value. An error or a panic of `c` ends the sequence where it stands. -/
protected def bind (c : Call σ ε α) (f : α → Call σ ε β) : Call σ ε β := fun s ↦
  match c s with
  | (.ok a, s') => f a s'
  | (.err e, s') => (.err e, s')
  | (.panic, s') => (.panic, s')

instance : Monad (Call σ ε) where
  pure := Call.pure
  bind := Call.bind

def read (f : σ → α) : Call σ ε α := fun s ↦ (.ok (f s), s)

def modify (f : σ → σ) : Call σ ε Unit := fun s ↦ (.ok (), f s)

def fail (e : ε) : Call σ ε α := fun s ↦ (.err e, s)

/-- `assert!`: panic unless the state passes the test. -/
def assert (p : σ → Bool) : Call σ ε Unit := fun s ↦
  if p s then (.ok (), s) else (.panic, s)

/-- Ask something outside the object, which may answer with an error of its own; `mk` is the
`map_err` applied to it. -/
def query (q : σ → Except δ α) (mk : δ → ε) : Call σ ε α := fun s ↦
  match q s with
  | .ok a => (.ok a, s)
  | .error e => (.err (mk e), s)

/-- `ok_or`: an absent value is the error `e`. -/
def require (e : ε) : Option α → Call σ ε α
  | some a => Call.pure a
  | none => fail e

/-- `?` on the result of a closure that ran elsewhere. -/
def returned (o : Outcome ε α) : Call σ ε α := fun s ↦ (o, s)

def mapErr (f : δ → ε) (c : Call σ δ α) : Call σ ε α := fun s ↦
  match c s with
  | (.ok a, s') => (.ok a, s')
  | (.err e, s') => (.err (f e), s')
  | (.panic, s') => (.panic, s')

/-- `map` on the value of a call. -/
def map (f : α → β) (c : Call σ ε α) : Call σ ε β := fun s ↦ ((c s).1.map f, (c s).2)

/-- Run a call of a component on the object that owns it. -/
def zoom (get : σ → τ) (set : τ → σ → σ) (c : Call τ ε α) : Call σ ε α := fun s ↦
  ((c (get s)).1, set (c (get s)).2 s)

/-- A loop over a list, left at the first error or panic. -/
def forEach (f : β → Call σ ε α) : List β → Call σ ε Unit
  | [] => Call.pure ()
  | b :: bs => Call.bind (f b) fun _ ↦ forEach f bs

/-! ## Running the primitives -/

@[simp] theorem pure_apply (a : α) (s : σ) : (pure a : Call σ ε α) s = (.ok a, s) := rfl

@[simp] theorem read_apply (f : σ → α) (s : σ) : (read f : Call σ ε α) s = (.ok (f s), s) := rfl

@[simp] theorem modify_apply (f : σ → σ) (s : σ) :
    (modify f : Call σ ε Unit) s = (.ok (), f s) := rfl

@[simp] theorem fail_apply (e : ε) (s : σ) : (fail e : Call σ ε α) s = (.err e, s) := rfl

@[simp] theorem forEach_nil (f : β → Call σ ε α) :
    forEach f [] = (pure () : Call σ ε Unit) := rfl

@[simp] theorem forEach_cons (f : β → Call σ ε α) (b : β) (bs : List β) :
    forEach f (b :: bs) = f b >>= fun _ ↦ forEach f bs := rfl

@[simp] theorem mapErr_snd (f : δ → ε) (c : Call σ δ α) (s : σ) :
    (mapErr f c s).2 = (c s).2 := by
  rw [mapErr]
  rcases c s with ⟨_ | _ | _, t⟩ <;> rfl

@[simp] theorem mapErr_isOk (f : δ → ε) (c : Call σ δ α) (s : σ) :
    (mapErr f c s).1.isOk = (c s).1.isOk := by
  rw [mapErr]
  rcases c s with ⟨_ | _ | _, t⟩ <;> rfl

@[simp] theorem mapErr_isPanic (f : δ → ε) (c : Call σ δ α) (s : σ) :
    (mapErr f c s).1.isPanic = (c s).1.isPanic := by
  rw [mapErr]
  rcases c s with ⟨_ | _ | _, t⟩ <;> rfl

@[simp] theorem map_snd (f : α → β) (c : Call σ ε α) (s : σ) : (map f c s).2 = (c s).2 := rfl

@[simp] theorem map_isOk (f : α → β) (c : Call σ ε α) (s : σ) :
    (map f c s).1.isOk = (c s).1.isOk := Outcome.map_isOk f (c s).1

@[simp] theorem map_isPanic (f : α → β) (c : Call σ ε α) (s : σ) :
    (map f c s).1.isPanic = (c s).1.isPanic := Outcome.map_isPanic f (c s).1

theorem bind_assoc (c : Call σ ε α) (f : α → Call σ ε β) {γ : Type} (g : β → Call σ ε γ) :
    (c >>= f) >>= g = c >>= fun a ↦ f a >>= g := by
  funext s
  change Call.bind (Call.bind c f) g s = Call.bind c (fun a ↦ Call.bind (f a) g) s
  rw [Call.bind, Call.bind, Call.bind]
  rcases c s with ⟨_ | _ | _, t⟩ <;> rfl

theorem pure_bind (a : α) (f : α → Call σ ε β) : (pure a >>= f) = f a := rfl

theorem eq_of_fst {x : Outcome ε α × σ} {o : Outcome ε α} (h : x.1 = o) : x = (o, x.2) :=
  Prod.ext h rfl

theorem bind_of_ok {c : Call σ ε α} {f : α → Call σ ε β} {s s' : σ} {a : α}
    (h : c s = (.ok a, s')) : (c >>= f) s = f a s' := by
  change Call.bind c f s = f a s'
  rw [Call.bind, h]

theorem bind_of_err {c : Call σ ε α} {f : α → Call σ ε β} {s s' : σ} {e : ε}
    (h : c s = (.err e, s')) : (c >>= f) s = (.err e, s') := by
  change Call.bind c f s = (.err e, s')
  rw [Call.bind, h]

theorem bind_of_panic {c : Call σ ε α} {f : α → Call σ ε β} {s s' : σ}
    (h : c s = (.panic, s')) : (c >>= f) s = (.panic, s') := by
  change Call.bind c f s = (.panic, s')
  rw [Call.bind, h]

/-- A sequence goes on with its second part where the first one returned, or ends where the first
one gave up. -/
theorem bind_cases (c : Call σ ε α) (f : α → Call σ ε β) (s : σ) :
    (∃ a, c s = (.ok a, (c s).2) ∧ (c >>= f) s = f a (c s).2) ∨
      ((c s).1.isOk = false ∧ ((c >>= f) s).1.isOk = false ∧ ((c >>= f) s).2 = (c s).2) := by
  rcases hc : c s with ⟨_ | _ | _, t⟩
  · exact Or.inl ⟨_, rfl, bind_of_ok hc⟩
  · rw [bind_of_err hc]
    exact Or.inr ⟨rfl, rfl, rfl⟩
  · rw [bind_of_panic hc]
    exact Or.inr ⟨rfl, rfl, rfl⟩

theorem bind_of_not_ok {c : Call σ ε α} {f : α → Call σ ε β} {s : σ} (h : (c s).1.isOk = false) :
    ((c >>= f) s).1.isOk = false ∧ ((c >>= f) s).2 = (c s).2 := by
  rcases bind_cases c f s with ⟨a, ha, -⟩ | ⟨-, hstop⟩
  · rw [ha] at h
    cases h
  · exact hstop

theorem assert_bind_cases (p : σ → Bool) (f : Unit → Call σ ε β) (s : σ) :
    (p s = true ∧ (assert p >>= f) s = f () s) ∨
      (p s = false ∧ (assert p >>= f) s = (.panic, s)) := by
  by_cases h : p s = true
  · exact Or.inl ⟨h, bind_of_ok (by rw [assert, if_pos h])⟩
  · exact Or.inr ⟨by simpa using h, bind_of_panic (by rw [assert, if_neg h])⟩

/-- A call of a component, and the rest after it: the rest starts from the component as the call
left it, or the component gave up and this is where the sequence ends. -/
theorem zoom_bind_cases (mk : δ → ε) (get : σ → τ) (set : τ → σ → σ) (c : Call τ δ α)
    (f : α → Call σ ε β) (s : σ) :
    (∃ a, (c (get s)).1 = .ok a ∧
        (mapErr mk (zoom get set c) >>= f) s = f a (set (c (get s)).2 s)) ∨
      ((c (get s)).1.isOk = false ∧ ((mapErr mk (zoom get set c) >>= f) s).1.isOk = false ∧
        ((mapErr mk (zoom get set c) >>= f) s).2 = set (c (get s)).2 s) := by
  have hstate : (mapErr mk (zoom get set c) s).2 = set (c (get s)).2 s := mapErr_snd _ _ s
  have hisOk : (mapErr mk (zoom get set c) s).1.isOk = (c (get s)).1.isOk := mapErr_isOk _ _ s
  rcases hc : (c (get s)).1 with a | e | _
  · have hok : mapErr mk (zoom get set c) s = (.ok a, set (c (get s)).2 s) := by
      rw [mapErr, zoom, hc]
    exact Or.inl ⟨a, rfl, bind_of_ok hok⟩
  all_goals
    right
    rw [hc] at hisOk
    obtain ⟨hno, hleft⟩ := bind_of_not_ok (f := f) hisOk
    exact ⟨rfl, hno, hleft.trans hstate⟩

theorem bind_pure_snd (c : Call σ ε α) (b : β) (s : σ) :
    ((c >>= fun _ ↦ (pure b : Call σ ε β)) s).2 = (c s).2 := by
  rcases bind_cases c (fun _ ↦ (pure b : Call σ ε β)) s with ⟨_, -, h⟩ | ⟨-, -, h⟩
  · rw [h, pure_apply]
  · exact h

theorem forEach_singleton_eq (f : β → Call σ ε α) (b : β) :
    forEach f [b] = map (fun _ ↦ ()) (f b) := by
  funext s
  change Call.bind (f b) (fun _ ↦ Call.pure ()) s = map (fun _ ↦ ()) (f b) s
  rw [Call.bind, map]
  rcases f b s with ⟨_ | _ | _, t⟩ <;> rfl

theorem forEach_stopped {f : β → Call σ ε α} {b : β} (rest : List β) {u : Unit} {t : σ}
    (hno : (f b t).1.isOk = false) : ∀ (done : List β) {s : σ}, forEach f done s = (.ok u, t) →
      (forEach f (done ++ b :: rest) s).1.isOk = false ∧
        (forEach f (done ++ b :: rest) s).2 = (f b t).2 := by
  intro done
  induction done with
  | nil =>
    intro s hs
    obtain rfl : s = t := (Prod.mk.inj hs).2
    exact bind_of_not_ok hno
  | cons a done ih =>
    intro s hs
    rcases bind_cases (f a) (fun _ ↦ forEach f done) s with ⟨u, hu, hrest⟩ | ⟨-, hstop, -⟩
    · have hfirst : forEach f (a :: done ++ b :: rest) s = forEach f (done ++ b :: rest) _ :=
        bind_of_ok hu
      rw [hfirst]
      exact ih (hrest.symm.trans hs)
    · rw [show (f a >>= fun _ ↦ forEach f done) s = (.ok _, t) from hs] at hstop
      cases hstop

/-! ## Inversion of a successful call -/

/-- A sequence returned a value exactly when each of its two parts did. -/
theorem bind_eq_ok {c : Call σ ε α} {f : α → Call σ ε β} {s s' : σ} {b : β} :
    (c >>= f) s = (.ok b, s') ↔ ∃ a t, c s = (.ok a, t) ∧ f a t = (.ok b, s') := by
  constructor
  · intro h
    rcases hc : c s with ⟨_ | _ | _, t⟩
    · rw [bind_of_ok hc] at h
      exact ⟨_, t, rfl, h⟩
    · rw [bind_of_err hc] at h
      cases h
    · rw [bind_of_panic hc] at h
      cases h
  · rintro ⟨a, t, hc, hf⟩
    rw [bind_of_ok hc, hf]

theorem pure_eq_ok {a b : α} {s s' : σ} :
    (pure a : Call σ ε α) s = (.ok b, s') ↔ b = a ∧ s' = s := by
  rw [pure_apply]
  simp [eq_comm]

theorem query_eq_ok {q : σ → Except δ α} {mk : δ → ε} {s s' : σ} {a : α} :
    query q mk s = (.ok a, s') ↔ q s = .ok a ∧ s' = s := by
  rw [query]
  cases q s with
  | ok b => simp [eq_comm]
  | error e => simp

theorem require_eq_ok {e : ε} {o : Option α} {s s' : σ} {a : α} :
    require e o s = (.ok a, s') ↔ o = some a ∧ s' = s := by
  cases o with
  | none => simp [require]
  | some b =>
    change (Outcome.ok b, s) = (.ok a, s') ↔ _
    simp [eq_comm]

theorem mapErr_eq_ok {f : δ → ε} {c : Call σ δ α} {s s' : σ} {a : α} :
    mapErr f c s = (.ok a, s') ↔ c s = (.ok a, s') := by
  rw [mapErr]
  rcases c s with ⟨_ | _ | _, t⟩ <;> simp

theorem assert_eq_ok {p : σ → Bool} {s s' : σ} {a : Unit} :
    (assert p : Call σ ε Unit) s = (.ok a, s') ↔ p s = true ∧ s' = s := by
  rw [assert]
  by_cases h : p s = true
  · rw [if_pos h]
    constructor
    · intro hs
      exact ⟨h, (Prod.mk.inj hs).2.symm⟩
    · rintro ⟨-, rfl⟩
      rfl
  · rw [if_neg h]
    simp [h]

theorem map_eq_ok {f : α → β} {c : Call σ ε α} {s s' : σ} {b : β} :
    map f c s = (.ok b, s') ↔ ∃ a, c s = (.ok a, s') ∧ f a = b := by
  rw [map]
  rcases c s with ⟨a | e | _, t⟩
  · simp only [Outcome.map, Prod.mk.injEq, Outcome.ok.injEq]
    constructor
    · rintro ⟨rfl, rfl⟩
      exact ⟨a, ⟨rfl, rfl⟩, rfl⟩
    · rintro ⟨_, ⟨rfl, rfl⟩, rfl⟩
      exact ⟨rfl, rfl⟩
  · simp [Outcome.map]
  · simp [Outcome.map]

theorem zoom_eq_ok {get : σ → τ} {set : τ → σ → σ} {c : Call τ ε α} {s s' : σ} {a : α} :
    zoom get set c s = (.ok a, s') ↔ ∃ t, c (get s) = (.ok a, t) ∧ s' = set t s := by
  rw [zoom]
  rcases c (get s) with ⟨o, t⟩
  constructor
  · intro h
    obtain ⟨ho, hs⟩ := Prod.mk.inj h
    exact ⟨t, by rw [← ho], hs.symm⟩
  · rintro ⟨u, hu, rfl⟩
    obtain ⟨ho, ht⟩ := Prod.mk.inj hu
    rw [← ho, ← ht]

end Call

end Fudge
