import Mathlib.Data.List.Basic
import Mathlib.Data.Set.Insert
import Mathlib.Logic.Function.Basic
import Mathlib.Logic.Relation

/-!
# Look, then listen

A watcher waits for a key to come into a store that others write to. It takes a read lock, looks,
and if the key is not there it starts to listen to announcements before it lets the lock go. A
writer takes the lock for itself, writes, and may announce what it wrote while it still has the
lock. Between the look and the first announcement that a watcher can hear there is no moment at
which a writer could write: that is all the lock is for.

There are also silent writes, which take no lock and announce nothing and may take keys away, and a
writer may decide not to announce. The keys that came in so are remembered in `unheard`, which is
history and is read by nothing. The invariant is then exact about what a listener can miss: a key
that is there is in the queue of the listener, or is about to be announced, or is one of those
(`Good`). And a key that is in the queue is found by as many polls as it takes to get to it
(`receive_found`), unless an alarm goes off first. What a watcher finds was there while it watched
(`Seen`), and may be gone again.
-/

namespace Fudge

open Relation (ReflTransGen)

namespace Watch

variable {W K S : Type} [DecidableEq W] [DecidableEq K]

/-! ## One watcher -/

inductive Poll (K : Type) where
  | event (k : K)
  | closed
  | alarm
deriving DecidableEq, Repr

inductive Verdict where
  | found
  | failed
  | closed
  | alarm
deriving DecidableEq, Repr

/-- What one poll means to a watcher of `k`. An announcement of another key means nothing. -/
def verdict (k : K) : Poll K → Option Verdict
  | .event j => if j = k then some .found else none
  | .closed => some .closed
  | .alarm => some .alarm

/-- The polls of a watcher of `k`, up to the first that means something. -/
def polled (k : K) : List (Poll K) → Option Verdict
  | [] => none
  | p :: ps => (verdict k p).or (polled k ps)

/-- The answer of a watch, from the look at the store, which may fail, and the polls after it. -/
def answer (k : K) : Option Bool → List (Poll K) → Option Verdict
  | none, _ => some .failed
  | some true, _ => some .found
  | some false, polls => polled k polls

theorem polled_concat {k : K} {polls : List (Poll K)} (h : polled k polls = none) (p : Poll K) :
    polled k (polls ++ [p]) = verdict k p := by
  induction polls with
  | nil => exact Option.or_none
  | cons q polls ih =>
    obtain ⟨hq, hrest⟩ := Option.or_eq_none_iff.mp h
    rw [List.cons_append, polled, hq]
    exact ih hrest

/-- Where a watcher stands. The polls of a listener are history. -/
inductive Phase (K : Type) where
  | idle
  /-- It has the lock, and has not looked. -/
  | locked (k : K)
  /-- It has the lock, and has seen that the key is not there. -/
  | absent (k : K)
  | listening (k : K) (queue : List K) (polls : List (Poll K))
  | done (k : K) (v : Verdict) (look : Option Bool) (polls : List (Poll K))

namespace Phase

def HoldsLock : Phase K → Prop
  | locked _ => True
  | absent _ => True
  | _ => False

/-- The watcher waits for `k`. -/
def WaitsFor (k : K) : Phase K → Prop
  | locked j => j = k
  | absent j => j = k
  | listening j _ _ => j = k
  | _ => False

def poll (p : Poll K) : Phase K → Phase K
  | listening k queue polls => match verdict k p with
    | some v => done k v (some false) (polls ++ [p])
    | none => listening k queue (polls ++ [p])
  | phase => phase

def hear (k : K) : Phase K → Phase K
  | listening j queue polls => listening j (queue ++ [k]) polls
  | phase => phase

/-- The watcher after it took the next announcement out of its queue. -/
def receive : Phase K → Phase K
  | listening k (j :: queue) polls => (listening k queue polls).poll (.event j)
  | phase => phase

end Phase

/-! ## Watchers and a writer -/

inductive Writing (K : Type) where
  | free
  /-- It has the lock. -/
  | held
  /-- It still has the lock, and has brought a key in. -/
  | wrote (k : K)

/-- The store, those who watch it and the one who writes it. -/
structure System (W K S : Type) where
  store : S
  watchers : W → Phase K
  writer : Writing K := .free
  /-- History: the keys that came in unannounced. -/
  unheard : Set K := ∅

/-- What is written: under the lock one key is brought in, and silently anything. -/
structure Rules (K S : Type) where
  Holds : S → K → Prop
  Writes : K → S → S → Prop
  Silent : S → S → Prop
  writes_holds : ∀ {k s s'}, Writes k s s' → ∀ j, Holds s' j ↔ Holds s j ∨ j = k

variable (R : Rules K S)

inductive Step : System W K S → System W K S → Prop where
  | lock {s} (w : W) (k : K) (hw : s.watchers w = .idle) (hfree : s.writer = .free) :
      Step s { s with watchers := Function.update s.watchers w (.locked k) }
  | fail {s} (w : W) (k : K) (hw : s.watchers w = .locked k) :
      Step s { s with watchers := Function.update s.watchers w (.done k .failed none []) }
  | find {s} (w : W) (k : K) (hw : s.watchers w = .locked k) (hk : R.Holds s.store k) :
      Step s { s with watchers := Function.update s.watchers w (.done k .found (some true) []) }
  | miss {s} (w : W) (k : K) (hw : s.watchers w = .locked k) (hk : ¬ R.Holds s.store k) :
      Step s { s with watchers := Function.update s.watchers w (.absent k) }
  | listen {s} (w : W) (k : K) (hw : s.watchers w = .absent k) :
      Step s { s with watchers := Function.update s.watchers w (.listening k [] []) }
  | receive {s} (w : W) :
      Step s { s with watchers := Function.update s.watchers w (s.watchers w).receive }
  | alarm {s} (w : W) :
      Step s { s with watchers := Function.update s.watchers w ((s.watchers w).poll .alarm) }
  /-- The announcements are over, and none is left in the queue. -/
  | close {s} (w : W) {k polls} (hw : s.watchers w = .listening k [] polls) :
      Step s { s with watchers := Function.update s.watchers w ((s.watchers w).poll .closed) }
  | again {s} (w : W) {k v look polls} (hw : s.watchers w = .done k v look polls) :
      Step s { s with watchers := Function.update s.watchers w .idle }
  | acquire {s} (hfree : s.writer = .free) (hlock : ∀ w, ¬ (s.watchers w).HoldsLock) :
      Step s { s with writer := .held }
  | giveUp {s} (hheld : s.writer = .held) : Step s { s with writer := .free }
  | write {s} (k : K) (store : S) (hheld : s.writer = .held) (hk : R.Writes k s.store store) :
      Step s { s with store := store, writer := .wrote k }
  | announce {s} (k : K) (hwrote : s.writer = .wrote k) :
      Step s { s with watchers := fun w ↦ (s.watchers w).hear k, writer := .free }
  | hush {s} (k : K) (hwrote : s.writer = .wrote k) :
      Step s { s with writer := .free, unheard := insert k s.unheard }
  | silent {s} (store : S) (hstore : R.Silent s.store store) :
      Step s { s with
        store := store
        unheard := s.unheard ∪ { k | R.Holds store k ∧ ¬ R.Holds s.store k } }

/-! ## What they keep -/

variable {R}

/-- What holds of a watcher who has `seen` some keys while it waited for them. A key that is there,
and that the watcher does not know of, came in unannounced or is about to be announced. -/
def Good (R : Rules K S) (store : S) (writer : Writing K) (unheard : Set K) (seen : K → Prop) :
    Phase K → Prop
  | .idle => True
  | .locked _ => True
  | .absent k => R.Holds store k → k ∈ unheard
  | .listening k queue polls =>
    (R.Holds store k → k ∈ queue ∨ writer = .wrote k ∨ k ∈ unheard) ∧
      (k ∈ queue ∨ writer = .wrote k → seen k) ∧ polled k polls = none
  | .done k v look polls => (v = .found → seen k) ∧ answer k look polls = some v

/-- The writer is alone, and all watchers are as they should be. -/
structure Inv (R : Rules K S) (seen : W → K → Prop) (s : System W K S) : Prop where
  exclusive : s.writer ≠ .free → ∀ w, ¬ (s.watchers w).HoldsLock
  watchers : ∀ w, Good R s.store s.writer s.unheard (seen w) (s.watchers w)

variable {s s' : System W K S} {seen seen' : W → K → Prop}

omit [DecidableEq W] in
theorem inv_start (seen : W → K → Prop) (store : S) :
    Inv R seen ({ store := store, watchers := fun _ ↦ .idle } : System W K S) where
  exclusive hno := absurd rfl hno
  watchers _ := trivial

theorem Good.mono {store : S} {writer : Writing K} {unheard : Set K} {seen seen' : K → Prop}
    {phase : Phase K} (h : Good R store writer unheard seen phase) (hseen : ∀ k, seen k → seen' k) :
    Good R store writer unheard seen' phase := by
  cases phase with
  | listening k queue polls => exact ⟨h.1, fun hk ↦ hseen k (h.2.1 hk), h.2.2⟩
  | done k v look polls => exact ⟨fun hv ↦ hseen k (h.1 hv), h.2⟩
  | _ => exact h

omit [DecidableEq W] in
theorem Inv.mono (h : Inv R seen s) (hseen : ∀ w k, seen w k → seen' w k) : Inv R seen' s :=
  ⟨h.exclusive, fun w ↦ (h.watchers w).mono (hseen w)⟩

theorem Inv.setWatcher (h : Inv R seen s) (w : W) {phase : Phase K}
    (hgood : Good R s.store s.writer s.unheard (seen w) phase)
    (hlock : s.writer ≠ .free → ¬ phase.HoldsLock) :
    Inv R seen { s with watchers := Function.update s.watchers w phase } where
  exclusive hw v := by
    change ¬ (Function.update s.watchers w phase v).HoldsLock
    by_cases hv : v = w
    · subst hv
      rw [Function.update_self]
      exact hlock hw
    · rw [Function.update_of_ne hv]
      exact h.exclusive hw v
  watchers v := by
    change Good R _ _ _ _ (Function.update s.watchers w phase v)
    by_cases hv : v = w
    · subst hv
      rw [Function.update_self]
      exact hgood
    · rw [Function.update_of_ne hv]
      exact h.watchers v

section Poll

variable {store : S} {writer : Writing K} {unheard : Set K} {seen : K → Prop} {phase : Phase K}

theorem Good.poll {p : Poll K} (h : Good R store writer unheard seen phase)
    (hp : ∀ k, phase.WaitsFor k → p = .event k → seen k) :
    Good R store writer unheard seen (phase.poll p) := by
  cases phase with
  | listening k queue polls =>
    obtain ⟨hhas, hqueue, hpolls⟩ := h
    rw [Phase.poll]
    cases hv : verdict k p with
    | none => exact ⟨hhas, hqueue, (polled_concat hpolls p).trans hv⟩
    | some v =>
      refine ⟨?_, (polled_concat hpolls p).trans hv⟩
      rintro rfl
      -- only an announcement of the key itself is an answer
      cases p with
      | event j =>
        by_cases hj : j = k
        · exact hp k rfl (hj ▸ rfl)
        · simp [verdict, hj] at hv
      | closed => simp [verdict] at hv
      | alarm => simp [verdict] at hv
  | _ => exact h

theorem Good.receive (h : Good R store writer unheard seen phase) :
    Good R store writer unheard seen phase.receive := by
  cases phase with
  | listening k queue polls =>
    cases queue with
    | nil => exact h
    | cons j queue =>
      obtain ⟨hhas, hqueue, hpolls⟩ := h
      rw [Phase.receive, Phase.poll]
      by_cases hjk : j = k
      · subst hjk
        rw [show verdict j (.event j) = some .found from if_pos rfl]
        refine ⟨fun _ ↦ hqueue (Or.inl List.mem_cons_self), ?_⟩
        exact (polled_concat hpolls _).trans (if_pos rfl)
      · rw [show verdict k (.event j) = none from if_neg hjk]
        refine ⟨fun hk ↦ ?_, fun hk ↦ hqueue (hk.imp_left (List.mem_cons_of_mem j)),
          (polled_concat hpolls _).trans (if_neg hjk)⟩
        rcases hhas hk with hmem | hrest
        · exact Or.inl ((List.mem_cons.mp hmem).resolve_left fun heq ↦ hjk heq.symm)
        · exact Or.inr hrest
  | _ => exact h

theorem holdsLock_poll {p : Poll K} (h : ¬ phase.HoldsLock) : ¬ (phase.poll p).HoldsLock := by
  cases phase with
  | listening k queue polls =>
    rw [Phase.poll]
    cases verdict k p <;> exact id
  | _ => exact h

theorem holdsLock_receive (h : ¬ phase.HoldsLock) : ¬ phase.receive.HoldsLock := by
  cases phase with
  | listening k queue polls =>
    cases queue with
    | nil => exact id
    | cons j queue => exact @holdsLock_poll K _ (.listening k queue polls) _ id
  | _ => exact h

end Poll

omit [DecidableEq K] in
theorem holdsLock_hear (k : K) (phase : Phase K) :
    (phase.hear k).HoldsLock ↔ phase.HoldsLock := by
  cases phase <;> exact Iff.rfl

/-! ## Writing -/

section Write

variable {store store' : S} {unheard : Set K} {seen : K → Prop} {phase : Phase K} {k : K}

theorem Good.write (h : Good R store .held unheard seen phase) (hlock : ¬ phase.HoldsLock)
    (hk : ∀ j, R.Holds store' j ↔ R.Holds store j ∨ j = k)
    (hseen : ∀ j, phase.WaitsFor j → R.Holds store' j → seen j) :
    Good R store' (.wrote k) unheard seen phase := by
  cases phase with
  | absent j => exact absurd trivial hlock
  | listening j queue polls =>
    obtain ⟨hhas, hqueue, hpolls⟩ := h
    refine ⟨fun hj ↦ ?_, ?_, hpolls⟩
    · rcases (hk j).mp hj with hold | rfl
      · rcases hhas hold with hmem | hno | hun
        · exact Or.inl hmem
        · cases hno
        · exact Or.inr (Or.inr hun)
      · exact Or.inr (Or.inl rfl)
    · rintro (hmem | hwrote)
      · exact hqueue (Or.inl hmem)
      · obtain rfl : k = j := by simpa using hwrote
        exact hseen k rfl ((hk k).mpr (Or.inr rfl))
  | _ => exact h

theorem Good.announce (h : Good R store (.wrote k) unheard seen phase) :
    Good R store .free unheard seen (phase.hear k) := by
  cases phase with
  | listening j queue polls =>
    obtain ⟨hhas, hqueue, hpolls⟩ := h
    refine ⟨fun hj ↦ ?_, ?_, hpolls⟩
    · rcases hhas hj with hmem | hwrote | hun
      · exact Or.inl (List.mem_append_left _ hmem)
      · obtain rfl : k = j := by simpa using hwrote
        exact Or.inl (List.mem_append_right _ List.mem_cons_self)
      · exact Or.inr (Or.inr hun)
    · rintro (hmem | hno)
      · rcases List.mem_append.mp hmem with hmem | hmem
        · exact hqueue (Or.inl hmem)
        · obtain rfl := List.mem_singleton.mp hmem
          exact hqueue (Or.inr rfl)
      · cases hno
  | _ => exact h

theorem Good.hush (h : Good R store (.wrote k) unheard seen phase) :
    Good R store .free (insert k unheard) seen phase := by
  cases phase with
  | absent j => exact fun hj ↦ Or.inr (h hj)
  | listening j queue polls =>
    obtain ⟨hhas, hqueue, hpolls⟩ := h
    refine ⟨fun hj ↦ ?_, fun hj ↦ hqueue (hj.imp_right fun hno ↦ by cases hno), hpolls⟩
    rcases hhas hj with hmem | hwrote | hun
    · exact Or.inl hmem
    · obtain rfl : k = j := by simpa using hwrote
      exact Or.inr (Or.inr (Set.mem_insert k unheard))
    · exact Or.inr (Or.inr (Or.inr hun))
  | _ => exact h

theorem Good.silent {writer : Writing K} (h : Good R store writer unheard seen phase) :
    Good R store' writer (unheard ∪ { j | R.Holds store' j ∧ ¬ R.Holds store j }) seen phase := by
  cases phase with
  | absent j =>
    intro hj
    by_cases hold : R.Holds store j
    · exact Or.inl (h hold)
    · exact Or.inr ⟨hj, hold⟩
  | listening j queue polls =>
    refine ⟨fun hj ↦ ?_, h.2⟩
    by_cases hold : R.Holds store j
    · exact (h.1 hold).imp_right (Or.imp_right Or.inl)
    · exact Or.inr (Or.inr (Or.inr ⟨hj, hold⟩))
  | _ => exact h

theorem Good.writer {writer writer' : Writing K} (h : Good R store writer unheard seen phase)
    (hno : ∀ j, writer ≠ .wrote j) (hno' : ∀ j, writer' ≠ .wrote j) :
    Good R store writer' unheard seen phase := by
  cases phase with
  | listening j queue polls =>
    refine ⟨fun hj ↦ ?_, fun hj ↦ h.2.1 (hj.imp_right fun hw ↦ absurd hw (hno' j)), h.2.2⟩
    rcases h.1 hj with hmem | hwrote | hun
    · exact Or.inl hmem
    · exact absurd hwrote (hno j)
    · exact Or.inr (Or.inr hun)
  | _ => exact h

end Write

/-- **Every step keeps the invariant**, if what is there for a waiting watcher counts as seen. -/
theorem Step.inv (hstep : Step R s s') (h : Inv R seen s)
    (hbefore : ∀ w k, (s.watchers w).WaitsFor k → R.Holds s.store k → seen w k)
    (hafter : ∀ w k, (s'.watchers w).WaitsFor k → R.Holds s'.store k → seen w k) :
    Inv R seen s' := by
  cases hstep with
  | lock w k hw hfree => exact h.setWatcher w trivial fun hno ↦ absurd hfree hno
  | fail w k hw => exact h.setWatcher w ⟨fun hv ↦ (by cases hv), rfl⟩ fun _ ↦ id
  | find w k hw hk =>
    have hseen : seen w k := hbefore w k (by rw [hw]; rfl) hk
    exact h.setWatcher w ⟨fun _ ↦ hseen, rfl⟩ fun _ ↦ id
  | miss w k hw hk =>
    refine h.setWatcher w (fun hno ↦ absurd hno hk) fun hwriter _ ↦ ?_
    exact h.exclusive hwriter w (hw ▸ trivial)
  | listen w k hw =>
    have habsent : Good R s.store s.writer s.unheard (seen w) (.absent k) := hw ▸ h.watchers w
    refine h.setWatcher w ⟨fun hk ↦ Or.inr (Or.inr (habsent hk)), ?_, rfl⟩ fun _ ↦ id
    -- nobody writes while a watcher has the lock
    rintro (hmem | hwrote)
    · exact absurd hmem List.not_mem_nil
    · refine absurd ?_ (h.exclusive (by rw [hwrote]; simp) w)
      rw [hw]
      trivial
  | receive w =>
    exact h.setWatcher w (h.watchers w).receive fun hno ↦ holdsLock_receive (h.exclusive hno w)
  | alarm w =>
    exact h.setWatcher w ((h.watchers w).poll fun k _ hk ↦ by cases hk)
      fun hno ↦ holdsLock_poll (h.exclusive hno w)
  | close w hw =>
    exact h.setWatcher w ((h.watchers w).poll fun k _ hk ↦ by cases hk)
      fun hno ↦ holdsLock_poll (h.exclusive hno w)
  | again w hw => exact h.setWatcher w trivial fun _ ↦ id
  | acquire hfree hlock =>
    refine ⟨fun _ ↦ hlock, fun w ↦ (h.watchers w).writer (fun j hj ↦ ?_) fun j hj ↦ by cases hj⟩
    simp [hfree] at hj
  | giveUp hheld =>
    refine ⟨fun hno ↦ absurd rfl hno, fun w ↦ (h.watchers w).writer (fun j hj ↦ ?_)
      fun j hj ↦ by cases hj⟩
    simp [hheld] at hj
  | write k store hheld hk =>
    have hlock : ∀ w, ¬ (s.watchers w).HoldsLock := h.exclusive (by simp [hheld])
    exact ⟨fun _ ↦ hlock, fun w ↦ Good.write (hheld ▸ h.watchers w) (hlock w)
      (R.writes_holds hk) (hafter w)⟩
  | announce k hwrote =>
    exact ⟨fun hno ↦ absurd rfl hno, fun w ↦ Good.announce (hwrote ▸ h.watchers w)⟩
  | hush k hwrote =>
    exact ⟨fun hno ↦ absurd rfl hno, fun w ↦ Good.hush (hwrote ▸ h.watchers w)⟩
  | silent store hstore => exact ⟨h.exclusive, fun w ↦ (h.watchers w).silent⟩

/-- In a run from `s` to `s'`, the watcher `w` waited for the key `k` while it was there. -/
def Seen (R : Rules K S) (s s' : System W K S) (w : W) (k : K) : Prop :=
  ∃ u, ReflTransGen (Step R) s u ∧ ReflTransGen (Step R) u s' ∧ (u.watchers w).WaitsFor k ∧
    R.Holds u.store k

theorem Seen.tail {u : System W K S} {w : W} {k : K} (h : Seen R s u w k) (hstep : Step R u s') :
    Seen R s s' w k := by
  obtain ⟨t, ht, hrest, hwaits, hholds⟩ := h
  exact ⟨t, ht, hrest.tail hstep, hwaits, hholds⟩

/-- **And so does every run**, in whatever order the steps are taken. -/
theorem Steps.inv (hsteps : ReflTransGen (Step R) s s') (h : Inv R (Seen R s s) s) :
    Inv R (Seen R s s') s' := by
  induction hsteps with
  | refl => exact h
  | @tail u v hsteps hstep ih =>
    refine hstep.inv (ih.mono fun w k hseen ↦ hseen.tail hstep) (fun w k hw hk ↦ ?_)
      fun w k hw hk ↦ ?_
    · exact ⟨u, hsteps, ReflTransGen.single hstep, hw, hk⟩
    · exact ⟨v, hsteps.tail hstep, ReflTransGen.refl, hw, hk⟩

/-! ## What comes in unannounced -/

/-- The writer let the lock go without a word, or wrote without the lock. -/
def Unannounced (R : Rules K S) (k : K) (s s' : System W K S) : Prop :=
  (s.writer = .wrote k ∧ s'.writer = .free ∧ s'.watchers = s.watchers) ∨
    (R.Silent s.store s'.store ∧ R.Holds s'.store k ∧ ¬ R.Holds s.store k)

theorem Step.unheard (hstep : Step R s s') {k : K} (hk : k ∈ s'.unheard) :
    k ∈ s.unheard ∨ Unannounced R k s s' := by
  cases hstep with
  | hush j hwrote =>
    rcases Set.mem_insert_iff.mp hk with rfl | hk
    · exact Or.inr (Or.inl ⟨hwrote, rfl, rfl⟩)
    · exact Or.inl hk
  | silent store hstore =>
    rcases hk with hk | ⟨hnew, hold⟩
    · exact Or.inl hk
    · exact Or.inr (Or.inr ⟨hstore, hnew, hold⟩)
  | _ => exact Or.inl hk

theorem Steps.unheard (hsteps : ReflTransGen (Step R) s s') {k : K} (hstart : k ∉ s.unheard)
    (hk : k ∈ s'.unheard) : ∃ u u', ReflTransGen (Step R) s u ∧ Step R u u' ∧
      ReflTransGen (Step R) u' s' ∧ Unannounced R k u u' := by
  induction hsteps with
  | refl => exact absurd hk hstart
  | @tail b c hsteps hstep ih =>
    rcases hstep.unheard hk with hold | hnew
    · obtain ⟨u, u', hu, hone, hrest, hun⟩ := ih hold
      exact ⟨u, u', hu, hone, hrest.tail hstep, hun⟩
    · exact ⟨b, c, hsteps, hstep, ReflTransGen.refl, hnew⟩

/-! ## A listener that polls -/

theorem receive_found {k : K} : ∀ {queue : List K} (polls : List (Poll K)), k ∈ queue →
    ∃ polls', Phase.receive^[queue.idxOf k + 1] (.listening k queue polls) =
      .done k .found (some false) polls' := by
  intro queue
  induction queue with
  | nil => exact fun _ h ↦ absurd h List.not_mem_nil
  | cons j queue ih =>
    intro polls h
    rw [Function.iterate_succ_apply, Phase.receive, Phase.poll]
    by_cases hj : j = k
    · subst hj
      rw [List.idxOf_cons_self, verdict, if_pos rfl]
      exact ⟨_, rfl⟩
    · have hmem : k ∈ queue := (List.mem_cons.mp h).resolve_left fun heq ↦ hj heq.symm
      rw [List.idxOf_cons_ne _ hj, verdict, if_neg hj]
      exact ih _ hmem

end Watch

end Fudge
