import Mathlib.Data.List.Range
import Mathlib.Order.Monotone.Basic
import Fudge.Call.Run
import Fudge.Inherent.Timestamp

/-!
# A shared clock

Any number of holders share the clock that is registered under one id. Each of them takes clones of
it, and provides timestamps from the clones it took: at once or later, once or several times.

The registered clock counts the timestamps that were provided. A clone reads what that count was
when it was taken. So the `n`-th timestamp is that of some tick before the `n`-th one, and the
timestamps are different from each other only if every one of them is of the last tick there is,
which leaves no room for a stale clone (`timestamps_iff`).
-/

namespace Fudge

namespace CurrTimeProvider

open Call

/-! ## Runs -/

/-- The registry, and the clones that were taken so far. -/
structure Holders where
  registry : Registry
  clones : List CurrTimeProvider := []

inductive ClockError where
  | provider (e : Error)
  | inherents (e : InherentsError)
deriving DecidableEq, Repr

/-- What the holders do. A timestamp is provided from one of the clones, by its place, into some
inherent data. -/
inductive ClockOp where
  | createInstance (H : ClockHost) (delta : Duration) (start : Option Duration)
  | forceNew (H : ClockHost) (id : InstanceId) (delta : Duration) (start : Option Duration)
  | getInstance (H : ClockHost) (id : InstanceId)
  | provideInherentData (H : ClockHost) (clone : ℕ) (data : InherentData)

def registryCall {α : Type} (c : Call Registry Error α) : Call Holders ClockError α :=
  Call.mapErr .provider (Call.zoom (·.registry) (fun r s ↦ { s with registry := r }) c)

/-- A timestamp is provided from the clone `p`. -/
def provideFrom (H : ClockHost) (data : InherentData) (p : CurrTimeProvider) :
    Call Holders ClockError Unit :=
  Call.mapErr .inherents (Call.zoom (fun s ↦ (s.registry, data))
    (fun t s ↦ { s with registry := t.1 }) (CurrTimeProvider.provideInherentData H p))

/-- The call that performs an operation. Nobody can use a clone that was not taken. -/
def clockStep : ClockOp → Call Holders ClockError Unit
  | .createInstance H delta start => registryCall (createInstance H delta start) >>= fun _ ↦ pure ()
  | .forceNew H id delta start => registryCall (forceNew H id delta start)
  | .getInstance H id => do
    let p ← registryCall (CurrTimeProvider.getInstance H id)
    Call.modify fun s ↦ { s with clones := s.clones ++ [p] }
  | .provideInherentData H clone data => do
    let p ← Call.read (·.clones[clone]?)
    match p with
    | some p => provideFrom H data p
    | none => pure ()

/-- The timestamp that an operation puts into its inherent data, if it succeeds in this from a clone
of the clock `id`. -/
def provided (id : InstanceId) : ClockOp → Holders → Option ℕ
  | .provideInherentData H clone data, s => match s.clones[clone]? with
    | some p => if p.instanceId = id ∧ (provideFrom H data p s).1.isOk then some p.currentTime
      else none
    | none => none
  | _, _ => none

/-- The timestamps of a run, in the order of the calls. -/
def timestamps (id : InstanceId) (ops : List ClockOp) (s : Holders) : List ℕ :=
  ledger clockStep (fun op s stamps ↦ stamps ++ (provided id op s).toList) ops s []

/-- The clock `id` is not overwritten, and the times of its clones do not saturate. -/
def Undisturbed (id : InstanceId) : ClockOp → Holders → Prop
  | .createInstance _ _ _, s => s.registry.counter ≠ id
  | .forceNew _ id' _ _, _ => id' ≠ id
  | .getInstance _ _, _ => True
  | .provideInherentData _ clone _, s => ∀ p, s.clones[clone]? = some p → p.instanceId = id →
    p.start.asMillis + p.delta.asMillis * p.ticks < 2 ^ 64

/-- A timestamp is provided from a clone that is as far as the registered clock: none was provided
since the clone was taken. -/
def Fresh (id : InstanceId) : ClockOp → Holders → Prop
  | .provideInherentData H clone data, s => ∀ p q, s.clones[clone]? = some p → p.instanceId = id →
    (provideFrom H data p s).1.isOk = true → s.registry.instances id = some q → p.ticks = q.ticks
  | _, _ => True

/-! ## The invariant -/

/-- The time of the clock `p` after `n` more ticks. -/
def reading (p : CurrTimeProvider) (n : ℕ) : ℕ :=
  p.start.asMillis + p.delta.asMillis * (p.ticks + n)

theorem reading_strictMono {p : CurrTimeProvider} (hdelta : 1 ≤ p.delta.asMillis) :
    StrictMono (reading p) := by
  intro m n hmn
  have hmul : p.delta.asMillis * (p.ticks + m) < p.delta.asMillis * (p.ticks + n) :=
    Nat.mul_lt_mul_of_pos_left (by omega) hdelta
  rw [reading, reading]
  omega

/-- `q` is the clock `p` after `n` more ticks. -/
structure AtTick (p : CurrTimeProvider) (n : ℕ) (q : CurrTimeProvider) : Prop where
  start : q.start = p.start
  delta : q.delta = p.delta
  ticks : q.ticks = p.ticks + n

theorem AtTick.currentTime {p q : CurrTimeProvider} {n : ℕ} (h : AtTick p n q)
    (hlt : q.start.asMillis + q.delta.asMillis * q.ticks < 2 ^ 64) :
    q.currentTime = reading p n := by
  rw [currentTime_of_lt hlt, h.start, h.delta, h.ticks, reading]

/-- The clock `id` was `p` and has moved by `n` ticks; its clones are not ahead of it. -/
structure Clocked (id : InstanceId) (p : CurrTimeProvider) (n : ℕ) (s : Holders) : Prop where
  registered : ∃ q, s.registry.instances id = some q ∧ AtTick p n q
  clones : ∀ q ∈ s.clones, q.instanceId = id → ∃ k, k ≤ n ∧ AtTick p k q

section Steps

variable {id : InstanceId} {p : CurrTimeProvider} {n : ℕ} {s t : Holders}

theorem Clocked.congr (h : Clocked id p n s)
    (hr : t.registry.instances id = s.registry.instances id) (hc : t.clones = s.clones) :
    Clocked id p n t :=
  ⟨hr ▸ h.registered, hc ▸ h.clones⟩

theorem Clocked.registryCall {α : Type} {c : Call Registry Error α} (h : Clocked id p n s)
    (hc : (c s.registry).2.instances id = s.registry.instances id) :
    Clocked id p n (registryCall c s).2 := by
  refine h.congr ?_ ?_
  · rw [CurrTimeProvider.registryCall, mapErr_snd]
    exact hc
  · rw [CurrTimeProvider.registryCall, mapErr_snd]
    rfl

theorem Clocked.getInstance (h : Clocked id p n s) (H : ClockHost) (id' : InstanceId) :
    Clocked id p n (clockStep (.getInstance H id') s).2 := by
  have hcall : Clocked id p n (CurrTimeProvider.registryCall
      (CurrTimeProvider.getInstance H id') s).2 :=
    h.registryCall (getInstance_keeps (f := fun r ↦ r.instances id) id' s.registry)
  rw [clockStep]
  rcases bind_cases (CurrTimeProvider.registryCall (CurrTimeProvider.getInstance H id'))
      (fun p ↦ Call.modify fun s ↦ { s with clones := s.clones ++ [p] }) s with
    ⟨q, hq, hpush⟩ | ⟨-, -, hstop⟩
  · rw [hpush]
    refine ⟨hcall.registered, fun c hc hid ↦ ?_⟩
    rcases List.mem_append.mp hc with hc | hc
    · exact hcall.clones c hc hid
    · obtain rfl := List.mem_singleton.mp hc
      obtain ⟨r, hr, -⟩ := zoom_eq_ok.mp (mapErr_eq_ok.mp hq)
      have hget := getInstance_eq_ok hr
      obtain rfl : id' = id := (s.registry.keyed _ _ hget).symm.trans hid
      obtain ⟨q, hq, hat⟩ := h.registered
      obtain rfl := Option.some.inj (hget.symm.trans hq)
      exact ⟨n, le_refl n, hat⟩
  · rw [hstop]
    exact hcall

/-- **Providing a timestamp** from a clone: it fails and moves nothing, or it moves the clock under
whose id the clone was taken. -/
theorem provideFrom_cases (H : ClockHost) (data : InherentData) (q : CurrTimeProvider)
    (s : Holders) :
    ((provideFrom H data q s).1.isOk = false ∧
        (provideFrom H data q s).2.registry = s.registry ∧
        (provideFrom H data q s).2.clones = s.clones) ∨
      ∃ r, s.registry.instances q.instanceId = some r ∧ provideFrom H data q s =
        (.ok (), { s with registry := s.registry.insert { r with ticks := r.ticks + 1 } }) := by
  rcases provideInherentData_cases (H := H) q s.registry data with ⟨hno, hsame⟩ | ⟨r, hr, hok⟩
  · left
    rw [provideFrom, mapErr_isOk, mapErr_snd]
    exact ⟨hno, hsame, rfl⟩
  · exact Or.inr ⟨r, hr, mapErr_eq_ok.mpr (zoom_eq_ok.mpr ⟨_, hok, rfl⟩)⟩

theorem Clocked.tick (h : Clocked id p n s) {r : CurrTimeProvider}
    (hr : s.registry.instances id = some r) :
    Clocked id p (n + 1)
      { s with registry := s.registry.insert { r with ticks := r.ticks + 1 } } := by
  obtain ⟨q, hq, hat⟩ := h.registered
  obtain rfl : r = q := Option.some.inj (hr.symm.trans hq)
  refine ⟨⟨{ r with ticks := r.ticks + 1 }, Registry.insert_tick_self hr, hat.start, hat.delta,
    ?_⟩, fun c hc hcid ↦ ?_⟩
  · rw [hat.ticks]
    rfl
  · obtain ⟨k, hk, hck⟩ := h.clones c hc hcid
    exact ⟨k, by omega, hck⟩

/-- Providing a timestamp from a clone that was taken: the clock `id` stays where it is, or the
clone is one of it and shows some tick `k` so far, which is the last one exactly if the clone is as
far as the registered clock. -/
theorem Clocked.provideFrom (h : Clocked id p n s) (H : ClockHost) (data : InherentData)
    {c : CurrTimeProvider} (hc : c ∈ s.clones) (hlt : c.instanceId = id →
      c.start.asMillis + c.delta.asMillis * c.ticks < 2 ^ 64) :
    (¬ (c.instanceId = id ∧ (provideFrom H data c s).1.isOk = true) ∧
        Clocked id p n (provideFrom H data c s).2) ∨
      (c.instanceId = id ∧ (provideFrom H data c s).1.isOk = true ∧ ∃ k, k ≤ n ∧
        c.currentTime = reading p k ∧
        (∃ r, s.registry.instances id = some r ∧ (c.ticks = r.ticks ↔ k = n)) ∧
        Clocked id p (n + 1) (provideFrom H data c s).2) := by
  rcases provideFrom_cases H data c s with ⟨hno, hr, hclones⟩ | ⟨r, hr, hok⟩
  · refine Or.inl ⟨?_, h.congr (by rw [hr]) hclones⟩
    rintro ⟨-, hyes⟩
    exact Bool.false_ne_true (hno.symm.trans hyes)
  · rw [hok]
    by_cases hid : c.instanceId = id
    · obtain ⟨k, hk, hat⟩ := h.clones c hc hid
      rw [hid] at hr
      refine Or.inr ⟨hid, rfl, k, hk, hat.currentTime (hlt hid), ⟨r, hr, ?_⟩, h.tick hr⟩
      obtain ⟨q, hq, hlast⟩ := h.registered
      obtain rfl : r = q := Option.some.inj (hr.symm.trans hq)
      rw [hat.ticks, hlast.ticks]
      omega
    · -- another clock moves
      exact Or.inl ⟨fun hyes ↦ hid hyes.1, h.congr (Registry.insert_tick_of_ne hr hid) rfl⟩

/-- **One operation** provides no timestamp of the clock `id` and does not move it; or it provides
that of some tick so far, and moves it. -/
theorem clockStep_cases (op : ClockOp) (hop : Undisturbed id op s) (h : Clocked id p n s) :
    (provided id op s = none ∧ Fresh id op s ∧ Clocked id p n (clockStep op s).2) ∨
      ∃ k, k ≤ n ∧ provided id op s = some (reading p k) ∧ (Fresh id op s ↔ k = n) ∧
        Clocked id p (n + 1) (clockStep op s).2 := by
  cases op with
  | createInstance H delta start =>
    refine Or.inl ⟨rfl, trivial, ?_⟩
    rw [clockStep, bind_pure_snd]
    exact h.registryCall (createInstance_instances hop delta start)
  | forceNew H id' delta start =>
    exact Or.inl ⟨rfl, trivial, h.registryCall (forceNew_keeps hop delta start s.registry)⟩
  | getInstance H id' => exact Or.inl ⟨rfl, trivial, h.getInstance H id'⟩
  | provideInherentData H clone data =>
    have hstep : clockStep (.provideInherentData H clone data) s = (match s.clones[clone]? with
      | some p => provideFrom H data p
      | none => pure ()) s := bind_of_ok (read_apply _ s)
    rw [hstep, provided]
    rcases Option.eq_none_or_eq_some s.clones[clone]? with hc | ⟨c, hc⟩
    · refine Or.inl ⟨by rw [hc], fun q _ hq ↦ ?_, by rw [hc]; exact h⟩
      rw [hc] at hq
      cases hq
    · rw [hc]
      rcases h.provideFrom H data (List.mem_of_getElem? hc) (hop c hc) with
        ⟨hno, hnext⟩ | ⟨hid, hok, k, hk, htime, ⟨r, hr, hlast⟩, hnext⟩
      · refine Or.inl ⟨if_neg hno, fun q r hq hid hok ↦ ?_, hnext⟩
        obtain rfl : c = q := Option.some.inj (hc.symm.trans hq)
        exact absurd ⟨hid, hok⟩ hno
      · refine Or.inr ⟨k, hk, by rw [← htime]; exact if_pos ⟨hid, hok⟩, ?_, hnext⟩
        rw [← hlast]
        constructor
        · intro hfresh
          exact hfresh c r hc hid hok hr
        · intro heq q r' hq _ _ hr'
          obtain rfl : c = q := Option.some.inj (hc.symm.trans hq)
          obtain rfl : r = r' := Option.some.inj (hr.symm.trans hr')
          exact heq

end Steps

/-! ## The timestamps of a run -/

theorem timestamps_cons (id : InstanceId) (op : ClockOp) (ops : List ClockOp) (s : Holders) :
    timestamps id (op :: ops) s = (provided id op s).toList ++
      if (clockStep op s).1.isPanic then [] else timestamps id ops (clockStep op s).2 := by
  rw [timestamps, ledger]
  by_cases hp : (clockStep op s).1.isPanic = true
  · simp [hp]
  · rw [if_neg hp, if_neg hp, ledger_append]
    simp [timestamps]

theorem eq_of_nodup_readings {p : CurrTimeProvider} {k n : ℕ} (hk : k ≤ n) {rest : List ℕ}
    (hnodup : ((List.range n).map (reading p) ++ reading p k :: rest).Nodup) : k = n := by
  by_contra hne
  have hmem : reading p k ∈ (List.range n).map (reading p) :=
    List.mem_map_of_mem (List.mem_range.mpr (by omega))
  exact (List.nodup_append.mp hnodup).2.2 _ hmem _ List.mem_cons_self rfl

theorem readings_succ (p : CurrTimeProvider) (n : ℕ) (rest : List ℕ) :
    (List.range n).map (reading p) ++ reading p n :: rest =
      (List.range (n + 1)).map (reading p) ++ rest := by
  simp [List.range_succ]

/-- After the readings of the first `n` ticks, the timestamps of a run repeat one of them, or all of
them were provided from fresh clones and the readings go on. -/
theorem timestamps_after {id : InstanceId} {p : CurrTimeProvider} :
    ∀ (ops : List ClockOp) {n : ℕ} {s : Holders}, Clocked id p n s →
      Along clockStep (Undisturbed id) ops s →
      (((List.range n).map (reading p) ++ timestamps id ops s).Nodup →
        Along clockStep (Fresh id) ops s) ∧
      (Along clockStep (Fresh id) ops s → ∃ m, (List.range n).map (reading p) ++
        timestamps id ops s = (List.range m).map (reading p)) := by
  intro ops
  induction ops with
  | nil =>
    intro n s _ _
    exact ⟨fun _ ↦ trivial, fun _ ↦ ⟨n, by simp [timestamps, ledger]⟩⟩
  | cons op ops ih =>
    intro n s h hops
    rw [timestamps_cons]
    -- what comes after the call, if the call does not end the run
    have hrest : ∀ {m : ℕ} {rest : List ℕ}, Clocked id p m (clockStep op s).2 →
        rest = (if (clockStep op s).1.isPanic then [] else timestamps id ops (clockStep op s).2) →
        (((List.range m).map (reading p) ++ rest).Nodup →
          (clockStep op s).1.isPanic = false →
            Along clockStep (Fresh id) ops (clockStep op s).2) ∧
        (((clockStep op s).1.isPanic = false →
          Along clockStep (Fresh id) ops (clockStep op s).2) →
            ∃ m', (List.range m).map (reading p) ++ rest = (List.range m').map (reading p)) := by
      rintro m rest hnext rfl
      by_cases hp : (clockStep op s).1.isPanic = true
      · rw [if_pos hp, List.append_nil]
        exact ⟨fun _ hno ↦ absurd (hno.symm.trans hp) Bool.false_ne_true, fun _ ↦ ⟨m, rfl⟩⟩
      · rw [if_neg hp]
        have hp : (clockStep op s).1.isPanic = false := by simpa using hp
        obtain ⟨hdup, hall⟩ := ih hnext (hops.2 hp)
        exact ⟨fun hnodup _ ↦ hdup hnodup, fun hal ↦ hall (hal hp)⟩
    rcases clockStep_cases op hops.1 h with ⟨hnone, hfresh, hnext⟩ | ⟨k, hk, hsome, hfresh, hnext⟩
    · obtain ⟨hdup, hall⟩ := hrest hnext rfl
      rw [hnone, Option.toList_none, List.nil_append]
      exact ⟨fun hnodup ↦ ⟨hfresh, hdup hnodup⟩, fun hal ↦ hall hal.2⟩
    · obtain ⟨hdup, hall⟩ := hrest hnext rfl
      rw [hsome, Option.toList_some, List.singleton_append]
      constructor
      · intro hnodup
        have hkn : k = n := eq_of_nodup_readings hk hnodup
        rw [hkn, readings_succ] at hnodup
        exact ⟨hfresh.mpr hkn, hdup hnodup⟩
      · intro hal
        rw [hfresh.mp hal.1, readings_succ]
        exact hall hal.2

/-- **A shared clock.** However the calls of the holders interleave, the timestamps they provide are
different from each other, and increasing in the order of the calls, exactly if each of them was
provided from a clone since whose taking none was provided. -/
theorem timestamps_iff {id : InstanceId} {p : CurrTimeProvider} {s : Holders}
    (hregistered : s.registry.instances id = some p) (hdelta : 1 ≤ p.delta.asMillis)
    (hclones : ∀ q ∈ s.clones, q.instanceId ≠ id) (ops : List ClockOp)
    (hops : Along clockStep (Undisturbed id) ops s) :
    ((timestamps id ops s).Nodup ↔ Along clockStep (Fresh id) ops s) ∧
      ((timestamps id ops s).Pairwise (· < ·) ↔ Along clockStep (Fresh id) ops s) := by
  have hstart : Clocked id p 0 s :=
    ⟨⟨p, hregistered, rfl, rfl, rfl⟩, fun q hq hid ↦ absurd hid (hclones q hq)⟩
  obtain ⟨hdup, hall⟩ := timestamps_after ops hstart hops
  have hincreasing : Along clockStep (Fresh id) ops s →
      (timestamps id ops s).Pairwise (· < ·) := by
    intro hal
    obtain ⟨m, hm⟩ := hall hal
    have hm : timestamps id ops s = (List.range m).map (reading p) := by simpa using hm
    rw [hm, List.pairwise_map]
    exact List.pairwise_lt_range.imp fun hlt ↦ reading_strictMono hdelta hlt
  have hnodup : (timestamps id ops s).Nodup → Along clockStep (Fresh id) ops s := by
    simpa using hdup
  have hdistinct : (timestamps id ops s).Pairwise (· < ·) → (timestamps id ops s).Nodup :=
    fun h ↦ h.imp fun hlt ↦ hlt.ne
  exact ⟨⟨hnodup, fun hal ↦ hdistinct (hincreasing hal)⟩,
    ⟨fun h ↦ hnodup (hdistinct h), hincreasing⟩⟩

/-! ## Two holders -/

def seconds (n : ℕ) (h : n < 2 ^ 64) : Duration := ⟨n, 0, h, by decide⟩

def unlocked : ClockHost := ⟨.ok (), .error "unused"⟩

/-- A clock that starts at ten seconds and moves by two. -/
def twoSeconds : Holders :=
  { registry := Registry.empty.insert ⟨0, seconds 10 (by decide), seconds 2 (by decide), 0⟩ }

/-- Both holders take their clone before either of them provides a timestamp. -/
theorem timestamps_repeat :
    timestamps 0 [.getInstance unlocked 0, .getInstance unlocked 0,
      .provideInherentData unlocked 0 [], .provideInherentData unlocked 1 []] twoSeconds =
        [10000, 10000] := by
  decide +kernel

/-- Each of them takes its clone and provides a timestamp before the other one does. -/
def alternate : List ClockOp :=
  [.getInstance unlocked 0, .provideInherentData unlocked 0 [], .getInstance unlocked 0,
    .provideInherentData unlocked 1 []]

theorem timestamps_alternate : (timestamps 0 alternate twoSeconds).Pairwise (· < ·) := by
  have hexact : ∀ {s : Holders} {n : ℕ}, (s.clones[n]?).all (fun p ↦
      decide (p.start.asMillis + p.delta.asMillis * p.ticks < 2 ^ 64)) = true →
      Undisturbed 0 (.provideInherentData unlocked n []) s := by
    intro s n hall p hp _
    rw [hp] at hall
    exact of_decide_eq_true hall
  have hfresh : ∀ {s : Holders} {n : ℕ}, (s.clones[n]?).all (fun p ↦
      (s.registry.instances 0).all fun q ↦ decide (p.ticks = q.ticks)) = true →
      Fresh 0 (.provideInherentData unlocked n []) s := by
    intro s n hall p q hp _ _ hq
    rw [hp, hq] at hall
    exact of_decide_eq_true hall
  have hregistered : twoSeconds.registry.instances 0 =
      some ⟨0, seconds 10 (by decide), seconds 2 (by decide), 0⟩ := by decide
  refine (timestamps_iff hregistered (by decide) (fun _ hq ↦ absurd hq List.not_mem_nil) alternate
    ⟨trivial, fun _ ↦ ⟨hexact (by decide +kernel), fun _ ↦ ⟨trivial, fun _ ↦
      ⟨hexact (by decide +kernel), fun _ ↦ trivial⟩⟩⟩⟩).2.mpr ?_
  exact ⟨trivial, fun _ ↦ ⟨hfresh (by decide +kernel), fun _ ↦ ⟨trivial, fun _ ↦
    ⟨hfresh (by decide +kernel), fun _ ↦ trivial⟩⟩⟩⟩

end CurrTimeProvider

end Fudge
