import Fudge.Inherent.Clock

/-!
# The exact values of a clock

The registry is used by calls that do not overlap: a clock is made or overwritten, or a clone of it
is taken and a timestamp provided from this clone at once. Then the `k`-th timestamp of a clock is
its start and `k` times its delta, cut off where the timestamp type ends.

The account that is kept of a clock is what was put into inherent data since it was made or
overwritten. The number of these timestamps is the number of its ticks: that is the invariant, up
to the one tick that the counter has no room for. A clock that would get so far has long stopped to
show anything but the largest timestamp, or it never moved.
-/

namespace Fudge

namespace CurrTimeProvider

open Call

/-! ## The calls -/

/-- A clone is taken, and a timestamp provided from it. -/
def provideFresh (H : ClockHost) (id : InstanceId) :
    Call (Registry × InherentData) ClockError Unit := do
  let p ← Call.mapErr .provider (Call.zoom Prod.fst (fun r s ↦ (r, s.2)) (getInstance H id))
  Call.mapErr .inherents (provideInherentData H p)

/-- A call that does not overlap with any other. -/
inductive ProviderOp where
  | createInstance (H : ClockHost) (delta : Duration) (start : Option Duration)
  | forceNew (H : ClockHost) (id : InstanceId) (delta : Duration) (start : Option Duration)
  | provideInherentData (H : ClockHost) (id : InstanceId) (data : InherentData)

def providerStep : ProviderOp → Call Registry ClockError Unit
  | .createInstance H delta start =>
    Call.mapErr .provider (createInstance H delta start) >>= fun _ ↦ pure ()
  | .forceNew H id delta start => Call.mapErr .provider (forceNew H id delta start)
  | .provideInherentData H id data =>
    Call.zoom (fun r ↦ (r, data)) (fun s _ ↦ s.1) (provideFresh H id)

/-- The timestamp that was put into the inherent data. -/
def putStamp (H : ClockHost) (id : InstanceId) (data : InherentData) (r : Registry) : Option ℕ :=
  ((provideFresh H id (r, data)).2.2.drop data.length).head?.bind fun entry ↦
    decodeTimestamp entry.2

def subject : ProviderOp → Registry → InstanceId
  | .createInstance _ _ _, r => r.counter
  | .forceNew _ id _ _, _ => id
  | .provideInherentData _ id _, _ => id

/-! ## The account of a clock -/

/-- What a clock was made with, and the timestamps that it gave since. -/
structure Account where
  start : Duration
  delta : Duration
  stamps : List ℕ := []

/-- The `k`-th timestamp, by exact arithmetic and one cut. -/
def Account.exact (a : Account) (k : ℕ) : ℕ :=
  min (2 ^ 64 - 1) (a.start.asMillis + k * a.delta.asMillis)

abbrev Accounts := InstanceId → Option Account

/-- The start of a clock: the given one, or the system time. -/
def ClockHost.startOf (H : ClockHost) : Option Duration → Option Duration
  | some start => some start
  | none => H.now.toOption

/-- A clock that was made or overwritten, if it was, has a new account. -/
def Accounts.openFor (accounts : Accounts) (delta : Duration) (made : Option InstanceId)
    (start : Option Duration) : Accounts :=
  match made with
  | some id => Function.update accounts id (start.map fun start ↦ ⟨start, delta, []⟩)
  | none => accounts

/-- A timestamp, if one was put, is added to the account of its clock. -/
def Accounts.add (accounts : Accounts) (id : InstanceId) (stamp : Option ℕ) : Accounts :=
  Function.update accounts id
    ((accounts id).map fun a ↦ { a with stamps := a.stamps ++ stamp.toList })

def keepAccounts : ProviderOp → Registry → Accounts → Accounts
  | .createInstance H delta start, r, accounts =>
    accounts.openFor delta (createInstance H delta start r).1.toOption (H.startOf start)
  | .forceNew H id delta start, r, accounts =>
    accounts.openFor delta ((forceNew H id delta start r).1.toOption.map fun _ ↦ id)
      (H.startOf start)
  | .provideInherentData H id data, r, accounts => accounts.add id (putStamp H id data r)

/-- The accounts after a run that starts without any. -/
def accountsAfter (ops : List ProviderOp) (r : Registry) : Accounts :=
  ledger providerStep keepAccounts ops r fun _ ↦ none

/-! ## What a call does -/

variable {H : ClockHost}

theorem lockInstances_of_ok {u : Unit} (hl : H.lock = .ok u) (r : Registry) :
    lockInstances H r = (.ok u, r) := query_eq_ok.mpr ⟨hl, rfl⟩

theorem getInstance_cases (id : InstanceId) (r : Registry) :
    (∃ e, getInstance H id r = (.err e, r)) ∨
      ∃ u p, H.lock = .ok u ∧ r.instances id = some p ∧ getInstance H id r = (.ok p, r) := by
  rw [getInstance]
  rcases hl : H.lock with e | u
  · have hlock : lockInstances H r = (.err (.instancesLockPoisoned e), r) := by
      rw [lockInstances, Call.query, hl]
    exact Or.inl ⟨_, bind_of_err hlock⟩
  · rw [bind_of_ok (lockInstances_of_ok hl r), bind_of_ok (read_apply _ r)]
    rcases Option.eq_none_or_eq_some (r.instances id) with hnone | ⟨p, hp⟩
    · rw [hnone]
      exact Or.inl ⟨_, rfl⟩
    · rw [hp]
      exact Or.inr ⟨u, p, rfl, rfl, rfl⟩

theorem fetch_cases (id : InstanceId) (r : Registry) (data : InherentData) :
    (∃ e, Call.mapErr ClockError.provider
        (Call.zoom Prod.fst (fun r (s : Registry × InherentData) ↦ (r, s.2)) (getInstance H id))
          (r, data) = (.err (.provider e), r, data)) ∨
      ∃ u p, H.lock = .ok u ∧ r.instances id = some p ∧ Call.mapErr ClockError.provider
        (Call.zoom Prod.fst (fun r (s : Registry × InherentData) ↦ (r, s.2)) (getInstance H id))
          (r, data) = (.ok p, r, data) := by
  rcases getInstance_cases (H := H) id r with ⟨e, hget⟩ | ⟨u, p, hl, hp, hget⟩
  · exact Or.inl ⟨e, by rw [Call.mapErr, Call.zoom, hget]⟩
  · exact Or.inr ⟨u, p, hl, hp, by rw [Call.mapErr, Call.zoom, hget]⟩

theorem updateTime_of_registered {u : Unit} {p : CurrTimeProvider} {r : Registry}
    (hl : H.lock = .ok u) (hp : r.instances p.instanceId = some p) :
    updateTime H p r = if p.ticks + 1 < 2 ^ 128 then
      (.ok (), r.insert { p with ticks := p.ticks + 1 }) else (.panic, r) := by
  have hfound : Call.require (Error.instanceNotFound p.instanceId) (r.instances p.instanceId) r =
      (.ok p, r) := require_eq_ok.mpr ⟨hp, rfl⟩
  rw [updateTime, bind_of_ok (lockInstances_of_ok hl r), bind_of_ok (read_apply _ r),
    bind_of_ok hfound, tick]
  rcases assert_bind_cases (ε := Error) (fun _ ↦ decide (p.ticks + 1 < 2 ^ 128))
      (fun _ ↦ Call.modify (Registry.insert { p with ticks := p.ticks + 1 })) r with
    ⟨hroom, h⟩ | ⟨hfull, h⟩
  · rw [if_pos (of_decide_eq_true hroom)]
    exact h
  · rw [if_neg (of_decide_eq_false hfull)]
    exact h

/-- **Providing a timestamp at once.** Nothing is put, and nothing moves; or the time of the
registered clock is put, and the clock moves, unless its counter is full. -/
theorem provideFresh_cases (id : InstanceId) (r : Registry) (data : InherentData) :
    ((provideFresh H id (r, data)).1.isOk = false ∧ (provideFresh H id (r, data)).2 = (r, data)) ∨
      ∃ p, r.instances id = some p ∧ provideFresh H id (r, data) =
        if p.ticks + 1 < 2 ^ 128 then
          (.ok (), r.insert { p with ticks := p.ticks + 1 },
            data ++ [(inherentIdentifier, encodeTimestamp p.currentTime)])
        else (.panic, r, data ++ [(inherentIdentifier, encodeTimestamp p.currentTime)]) := by
  rw [provideFresh]
  rcases fetch_cases (H := H) id r data with ⟨e, hget⟩ | ⟨u, p, hl, hp, hget⟩
  · rw [bind_of_err hget]
    exact Or.inl ⟨rfl, rfl⟩
  · rw [bind_of_ok hget]
    have hid : p.instanceId = id := r.keyed id p hp
    have hupdate := updateTime_of_registered hl (hid.symm ▸ hp)
    rcases putData_cases inherentIdentifier (encodeTimestamp p.currentTime) data with
      ⟨hno, hsame⟩ | hput
    · refine Or.inl ?_
      rw [mapErr_isOk, mapErr_snd, provideInherentData]
      obtain ⟨hstop, hstate⟩ := bind_of_not_ok (c := Call.zoom Prod.snd
        (fun data (s : Registry × InherentData) ↦ (s.1, data))
        (putData inherentIdentifier (encodeTimestamp p.currentTime))) (s := (r, data)) hno
      refine ⟨hstop, ?_⟩
      rw [hstate]
      exact Prod.ext rfl hsame
    · refine Or.inr ⟨p, hp, ?_⟩
      have hzoom : Call.zoom Prod.snd (fun data (s : Registry × InherentData) ↦ (s.1, data))
          (putData inherentIdentifier (encodeTimestamp p.currentTime)) (r, data) =
            (.ok (), (r, data ++ [(inherentIdentifier, encodeTimestamp p.currentTime)])) :=
        zoom_eq_ok.mpr ⟨_, hput, rfl⟩
      rw [provideInherentData, Call.mapErr, bind_of_ok hzoom, Call.mapErr, Call.zoom, hupdate]
      by_cases hfull : p.ticks + 1 < 2 ^ 128
      · rw [if_pos hfull, if_pos hfull]
      · rw [if_neg hfull, if_neg hfull]

/-- The call is refused only for a poisoned lock, an unknown clock, a timestamp that is there
already or a full counter. -/
theorem provideFresh_returns {u : Unit} (hl : H.lock = .ok u) {id : InstanceId} {r : Registry}
    {p : CurrTimeProvider} (hp : r.instances id = some p) (hroom : p.ticks + 1 < 2 ^ 128)
    {data : InherentData} (hunused : data.lookup inherentIdentifier = none) :
    (provideFresh H id (r, data)).1.isOk = true := by
  have hget : getInstance H id r = (.ok p, r) := by
    rw [getInstance, bind_of_ok (lockInstances_of_ok hl r), bind_of_ok (read_apply _ r), hp]
    rfl
  have hfetch : Call.mapErr ClockError.provider (Call.zoom Prod.fst
      (fun r (s : Registry × InherentData) ↦ (r, s.2)) (getInstance H id)) (r, data) =
        (.ok p, r, data) := by
    rw [Call.mapErr, Call.zoom, hget]
  have hput : putData inherentIdentifier (encodeTimestamp p.currentTime) data =
      (.ok (), data ++ [(inherentIdentifier, encodeTimestamp p.currentTime)]) :=
    putData_eq_ok.mpr ⟨hunused, rfl⟩
  have hzoom : Call.zoom Prod.snd (fun data (s : Registry × InherentData) ↦ (s.1, data))
      (putData inherentIdentifier (encodeTimestamp p.currentTime)) (r, data) =
        (.ok (), (r, data ++ [(inherentIdentifier, encodeTimestamp p.currentTime)])) :=
    zoom_eq_ok.mpr ⟨_, hput, rfl⟩
  have hid : p.instanceId = id := r.keyed id p hp
  rw [provideFresh, bind_of_ok hfetch, mapErr_isOk, provideInherentData, bind_of_ok hzoom,
    mapErr_isOk, Call.zoom, updateTime_of_registered hl (hid.symm ▸ hp), if_pos hroom]
  rfl

theorem startTime_cases (start : Option Duration) (r : Registry) :
    (∃ e, startTime H start r = (.err e, r)) ∨
      ∃ s, H.startOf start = some s ∧ startTime H start r = (.ok s, r) := by
  rcases start with _ | start
  · rw [startTime, Call.query, ClockHost.startOf]
    rcases H.now with e | s
    · exact Or.inl ⟨_, rfl⟩
    · exact Or.inr ⟨s, rfl, rfl⟩
  · exact Or.inr ⟨start, rfl, rfl⟩

/-- **Overwriting a clock** succeeds where there is one, or it is an error and changes nothing. -/
theorem forceNew_cases (id : InstanceId) (delta : Duration) (start : Option Duration)
    (r : Registry) :
    (∃ e, forceNew H id delta start r = (.err e, r)) ∨
      ∃ s p, H.startOf start = some s ∧ r.instances id = some p ∧
        forceNew H id delta start r = (.ok (), r.insert ⟨id, s, delta, 0⟩) := by
  rw [forceNew]
  rcases hl : H.lock with e | u
  · have hlock : lockInstances H r = (.err (.instancesLockPoisoned e), r) := by
      rw [lockInstances, Call.query, hl]
    exact Or.inl ⟨_, bind_of_err hlock⟩
  · rw [bind_of_ok (lockInstances_of_ok hl r)]
    rcases startTime_cases (H := H) start r with ⟨e, hstart⟩ | ⟨s, hs, hstart⟩
    · exact Or.inl ⟨e, bind_of_err hstart⟩
    · rw [bind_of_ok hstart, bind_of_ok (read_apply _ r)]
      rcases Option.eq_none_or_eq_some (r.instances id) with hnone | ⟨p, hp⟩
      · rw [hnone]
        exact Or.inl ⟨_, rfl⟩
      · rw [hp]
        exact Or.inr ⟨s, p, hs, rfl, rfl⟩

/-- **Making a clock** uses up an id, and registers the clock under it unless there is an error. -/
theorem createInstance_cases (delta : Duration) (start : Option Duration) (r : Registry) :
    ((∃ e, (createInstance H delta start r).1 = .err e) ∧
        (createInstance H delta start r).2.instances = r.instances) ∨
      ∃ s, H.startOf start = some s ∧ createInstance H delta start r =
        (.ok r.counter, ({ r with counter := (r.counter + 1) % 2 ^ 64 } : Registry).insert
          ⟨r.counter, s, delta, 0⟩) := by
  let r' : Registry := { r with counter := (r.counter + 1) % 2 ^ 64 }
  have hfetch : fetchAdd r = (.ok r.counter, r') := rfl
  rw [createInstance, bind_of_ok hfetch]
  rcases startTime_cases (H := H) start r' with ⟨e, hstart⟩ | ⟨s, hs, hstart⟩
  · rw [bind_of_err hstart]
    exact Or.inl ⟨⟨e, rfl⟩, rfl⟩
  · rw [bind_of_ok hstart]
    rcases hl : H.lock with e | u
    · have hlock : lockInstances H r' = (.err (.instancesLockPoisoned e), r') := by
        rw [lockInstances, Call.query, hl]
      rw [bind_of_err hlock]
      exact Or.inl ⟨⟨_, rfl⟩, rfl⟩
    · rw [bind_of_ok (lockInstances_of_ok hl r')]
      exact Or.inr ⟨s, hs, rfl⟩

/-! ## The invariant -/

/-- A clock that has no room for another tick shows the same time as after it. -/
theorem Account.exact_min (a : Account) (n : ℕ) : a.exact (min n (2 ^ 128 - 1)) = a.exact n := by
  rcases Nat.le_total n (2 ^ 128 - 1) with hroom | hfull
  · rw [Nat.min_eq_left hroom]
  · rw [Nat.min_eq_right hfull, exact, exact]
    rcases Nat.eq_zero_or_pos a.delta.asMillis with hzero | hpos
    · rw [hzero, Nat.mul_zero, Nat.mul_zero]
    · have hmul : (2 ^ 128 - 1) * 1 ≤ (2 ^ 128 - 1) * a.delta.asMillis := Nat.mul_le_mul_left _ hpos
      have hmul' : (2 ^ 128 - 1) * a.delta.asMillis ≤ n * a.delta.asMillis :=
        Nat.mul_le_mul_right _ hfull
      omega

/-- The account `a` of the clock `id` is right. -/
structure KeptRight (r : Registry) (id : InstanceId) (a : Account) : Prop where
  registered : ∃ p, r.instances id = some p ∧ p.start = a.start ∧ p.delta = a.delta ∧
    p.ticks = min a.stamps.length (2 ^ 128 - 1)
  stamps : a.stamps = (List.range a.stamps.length).map a.exact

theorem KeptRight.congr {r r' : Registry} {id : InstanceId} {a : Account} (h : KeptRight r id a)
    (hr : r'.instances id = r.instances id) : KeptRight r' id a :=
  ⟨hr ▸ h.registered, h.stamps⟩

theorem KeptRight.ofNew (r : Registry) (id : InstanceId) (start delta : Duration) :
    KeptRight (r.insert ⟨id, start, delta, 0⟩) id ⟨start, delta, []⟩ :=
  ⟨⟨_, r.insert_instances_self ⟨id, start, delta, 0⟩, rfl, rfl, rfl⟩, rfl⟩

/-- A registered clock moves on, unless its counter is full. -/
def Moved (p : CurrTimeProvider) (r r' : Registry) : Prop :=
  (p.ticks + 1 < 2 ^ 128 ∧ r' = r.insert { p with ticks := p.ticks + 1 }) ∨
    (2 ^ 128 ≤ p.ticks + 1 ∧ r' = r)

theorem Moved.of_ne {r r' : Registry} {id id' : InstanceId} {p : CurrTimeProvider}
    (h : Moved p r r') (hp : r.instances id = some p) (hne : id ≠ id') :
    r'.instances id' = r.instances id' := by
  rcases h with ⟨-, rfl⟩ | ⟨-, rfl⟩
  · exact Registry.insert_tick_of_ne hp hne
  · rfl

theorem provideFresh_moved (id : InstanceId) (r : Registry) (data : InherentData) :
    (provideFresh H id (r, data)).2 = (r, data) ∨
      ∃ p, r.instances id = some p ∧ Moved p r (provideFresh H id (r, data)).2.1 ∧
        (provideFresh H id (r, data)).2.2 =
          data ++ [(inherentIdentifier, encodeTimestamp p.currentTime)] := by
  rcases provideFresh_cases (H := H) id r data with ⟨-, hsame⟩ | ⟨p, hp, hput⟩
  · exact Or.inl hsame
  · refine Or.inr ⟨p, hp, ?_⟩
    rw [hput]
    by_cases hroom : p.ticks + 1 < 2 ^ 128
    · rw [if_pos hroom]
      exact ⟨Or.inl ⟨hroom, rfl⟩, rfl⟩
    · rw [if_neg hroom]
      exact ⟨Or.inr ⟨by omega, rfl⟩, rfl⟩

theorem putStamp_of_put {id : InstanceId} {r : Registry} {data : InherentData}
    {p : CurrTimeProvider} (h : (provideFresh H id (r, data)).2.2 =
      data ++ [(inherentIdentifier, encodeTimestamp p.currentTime)]) :
    putStamp H id data r = some p.currentTime := by
  have hlt : p.currentTime < 2 ^ 64 := by
    rw [currentTime_eq]
    omega
  rw [putStamp, h, List.drop_left, List.head?_cons, Option.bind_some]
  exact decode_encodeTimestamp hlt

theorem KeptRight.currentTime {r : Registry} {id : InstanceId} {a : Account}
    (h : KeptRight r id a) {p : CurrTimeProvider} (hp : r.instances id = some p) :
    p.currentTime = a.exact a.stamps.length := by
  obtain ⟨⟨q, hq, hstart, hdelta, hticks⟩, -⟩ := h
  obtain rfl : p = q := Option.some.inj (hp.symm.trans hq)
  rw [currentTime_eq, ← Account.exact_min, Account.exact, hstart, hdelta, hticks]

theorem KeptRight.put {r r' : Registry} {id : InstanceId} {a : Account} (h : KeptRight r id a)
    {p : CurrTimeProvider} (hp : r.instances id = some p) (hr : Moved p r r') :
    KeptRight r' id { a with stamps := a.stamps ++ [p.currentTime] } := by
  have htime := h.currentTime hp
  obtain ⟨⟨q, hq, hstart, hdelta, hticks⟩, hstamps⟩ := h
  obtain rfl : p = q := Option.some.inj (hp.symm.trans hq)
  constructor
  · rcases hr with ⟨hroom, rfl⟩ | ⟨hfull, rfl⟩
    · refine ⟨_, Registry.insert_tick_self hp, hstart, hdelta, ?_⟩
      simp only [List.length_append, List.length_singleton]
      omega
    · refine ⟨p, hp, hstart, hdelta, ?_⟩
      simp only [List.length_append, List.length_singleton]
      omega
  · rw [htime]
    simp only [List.length_append, List.length_singleton, List.range_succ, List.map_append,
      List.map_singleton]
    exact congrArg (· ++ [a.exact a.stamps.length]) hstamps

def AllRight (r : Registry) (accounts : Accounts) : Prop :=
  ∀ id a, accounts id = some a → KeptRight r id a

theorem AllRight.congr {r r' : Registry} {accounts : Accounts} (h : AllRight r accounts)
    (hr : r'.instances = r.instances) : AllRight r' accounts :=
  fun id a ha ↦ (h id a ha).congr (by rw [hr])

theorem AllRight.update {r r' : Registry} {accounts : Accounts} {id : InstanceId}
    {o : Option Account} (h : AllRight r accounts)
    (hother : ∀ id', id ≠ id' → r'.instances id' = r.instances id')
    (hid : ∀ a, o = some a → KeptRight r' id a) :
    AllRight r' (Function.update accounts id o) := by
  intro id' a ha
  by_cases heq : id = id'
  · subst heq
    rw [Function.update_self] at ha
    exact hid a ha
  · rw [Function.update_of_ne (Ne.symm heq)] at ha
    exact (h id' a ha).congr (hother id' heq)

theorem AllRight.openFor {r r' : Registry} {accounts : Accounts} (h : AllRight r accounts)
    {id : InstanceId} {start : Duration} (delta : Duration)
    (hr : r'.instances = r.instances) :
    AllRight (r'.insert ⟨id, start, delta, 0⟩)
      (accounts.openFor delta (some id) (some start)) := by
  refine h.update (fun id' hne ↦ ?_) fun a ha ↦ ?_
  · rw [Registry.insert_instances_of_ne (p := ⟨id, start, delta, 0⟩) hne, hr]
  · obtain rfl := Option.some.inj ha
    exact KeptRight.ofNew r' id start delta

/-- **One call** keeps the accounts right. -/
theorem providerStep_allRight (op : ProviderOp) (r : Registry) (accounts : Accounts)
    (h : AllRight r accounts) :
    AllRight (providerStep op r).2 (keepAccounts op r accounts) := by
  cases op with
  | createInstance H delta start =>
    rw [providerStep, bind_pure_snd, mapErr_snd, keepAccounts]
    rcases createInstance_cases (H := H) delta start r with ⟨⟨e, hno⟩, hr⟩ | ⟨s, hs, hok⟩
    · rw [hno]
      exact h.congr hr
    · rw [hok, hs]
      exact h.openFor delta rfl
  | forceNew H id delta start =>
    rw [providerStep, mapErr_snd, keepAccounts]
    rcases forceNew_cases (H := H) id delta start r with ⟨e, hno⟩ | ⟨s, p, hs, -, hok⟩
    · rw [hno]
      exact h
    · rw [hok, hs]
      exact h.openFor delta rfl
  | provideInherentData H id data =>
    rw [providerStep, keepAccounts, Accounts.add]
    change AllRight (provideFresh H id (r, data)).2.1 _
    rcases provideFresh_moved (H := H) id r data with hsame | ⟨p, hp, hmoved, hdata⟩
    · -- nothing was put
      rw [putStamp, hsame]
      refine h.update (fun _ _ ↦ rfl) fun a ha ↦ ?_
      obtain ⟨b, hb, rfl⟩ := Option.map_eq_some_iff.mp ha
      simpa using h id b hb
    · rw [putStamp_of_put hdata]
      refine h.update (fun id' hne ↦ hmoved.of_ne hp hne) fun a ha ↦ ?_
      obtain ⟨b, hb, rfl⟩ := Option.map_eq_some_iff.mp ha
      exact (h id b hb).put hp hmoved

/-- The next call for a clock: what it puts, how it is counted, and when it returns `Ok`. -/
structure Account.Next (a : Account) (id : InstanceId) (r : Registry) : Prop where
  puts : ∀ H data, (provideFresh H id (r, data)).1.isOk = true →
    (provideFresh H id (r, data)).2.2 =
      data ++ [(inherentIdentifier, encodeTimestamp (a.exact a.stamps.length))]
  counts : ∀ H data accounts, accounts id = some a →
    (provideFresh H id (r, data)).1.isOk = true →
      keepAccounts (.provideInherentData H id data) r accounts id =
        some { a with stamps := a.stamps ++ [a.exact a.stamps.length] }
  returns : ∀ H data, H.lock = .ok () → data.lookup inherentIdentifier = none →
    a.stamps.length + 1 < 2 ^ 128 → (provideFresh H id (r, data)).1.isOk = true

theorem KeptRight.next {r : Registry} {id : InstanceId} {a : Account} (h : KeptRight r id a) :
    a.Next id r := by
  have hput : ∀ H data, (provideFresh H id (r, data)).1.isOk = true →
      ∃ p, r.instances id = some p ∧ (provideFresh H id (r, data)).2.2 =
        data ++ [(inherentIdentifier, encodeTimestamp p.currentTime)] := by
    intro H data hok
    rcases provideFresh_cases (H := H) id r data with ⟨hno, -⟩ | ⟨p, hp, hput⟩
    · exact absurd (hno.symm.trans hok) Bool.false_ne_true
    · refine ⟨p, hp, ?_⟩
      rw [hput]
      split <;> rfl
  constructor
  case puts =>
    intro H data hok
    obtain ⟨p, hp, hdata⟩ := hput H data hok
    rw [hdata, h.currentTime hp]
  case counts =>
    intro H data accounts ha hok
    obtain ⟨p, hp, hdata⟩ := hput H data hok
    rw [keepAccounts, Accounts.add, Function.update_self, ha, putStamp_of_put hdata,
      h.currentTime hp]
    rfl
  case returns =>
    intro H data hl hunused hroom
    obtain ⟨p, hp, -, -, hticks⟩ := h.registered
    exact provideFresh_returns hl hp (by omega) hunused

theorem providerStep_of_ne {op : ProviderOp} {r : Registry} {id : InstanceId}
    (h : subject op r ≠ id) : (providerStep op r).2.instances id = r.instances id := by
  cases op with
  | createInstance H delta start =>
    rw [providerStep, bind_pure_snd, mapErr_snd]
    exact createInstance_instances h delta start
  | forceNew H id' delta start =>
    rw [providerStep, mapErr_snd]
    exact forceNew_keeps h delta start r
  | provideInherentData H id' data =>
    change (provideFresh H id' (r, data)).2.1.instances id = _
    rcases provideFresh_moved (H := H) id' r data with hsame | ⟨p, hp, hmoved, -⟩
    · rw [hsame]
    · exact hmoved.of_ne hp h

/-- **Exact clock values.** In every run of calls that do not overlap, the timestamps that were
put since a clock was made or overwritten are its exact ones, in order, and every call that returns
`Ok` puts the next one; a call touches no other clock than the one it is about; and an unknown clock
cannot be overwritten. -/
theorem clock_exact (r₀ : Registry) (ops : List ProviderOp) :
    (∀ id a, accountsAfter ops r₀ id = some a →
      (a.stamps = (List.range a.stamps.length).map fun k ↦
        min (2 ^ 64 - 1) (a.start.asMillis + k * a.delta.asMillis)) ∧
      a.Next id (run providerStep ops r₀)) ∧
    (∀ op id, subject op (run providerStep ops r₀) ≠ id →
      (providerStep op (run providerStep ops r₀)).2.instances id =
        (run providerStep ops r₀).instances id) ∧
    ∀ H id delta start, (run providerStep ops r₀).instances id = none →
      (forceNew H id delta start (run providerStep ops r₀)).1.isErr = true ∧
        (forceNew H id delta start (run providerStep ops r₀)).2 = run providerStep ops r₀ := by
  have hright : AllRight (run providerStep ops r₀) (accountsAfter ops r₀) :=
    run_ledger (I := AllRight) (fun op r accounts _ h ↦ providerStep_allRight op r accounts h)
      ops (along_true ops r₀) fun _ _ h ↦ by cases h
  refine ⟨fun id a ha ↦ ⟨(hright id a ha).stamps, (hright id a ha).next⟩,
    fun op id h ↦ providerStep_of_ne h, fun H id delta start hnone ↦ ?_⟩
  rcases forceNew_cases (H := H) id delta start (run providerStep ops r₀) with
    ⟨e, hno⟩ | ⟨s, p, -, hp, -⟩
  · rw [hno]
    exact ⟨rfl, rfl⟩
  · rw [hnone] at hp
    cases hp

/-- Two clocks, one of which is overwritten, and timestamps of each in between. -/
def twoClocks : List ProviderOp :=
  [.createInstance unlocked (seconds 4 (by decide)) (some (seconds 20 (by decide))),
    .provideInherentData unlocked 0 [],
    .createInstance unlocked (seconds 3 (by decide)) (some (seconds 5 (by decide))),
    .provideInherentData unlocked 0 [], .provideInherentData unlocked 1 [],
    .forceNew unlocked 1 (seconds 1 (by decide)) (some (seconds 7 (by decide))),
    .provideInherentData unlocked 0 [], .provideInherentData unlocked 1 [],
    .provideInherentData unlocked 1 []]

theorem clock_exact_twoClocks :
    (accountsAfter twoClocks .empty 1).map (·.stamps) = some [7000, 8000] ∧
      (provideFresh unlocked 1 (run providerStep twoClocks .empty, [])).2.2 =
        [(inherentIdentifier, encodeTimestamp 9000)] := by
  obtain ⟨a, ha⟩ : ∃ a, accountsAfter twoClocks .empty 1 = some a :=
    Option.isSome_iff_exists.mp (by decide +kernel)
  obtain ⟨hstamps, hnext⟩ := (clock_exact .empty twoClocks).1 1 a ha
  have hclock : (accountsAfter twoClocks .empty 1).map
      (fun a ↦ (a.start.asMillis, a.delta.asMillis, a.stamps.length)) = some (7000, 1000, 2) := by
    decide +kernel
  rw [ha, Option.map_some, Option.some.injEq, Prod.mk.injEq, Prod.mk.injEq] at hclock
  obtain ⟨hstart, hdelta, hlength⟩ := hclock
  rw [hstart, hdelta, hlength] at hstamps
  refine ⟨by rw [ha, Option.map_some, hstamps]; rfl, ?_⟩
  have hok := hnext.returns unlocked [] rfl rfl (by omega)
  rw [hnext.puts unlocked [] hok, Account.exact, hstart, hdelta, hlength]
  rfl

end CurrTimeProvider

end Fudge
