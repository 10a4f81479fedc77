import Mathlib.Algebra.Group.Nat.Defs
import Fudge.Call.Rules
import Fudge.Core.Chain

/-!
# The timestamp provider

`CurrTimeProvider` is a clock that moves by `delta` whenever a timestamp was taken from it. The
clocks live in a registry, `INSTANCES`, under ids that a counter hands out; a holder of an id works
on a clone of the registered clock. The definitions follow `inherent/timestamp.rs`.

What is written and what is read are two different clocks: `update_time` moves the registered one,
`current_time` is the time of the clone.
-/

namespace Fudge

/-- `std::time::Duration`. -/
structure Duration where
  secs : ℕ
  nanos : ℕ
  secs_lt : secs < 2 ^ 64
  nanos_lt : nanos < 1000000000
deriving DecidableEq, Repr

/-- `Duration::as_millis`. -/
def Duration.asMillis (d : Duration) : ℕ := d.secs * 1000 + d.nanos / 1000000

/-- `u128::saturating_mul`. -/
def saturatingMul (a b : ℕ) : ℕ := min (a * b) (2 ^ 128 - 1)

/-- `u128::saturating_add`. -/
def saturatingAdd (a b : ℕ) : ℕ := min (a + b) (2 ^ 128 - 1)

/-- `saturated_into::<u64>`. -/
def saturatedInto (a : ℕ) : ℕ := min a (2 ^ 64 - 1)

abbrev InstanceId := ℕ

structure CurrTimeProvider where
  instanceId : InstanceId
  start : Duration
  delta : Duration
  ticks : ℕ
deriving DecidableEq, Repr

/-- `INSTANCES`, in which a clock carries the id it is registered under, and `COUNTER`. -/
structure Registry where
  instances : InstanceId → Option CurrTimeProvider
  counter : ℕ
  keyed : ∀ id p, instances id = some p → p.instanceId = id

namespace Registry

def insert (p : CurrTimeProvider) (r : Registry) : Registry where
  instances := Function.update r.instances p.instanceId (some p)
  counter := r.counter
  keyed id q hq := by
    by_cases hid : id = p.instanceId
    · subst hid
      rw [Function.update_self] at hq
      rw [Option.some.inj hq]
    · rw [Function.update_of_ne hid] at hq
      exact r.keyed id q hq

def empty : Registry where
  instances _ := none
  counter := 0
  keyed _ _ h := by cases h

theorem insert_instances_of_ne {p : CurrTimeProvider} {id : InstanceId} (h : p.instanceId ≠ id)
    (r : Registry) : (r.insert p).instances id = r.instances id :=
  Function.update_of_ne h.symm _ _

@[simp] theorem insert_instances_self (p : CurrTimeProvider) (r : Registry) :
    (r.insert p).instances p.instanceId = some p := Function.update_self _ _ _

section Tick

variable {r : Registry} {id : InstanceId} {p : CurrTimeProvider}

theorem insert_tick_self (hp : r.instances id = some p) :
    (r.insert { p with ticks := p.ticks + 1 }).instances id =
      some { p with ticks := p.ticks + 1 } := by
  have hid : p.instanceId = id := r.keyed id p hp
  rw [← hid]
  exact insert_instances_self { p with ticks := p.ticks + 1 } r

theorem insert_tick_of_ne {id' : InstanceId} (hp : r.instances id = some p) (hne : id ≠ id') :
    (r.insert { p with ticks := p.ticks + 1 }).instances id' = r.instances id' := by
  have hid : p.instanceId = id := r.keyed id p hp
  exact insert_instances_of_ne (p := { p with ticks := p.ticks + 1 })
    (fun heq ↦ hne (hid.symm.trans heq)) r

end Tick

end Registry

namespace CurrTimeProvider

/-- `timestamp::Error`. -/
inductive Error where
  | instancesLockPoisoned (e : InnerError)
  | currentTimeRetrieval (e : InnerError)
  | instanceNotFound (id : InstanceId)
deriving DecidableEq, Repr

/-- `Error::to_string`. -/
def Error.text : Error → String
  | .instancesLockPoisoned e => "lock for instances is poisoned: " ++ e
  | .currentTimeRetrieval e => "current time retrieval: " ++ e
  | .instanceNotFound id => "instance with ID InstanceId(" ++ toString id ++ ") not found"

/-- `sp_inherents::Error`, as far as the provider returns it. -/
inductive InherentsError where
  | inherentDataExists (identifier : Bytes)
  | application (text : String)
deriving DecidableEq, Repr

/-- What one call finds outside the registry's data: its lock, and the system time. -/
structure ClockHost where
  /-- `INSTANCES.lock()`: a poisoned lock is an error. -/
  lock : Except InnerError Unit
  /-- `SystemTime::now().duration_since(UNIX_EPOCH)`. -/
  now : Except InnerError Duration

variable (H : ClockHost)

/-- `storage.lock()`. -/
def lockInstances : Call Registry Error Unit := Call.query (fun _ ↦ H.lock) .instancesLockPoisoned

/-- The given start, or the system time. -/
def startTime : Option Duration → Call Registry Error Duration
  | some start => pure start
  | none => Call.query (fun _ ↦ H.now) .currentTimeRetrieval

/-- `COUNTER.fetch_add(1, Ordering::SeqCst)`. -/
def fetchAdd : Call Registry Error InstanceId := fun r ↦
  (.ok r.counter, { r with counter := (r.counter + 1) % 2 ^ 64 })

def forceNew (id : InstanceId) (delta : Duration) (start : Option Duration) :
    Call Registry Error Unit := do
  lockInstances H
  let start ← startTime H start
  let registered ← Call.read (·.instances id)
  let _ ← Call.require (.instanceNotFound id) registered
  Call.modify (Registry.insert ⟨id, start, delta, 0⟩)

def createInstance (delta : Duration) (start : Option Duration) :
    Call Registry Error InstanceId := do
  let id ← fetchAdd
  let start ← startTime H start
  lockInstances H
  Call.modify (Registry.insert ⟨id, start, delta, 0⟩)
  pure id

/-- `get_instance`: a clone of the registered clock. -/
def getInstance (id : InstanceId) : Call Registry Error CurrTimeProvider := do
  lockInstances H
  let registered ← Call.read (·.instances id)
  Call.require (.instanceNotFound id) registered

/-- `instance.ticks = instance.ticks + 1`, with overflow checks. -/
def tick (p : CurrTimeProvider) : Call Registry Error Unit := do
  Call.assert fun _ ↦ p.ticks + 1 < 2 ^ 128
  Call.modify (Registry.insert { p with ticks := p.ticks + 1 })

/-- `update_time`: the registered clock moves. -/
def updateTime (p : CurrTimeProvider) : Call Registry Error Unit := do
  lockInstances H
  let registered ← Call.read (·.instances p.instanceId)
  let registered ← Call.require (.instanceNotFound p.instanceId) registered
  tick registered

/-- `current_time`, in milliseconds. -/
def currentTime (p : CurrTimeProvider) : ℕ :=
  let delta := saturatingMul p.delta.asMillis p.ticks
  let timestamp := saturatingAdd p.start.asMillis delta
  saturatedInto timestamp

/-- `INHERENT_IDENTIFIER`, which is `timstap0`. -/
def inherentIdentifier : Bytes := [116, 105, 109, 115, 116, 97, 112, 48]

/-- The encoding of a timestamp: eight bytes, the low one first. -/
def encodeTimestamp (t : ℕ) : Bytes := (List.range 8).map fun i ↦ UInt8.ofNat (t / 256 ^ i)

/-- The decoding of a timestamp, from the first eight bytes. -/
def decodeTimestamp (b : Bytes) : Option ℕ :=
  if b.length < 8 then none else some ((b.take 8).foldr (fun byte n ↦ byte.toNat + 256 * n) 0)

/-- `inherent_data.put_data(identifier, inherent)`: an identifier is used once. -/
def putData (identifier inherent : Bytes) : Call InherentData InherentsError Unit := fun data ↦
  if (data.lookup identifier).isSome then (.err (.inherentDataExists identifier), data)
  else (.ok (), data ++ [(identifier, inherent)])

/-- `provide_inherent_data`: the time of the clone is put into the data, and the registered clock
moves. -/
def provideInherentData (p : CurrTimeProvider) :
    Call (Registry × InherentData) InherentsError Unit := do
  Call.zoom Prod.snd (fun data s ↦ (s.1, data))
    (putData inherentIdentifier (encodeTimestamp p.currentTime))
  Call.mapErr (fun e ↦ InherentsError.application e.text)
    (Call.zoom Prod.fst (fun r s ↦ (r, s.2)) (updateTime H p))

/-! ## What a call does -/

open Call

variable {H}

theorem currentTime_of_lt {p : CurrTimeProvider}
    (h : p.start.asMillis + p.delta.asMillis * p.ticks < 2 ^ 64) :
    p.currentTime = p.start.asMillis + p.delta.asMillis * p.ticks := by
  rw [currentTime, saturatingMul, saturatingAdd, saturatedInto]
  omega

/-- The three saturations are one. -/
theorem currentTime_eq (p : CurrTimeProvider) :
    p.currentTime = min (2 ^ 64 - 1) (p.start.asMillis + p.ticks * p.delta.asMillis) := by
  rw [currentTime, saturatingMul, saturatingAdd, saturatedInto, Nat.mul_comm]
  omega

theorem decode_encodeTimestamp {t : ℕ} (h : t < 2 ^ 64) :
    decodeTimestamp (encodeTimestamp t) = some t := by
  have hlength : ¬ (encodeTimestamp t).length < 8 := by simp [encodeTimestamp]
  rw [decodeTimestamp, if_neg hlength]
  simp only [encodeTimestamp, List.range, List.range.loop, List.map_cons, List.map_nil,
    List.take_succ_cons, List.take_zero, List.foldr_cons, List.foldr_nil, UInt8.toNat_ofNat']
  congr 1
  omega

/-! ### The registry -/

theorem lockInstances_keeps {γ : Type} {f : Registry → γ} : Keeps f (lockInstances H) :=
  Keeps.query _ _

theorem startTime_keeps {γ : Type} {f : Registry → γ} (start : Option Duration) :
    Keeps f (startTime H start) := by
  cases start with
  | some start => exact Keeps.pure start
  | none => exact Keeps.query _ _

theorem getInstance_keeps {γ : Type} {f : Registry → γ} (id : InstanceId) :
    Keeps f (getInstance H id) :=
  Keeps.bind lockInstances_keeps fun _ ↦ Keeps.bind (Keeps.read _) fun o ↦ Keeps.require _ o

theorem getInstance_eq_ok {id : InstanceId} {r r' : Registry} {p : CurrTimeProvider}
    (h : getInstance H id r = (.ok p, r')) : r.instances id = some p := by
  rw [getInstance, lockInstances] at h
  obtain ⟨_, t, h₁, k₁⟩ := bind_eq_ok.mp h
  obtain ⟨-, rfl⟩ := query_eq_ok.mp h₁
  obtain ⟨o, u, h₂, k₂⟩ := bind_eq_ok.mp k₁
  obtain ⟨rfl, rfl⟩ : t.instances id = o ∧ t = u := by simpa using h₂
  exact (require_eq_ok.mp k₂).1

theorem forceNew_keeps {id id' : InstanceId} (h : id ≠ id') (delta : Duration)
    (start : Option Duration) : Keeps (·.instances id') (forceNew H id delta start) :=
  Keeps.bind lockInstances_keeps fun _ ↦ Keeps.bind (startTime_keeps start) fun _ ↦
    Keeps.bind (Keeps.read _) fun o ↦ Keeps.bind (Keeps.require _ o) fun _ ↦
      Keeps.modify fun r ↦ r.insert_instances_of_ne h

theorem createInstance_instances {id : InstanceId} {r : Registry} (h : r.counter ≠ id)
    (delta : Duration) (start : Option Duration) :
    (createInstance H delta start r).2.instances id = r.instances id := by
  have hrest : Keeps (·.instances id) (startTime H start >>= fun start ↦ lockInstances H >>= fun _ ↦
      Call.modify (Registry.insert ⟨r.counter, start, delta, 0⟩) >>= fun _ ↦ pure r.counter) :=
    Keeps.bind (startTime_keeps start) fun _ ↦ Keeps.bind lockInstances_keeps fun _ ↦
      Keeps.bind (Keeps.modify fun r ↦ r.insert_instances_of_ne h) fun _ ↦ Keeps.pure _
  exact hrest { r with counter := (r.counter + 1) % 2 ^ 64 }

theorem tick_cases (q : CurrTimeProvider) (r : Registry) :
    ((tick q r).1.isOk = false ∧ (tick q r).2 = r) ∨
      tick q r = (.ok (), r.insert { q with ticks := q.ticks + 1 }) := by
  rw [tick]
  rcases assert_bind_cases (fun _ ↦ decide (q.ticks + 1 < 2 ^ 128)) _ r with ⟨-, h⟩ | ⟨-, h⟩
  · rw [h]
    exact Or.inr rfl
  · rw [h]
    exact Or.inl ⟨rfl, rfl⟩

/-- **What `update_time` can do**: it moves the registered clock by one tick, or it fails and
changes nothing. -/
theorem updateTime_cases (p : CurrTimeProvider) (r : Registry) :
    ((updateTime H p r).1.isOk = false ∧ (updateTime H p r).2 = r) ∨
      ∃ q, r.instances p.instanceId = some q ∧
        updateTime H p r = (.ok (), r.insert { q with ticks := q.ticks + 1 }) := by
  rw [updateTime]
  rcases hl : H.lock with e | u
  · have hlock : lockInstances H r = (.err (.instancesLockPoisoned e), r) := by
      rw [lockInstances, Call.query, hl]
    rw [bind_of_err hlock]
    exact Or.inl ⟨rfl, rfl⟩
  · have hlock : lockInstances H r = (.ok u, r) := query_eq_ok.mpr ⟨hl, rfl⟩
    rw [bind_of_ok hlock, bind_of_ok (read_apply _ r)]
    rcases Option.eq_none_or_eq_some (r.instances p.instanceId) with hnone | ⟨q, hq⟩
    · rw [hnone]
      exact Or.inl ⟨rfl, rfl⟩
    · have hfound : Call.require (Error.instanceNotFound p.instanceId)
          (r.instances p.instanceId) r = (.ok q, r) := require_eq_ok.mpr ⟨hq, rfl⟩
      rw [bind_of_ok hfound]
      exact (tick_cases q r).imp_right fun htick ↦ ⟨q, hq, htick⟩

theorem putData_cases (identifier inherent : Bytes) (data : InherentData) :
    ((putData identifier inherent data).1.isOk = false ∧
        (putData identifier inherent data).2 = data) ∨
      putData identifier inherent data = (.ok (), data ++ [(identifier, inherent)]) := by
  rw [putData]
  by_cases hused : (data.lookup identifier).isSome = true
  · rw [if_pos hused]
    exact Or.inl ⟨rfl, rfl⟩
  · rw [if_neg hused]
    exact Or.inr rfl

theorem putData_eq_ok {identifier inherent : Bytes} {data data' : InherentData} {u : Unit} :
    putData identifier inherent data = (.ok u, data') ↔
      data.lookup identifier = none ∧ data' = data ++ [(identifier, inherent)] := by
  rw [putData]
  cases data.lookup identifier with
  | some x => simp
  | none => simp [eq_comm]

/-- **What `provide_inherent_data` can do**: it puts the time of the clone into the data and moves
the registered clock, or it fails and leaves the registry alone. -/
theorem provideInherentData_cases (p : CurrTimeProvider) (r : Registry) (data : InherentData) :
    ((provideInherentData H p (r, data)).1.isOk = false ∧
        (provideInherentData H p (r, data)).2.1 = r) ∨
      ∃ q, r.instances p.instanceId = some q ∧
        provideInherentData H p (r, data) = (.ok (), r.insert { q with ticks := q.ticks + 1 },
          data ++ [(inherentIdentifier, encodeTimestamp p.currentTime)]) := by
  rw [provideInherentData]
  rcases putData_cases inherentIdentifier (encodeTimestamp p.currentTime) data with
    ⟨hno, hsame⟩ | hput
  · obtain ⟨hstop, hstate⟩ := bind_of_not_ok (c := Call.zoom Prod.snd
      (fun data (s : Registry × InherentData) ↦ (s.1, data))
      (putData inherentIdentifier (encodeTimestamp p.currentTime))) (s := (r, data)) hno
    refine Or.inl ⟨hstop, ?_⟩
    rw [hstate]
    rfl
  · have hzoom : Call.zoom Prod.snd (fun data (s : Registry × InherentData) ↦ (s.1, data))
        (putData inherentIdentifier (encodeTimestamp p.currentTime)) (r, data) =
          (.ok (), (r, data ++ [(inherentIdentifier, encodeTimestamp p.currentTime)])) :=
      zoom_eq_ok.mpr ⟨_, hput, rfl⟩
    rw [bind_of_ok hzoom]
    rcases updateTime_cases (H := H) p r with ⟨hno, hsame⟩ | ⟨q, hq, hmoved⟩
    · left
      rw [mapErr_isOk, mapErr_snd]
      exact ⟨hno, hsame⟩
    · exact Or.inr ⟨q, hq, mapErr_eq_ok.mpr (zoom_eq_ok.mpr ⟨_, hmoved, rfl⟩)⟩

end CurrTimeProvider

end Fudge
