import Fudge.Inherent.Exact

/-!
# The Aura digest

An Aura pre-digest names the slot of a block: the timestamp of the block's inherent data, divided by
the slot duration. `Digest` follows `digest/aura.rs`; the runtime refuses a block whose slot is not
larger than the one before.

A build fetches the clock, puts its timestamp and derives the pre-digest from it. The clock moves
when the timestamp was put, whatever becomes of the block. So the clocks of two pre-digests are at
least one tick apart, and a tick is at least as long as a slot.
-/

namespace Fudge

open CurrTimeProvider (ClockHost ClockError decodeTimestamp encodeTimestamp inherentIdentifier)

/-! ## The provider -/

/-- `digest::Error`, as far as the Aura provider returns it. -/
inductive DigestError where
  | slotDurationRetrieval (e : InnerError)
  | timestampInherentDataRetrieval (e : InnerError)
  | timestampInherentDataNotFound
deriving DecidableEq, Repr

/-- `DigestItem`, as far as the Aura provider makes it. -/
inductive DigestItem where
  | auraPreDigest (slot : ℕ)
deriving DecidableEq, Repr

/-- `inherents.timestamp_inherent_data()`. -/
def timestampInherentData (inherents : InherentData) : Except InnerError (Option ℕ) :=
  match inherents.lookup inherentIdentifier with
  | some b => match decodeTimestamp b with
    | some t => .ok (some t)
    | none => .error "decoding failed"
  | none => .ok none

/-- `Slot::from_timestamp`, both in milliseconds. It divides, and a slot duration of zero panics. -/
def slotFromTimestamp {σ ε : Type} (timestamp slotDuration : ℕ) : Call σ ε ℕ := do
  Call.assert fun _ ↦ decide (slotDuration ≠ 0)
  pure (timestamp / slotDuration)

theorem slotFromTimestamp_eq_ok {σ ε : Type} {timestamp slotDuration slot : ℕ} {s s' : σ} :
    (slotFromTimestamp timestamp slotDuration : Call σ ε ℕ) s = (.ok slot, s') ↔
      0 < slotDuration ∧ slot = timestamp / slotDuration ∧ s' = s := by
  rw [slotFromTimestamp]
  simp only [Call.bind_eq_ok, Call.assert_eq_ok, Call.pure_eq_ok]
  constructor
  · rintro ⟨_, _, ⟨hne, rfl⟩, hslot⟩
    exact ⟨Nat.pos_of_ne_zero (of_decide_eq_true hne), hslot⟩
  · rintro ⟨hpos, hslot⟩
    exact ⟨(), _, ⟨decide_eq_true (Nat.ne_of_gt hpos), rfl⟩, hslot⟩

structure AuraDigest where
  /-- In milliseconds. -/
  slotDuration : ℕ
deriving DecidableEq, Repr

namespace AuraDigest

/-- `new`, given the slot duration that the client reports. -/
def new : Except InnerError ℕ → Except DigestError AuraDigest
  | .ok slotDuration => .ok ⟨slotDuration⟩
  | .error e => .error (.slotDurationRetrieval e)

/-- `digest`. It reads the inherent data, and the parent is not used. -/
def digest (d : AuraDigest) (_parent : Header) : Call InherentData DigestError DigestItem := do
  let timestamp ← Call.query timestampInherentData .timestampInherentDataRetrieval
  let timestamp ← Call.require .timestampInherentDataNotFound timestamp
  let slot ← slotFromTimestamp timestamp d.slotDuration
  pure (.auraPreDigest slot)

/-- **The digest of inherent data**: there is one where they have a timestamp and a slot has some
length, and it has the slot of the timestamp. -/
theorem digest_eq_ok {d : AuraDigest} {parent : Header} {item : DigestItem}
    {inherents s : InherentData} :
    d.digest parent inherents = (.ok item, s) ↔ ∃ t,
      timestampInherentData inherents = .ok (some t) ∧ 0 < d.slotDuration ∧
        item = .auraPreDigest (t / d.slotDuration) ∧ s = inherents := by
  rw [digest]
  simp only [Call.bind_eq_ok, Call.query_eq_ok, Call.require_eq_ok, slotFromTimestamp_eq_ok,
    Call.pure_eq_ok]
  constructor
  · rintro ⟨_, _, ⟨ht, rfl⟩, t, _, ⟨rfl, rfl⟩, _, _, ⟨hpos, rfl, rfl⟩, hitem⟩
    exact ⟨t, ht, hpos, hitem⟩
  · rintro ⟨t, ht, hpos, hitem⟩
    exact ⟨_, _, ⟨ht, rfl⟩, t, _, ⟨rfl, rfl⟩, _, _, ⟨hpos, rfl, rfl⟩, hitem⟩

end AuraDigest

theorem timestampInherentData_of_lookup {inherents : InherentData} {t : ℕ} (ht : t < 2 ^ 64)
    (h : inherents.lookup inherentIdentifier = some (encodeTimestamp t)) :
    timestampInherentData inherents = .ok (some t) := by
  rw [timestampInherentData, h]
  simp only [CurrTimeProvider.decode_encodeTimestamp ht]

/-! ## Builds -/

/-- One build, as far as it has to do with the clock: the lock as the two calls find it, the
inherent data that other providers put before and after the timestamp, and whether the build is
given up before the digest is made. -/
structure AuraBuild where
  fetch : ClockHost
  provide : ClockHost
  before : InherentData := []
  after : InherentData := []
  givenUp : Bool := false
  parent : Header

inductive AuraBuildError where
  | clock (e : ClockError)
  | givenUp
  | digest (e : DigestError)
deriving DecidableEq, Repr

namespace AuraBuild

open Call
open CurrTimeProvider (getInstance fetch_cases provideInherentData provideInherentData_cases
  putData_eq_ok currentTime_eq)

variable (id : InstanceId) (d : AuraDigest)

def createInherentData (b : AuraBuild) : Call (Registry × InherentData) ClockError Unit := do
  let p ← Call.mapErr .provider
    (Call.zoom Prod.fst (fun r s ↦ (r, s.2)) (getInstance b.fetch id))
  Call.mapErr .inherents (provideInherentData b.provide p)
  Call.modify fun s ↦ (s.1, s.2 ++ b.after)

def preDigest (b : AuraBuild) : Call (Registry × InherentData) AuraBuildError DigestItem := do
  Call.mapErr .clock (createInherentData id b)
  Call.require .givenUp (if b.givenUp then none else some ())
  Call.mapErr .digest (Call.zoom Prod.snd (fun data s ↦ (s.1, data)) (d.digest b.parent))

def step (b : AuraBuild) : Call Registry AuraBuildError Unit :=
  Call.zoom (fun r ↦ (r, b.before)) (fun s _ ↦ s.1) (preDigest id d b >>= fun _ ↦ pure ())

/-- A pre-digest, with the exact time of the clock that it was made from. -/
structure Stamped where
  time : ℕ
  slot : ℕ
deriving DecidableEq, Repr

def exactTime (p : CurrTimeProvider) : ℕ := p.start.asMillis + p.ticks * p.delta.asMillis

/-- The pre-digest of a build, if it gets to one. -/
def stamped (b : AuraBuild) (r : Registry) : List Stamped :=
  match (preDigest id d b (r, b.before)).1, r.instances id with
  | .ok (.auraPreDigest slot), some p => [⟨exactTime p, slot⟩]
  | _, _ => []

def preDigests (builds : List AuraBuild) (r : Registry) : List Stamped :=
  ledger (step id d) (fun b r l ↦ l ++ stamped id d b r) builds r []

/-! ## What a build does -/

variable {id : InstanceId} {d : AuraDigest}

theorem lookup_of_provided {H : ClockHost} {p : CurrTimeProvider} {r : Registry}
    {data : InherentData} (h : (provideInherentData H p (r, data)).1.isOk = true) :
    data.lookup inherentIdentifier = none := by
  obtain ⟨u, hu⟩ := Outcome.isOk_iff.mp h
  obtain ⟨_, _, hput, -⟩ := bind_eq_ok.mp (eq_of_fst hu)
  obtain ⟨data', hput, -⟩ := zoom_eq_ok.mp hput
  exact (putData_eq_ok.mp hput).1

/-- **The inherent data of a build.** The clock stays where it is and the build fails; or the clock
moves, and the data have its time. -/
theorem createInherentData_cases (b : AuraBuild) (r : Registry) (data : InherentData) :
    ((createInherentData id b (r, data)).1.isOk = false ∧
        (createInherentData id b (r, data)).2.1 = r) ∨
      ∃ p inherents, r.instances id = some p ∧ createInherentData id b (r, data) =
          (.ok (), r.insert { p with ticks := p.ticks + 1 }, inherents) ∧
        inherents.lookup inherentIdentifier = some (encodeTimestamp p.currentTime) := by
  rw [createInherentData]
  rcases fetch_cases (H := b.fetch) id r data with ⟨e, hget⟩ | ⟨u, p, -, hp, hget⟩
  · rw [bind_of_err hget]
    exact Or.inl ⟨rfl, rfl⟩
  · rw [bind_of_ok hget]
    have hid : p.instanceId = id := r.keyed id p hp
    rcases provideInherentData_cases (H := b.provide) p r data with ⟨hno, hsame⟩ | ⟨q, hq, hok⟩
    · rw [← mapErr_isOk ClockError.inherents] at hno
      obtain ⟨hstop, hstate⟩ := bind_of_not_ok
        (f := fun _ ↦ Call.modify fun s ↦ (s.1, s.2 ++ b.after)) hno
      rw [hstate, mapErr_snd]
      exact Or.inl ⟨hstop, hsame⟩
    · obtain rfl : p = q := Option.some.inj (hp.symm.trans (hid ▸ hq))
      have hunused : data.lookup inherentIdentifier = none :=
        lookup_of_provided (H := b.provide) (p := p) (r := r) (by rw [hok]; rfl)
      rw [bind_of_ok (mapErr_eq_ok.mpr hok)]
      refine Or.inr ⟨p, _, hp, rfl, ?_⟩
      simp only [List.lookup_append, hunused, Option.none_or, List.lookup_cons_self,
        Option.some_or]

theorem stamped_of_not_ok {b : AuraBuild} {r : Registry}
    (h : (preDigest id d b (r, b.before)).1.isOk = false) : stamped id d b r = [] := by
  rw [stamped]
  rcases hout : (preDigest id d b (r, b.before)).1 with ⟨slot⟩ | e | _
  · rw [hout] at h
    cases h
  · rfl
  · rfl

/-- Once the inherent data are there, the pre-digest has the slot of their timestamp, unless the
build is given up. -/
theorem preDigest_of_created {b : AuraBuild} {r r' : Registry} {t : ℕ} {inherents : InherentData}
    (hpos : 0 < d.slotDuration) (ht : t < 2 ^ 64)
    (hok : createInherentData id b (r, b.before) = (.ok (), r', inherents))
    (hlookup : inherents.lookup inherentIdentifier = some (encodeTimestamp t)) :
    preDigest id d b (r, b.before) =
      (if b.givenUp then .err .givenUp else .ok (.auraPreDigest (t / d.slotDuration)),
        r', inherents) := by
  rw [preDigest, bind_of_ok (mapErr_eq_ok.mpr hok)]
  cases hgiven : b.givenUp with
  | true => rfl
  | false =>
    have hdigest : d.digest b.parent inherents =
        (.ok (.auraPreDigest (t / d.slotDuration)), inherents) :=
      AuraDigest.digest_eq_ok.mpr ⟨t, timestampInherentData_of_lookup ht hlookup, hpos, rfl, rfl⟩
    exact bind_eq_ok.mpr ⟨(), _, require_eq_ok.mpr ⟨rfl, rfl⟩,
      mapErr_eq_ok.mpr (zoom_eq_ok.mpr ⟨inherents, hdigest, rfl⟩)⟩

/-- **One build.** The clock stays and there is no pre-digest; or the clock moves, and the
pre-digest, if there is one, has the slot of its time. -/
theorem step_cases (hpos : 0 < d.slotDuration) (b : AuraBuild) (r : Registry) :
    ((step id d b r).2 = r ∧ stamped id d b r = []) ∨
      ∃ p, r.instances id = some p ∧
        (step id d b r).2 = r.insert { p with ticks := p.ticks + 1 } ∧
        (stamped id d b r = [] ∨
          stamped id d b r = [⟨exactTime p, p.currentTime / d.slotDuration⟩]) := by
  have hstep : (step id d b r).2 = (preDigest id d b (r, b.before)).2.1 := by
    change ((preDigest id d b >>= fun _ ↦ pure ()) (r, b.before)).2.1 = _
    rw [bind_pure_snd]
  rw [hstep]
  rcases createInherentData_cases b r b.before with
    ⟨hno, hsame⟩ | ⟨p, inherents, hp, hok, hlookup⟩
  · rw [← mapErr_isOk AuraBuildError.clock] at hno
    obtain ⟨hstop, hstate⟩ := bind_of_not_ok
      (f := fun _ ↦ Call.require .givenUp (if b.givenUp then none else some ()) >>= fun _ ↦
        Call.mapErr .digest (Call.zoom Prod.snd (fun data s ↦ (s.1, data)) (d.digest b.parent)))
      hno
    refine Or.inl ⟨?_, stamped_of_not_ok hstop⟩
    rw [preDigest, hstate, mapErr_snd]
    exact hsame
  · have hlt : p.currentTime < 2 ^ 64 := by
      rw [currentTime_eq]
      omega
    have hout := preDigest_of_created hpos hlt hok hlookup
    refine Or.inr ⟨p, hp, by rw [hout], ?_⟩
    rw [stamped, hout, hp]
    cases b.givenUp with
    | true => exact Or.inl rfl
    | false => exact Or.inr rfl

/-! ## The slots of a run -/

theorem slot_lt {s t u : ℕ} (hpos : 0 < s) (h : t + s ≤ u) : t / s < u / s :=
  calc t / s < t / s + 1 := Nat.lt_succ_self _
    _ = (t + s) / s := (Nat.add_div_right t hpos).symm
    _ ≤ u / s := Nat.div_le_div_right h

theorem exactTime_tick (p : CurrTimeProvider) :
    exactTime { p with ticks := p.ticks + 1 } = exactTime p + p.delta.asMillis := by
  simp only [exactTime, Nat.add_mul, Nat.one_mul, Nat.add_assoc]

/-- The clock `id` is `p`, some ticks later. The pre-digests are of earlier ticks of it, and their
slots increase as long as the clock is exact. -/
structure Increasing (id : InstanceId) (d : AuraDigest) (p : CurrTimeProvider) (r : Registry)
    (l : List Stamped) : Prop where
  registered : ∃ q, r.instances id = some q ∧ q.start = p.start ∧ q.delta = p.delta ∧
    ∀ a ∈ l, a.time + p.delta.asMillis ≤ exactTime q
  slots : ∀ a ∈ l, a.time < 2 ^ 64 → a.slot = a.time / d.slotDuration
  increasing : l.Pairwise fun a b ↦ b.time < 2 ^ 64 → a.slot < b.slot

theorem slot_of_exact {q : CurrTimeProvider} (h : exactTime q < 2 ^ 64) (s : ℕ) :
    q.currentTime / s = exactTime q / s := by
  rw [currentTime_eq]
  congr 1
  rw [exactTime] at h ⊢
  omega

theorem Increasing.tick {p q : CurrTimeProvider} {r : Registry} {l : List Stamped}
    (h : Increasing id d p r l) (hq : r.instances id = some q) :
    Increasing id d p (r.insert { q with ticks := q.ticks + 1 }) l := by
  obtain ⟨⟨q', hq', hstart, hdelta, htimes⟩, hslots, hincreasing⟩ := h
  obtain rfl : q = q' := Option.some.inj (hq.symm.trans hq')
  refine ⟨⟨_, Registry.insert_tick_self hq, hstart, hdelta, fun a ha ↦ ?_⟩, hslots, hincreasing⟩
  have htime := htimes a ha
  rw [exactTime_tick]
  omega

theorem Increasing.stamp {p q : CurrTimeProvider} {r : Registry} {l : List Stamped}
    (h : Increasing id d p r l) (hq : r.instances id = some q) (hpos : 0 < d.slotDuration)
    (hle : d.slotDuration ≤ p.delta.asMillis) :
    Increasing id d p (r.insert { q with ticks := q.ticks + 1 })
      (l ++ [⟨exactTime q, q.currentTime / d.slotDuration⟩]) := by
  obtain ⟨⟨q', hq', hstart, hdelta, htimes⟩, hslots, hincreasing⟩ := h
  obtain rfl : q = q' := Option.some.inj (hq.symm.trans hq')
  refine ⟨⟨_, Registry.insert_tick_self hq, hstart, hdelta, fun a ha ↦ ?_⟩, fun a ha ↦ ?_, ?_⟩
  · rw [exactTime_tick, hdelta]
    rcases List.mem_append.mp ha with ha | ha
    · have htime := htimes a ha
      omega
    · rw [List.mem_singleton.mp ha]
  · rcases List.mem_append.mp ha with ha | ha
    · exact hslots a ha
    · rw [List.mem_singleton.mp ha]
      exact fun hlt ↦ slot_of_exact hlt _
  · rw [List.pairwise_append]
    refine ⟨hincreasing, List.pairwise_singleton _ _, fun a ha b hb hlt ↦ ?_⟩
    obtain rfl := List.mem_singleton.mp hb
    have htime := htimes a ha
    simp only at hlt ⊢
    rw [hslots a ha (by omega), slot_of_exact hlt]
    exact slot_lt hpos (by omega)

/-- **One build** keeps the slots increasing. -/
theorem Increasing.build {p : CurrTimeProvider} {r : Registry} {l : List Stamped}
    (hpos : 0 < d.slotDuration) (hle : d.slotDuration ≤ p.delta.asMillis) (b : AuraBuild)
    (h : Increasing id d p r l) :
    Increasing id d p (step id d b r).2 (l ++ stamped id d b r) := by
  rcases step_cases hpos b r with ⟨hsame, hnone⟩ | ⟨q, hq, hmoved, hstamped⟩
  · rw [hsame, hnone, List.append_nil]
    exact h
  · rw [hmoved]
    rcases hstamped with hnone | hone
    · rw [hnone, List.append_nil]
      exact h.tick hq
    · rw [hone]
      exact h.stamp hq hpos hle

/-- **Aura slots increase** from pre-digest to pre-digest, as long as the timestamp does not
saturate, whatever becomes of the builds in between. -/
theorem slots_increase {p : CurrTimeProvider} {r : Registry} (hp : r.instances id = some p)
    (hpos : 0 < d.slotDuration) (hle : d.slotDuration ≤ p.delta.asMillis)
    (builds : List AuraBuild) :
    (preDigests id d builds r).Pairwise fun a b ↦ b.time < 2 ^ 64 → a.slot < b.slot := by
  have hstart : Increasing id d p r [] :=
    ⟨⟨p, hp, rfl, rfl, fun a ha ↦ absurd ha List.not_mem_nil⟩,
      fun a ha ↦ absurd ha List.not_mem_nil, List.Pairwise.nil⟩
  have hrun : Increasing id d p (run (step id d) builds r) (preDigests id d builds r) :=
    run_ledger (I := Increasing id d p) (fun b _ _ _ h ↦ h.build hpos hle b) builds
      (along_true builds r) hstart
  exact hrun.increasing

def undisturbed (givenUp : Bool) : AuraBuild :=
  { fetch := CurrTimeProvider.unlocked, provide := CurrTimeProvider.unlocked, givenUp := givenUp,
    parent := default }

/-- The second of three builds is given up. -/
theorem slots_increase_twoSeconds :
    let l := preDigests 0 ⟨1500⟩ [undisturbed false, undisturbed true, undisturbed false]
      CurrTimeProvider.twoSeconds.registry
    l.map (·.slot) = [6, 9] ∧ l.Pairwise fun a b ↦ b.time < 2 ^ 64 → a.slot < b.slot := by
  have hregistered : CurrTimeProvider.twoSeconds.registry.instances 0 = some
      ⟨0, CurrTimeProvider.seconds 10 (by decide), CurrTimeProvider.seconds 2 (by decide), 0⟩ := by
    decide
  exact ⟨by decide +kernel, slots_increase hregistered (by decide) (by decide) _⟩

end AuraBuild

end Fudge
