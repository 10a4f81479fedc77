import Fudge.Digest.Babe
import Fudge.Inherent.Providers

/-!
# Slots and timestamps of many chains

A chain fetches its clock, perhaps makes a slot provider, puts both and whatever else it has into
the inherent data, and derives its pre-digest from them, by Babe or by Aura. Many chains do so on
one registry of clocks, in any order, some of them perhaps on the same clock.

Aura computes its slot from the timestamp. Babe takes the slot that the caller's provider put, and
nothing in the library ties it to the timestamp: the slot provider has to be made from the time of
the same clone, and with the chain's own slot duration. Then the slot of a block is that of its
timestamp, whoever else moved the clock in the meantime. And the slots of each chain increase, since
a chain stays behind its clock and the others only move it forward.
-/

namespace Fudge

open CurrTimeProvider (ClockHost ClockError inherentIdentifier encodeTimestamp)

/-! ## Builds -/

/-- The consensus engine that a chain has its pre-digests from. -/
inductive Engine where
  | aura
  | babe
deriving DecidableEq, Repr

structure SlotChain where
  clock : InstanceId
  /-- In milliseconds. -/
  slotDuration : ℕ
  engine : Engine
deriving DecidableEq, Repr

inductive SlotDigestError where
  | aura (e : DigestError)
  | babe (e : BabeDigestError)
deriving DecidableEq, Repr

/-- The digest of a chain: `build_digest` of Aura's provider, or `append_digest` of Babe's to an
empty digest. -/
def SlotChain.createDigest (c : SlotChain) (parent : Header) :
    Call InherentData SlotDigestError (List LogItem) :=
  match c.engine with
  | .aura => Call.mapErr .aura (Call.map (List.map LogItem.aura)
      (buildDigest (AuraDigest.digest ⟨c.slotDuration⟩) parent))
  | .babe => Call.mapErr .babe (Call.map (List.map LogItem.preRuntime)
      (appendDigest babeDigest parent []))

/-- `sp_consensus_babe::inherents::InherentDataProvider`. -/
inductive SlotProvider where
  /-- `from_timestamp_and_slot_duration`, with the time of the clone. In milliseconds. -/
  | fromTimestamp (slotDuration : ℕ)
  /-- `new`, with a slot of the caller's. -/
  | new (slot : UInt64)
deriving DecidableEq, Repr

/-- One build of a chain, as far as it has to do with the clock: the lock as the two calls find it,
the slot provider that is made of the clone, if one is, what others do to the clocks before the
timestamp is put, the other providers, and whether the build is given up before the digest is
made. -/
structure SlotBuild where
  fetch : ClockHost
  provide : ClockHost
  slotProvider : Option SlotProvider := none
  meanwhile : Registry → Registry := id
  providers : List InherentProvider := []
  givenUp : Bool := false
  parent : Header

inductive SlotBuildError where
  | inherents (e : ClockError)
  | givenUp
  | digest (e : SlotDigestError)
deriving DecidableEq, Repr

namespace SlotBuild

open Call
open CurrTimeProvider (getInstance fetch_cases provideInherentData provideInherentData_cases
  putData putData_eq_ok currentTime_eq)
open AuraBuild (Stamped Increasing exactTime)

variable {κ : Type} [DecidableEq κ] (encode : ParachainsInherentData → Bytes)

def onData (c : Call InherentData CurrTimeProvider.InherentsError Unit) :
    Call (Registry × InherentData) ClockError Unit :=
  Call.mapErr .inherents (Call.zoom Prod.snd (fun data s ↦ (s.1, data)) c)

/-- The slot of the slot provider, if there is one. -/
def slotOfClone (b : SlotBuild) (p : CurrTimeProvider) :
    Call (Registry × InherentData) ClockError (Option ℕ) :=
  match b.slotProvider with
  | some (.fromTimestamp slotDuration) =>
    Call.map some (slotFromTimestamp p.currentTime slotDuration)
  | some (.new slot) => pure (some slot.toNat)
  | none => pure none

/-- The slot provider puts its slot, and the others what they have. -/
def provideRest (b : SlotBuild) (slot : Option ℕ) :
    Call (Registry × InherentData) ClockError Unit := do
  onData (Call.forEach (fun slot ↦ putData babeInherentIdentifier (encodeTimestamp slot))
    slot.toList)
  onData (InherentProvider.provideAll encode b.providers)

def createInherentData (c : SlotChain) (b : SlotBuild) :
    Call (Registry × InherentData) ClockError Unit := do
  let p ← Call.mapErr .provider
    (Call.zoom Prod.fst (fun r s ↦ (r, s.2)) (getInstance b.fetch c.clock))
  let slot ← slotOfClone b p
  Call.modify fun s ↦ (b.meanwhile s.1, s.2)
  Call.mapErr .inherents (provideInherentData b.provide p)
  provideRest encode b slot

def preDigest (c : SlotChain) (b : SlotBuild) :
    Call (Registry × InherentData) SlotBuildError (List LogItem) := do
  Call.mapErr .inherents (createInherentData encode c b)
  Call.require .givenUp (if b.givenUp then none else some ())
  Call.mapErr .digest (Call.zoom Prod.snd (fun data s ↦ (s.1, data)) (c.createDigest b.parent))

/-- A build of one of the chains, on the registry of clocks. -/
def step (chains : κ → SlotChain) (q : κ × SlotBuild) : Call Registry SlotBuildError Unit :=
  Call.zoom (fun r ↦ (r, [])) (fun s _ ↦ s.1)
    (preDigest encode (chains q.1) q.2 >>= fun _ ↦ pure ())

def stamped (c : SlotChain) (b : SlotBuild) (r : Registry) : List Stamped :=
  match (preDigest encode c b (r, [])).1, r.instances c.clock with
  | .ok logs, some p => (slotOf logs).toList.map fun slot ↦ ⟨exactTime p, slot⟩
  | _, _ => []

/-- The slots of a run of builds, each with its chain. -/
def slots (chains : κ → SlotChain) (builds : List (κ × SlotBuild)) (r : Registry) :
    List (κ × Stamped) :=
  ledger (step encode chains)
    (fun q r l ↦ l ++ (stamped encode (chains q.1) q.2 r).map (q.1, ·)) builds r []

def ofChain (k : κ) (l : List (κ × Stamped)) : List Stamped := (l.filter (·.1 = k)).map (·.2)

variable {encode} {c : SlotChain} {b : SlotBuild}

/-! ## What a build does -/

theorem onData_keeps (d : Call InherentData CurrTimeProvider.InherentsError Unit) :
    Keeps (fun s : Registry × InherentData ↦ s.1) (onData d) :=
  Keeps.mapErr (Keeps.zoom fun _ _ ↦ rfl)

theorem onData_eq_ok {d : Call InherentData CurrTimeProvider.InherentsError Unit}
    {s s' : Registry × InherentData} {u : Unit} :
    onData d s = (.ok u, s') ↔ ∃ data, d s.2 = (.ok u, data) ∧ s' = (s.1, data) := by
  rw [onData, mapErr_eq_ok, zoom_eq_ok]

theorem slotOfClone_keeps (b : SlotBuild) (p : CurrTimeProvider) :
    Keeps id (slotOfClone b p) := by
  rw [slotOfClone]
  cases b.slotProvider with
  | none => exact Keeps.pure _
  | some provider =>
    cases provider with
    | fromTimestamp slotDuration =>
      exact Keeps.map (Keeps.bind (Keeps.assert _) fun _ ↦ Keeps.pure _)
    | new slot => exact Keeps.pure _

theorem slotOfClone_fromTimestamp {p : CurrTimeProvider} {s s' : Registry × InherentData} {d : ℕ}
    {slot : Option ℕ} (hb : b.slotProvider = some (.fromTimestamp d))
    (h : slotOfClone b p s = (.ok slot, s')) :
    0 < d ∧ slot = some (p.currentTime / d) := by
  rw [slotOfClone, hb] at h
  obtain ⟨n, hn, rfl⟩ := map_eq_ok.mp h
  obtain ⟨hpos, rfl, -⟩ := slotFromTimestamp_eq_ok.mp hn
  exact ⟨hpos, rfl⟩

theorem provideRest_keeps (b : SlotBuild) (slot : Option ℕ) :
    Keeps (fun s : Registry × InherentData ↦ s.1) (provideRest encode b slot) :=
  Keeps.bind (onData_keeps _) fun _ ↦ onData_keeps _

/-- The timestamp stays, and the slot is put beside it. -/
theorem provideRest_lookup {slot : Option ℕ} {r : Registry} {data : InherentData}
    {s : Registry × InherentData} {u : Unit} {x : Bytes}
    (hx : data.lookup inherentIdentifier = some x)
    (hok : provideRest encode b slot (r, data) = (.ok u, s)) :
    s.2.lookup inherentIdentifier = some x ∧ ∀ n, slot = some n →
      s.2.lookup babeInherentIdentifier = some (encodeTimestamp n) := by
  obtain ⟨_, _, hputs, hrest⟩ := bind_eq_ok.mp hok
  obtain ⟨data', hput, rfl⟩ := onData_eq_ok.mp hputs
  obtain ⟨data'', hall, rfl⟩ := onData_eq_ok.mp hrest
  -- the other providers put theirs behind
  have hkept : ∀ {key y : Bytes}, data'.lookup key = some y → data''.lookup key = some y := by
    intro key y hy
    have hlookup : (InherentProvider.provideAll encode b.providers data').2.lookup key = some y :=
      InherentProvider.provideAll_lookup b.providers data' hy
    rwa [show InherentProvider.provideAll encode b.providers data' = _ from hall] at hlookup
  have htime : data'.lookup inherentIdentifier = some x := by
    have hlookup := Preserves.forEach (l := slot.toList)
      (fun n _ ↦ InherentProvider.putData_lookup babeInherentIdentifier (encodeTimestamp n)) data hx
    rwa [show forEach (fun n ↦ putData babeInherentIdentifier (encodeTimestamp n)) slot.toList
      data = _ from hput] at hlookup
  refine ⟨hkept htime, ?_⟩
  rintro n rfl
  rw [Option.toList_some, forEach_singleton_eq, map_eq_ok] at hput
  obtain ⟨_, hput, -⟩ := hput
  obtain ⟨hunused, rfl⟩ := putData_eq_ok.mp hput
  refine hkept ?_
  rw [List.lookup_append, show data.lookup babeInherentIdentifier = none from hunused,
    List.lookup_cons_self]
  rfl

/-- **The inherent data of a build.** The build fails before a clock moves; or the clock moves, and
if there are data, they have the time of the clone, and the slot of that time where the slot
provider is made of it. -/
theorem createInherentData_cases (encode : ParachainsInherentData → Bytes) (c : SlotChain)
    (b : SlotBuild) (r : Registry) :
    ((createInherentData encode c b (r, [])).1.isOk = false ∧
        ((createInherentData encode c b (r, [])).2.1 = r ∨
          (createInherentData encode c b (r, [])).2.1 = b.meanwhile r)) ∨
      ∃ p q, r.instances c.clock = some p ∧ (b.meanwhile r).instances c.clock = some q ∧
        (createInherentData encode c b (r, [])).2.1 =
          (b.meanwhile r).insert { q with ticks := q.ticks + 1 } ∧
        ∀ u s, createInherentData encode c b (r, []) = (.ok u, s) →
          s.2.lookup inherentIdentifier = some (encodeTimestamp p.currentTime) ∧
            ∀ d, b.slotProvider = some (.fromTimestamp d) → 0 < d ∧
              s.2.lookup babeInherentIdentifier = some (encodeTimestamp (p.currentTime / d)) := by
  rw [createInherentData]
  rcases fetch_cases (H := b.fetch) c.clock r [] with ⟨e, hget⟩ | ⟨u, p, -, hp, hget⟩
  · rw [bind_of_err hget]
    exact Or.inl ⟨rfl, Or.inl rfl⟩
  · rw [bind_of_ok hget]
    have hsame : (slotOfClone b p (r, [])).2 = (r, []) := slotOfClone_keeps b p (r, [])
    rcases bind_cases (slotOfClone b p) (fun slot ↦ (do
      Call.modify fun s ↦ (b.meanwhile s.1, s.2)
      Call.mapErr .inherents (provideInherentData b.provide p)
      provideRest encode b slot)) (r, []) with
      ⟨slot, hslot, h⟩ | ⟨-, hno, hstate⟩
    · rw [h, hsame, bind_of_ok (modify_apply _ _)]
      have hid : p.instanceId = c.clock := r.keyed c.clock p hp
      rcases provideInherentData_cases (H := b.provide) p (b.meanwhile r) [] with
        ⟨hno, hstate⟩ | ⟨q, hq, hok⟩
      · rw [← mapErr_isOk ClockError.inherents] at hno
        obtain ⟨hstop, hleft⟩ := bind_of_not_ok (f := fun _ ↦ provideRest encode b slot) hno
        rw [hleft, mapErr_snd]
        exact Or.inl ⟨hstop, Or.inr hstate⟩
      · rw [bind_of_ok (mapErr_eq_ok.mpr hok)]
        -- the timestamp is put and the clock has moved, whatever happens from here on
        refine Or.inr ⟨p, q, hp, hid ▸ hq, provideRest_keeps b slot _, fun u s hdata ↦ ?_⟩
        obtain ⟨htime, hput⟩ := provideRest_lookup (List.lookup_cons_self ..) hdata
        refine ⟨htime, fun d hd ↦ ?_⟩
        obtain ⟨hpos, hn⟩ := slotOfClone_fromTimestamp hd hslot
        exact ⟨hpos, hput _ hn⟩
    · rw [hstate, hsame]
      exact Or.inl ⟨hno, Or.inl rfl⟩

/-- **The digest of data** with a timestamp only reads them. Where they also have its slot, if that
is what the engine asks for, it has the slot of the timestamp. -/
theorem slotOf_createDigest {c : SlotChain} {parent : Header} {inherents data : InherentData}
    {logs : List LogItem} {t : ℕ} (ht : t < 2 ^ 64)
    (htime : inherents.lookup inherentIdentifier = some (encodeTimestamp t))
    (h : c.createDigest parent inherents = (.ok logs, data)) :
    data = inherents ∧ ((c.engine = .babe → 0 < c.slotDuration ∧
        inherents.lookup babeInherentIdentifier = some (encodeTimestamp (t / c.slotDuration))) →
      0 < c.slotDuration ∧ slotOf logs = some (t / c.slotDuration)) := by
  rw [SlotChain.createDigest] at h
  cases hengine : c.engine with
  | aura =>
    rw [hengine] at h
    obtain ⟨items, hitems, rfl⟩ := map_eq_ok.mp (mapErr_eq_ok.mp h)
    obtain ⟨item, s, hitem, hone⟩ := bind_eq_ok.mp hitems
    obtain ⟨rfl, rfl⟩ := pure_eq_ok.mp hone
    obtain ⟨t', ht', hpos, rfl, rfl⟩ := AuraDigest.digest_eq_ok.mp hitem
    rw [timestampInherentData_of_lookup ht htime] at ht'
    obtain rfl : t = t' := Option.some.inj (Except.ok.inj ht')
    exact ⟨rfl, fun _ ↦ ⟨hpos, rfl⟩⟩
  | babe =>
    rw [hengine] at h
    obtain ⟨items, hitems, rfl⟩ := map_eq_ok.mp (mapErr_eq_ok.mp h)
    obtain ⟨item, s, hitem, hone⟩ := bind_eq_ok.mp hitems
    obtain ⟨rfl, rfl⟩ := pure_eq_ok.mp hone
    obtain ⟨slot, hfound, rfl, rfl⟩ := babeDigest_eq_ok.mp hitem
    refine ⟨rfl, fun hslot ↦ ?_⟩
    obtain ⟨hpos, hput⟩ := hslot rfl
    have hlt : t / c.slotDuration < 2 ^ 64 := lt_of_le_of_lt (Nat.div_le_self _ _) ht
    rw [babeInherentData_of_lookup hlt hput] at hfound
    obtain rfl : t / c.slotDuration = slot := Option.some.inj (Except.ok.inj hfound)
    have hdecode := decodeSlot_encode (d := ⟨0, t / c.slotDuration⟩) hlt
    refine ⟨hpos, ?_⟩
    simp only [slotOf, List.nil_append, List.map_cons, List.findSome?_cons, LogItem.slot, if_true,
      hdecode]

theorem preDigest_clocks (c : SlotChain) (b : SlotBuild) (r : Registry) :
    (preDigest encode c b (r, [])).2.1 = (createInherentData encode c b (r, [])).2.1 := by
  have hrest : Keeps (fun s : Registry × InherentData ↦ s.1)
      (Call.require .givenUp (if b.givenUp then none else some ()) >>= fun _ ↦
        Call.mapErr SlotBuildError.digest
          (Call.zoom Prod.snd (fun data s ↦ (s.1, data)) (c.createDigest b.parent))) :=
    Keeps.bind (Keeps.require _ _) fun _ ↦ Keeps.mapErr (Keeps.zoom fun _ _ ↦ rfl)
  rw [preDigest]
  rcases bind_cases (mapErr SlotBuildError.inherents (createInherentData encode c b)) (fun _ ↦
    Call.require .givenUp (if b.givenUp then none else some ()) >>= fun _ ↦
      Call.mapErr SlotBuildError.digest
        (Call.zoom Prod.snd (fun data s ↦ (s.1, data)) (c.createDigest b.parent))) (r, []) with
    ⟨_, -, h⟩ | ⟨-, -, h⟩
  · rw [h]
    refine (hrest _).trans ?_
    rw [mapErr_snd]
  · rw [h, mapErr_snd]

theorem preDigest_eq_ok {r : Registry} {logs : List LogItem} {s : Registry × InherentData}
    (h : preDigest encode c b (r, []) = (.ok logs, s)) : ∃ t,
      createInherentData encode c b (r, []) = (.ok (), t) ∧
        c.createDigest b.parent t.2 = (.ok logs, s.2) := by
  obtain ⟨_, t, hdata, hrest⟩ := bind_eq_ok.mp h
  obtain ⟨_, t', hgiven, hdigest⟩ := bind_eq_ok.mp hrest
  obtain ⟨-, rfl⟩ := require_eq_ok.mp hgiven
  obtain ⟨data, hlogs, rfl⟩ := zoom_eq_ok.mp (mapErr_eq_ok.mp hdigest)
  exact ⟨t', mapErr_eq_ok.mp hdata, hlogs⟩

/-- The slot of a Babe build is made of the time of its clone, with the slot duration of its
chain. -/
def SlotsOfClone (c : SlotChain) (b : SlotBuild) : Prop :=
  c.engine = .babe → b.slotProvider = some (.fromTimestamp c.slotDuration)

/-- **One build.** It fails before a clock moves, or the clock moves; and if there is a digest, the
inherent data have the time of the clone, and the digest has its slot. -/
theorem preDigest_cases (encode : ParachainsInherentData → Bytes) (c : SlotChain) (b : SlotBuild)
    (r : Registry) :
    ((preDigest encode c b (r, [])).1.isOk = false ∧
        ((preDigest encode c b (r, [])).2.1 = r ∨
          (preDigest encode c b (r, [])).2.1 = b.meanwhile r)) ∨
      ∃ p q, r.instances c.clock = some p ∧ (b.meanwhile r).instances c.clock = some q ∧
        (preDigest encode c b (r, [])).2.1 =
          (b.meanwhile r).insert { q with ticks := q.ticks + 1 } ∧
        ∀ logs s, preDigest encode c b (r, []) = (.ok logs, s) →
          timestampInherentData s.2 = .ok (some p.currentTime) ∧ (SlotsOfClone c b →
            0 < c.slotDuration ∧ slotOf logs = some (p.currentTime / c.slotDuration)) := by
  rw [preDigest_clocks]
  rcases createInherentData_cases encode c b r with
    ⟨hno, hsame⟩ | ⟨p, q, hp, hq, hmoved, hdata⟩
  · refine Or.inl ⟨?_, hsame⟩
    rw [← mapErr_isOk SlotBuildError.inherents] at hno
    exact (bind_of_not_ok hno).1
  · refine Or.inr ⟨p, q, hp, hq, hmoved, fun logs s hlogs ↦ ?_⟩
    have hlt : p.currentTime < 2 ^ 64 := by
      rw [currentTime_eq]
      omega
    obtain ⟨t, ht, hdigest⟩ := preDigest_eq_ok hlogs
    obtain ⟨htime, hput⟩ := hdata () t ht
    obtain ⟨hsame, hslot⟩ := slotOf_createDigest hlt htime hdigest
    exact ⟨hsame ▸ timestampInherentData_of_lookup hlt htime,
      fun hb ↦ hslot fun hbabe ↦ hput _ (hb hbabe)⟩

/-- **The slot of a block is that of its timestamp**, by Aura and by Babe, and whatever others did
to the clocks while the block was built. A slot has some length where there is one at all. -/
theorem slot_is_of_timestamp {r : Registry} {logs : List LogItem} {s : Registry × InherentData}
    (hb : SlotsOfClone c b) (h : preDigest encode c b (r, []) = (.ok logs, s)) :
    0 < c.slotDuration ∧
      ∃ t, timestampInherentData s.2 = .ok (some t) ∧ slotOf logs = some (t / c.slotDuration) := by
  rcases preDigest_cases encode c b r with ⟨hno, -⟩ | ⟨p, -, -, -, -, hdata⟩
  · rw [h] at hno
    cases hno
  · obtain ⟨htime, hslot⟩ := hdata logs s h
    obtain ⟨hpos, hslot⟩ := hslot hb
    exact ⟨hpos, p.currentTime, htime, hslot⟩

/-- A relay chain and a parachain that share a clock. -/
def relayAndPara : Bool → SlotChain
  | false => ⟨0, 1500, .babe⟩
  | true => ⟨0, 2000, .aura⟩

/-- A build that finds the registry unlocked. Both chains make the relay chain's slot provider. -/
def undisturbed : SlotBuild :=
  { fetch := CurrTimeProvider.unlocked, provide := CurrTimeProvider.unlocked,
    slotProvider := some (.fromTimestamp 1500), parent := default }

/-- The parachain is built while the relay chain is: the relay chain's slot stays that of the time
which it fetched. -/
theorem slot_is_of_timestamp_overtaken :
    let b := { undisturbed with
      meanwhile := fun r ↦ (step (fun _ ↦ []) relayAndPara (true, undisturbed) r).2 }
    ∃ logs s,
      preDigest (fun _ ↦ []) (relayAndPara false) b (CurrTimeProvider.twoSeconds.registry, []) =
        (.ok logs, s) ∧ slotOf logs = some 6 ∧ 0 < (relayAndPara false).slotDuration ∧
      ∃ t, timestampInherentData s.2 = .ok (some t) ∧ slotOf logs = some (t / 1500) := by
  intro b
  have hok : (preDigest (fun _ ↦ []) (relayAndPara false) b
      (CurrTimeProvider.twoSeconds.registry, [])).1 =
      .ok [.preRuntime ⟨babeEngineId, (SecondaryPlainPreDigest.mk 0 6).encode⟩] := by
    decide +kernel
  have hrun := Prod.ext hok (Eq.refl (preDigest (fun _ ↦ []) (relayAndPara false) b
    (CurrTimeProvider.twoSeconds.registry, [])).2)
  exact ⟨_, _, hrun, by decide +kernel, slot_is_of_timestamp (fun _ ↦ rfl) hrun⟩

/-! ## The slots of many chains -/

variable {chains : κ → SlotChain}

theorem ofChain_append (k j : κ) (l : List (κ × Stamped)) (new : List Stamped) :
    ofChain k (l ++ new.map (j, ·)) = ofChain k l ++ if j = k then new else [] := by
  rw [ofChain, List.filter_append, List.map_append]
  congr 1
  induction new with
  | nil => simp
  | cons a new ih =>
    by_cases hj : j = k
    · rw [if_pos hj] at ih ⊢
      rw [List.map_cons, List.filter_cons_of_pos (by simpa using hj), List.map_cons, ih]
    · rw [if_neg hj] at ih ⊢
      rw [List.map_cons, List.filter_cons_of_neg (by simpa using hj), ih]

omit [DecidableEq κ] in
/-- **A build of a chain that nobody disturbs.** The clock stays and there is no slot; or the clock
moves, and the slot, if there is one, is that of its time. -/
theorem step_cases (encode : ParachainsInherentData → Bytes) (q : κ × SlotBuild)
    (hq : q.2.meanwhile = id) (r : Registry) :
    ((step encode chains q r).2 = r ∧ stamped encode (chains q.1) q.2 r = []) ∨
      ∃ p, r.instances (chains q.1).clock = some p ∧
        (step encode chains q r).2 = r.insert { p with ticks := p.ticks + 1 } ∧
        (SlotsOfClone (chains q.1) q.2 → stamped encode (chains q.1) q.2 r = [] ∨
          stamped encode (chains q.1) q.2 r =
            [⟨exactTime p, p.currentTime / (chains q.1).slotDuration⟩]) := by
  have hstep : (step encode chains q r).2 =
      (preDigest encode (chains q.1) q.2 (r, [])).2.1 := by
    change ((preDigest encode (chains q.1) q.2 >>= fun _ ↦ pure ()) (r, [])).2.1 = _
    rw [bind_pure_snd]
  have hmeanwhile : q.2.meanwhile r = r := by rw [hq, id]
  rw [hstep]
  rcases preDigest_cases encode (chains q.1) q.2 r with
    ⟨hno, hsame⟩ | ⟨p, p', hp, hp', hmoved, hdata⟩
  · rw [hmeanwhile, or_self] at hsame
    refine Or.inl ⟨hsame, ?_⟩
    rw [stamped]
    rcases hout : (preDigest encode (chains q.1) q.2 (r, [])).1 with logs | e | _
    · rw [hout] at hno
      cases hno
    · rfl
    · rfl
  · rw [hmeanwhile] at hp' hmoved
    obtain rfl : p = p' := Option.some.inj (hp.symm.trans hp')
    refine Or.inr ⟨p, hp, hmoved, fun hslot ↦ ?_⟩
    rw [stamped, hp]
    rcases hout : (preDigest encode (chains q.1) q.2 (r, [])).1 with logs | e | _
    · right
      change (slotOf logs).toList.map _ = _
      rw [((hdata logs _ (eq_of_fst hout)).2 hslot).2]
      rfl
    · exact Or.inl rfl
    · exact Or.inl rfl

theorem increasing_of_other {d : AuraDigest} {id id' : InstanceId} {p q : CurrTimeProvider}
    {r : Registry} {l : List Stamped} (h : Increasing id d p r l) (hq : r.instances id' = some q)
    (hne : id' ≠ id) : Increasing id d p (r.insert { q with ticks := q.ticks + 1 }) l := by
  obtain ⟨⟨q', hq', hclock⟩, hslots, hincreasing⟩ := h
  exact ⟨⟨q', (Registry.insert_tick_of_ne hq hne).trans hq', hclock⟩, hslots, hincreasing⟩

/-- **One build** of any chain keeps the slots of each chain increasing. -/
theorem step_increasing (encode : ParachainsInherentData → Bytes) {k : κ} {p : CurrTimeProvider}
    (hpos : 0 < (chains k).slotDuration) (hle : (chains k).slotDuration ≤ p.delta.asMillis)
    (q : κ × SlotBuild) (hq : q.2.meanwhile = id)
    (hslot : q.1 = k → SlotsOfClone (chains q.1) q.2) {r : Registry} {l : List (κ × Stamped)}
    (h : Increasing (chains k).clock ⟨(chains k).slotDuration⟩ p r (ofChain k l)) :
    Increasing (chains k).clock ⟨(chains k).slotDuration⟩ p (step encode chains q r).2
      (ofChain k (l ++ (stamped encode (chains q.1) q.2 r).map (q.1, ·))) := by
  rw [ofChain_append]
  rcases step_cases encode q hq r with ⟨hsame, hnone⟩ | ⟨p', hp', hmoved, hstamped⟩
  · rw [hsame, hnone, ite_self, List.append_nil]
    exact h
  · rw [hmoved]
    by_cases hk : q.1 = k
    · subst hk
      rw [if_pos rfl]
      rcases hstamped (hslot rfl) with hnone | hone
      · rw [hnone, List.append_nil]
        exact h.tick hp'
      · rw [hone]
        exact h.stamp hp' hpos hle
    · rw [if_neg hk, List.append_nil]
      by_cases hclock : (chains q.1).clock = (chains k).clock
      · exact h.tick (hclock ▸ hp')
      · exact increasing_of_other h hp' hclock

/-- **The slots of every chain increase** from block to block, in any order of the builds of all
chains and whichever of them share a clock, as long as the timestamps do not saturate. -/
theorem chains_slots_increase {k : κ} {p : CurrTimeProvider} {r : Registry}
    (hp : r.instances (chains k).clock = some p) (hpos : 0 < (chains k).slotDuration)
    (hle : (chains k).slotDuration ≤ p.delta.asMillis) (builds : List (κ × SlotBuild))
    (hbuilds : ∀ q ∈ builds, q.2.meanwhile = id ∧ (q.1 = k → SlotsOfClone (chains q.1) q.2)) :
    (ofChain k (slots encode chains builds r)).Pairwise
      fun a b ↦ b.time < 2 ^ 64 → a.slot < b.slot := by
  have hstart : Increasing (chains k).clock ⟨(chains k).slotDuration⟩ p r (ofChain k []) :=
    ⟨⟨p, hp, rfl, rfl, fun a ha ↦ absurd ha List.not_mem_nil⟩,
      fun a ha ↦ absurd ha List.not_mem_nil, List.Pairwise.nil⟩
  have hrun := run_ledger (I := fun r l ↦
      Increasing (chains k).clock ⟨(chains k).slotDuration⟩ p r (ofChain k l))
    (fun q _ _ hq h ↦ step_increasing encode hpos hle q hq.1 hq.2 h) builds
    (along_of_forall fun q hq _ ↦ hbuilds q hq) hstart
  exact hrun.increasing

/-- The relay chain's second build is given up, and the parachain ticks the clock in between. -/
theorem chains_slots_increase_shared :
    let l := slots (fun _ ↦ []) relayAndPara
      [(false, undisturbed), (true, undisturbed), (false, { undisturbed with givenUp := true }),
        (false, undisturbed)] CurrTimeProvider.twoSeconds.registry
    l.map (fun e ↦ (e.1, e.2.slot)) = [(false, 6), (true, 6), (false, 10)] ∧
      (ofChain false l).Pairwise fun a b ↦ b.time < 2 ^ 64 → a.slot < b.slot := by
  have hregistered : CurrTimeProvider.twoSeconds.registry.instances (relayAndPara false).clock =
      some ⟨0, CurrTimeProvider.seconds 10 (by decide), CurrTimeProvider.seconds 2 (by decide),
        0⟩ := by
    decide
  refine ⟨by decide +kernel, chains_slots_increase hregistered (by decide) (by decide) _ ?_⟩
  simp only [List.forall_mem_cons]
  exact ⟨⟨rfl, fun _ _ ↦ rfl⟩, ⟨rfl, fun h ↦ by cases h⟩, ⟨rfl, fun _ _ ↦ rfl⟩,
    ⟨rfl, fun _ _ ↦ rfl⟩, fun q hq ↦ absurd hq List.not_mem_nil⟩

end SlotBuild

end Fudge
