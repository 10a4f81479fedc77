import Fudge.Core.Moves
import Fudge.Core.Reference
import Fudge.System.Public
import Fudge.Watch.Basic

/-!
# Waiting for a relay chain block

`FudgeRelayChainProcessInterface` lets others wait for a relay chain block while a builder goes on.
`wait_for_block` looks for the block under the import lock of the backend, and takes an import
notification stream before it lets the lock go; then it polls the stream and a timeout. The
definitions follow `builder/relay_chain.rs`.

The client takes the lock to import a block, and is free to notify nobody. The mutations of the
builders write to the backend itself: they take no lock and nobody is notified. So a waiter can miss
the block that a mutation makes, and waits for it until the timeout; `wait_for_block_misses` says
that it misses nothing else, in whatever order waiters, imports and mutations come.
-/

namespace Fudge

open Chain
open Relation (ReflTransGen)
open Watch (Poll Verdict Phase Rules Step)

/-! ## The code -/

namespace FudgeRelayChainProcessInterface

inductive BlockStatus where
  | inChain
  | unknown
deriving DecidableEq, Repr

/-- `RelayChainError`, as far as waiting goes. -/
inductive RelayChainError where
  | blockchain (e : InnerError)
  | waitTimeout (hash : Hash)
  | importListenerClosed (hash : Hash)
deriving DecidableEq, Repr

/-- `BlockCheckStatus`; what the listener will hear is not known yet. -/
inductive BlockCheckStatus where
  | inChain
  | unknown
deriving DecidableEq, Repr

/-- `check_block_in_chain`, from the answer of `status(hash)`. -/
def checkBlockInChain : Except InnerError BlockStatus → Except RelayChainError BlockCheckStatus
  | .error e => .error (.blockchain e)
  | .ok .inChain => .ok .inChain
  | .ok .unknown => .ok .unknown

/-- The loop of `wait_for_block`, on what `select!` picks: the timeout, or the next notification. It
goes on while nothing is decided. -/
def waitLoop (hash : Hash) : List (Poll Hash) → Option (Except RelayChainError Unit)
  | [] => none
  | .alarm :: _ => some (.error (.waitTimeout hash))
  | .closed :: _ => some (.error (.importListenerClosed hash))
  | .event evt :: polls => if evt = hash then some (.ok ()) else waitLoop hash polls

def waitForBlock (status : Except InnerError BlockStatus) (hash : Hash)
    (polls : List (Poll Hash)) : Option (Except RelayChainError Unit) :=
  match checkBlockInChain status with
  | .error e => some (.error e)
  | .ok .inChain => some (.ok ())
  | .ok .unknown => waitLoop hash polls

def verdictOf : Except RelayChainError Unit → Verdict
  | .ok _ => .found
  | .error (.blockchain _) => .failed
  | .error (.waitTimeout _) => .alarm
  | .error (.importListenerClosed _) => .closed

def looked : Except InnerError BlockStatus → Option Bool
  | .ok .inChain => some true
  | .ok .unknown => some false
  | .error _ => none

theorem waitLoop_verdict (hash : Hash) (polls : List (Poll Hash)) :
    (waitLoop hash polls).map verdictOf = Watch.polled hash polls := by
  induction polls with
  | nil => rfl
  | cons p polls ih =>
    cases p with
    | event evt =>
      rw [waitLoop, Watch.polled, Watch.verdict]
      by_cases h : evt = hash
      · rw [if_pos h, if_pos h]
        rfl
      · rw [if_neg h, if_neg h]
        exact ih
    | closed => rfl
    | alarm => rfl

/-- **The code watches.** -/
theorem waitForBlock_verdict (status : Except InnerError BlockStatus) (hash : Hash)
    (polls : List (Poll Hash)) :
    (waitForBlock status hash polls).map verdictOf =
      Watch.answer hash (looked status) polls := by
  rcases status with e | _ | _
  · rfl
  · rfl
  · exact waitLoop_verdict hash polls

end FudgeRelayChainProcessInterface

/-! ## The database that is watched -/

namespace Chain

variable {S : Type} {P : Primitives S} {c c' : Chain S}

def Holds (c : Chain S) (h : Hash) : Prop := (c.contents h).isSome = true

/-- The client imports the block `h`. -/
def Imports (P : Primitives S) (h : Hash) (c c' : Chain S) : Prop :=
  ∃ params isBest, params.forkChoice = some (.custom isBest) ∧ P.hash params.header = h ∧
    Imported P c params c'

inductive Mutates (P : Primitives S) : Chain S → Chain S → Prop where
  | reverted {c c' : Chain S} (n : ℕ) (h : RevertedBy n c c') : Mutates P c c'
  | remade {c c' : Chain S} (k : Hash) (hd : Header) (root : Hash) (ct : Contents) (s : S)
      (hk : c.headers k = some hd) (h : Committed P c ⟨{ hd with stateRoot := root }, ct⟩ s c') :
      Mutates P c c'
  | genesis {c c' : Chain S} (block : PendingBlock) (s : S) (hn : block.header.number = 0)
      (h : Committed P c block s c') : Mutates P c c'

theorem Move.imports_or_mutates {m : ℕ} (h : Move P m c c') :
    (∃ k, Imports P k c c') ∨ Mutates P c c' := by
  cases h with
  | imported params isBest hfork himp => exact Or.inl ⟨_, params, isBest, hfork, rfl, himp⟩
  | reverted n h hm => exact Or.inr (.reverted n h)
  | remade k hd root ct s hk h => exact Or.inr (.remade k hd root ct s hk h)
  | genesis block s hn h => exact Or.inr (.genesis block s hn h)

theorem Imports.holds {h : Hash} (himp : Imports P h c c') (k : Hash) :
    c'.Holds k ↔ c.Holds k ∨ k = h := by
  obtain ⟨params, -, -, rfl, himp⟩ := himp
  obtain ⟨ct, -, hcontents⟩ := himp.contents
  rw [Holds, Holds, hcontents]
  by_cases hk : k = P.hash params.header
  · subst hk
    simp
  · rw [Function.update_of_ne hk]
    simp [hk]

/-- A database under its import lock. -/
def watchRules (P : Primitives S) : Rules Hash (Chain S) where
  Holds := Holds
  Writes := Imports P
  Silent := Mutates P
  writes_holds himp := himp.holds

end Chain

/-! ## The builders are such writers -/

namespace FudgeRelayChainProcessInterface

variable {W S : Type} [DecidableEq W] {P : Primitives S}

abbrev Waiting (W S : Type) := Watch.System W Hash (Chain S)

def Unlocked (s : Waiting W S) : Prop := s.writer = .free ∧ ∀ w, ¬ (s.watchers w).HoldsLock

/-- A move can be made whenever nobody has the lock, and the lock is free after it. -/
theorem move_steps {c' : Chain S} {s : Waiting W S} (hs : Unlocked s) (h : Move P 0 s.store c') :
    ∃ s', ReflTransGen (Step (watchRules P)) s s' ∧ s'.store = c' ∧ Unlocked s' := by
  obtain ⟨hfree, hlock⟩ := hs
  rcases h.imports_or_mutates with ⟨k, himp⟩ | hmut
  · have hacquire := Step.acquire (R := watchRules P) hfree hlock
    have hwrite := Step.write (R := watchRules P) (s := { s with writer := .held }) k c' rfl
      himp
    have hannounce := Step.announce (R := watchRules P)
      (s := { s with store := c', writer := .wrote k }) k rfl
    refine ⟨_, ((ReflTransGen.single hacquire).tail hwrite).tail hannounce, rfl, rfl, fun w ↦ ?_⟩
    exact fun hw ↦ hlock w ((Watch.holdsLock_hear k (s.watchers w)).mp hw)
  · exact ⟨_, ReflTransGen.single (Step.silent c' hmut), rfl, hfree, hlock⟩

theorem moves_steps {c c' : Chain S} (h : ReflTransGen (Move P 0) c c') {s : Waiting W S}
    (hstore : s.store = c) (hs : Unlocked s) :
    ∃ s', ReflTransGen (Step (watchRules P)) s s' ∧ s'.store = c' ∧ Unlocked s' := by
  induction h with
  | refl => exact ⟨s, ReflTransGen.refl, hstore, hs⟩
  | tail _ hmove ih =>
    obtain ⟨u, hu, rfl, hfree⟩ := ih
    obtain ⟨v, hv, hstore', hfree'⟩ := move_steps hfree hmove
    exact ⟨v, hu.trans hv, hstore', hfree'⟩

/-- **A run of all builders is a run of the writer**, as waiters see it. -/
theorem builders_steps {κ A : Type} [DecidableEq κ] {T : κ → Type} {R : RelayPrimitives}
    {Q : ∀ k, Primitives (T k)} (ops : List (BuilderOp T A)) (hops : ∀ op ∈ ops, op.Lawful R Q)
    (w : World κ (Builders T)) {s : Waiting W RelayStorage}
    (hstore : s.store = w.relay.builder.chain) (hs : Unlocked s) :
    ∃ s', ReflTransGen (Step (watchRules R.toPrimitives)) s s' ∧
      s'.store = (Call.run (builderStep R Q) ops w).relay.builder.chain ∧ Unlocked s' :=
  moves_steps (Call.run_walks World.builderStep_relay_walks ops
    (Call.along_of_forall fun op hop _ ↦ hops op hop)) hstore hs

/-- While nobody writes, `check_block_in_chain` gets to an answer: the block is there, or the waiter
listens. -/
theorem check_steps {s : Waiting W S} {w : W} (h : Hash) (hw : s.watchers w = .idle)
    (hfree : s.writer = .free) :
    (s.store.Holds h → ReflTransGen (Step (watchRules P)) s { s with
      watchers := Function.update s.watchers w (.done h .found (some true) []) }) ∧
    (¬ s.store.Holds h → ReflTransGen (Step (watchRules P)) s { s with
      watchers := Function.update s.watchers w (.listening h [] []) }) := by
  have hlock := ReflTransGen.single (Step.lock (R := watchRules P) w h hw hfree)
  have hat : ∀ phase, Function.update s.watchers w phase w = phase :=
    fun phase ↦ Function.update_self w phase s.watchers
  constructor
  · intro hh
    have hfind := Step.find (R := watchRules P)
      (s := { s with watchers := Function.update s.watchers w (.locked h) }) w h (hat _) hh
    rw [Function.update_idem] at hfind
    exact hlock.tail hfind
  · intro hh
    have hmiss := Step.miss (R := watchRules P)
      (s := { s with watchers := Function.update s.watchers w (.locked h) }) w h (hat _) hh
    rw [Function.update_idem] at hmiss
    have hlisten := Step.listen (R := watchRules P)
      (s := { s with watchers := Function.update s.watchers w (.absent h) }) w h (hat _)
    rw [Function.update_idem] at hlisten
    exact (hlock.tail hmiss).tail hlisten

/-! ## What a waiter gets -/

variable {start : Chain S} {s : Waiting W S}

def quiet (start : Chain S) : Waiting W S := { store := start, watchers := fun _ ↦ .idle }

/-- **What `wait_for_block` returns.** It returns what the code returns on what it saw and heard,
and it returns `Ok` only for a block that the database looked up at some moment of the waiting, in
whatever order waiters, imports and mutations take their steps. A mutation may have taken the block
away again. -/
theorem wait_for_block_returns
    (hrun : ReflTransGen (Step (watchRules P)) (quiet start) s) {w : W} {h : Hash}
    {v : Verdict} {look : Option Bool} {polls : List (Poll Hash)}
    (hw : s.watchers w = .done h v look polls) :
    (∀ status, looked status = look → (waitForBlock status h polls).map verdictOf = some v) ∧
      (v = .found → ∃ u, ReflTransGen (Step (watchRules P)) (quiet start) u ∧
        ReflTransGen (Step (watchRules P)) u s ∧ (u.watchers w).WaitsFor h ∧ u.store.Holds h) := by
  have hinv := Watch.Steps.inv hrun (Watch.inv_start _ start)
  have hgood := hinv.watchers w
  rw [hw] at hgood
  constructor
  · rintro status rfl
    exact (waitForBlock_verdict status h polls).trans hgood.2
  · exact hgood.1

theorem wait_for_block_returns_genesis :
    (waitForBlock (.ok .inChain) (counterChain 0).bestHash []).map verdictOf = some .found ∧
      ∃ u : Waiting ℕ ℕ, (u.watchers 0).WaitsFor (counterChain 0).bestHash ∧
        u.store.Holds (counterChain 0).bestHash := by
  have hholds : (counterChain 0).Holds (counterChain 0).bestHash := by
    rw [Holds]
    decide
  have hsteps := (check_steps (P := counter) (s := (quiet (counterChain 0) : Waiting ℕ ℕ)) (w := 0)
    _ rfl rfl).1 hholds
  have hdone : Function.update (quiet (counterChain 0) : Waiting ℕ ℕ).watchers 0
      (.done (counterChain 0).bestHash .found (some true) []) 0 =
        .done (counterChain 0).bestHash .found (some true) [] := Function.update_self _ _ _
  have hreturns := wait_for_block_returns hsteps (w := 0) hdone
  obtain ⟨u, -, -, hwaits, hhas⟩ := hreturns.2 rfl
  exact ⟨hreturns.1 _ rfl, u, hwaits, hhas⟩

/-- **What `wait_for_block` can miss.** A waiter that listens for a block that is there gets it by
polling, unless it is just being announced, or came in without an announcement: the client kept it
to itself, or a mutation made it. -/
theorem wait_for_block_misses
    (hrun : ReflTransGen (Step (watchRules P)) (quiet start) s) {w : W} {h : Hash}
    {queue : List Hash} {polls : List (Poll Hash)} (hw : s.watchers w = .listening h queue polls)
    (hh : s.store.Holds h) :
    (∃ n polls', Phase.receive^[n] (s.watchers w) = .done h .found (some false) polls') ∨
      s.writer = .wrote h ∨
      ∃ u u', ReflTransGen (Step (watchRules P)) (quiet start) u ∧
        Step (watchRules P) u u' ∧ ReflTransGen (Step (watchRules P)) u' s ∧
        Watch.Unannounced (watchRules P) h u u' := by
  have hinv := Watch.Steps.inv hrun (Watch.inv_start _ start)
  have hgood := hinv.watchers w
  rw [hw] at hgood
  rcases hgood.1 hh with hqueue | hwrote | hunheard
  · obtain ⟨polls', hfound⟩ := Watch.receive_found polls hqueue
    exact Or.inl ⟨_, polls', hw ▸ hfound⟩
  · exact Or.inr (Or.inl hwrote)
  · exact Or.inr (Or.inr (Watch.Steps.unheard hrun (fun hno ↦ hno) hunheard))

/-- Another genesis block, as a mutation makes it. -/
def otherGenesis : PendingBlock :=
  ⟨{ parentHash := 0, number := 0, stateRoot := 7, extrinsicsRoot := 0, digest := [] },
    ⟨some [], none, none⟩⟩

/-- Somebody listens for the block that a mutation of genesis made. -/
def missing : Waiting ℕ ℕ where
  store := (counterChain 0).commitFinal counter otherGenesis 7
  watchers := Function.update (fun _ ↦ .idle) 0
    (.listening (counter.hash otherGenesis.header) [] [])
  unheard := ∅ ∪ { k | ((counterChain 0).commitFinal counter otherGenesis 7).Holds k ∧
    ¬ (counterChain 0).Holds k }

theorem wait_for_block_misses_missing :
    (∃ n polls', Phase.receive^[n] (missing.watchers 0) =
        .done (counter.hash otherGenesis.header) .found (some false) polls') ∨
      missing.writer = .wrote (counter.hash otherGenesis.header) ∨
      ∃ u u', ReflTransGen (Step (watchRules counter))
          (quiet (counterChain 0)) u ∧
        Step (watchRules counter) u u' ∧
        ReflTransGen (Step (watchRules counter)) u' missing ∧
        Watch.Unannounced (watchRules counter)
          (counter.hash otherGenesis.header) u u' := by
  have hno : ¬ (counterChain 0).Holds (counter.hash otherGenesis.header) := by
    rw [Holds]
    decide
  have hlistening := (check_steps (P := counter) (s := (quiet (counterChain 0) : Waiting ℕ ℕ))
    (w := 0) _ rfl rfl).2 hno
  have hmutates : Mutates counter (counterChain 0)
      ((counterChain 0).commitFinal counter otherGenesis 7) :=
    .genesis otherGenesis 7 rfl (committed_commitFinal _ _ _)
  have hsteps : ReflTransGen (Step (watchRules counter))
      (quiet (counterChain 0)) missing := hlistening.tail (Step.silent _ hmutates)
  have hlistens : missing.watchers 0 = .listening (counter.hash otherGenesis.header) [] [] := by
    simp [missing]
  refine wait_for_block_misses hsteps hlistens ?_
  rw [Holds]
  decide

end FudgeRelayChainProcessInterface

end Fudge
