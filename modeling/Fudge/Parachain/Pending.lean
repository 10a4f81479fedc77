import Fudge.Parachain.Steps

/-!
# The pending block and the tip

A block that `build_block` made waits in one of the two slots until it is imported, and it was built
on what was the best block then. Nothing stops the tip from moving meanwhile: `with_mut_state`
replaces the best block, and the import of the block in one slot leaves the block in the other
behind. The relay chain and stand-alone builders assert that nothing is pending; this one does not.

In every run that does neither, pending blocks sit on the tip, and the best state is the one that
the mutations and the imported blocks lead to, in the order in which they were made (`replay`): no
committed write is lost.
-/

namespace Fudge

namespace ParachainBuilder

open Call Chain

variable {T A : Type} (P : Primitives T)

/-! ## Runs of a parachain builder -/

/-- What happens to a parachain builder: its own calls, and verdicts from the relay chain. -/
inductive ParaOp (T A : Type) where
  | buildBlock (H : ParaHost T)
  | withMutState (H : ParaHost T) (exec : T → A × T)
  | importBlock (H : ParaHost T)
  | judge (H : ParaHost T) (judgement : CollationJudgement)

def paraStep : ParaOp T A → Call (ParachainBuilder T) CollatorError (Reply A)
  | .buildBlock H => Call.map (fun _ ↦ .done) (Call.mapErr .parachain (buildBlock P H))
  | .withMutState H exec => Call.map .closure (Call.mapErr .parachain (withMutState P H exec))
  | .importBlock H => Call.map (fun _ ↦ .done) (Call.mapErr .parachain (importBlock H))
  | .judge H judgement => Call.map (fun _ ↦ .done) (judge H judgement)

def ParaOp.Lawful : ParaOp T A → Prop
  | .buildBlock H => H.Lawful P
  | .withMutState H _ => H.Lawful P
  | .importBlock H => H.Lawful P
  | .judge H _ => H.Lawful P

def isImported : Except InnerError ImportResult → Bool
  | .ok .imported => true
  | _ => false

/-- What an operation does to the best state: a mutation applies its closure, and an approved block
that the client takes is executed. -/
def effect : ParaOp T A → ParachainBuilder T → T → T
  | .withMutState _ exec, _, s => (exec s).2
  | .importBlock H, p, s => match p.blockStorage.nextImport with
    | some next =>
      if isImported (H.importBlock p.builder.chain (approvedParams next.1)).1
      then P.execute s next.1 else s
    | none => s
  | _, _, s => s

/-- The best state that the operations of a run lead to. -/
def replay : List (ParaOp T A) → ParachainBuilder T → T → T
  | [], _, s => s
  | op :: ops, p, s => replay ops (paraStep P op p).2 (effect P op p s)

/-- The tip is not moved under a pending block: a mutation is made when nothing is pending, or it
leaves the storage root as it is, and an approved block is imported when no other one waits. -/
def Undisturbed : ParaOp T A → ParachainBuilder T → Prop
  | .withMutState _ exec, p =>
    (p.blockStorage.nextBlock = none ∧ p.blockStorage.nextImport = none) ∨
      ∀ v hd s, p.builder.chain.headers p.builder.chain.bestHash = some hd →
        p.builder.chain.states p.builder.chain.bestHash = some s →
        P.storageRoot v (exec s).2 = hd.stateRoot
  | .importBlock _, p => p.blockStorage.nextImport.isSome = true → p.blockStorage.nextBlock = none
  | _, _ => True

/-- The condition on an operation: it returns `Ok` and does not disturb the tip. -/
def KeepsTip (op : ParaOp T A) (p : ParachainBuilder T) : Prop :=
  op.Lawful P ∧ (paraStep P op p).1.isOk = true ∧ Undisturbed P op p

/-! ## The invariant -/

/-- Pending blocks sit on the tip of a settled chain, whose best state is `s`. -/
structure OnTip (p : ParachainBuilder T) (s : T) : Prop where
  settled : p.builder.chain.Settled P
  state : p.builder.chain.states p.builder.chain.bestHash = some s
  nextBlock : ∀ b, p.blockStorage.nextBlock = some b →
    b.1.header.parentHash = p.builder.chain.bestHash
  nextImport : ∀ b, p.blockStorage.nextImport = some b →
    b.1.header.parentHash = p.builder.chain.bestHash

variable {P}

theorem OnTip.of_empty {p : ParachainBuilder T} {s : T} (hset : p.builder.chain.Settled P)
    (hs : p.builder.chain.states p.builder.chain.bestHash = some s)
    (hempty : p.blockStorage = {}) : OnTip P p s := by
  refine ⟨hset, hs, ?_, ?_⟩
  · rw [hempty]
    exact fun b hb ↦ (by cases hb)
  · rw [hempty]
    exact fun b hb ↦ (by cases hb)

theorem OnTip.buildBlock {H : ParaHost T} (hinj : Function.Injective P.hash) (hL : H.Lawful P)
    {p : ParachainBuilder T} {s : T} (h : OnTip P p s)
    (hok : (buildBlock P H p).1.isOk = true) : OnTip P (buildBlock P H p).2 s := by
  obtain ⟨u, hu⟩ := Outcome.isOk_iff.mp hok
  have hcall : ParachainBuilder.buildBlock P H p =
      (.ok u, (ParachainBuilder.buildBlock P H p).2) := Prod.ext hu rfl
  obtain ⟨b, build, hbuilt, hset, hbest, -, hstate, htip⟩ :=
    buildBlock_on_tip hinj hL h.settled hcall
  rw [hcall, hbuilt]
  refine ⟨hset, hstate.trans h.state, ?_, fun b' hb' ↦ (h.nextImport b' hb').trans hbest.symm⟩
  rintro _ ⟨⟩
  exact htip

theorem OnTip.importBlock {H : ParaHost T} (hinj : Function.Injective P.hash) (hL : H.Lawful P)
    {p : ParachainBuilder T} {s : T} (h : OnTip P p s) (hok : (importBlock H p).1.isOk = true)
    (hquiet : p.blockStorage.nextImport.isSome = true → p.blockStorage.nextBlock = none) :
    OnTip P (importBlock H p).2 (effect P (.importBlock (A := A) H) p s) := by
  rcases importBlock_cases (H := H) p with ⟨hsame, hnone⟩ | ⟨next, b, hnext, hb, hcase⟩
  · rw [hsame, effect, hnone hok]
    exact h
  · rcases hcase with ⟨-, hno⟩ | ⟨⟨result, hresult⟩, himported⟩
    · rw [hok] at hno
      cases hno
    · have hslot : p.blockStorage.nextBlock = none := hquiet (by rw [hnext]; rfl)
      have hempty : (importedBuilder next b p).blockStorage = {} := by
        rw [importedBuilder, setNextImport]
        exact congrArg (BlockStorage.mk · none) hslot
      rw [himported]
      simp only [effect, hnext]
      have hclient : H.importBlock p.builder.chain (approvedParams next.1) =
          (.ok result, b.chain) := Prod.ext hresult hb.symm
      -- only a verdict of `Imported` moves the tip; the slot is emptied by any verdict
      by_cases hr : result = .imported
      · subst hr
        rw [hclient, if_pos (show isImported _ = true from rfl)]
        obtain ⟨hset, -, -, s', hs', hstate⟩ := h.settled.importBlock_best hinj hL.host
          (h.nextImport next hnext) rfl rfl hclient
        obtain rfl : s = s' := Option.some.inj (h.state.symm.trans hs')
        exact OnTip.of_empty hset hstate hempty
      · have hsame : b.chain = p.builder.chain :=
          hL.host.importBlock_refused hclient fun heq ↦ hr (by simpa using heq)
        have hno : isImported (.ok result) = false := by
          cases result <;> first | rfl | exact absurd rfl hr
        rw [hclient, hno]
        refine OnTip.of_empty ?_ ?_ hempty
        · change b.chain.Settled P
          rw [hsame]
          exact h.settled
        · change b.chain.states b.chain.bestHash = some s
          rw [hsame]
          exact h.state

theorem OnTip.withMutState {H : ParaHost T} {exec : T → A × T} (hinj : Function.Injective P.hash)
    (hempty : ∀ v w, P.emptyTrieRoot v = P.emptyTrieRoot w) (hL : H.Lawful P)
    {p p' : ParachainBuilder T} {s : T} {r : A} (h : OnTip P p s)
    (hc : withMutState P H exec p = (.ok r, p'))
    (hquiet : Undisturbed P (.withMutState H exec) p) : OnTip P p' (exec s).2 := by
  obtain ⟨b, hb, rfl⟩ := withMutState_eq_ok hc
  obtain ⟨s', -, hm, hset⟩ := Builder.commit_mutated hinj hempty hL.host h.settled hb
  obtain rfl : s = s' := Option.some.inj (h.state.symm.trans hm.state)
  -- nothing is pending, or the mutation does not change the root
  rcases hquiet with ⟨hblock, himport⟩ | hroot
  · refine ⟨hset, hm.state', fun b' hb' ↦ ?_, fun b' hb' ↦ ?_⟩
    · rw [show p.blockStorage.nextBlock = some b' from hb'] at hblock
      cases hblock
    · rw [show p.blockStorage.nextImport = some b' from hb'] at himport
      cases himport
  · -- the header is made again with the old root, so it is the old header
    obtain ⟨hd, hd', v, hhd, hhd', hparent, hnum, hdigest, hextr, hstate⟩ := hm.header
    have hsame : hd' = hd := by
      have hstate' : hd'.stateRoot = hd.stateRoot := hstate.trans (hroot v hd s hhd h.state)
      obtain ⟨a₁, a₂, a₃, a₄, a₅⟩ := hd'
      obtain ⟨b₁, b₂, b₃, b₄, b₅⟩ := hd
      simp only at hparent hnum hdigest hextr hstate'
      rw [hparent, hnum, hdigest, hextr, hstate']
    have hbest : b.chain.bestHash = p.builder.chain.bestHash := by
      obtain ⟨x, hx, -, hxh⟩ := hset.header
      obtain ⟨y, hy, -, hyh⟩ := h.settled.header
      rw [hhd'] at hx
      rw [hhd] at hy
      cases hx
      cases hy
      rw [← hxh, ← hyh, hsame]
    exact ⟨hset, hm.state', fun b' hb' ↦ (h.nextBlock b' hb').trans hbest.symm,
      fun b' hb' ↦ (h.nextImport b' hb').trans hbest.symm⟩

theorem OnTip.judge {H : ParaHost T} {p : ParachainBuilder T} {s : T} (h : OnTip P p s)
    (judgement : CollationJudgement) : OnTip P (judge H judgement p).2 s := by
  cases judgement with
  | approved =>
    rcases approve_cases (H := H) p with ⟨hsame, -⟩ | ⟨build, hbuild, happroved⟩
    · change OnTip P (approve H p).2 s
      rw [hsame]
      exact h
    · change OnTip P (approve H p).2 s
      rw [happroved]
      refine ⟨h.settled, h.state, fun b hb ↦ (by cases hb), ?_⟩
      rintro _ ⟨⟩
      exact h.nextBlock build hbuild
  | rejected =>
    rcases reject_cases (H := H) p with ⟨hsame, -⟩ | hrejected
    · change OnTip P (reject H p).2 s
      rw [hsame]
      exact h
    · change OnTip P (reject H p).2 s
      rw [hrejected]
      exact ⟨h.settled, h.state, fun b hb ↦ (by cases hb), h.nextImport⟩

theorem paraStep_onTip (hinj : Function.Injective P.hash)
    (hempty : ∀ v w, P.emptyTrieRoot v = P.emptyTrieRoot w) (op : ParaOp T A)
    (p : ParachainBuilder T) {s : T} (hop : KeepsTip P op p) (h : OnTip P p s) :
    OnTip P (paraStep P op p).2 (effect P op p s) := by
  obtain ⟨hL, hok, hquiet⟩ := hop
  cases op with
  | buildBlock H =>
    rw [paraStep, map_isOk, mapErr_isOk] at hok
    rw [paraStep, map_snd, mapErr_snd]
    exact h.buildBlock hinj hL hok
  | withMutState H exec =>
    rw [paraStep, map_isOk, mapErr_isOk] at hok
    rw [paraStep, map_snd, mapErr_snd]
    obtain ⟨r, hr⟩ := Outcome.isOk_iff.mp hok
    exact h.withMutState hinj hempty hL (Prod.ext hr rfl) hquiet
  | importBlock H =>
    rw [paraStep, map_isOk, mapErr_isOk] at hok
    rw [paraStep, map_snd, mapErr_snd]
    exact h.importBlock hinj hL hok hquiet
  | judge H judgement => exact h.judge judgement

theorem run_onTip (hinj : Function.Injective P.hash)
    (hempty : ∀ v w, P.emptyTrieRoot v = P.emptyTrieRoot w) :
    ∀ (ops : List (ParaOp T A)) {p : ParachainBuilder T} {s : T},
      Along (paraStep P) (KeepsTip P) ops p → OnTip P p s →
        OnTip P (run (paraStep P) ops p) (replay P ops p s) := by
  intro ops
  induction ops with
  | nil =>
    intro p s _ h
    exact h
  | cons op ops ih =>
    intro p s hops h
    have hpanic : (paraStep P op p).1.isPanic = false := by
      obtain ⟨a, ha⟩ := Outcome.isOk_iff.mp hops.1.2.1
      rw [ha]
      rfl
    rw [run, hpanic]
    exact ih (hops.2 hpanic) (paraStep_onTip hinj hempty op p hops.1 h)

/-- **Pending blocks sit on the tip**, in every run of `Ok` calls that does not move the tip under
them: `next_build` then names the parent of the pending block, and the best state is the one that
the mutations and the imported blocks lead to. -/
theorem pending_on_tip (hinj : Function.Injective P.hash)
    (hempty : ∀ v w, P.emptyTrieRoot v = P.emptyTrieRoot w) {p₀ : ParachainBuilder T} {s₀ : T}
    (hset : p₀.builder.chain.Settled P)
    (hs : p₀.builder.chain.states p₀.builder.chain.bestHash = some s₀)
    (hslots : p₀.blockStorage = {}) (ops : List (ParaOp T A))
    (hops : Along (paraStep P) (KeepsTip P) ops p₀) :
    let p := run (paraStep P) ops p₀
    (∀ b, p.blockStorage.nextBlock = some b ∨ p.blockStorage.nextImport = some b →
      b.1.header.parentHash = p.builder.chain.bestHash) ∧
    (∀ (H : ParaHost T) build p', H.Lawful P → nextBuild P H p = (.ok (some build), p') →
      ∃ proof hd, p.blockStorage.nextBlock = some (build.block, proof) ∧
        p.builder.chain.headers build.block.header.parentHash = some hd ∧
        build.parentHead = P.encode hd) ∧
    p.builder.chain.states p.builder.chain.bestHash = some (replay P ops p₀ s₀) := by
  intro p
  have h : OnTip P p (replay P ops p₀ s₀) :=
    run_onTip hinj hempty ops hops (OnTip.of_empty hset hs hslots)
  refine ⟨?_, ?_, h.state⟩
  · rintro b (hb | hb)
    · exact h.nextBlock b hb
    · exact h.nextImport b hb
  · intro H build p' hL hbuild
    obtain ⟨block, hd, code, hblock, hhd, rfl⟩ := nextBuild_eq_ok hbuild
    refine ⟨block.2, hd, hblock, ?_, rfl⟩
    rw [show block.1.header.parentHash = p.builder.chain.bestHash from h.nextBlock block hblock]
    exact (hL.host.header hhd).symm

/-! ## A tip that moves -/

/-- A block is built and approved, and before it is imported the state is mutated by `f`. -/
def mutatePending (f : ℕ → ℕ) : List (ParaOp ℕ Unit) :=
  [.buildBlock (.reference counter), .judge (.reference counter) .approved,
    .withMutState (.reference counter) fun s ↦ ((), f s)]

/-- Every call of the run returns `Ok`, and the approved block is left behind by the tip. -/
theorem pending_off_tip :
    Along (paraStep counter) (fun op p ↦ (paraStep counter op p).1.isOk = true)
        (mutatePending (· + 10)) (counterBuilder 1) ∧
      ¬ ∀ b, (run (paraStep counter) (mutatePending (· + 10))
          (counterBuilder 1)).blockStorage.nextImport = some b →
        b.1.header.parentHash = (run (paraStep counter) (mutatePending (· + 10))
          (counterBuilder 1)).builder.chain.bestHash := by
  refine ⟨by decide +kernel, fun hall ↦ ?_⟩
  have hoff : (run (paraStep counter) (mutatePending (· + 10))
      (counterBuilder 1)).blockStorage.nextImport.any (fun b ↦ b.1.header.parentHash !=
        (run (paraStep counter) (mutatePending (· + 10))
          (counterBuilder 1)).builder.chain.bestHash) = true := by
    decide +kernel
  cases hb : (run (paraStep counter) (mutatePending (· + 10))
      (counterBuilder 1)).blockStorage.nextImport with
  | none =>
    rw [hb] at hoff
    cases hoff
  | some b =>
    rw [hb] at hoff
    exact absurd (hall b hb) (by simpa using hoff)

/-- The state is mutated before the block is built and after it is imported. -/
def mutateIdle : List (ParaOp ℕ Unit) :=
  [.withMutState (.reference counter) fun s ↦ ((), s + 10), .buildBlock (.reference counter),
    .judge (.reference counter) .approved, .importBlock (.reference counter),
    .withMutState (.reference counter) fun s ↦ ((), s + 100)]

theorem pending_on_tip_mutateIdle :
    (run (paraStep counter) mutateIdle (counterBuilder 0)).builder.chain.states
      (run (paraStep counter) mutateIdle (counterBuilder 0)).builder.chain.bestHash =
        some (replay counter mutateIdle (counterBuilder 0) 0) ∧
      replay counter mutateIdle (counterBuilder 0) 0 = 111 := by
  have hL := ParaHost.reference_lawful counter
  have hops : Along (paraStep counter) (KeepsTip counter) mutateIdle (counterBuilder 0) := by
    refine ⟨⟨hL, by decide +kernel, Or.inl ⟨by decide +kernel, by decide +kernel⟩⟩, fun _ ↦
      ⟨⟨hL, by decide +kernel, trivial⟩, fun _ ↦ ⟨⟨hL, by decide +kernel, trivial⟩, fun _ ↦
        ⟨⟨hL, by decide +kernel, fun _ ↦ ?_⟩, fun _ ↦ ⟨⟨hL, by decide +kernel, Or.inl ⟨?_, ?_⟩⟩,
          fun _ ↦ trivial⟩⟩⟩⟩⟩
    · decide +kernel
    · decide +kernel
    · decide +kernel
  exact ⟨(pending_on_tip pairHash_injective (fun _ _ ↦ rfl)
    (Builder.isGenesis_genesis counter 0).settled rfl rfl mutateIdle hops).2.2, by decide +kernel⟩

end ParachainBuilder

end Fudge
