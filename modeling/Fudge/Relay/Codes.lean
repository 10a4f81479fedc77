import Mathlib.Data.Set.Card
import Fudge.Relay.Onboarding
import Fudge.Relay.Pending

/-!
# References to code hashes

A validation code is referred to by the ids it is current for and by the past code hashes, one for
each id and block. `CodeByHashRefs` counts these references, so that the runtime can drop a code
together with the last of them.

`onboard_para` makes references in both maps, but sets a count at most once: to one, if it was zero.
It also notes a past code hash where the code does not change, and overwrites one that was noted in
the same block. What a call does to the count of *every* hash is summed up in `refsExact_at_iff`;
from it follows for which calls the counts stay exact (`CountsRight`).
-/

namespace Fudge

open Call Chain

/-! ## Counting the keys of a value -/

section Fibers

variable {α β : Type*} [DecidableEq α] [DecidableEq β] (f : α → Option β) (x : α) (b : β)

/-- The keys under which a map holds `b`. -/
def fiber (f : α → Option β) (b : β) : Set α := {a | f a = some b}

theorem encard_fiber : (fiber f b).encard =
    {a | a ≠ x ∧ f a = some b}.encard + if f x = some b then 1 else 0 := by
  by_cases h : f x = some b
  · have hins : fiber f b = insert x {a | a ≠ x ∧ f a = some b} := by
      ext a
      by_cases ha : a = x
      · subst ha
        simpa [fiber] using h
      · simp [fiber, ha]
    rw [hins, Set.encard_insert_of_notMem (by simp), if_pos h]
  · have hsame : fiber f b = {a | a ≠ x ∧ f a = some b} := by
      ext a
      by_cases ha : a = x
      · subst ha
        simpa [fiber] using h
      · simp [fiber, ha]
    rw [hsame, if_neg h, add_zero]

theorem encard_fiber_update (v : Option β) :
    (fiber (Function.update f x v) b).encard + (if f x = some b then 1 else 0) =
      (fiber f b).encard + if v = some b then 1 else 0 := by
  have hothers : {a | a ≠ x ∧ Function.update f x v a = some b} = {a | a ≠ x ∧ f a = some b} := by
    ext a
    by_cases ha : a = x
    · simp [ha]
    · simp [ha]
  rw [encard_fiber (Function.update f x v) x, encard_fiber f x, hothers, Function.update_self,
    add_right_comm]

end Fibers

namespace RelayStorage

variable {P : RelayPrimitives} {para : FudgeParaChain} {s t : RelayStorage}

/-- The ids with `h` as their current code hash, and the past code hashes that are `h`. -/
noncomputable def references (s : RelayStorage) (h : Hash) : ℕ∞ :=
  (fiber s.currentCodeHash h).encard + (fiber s.pastCodeHash h).encard

def RefsExact (s : RelayStorage) : Prop := ∀ h, (s.codeByHashRefs h : ℕ∞) = references s h

/-- How one update in each of the two maps, and a new count, change the account of `h`. -/
theorem refsExact_at_iff {h : Hash} (hs : (s.codeByHashRefs h : ℕ∞) = references s h) {id : Id}
    {key : Id × ℕ} {v w : Option Hash}
    (hcurrent : t.currentCodeHash = Function.update s.currentCodeHash id v)
    (hpast : t.pastCodeHash = Function.update s.pastCodeHash key w) :
    (t.codeByHashRefs h : ℕ∞) = references t h ↔
      t.codeByHashRefs h + (if s.currentCodeHash id = some h then 1 else 0) +
          (if s.pastCodeHash key = some h then 1 else 0) =
        s.codeByHashRefs h + (if v = some h then 1 else 0) + if w = some h then 1 else 0 := by
  have hc := encard_fiber_update s.currentCodeHash id h v
  have hp := encard_fiber_update s.pastCodeHash key h w
  rw [← hcurrent] at hc
  rw [← hpast] at hp
  have hsum : (references t h + (if s.currentCodeHash id = some h then 1 else 0) +
      if s.pastCodeHash key = some h then 1 else 0) =
      (s.codeByHashRefs h + (if v = some h then 1 else 0) + if w = some h then 1 else 0 : ℕ) := by
    push_cast
    rw [hs, references, references, add_right_comm (fiber t.currentCodeHash h).encard, hc,
      add_assoc, hp, add_right_comm _ (fiber s.pastCodeHash h).encard, ← add_assoc]
  rw [← Nat.cast_inj (R := ℕ∞), ← hsum]
  push_cast
  have hfinite : ∀ p : Prop, [Decidable p] → (if p then 1 else 0 : ℕ∞) ≠ ⊤ := by
    intro p _
    by_cases hp : p <;> simp [hp]
  exact ((ENat.add_left_injective_of_ne_top (hfinite _)).eq_iff.trans
    (ENat.add_left_injective_of_ne_top (hfinite _)).eq_iff).symm

/-- **Where a registration counts right.** A new id either refers to the hash zero, which is taken
for its current one and not written at all, or to a code that nothing refers to. A known id either
finds the past code hash of this block to be the new code already; or nothing is noted at this block
yet, its code changes, and nothing refers to the new one. -/
def CountsRight (P : RelayPrimitives) (para : FudgeParaChain) (s : RelayStorage) : Prop :=
  match s.currentCodeHash para.id with
  | none => P.codeHash para.code = 0 ∨ s.codeByHashRefs (P.codeHash para.code) = 0
  | some old =>
    s.pastCodeHash (para.id, P.blockNumber s) = some (P.codeHash para.code) ∨
      (old ≠ P.codeHash para.code ∧ s.pastCodeHash (para.id, P.blockNumber s) = none ∧
        s.codeByHashRefs (P.codeHash para.code) = 0)

instance : Decidable (CountsRight P para s) :=
  match hc : s.currentCodeHash para.id with
  | none =>
    decidable_of_iff (P.codeHash para.code = 0 ∨ s.codeByHashRefs (P.codeHash para.code) = 0)
      (by rw [CountsRight, hc])
  | some old =>
    decidable_of_iff
      (s.pastCodeHash (para.id, P.blockNumber s) = some (P.codeHash para.code) ∨
        (old ≠ P.codeHash para.code ∧ s.pastCodeHash (para.id, P.blockNumber s) = none ∧
          s.codeByHashRefs (P.codeHash para.code) = 0))
      (by rw [CountsRight, hc])

theorem RefsExact.pos (hs : RefsExact s) {key : Id × ℕ} {h : Hash}
    (hkey : s.pastCodeHash key = some h) : 0 < s.codeByHashRefs h := by
  have hone : 1 ≤ (fiber s.pastCodeHash h).encard :=
    Set.one_le_encard_iff_nonempty.mpr ⟨key, hkey⟩
  have hcount : (1 : ℕ∞) ≤ s.codeByHashRefs h := by
    rw [hs h, references]
    exact hone.trans le_add_self
  exact_mod_cast hcount

theorem onboard_refs_at_iff (hs : RefsExact s) (h : Hash) :
    ((onboard P para s).codeByHashRefs h : ℕ∞) = references (onboard P para s) h ↔
      (onboard P para s).codeByHashRefs h +
          (if s.currentCodeHash para.id = some h then 1 else 0) +
          (if s.pastCodeHash (para.id, P.blockNumber s) = some h then 1 else 0) =
        s.codeByHashRefs h +
          (if (if NewCode P para s then some (P.codeHash para.code)
            else s.currentCodeHash para.id) = some h then 1 else 0) +
          if (if (s.currentCodeHash para.id).isSome then s.currentCodeHash para.id
            else s.pastCodeHash (para.id, P.blockNumber s)) = some h then 1 else 0 := by
  refine refsExact_at_iff (hs h) ?_ ?_
  · rw [onboard_eq]
    by_cases hnew : NewCode P para s <;> simp [hnew]
  · rw [onboard_eq]
    by_cases hsome : (s.currentCodeHash para.id).isSome = true <;> simp [hsome]

theorem onboard_refs (h : Hash) : (onboard P para s).codeByHashRefs h =
    if NewCode P para s ∧ s.codeByHashRefs h = 0 ∧ h = P.codeHash para.code then 1
    else s.codeByHashRefs h := by
  rw [onboard_eq]
  by_cases hh : h = P.codeHash para.code
  · subst hh
    by_cases hset : NewCode P para s ∧ s.codeByHashRefs (P.codeHash para.code) = 0
    · simp [hset]
    · simp only [hset, and_true, if_false]
  · by_cases hset : NewCode P para s ∧ s.codeByHashRefs (P.codeHash para.code) = 0
    · simp [hset, hh]
    · simp [hset, hh]

section Account

variable {refs : Hash → ℕ} {past : Option Hash} {old new : Hash}

/-- A first reference: the count of the code was zero. -/
theorem account_first :
    (∀ h, (if refs h = 0 ∧ h = new then 1 else refs h) + 0 + (if past = some h then 1 else 0) =
      refs h + (if new = h then 1 else 0) + if past = some h then 1 else 0) ↔ refs new = 0 := by
  constructor
  · intro h
    have hat := h new
    by_contra hzero
    simp [hzero] at hat
  · intro hzero h
    by_cases hh : h = new
    · simp [hh, hzero]
    · simp [hh, Ne.symm hh]

/-- A new code for a known id. The old reference moves to the past, where it takes the place of the
one that was noted at this block. -/
theorem account_moved (hne : old ≠ new) (hpos : ∀ h, past = some h → 0 < refs h) :
    (∀ h, (if refs h = 0 ∧ h = new then 1 else refs h) + (if old = h then 1 else 0) +
        (if past = some h then 1 else 0) =
      refs h + (if new = h then 1 else 0) + if old = h then 1 else 0) ↔
    past = some new ∨ old ≠ new ∧ past = none ∧ refs new = 0 := by
  constructor
  · intro h
    rcases past with _ | dropped
    · have hat := h new
      by_contra hno
      have hcounted : refs new ≠ 0 := fun hzero ↦ hno (Or.inr ⟨hne, rfl, hzero⟩)
      simp [hne, hcounted] at hat
    · by_contra hno
      have hdropped : dropped ≠ new := fun heq ↦ hno (Or.inl (congrArg some heq))
      have hat := h dropped
      simp [hdropped, Ne.symm hdropped] at hat
  · rintro (rfl | ⟨-, rfl, hzero⟩) h
    · by_cases hh : h = new
      · have hcounted : refs new ≠ 0 := (hpos new rfl).ne'
        simp [hh, hne, hcounted]
      · simp [hh, Ne.symm hh]
    · by_cases hh : h = new
      · simp [hh, hne, hzero]
      · simp [hh, Ne.symm hh]

/-- The code of a known id again. No count changes, and still the past is noted. -/
theorem account_again :
    (∀ h, (if past = some h then 1 else 0) = if old = h then 1 else 0) ↔
    past = some old ∨ old ≠ old ∧ past = none ∧ refs old = 0 := by
  constructor
  · intro h
    have hat := h old
    left
    by_contra hpast
    simp [hpast] at hat
  · rintro (rfl | ⟨hne, -⟩) h
    · simp
    · exact absurd rfl hne

end Account

/-- **One registration** keeps the counts exact if and only if it counts right. -/
theorem onboard_refsExact_iff (hs : RefsExact s) :
    RefsExact (onboard P para s) ↔ CountsRight P para s := by
  have hall : RefsExact (onboard P para s) ↔ ∀ h, _ :=
    forall_congr' fun h ↦ onboard_refs_at_iff hs h
  rw [hall]
  simp only [onboard_refs, CountsRight]
  have hpos : ∀ h, s.pastCodeHash (para.id, P.blockNumber s) = some h →
      0 < s.codeByHashRefs h := fun h hkey ↦ hs.pos hkey
  by_cases hnew : NewCode P para s
  · simp only [hnew, true_and, if_true]
    rw [NewCode] at hnew
    -- a new code: the first one of its id, or one that replaces another
    rcases hcurrent : s.currentCodeHash para.id with _ | old
    · rw [hcurrent] at hnew
      have hne : P.codeHash para.code ≠ 0 := fun h ↦ hnew h.symm
      simp only [reduceCtorEq, if_false, Option.isSome_none, hne, false_or, Option.some.injEq]
      exact account_first
    · rw [hcurrent] at hnew
      simp only [Option.isSome_some, if_true, Option.some.injEq]
      exact account_moved hnew hpos
  · simp only [hnew, false_and, if_false]
    rw [NewCode, not_not] at hnew
    rcases hcurrent : s.currentCodeHash para.id with _ | old
    · -- the hash of the code is zero, and no id takes it as its current one
      rw [hcurrent] at hnew
      have hzero : P.codeHash para.code = 0 := hnew.symm
      simp [hzero]
    · rw [hcurrent] at hnew
      have hsame : old = P.codeHash para.code := hnew
      simp only [Option.isSome_some, if_true, Option.some.injEq, add_right_inj, ← hsame]
      exact account_again

structure SameCodes (s t : RelayStorage) : Prop where
  current : t.currentCodeHash = s.currentCodeHash
  past : t.pastCodeHash = s.pastCodeHash
  refs : t.codeByHashRefs = s.codeByHashRefs

theorem SameCodes.refsExact_iff (h : SameCodes s t) : RefsExact t ↔ RefsExact s := by
  rw [RefsExact, RefsExact]
  simp only [references, h.current, h.past, h.refs]

theorem refsExact_empty : RefsExact .empty := by
  intro h
  simp [references, fiber, empty]

theorem two_le_references {id id' : Id} {h : Hash} (hne : id ≠ id')
    (hid : s.currentCodeHash id = some h) (hid' : s.currentCodeHash id' = some h) :
    2 ≤ s.references h := by
  have hpair : ({id, id'} : Set Id) ⊆ fiber s.currentCodeHash h := by
    rintro i (rfl | rfl)
    · exact hid
    · exact hid'
  rw [references, ← Set.encard_pair hne]
  exact (Set.encard_le_encard hpair).trans le_self_add

end RelayStorage

/-! ## Runs -/

namespace World

open RelaychainBuilder (Error StepsBack)
open RelayStorage (CountsRight RefsExact SameCodes)

variable {κ W ε A : Type} {P : RelayPrimitives}

def RefsCounted (w : World κ W) : Prop :=
  ∃ s, w.relay.builder.chain.BestState s ∧ RefsExact s

/-- The operation leaves the code maps of the best state alone, whatever else it does. -/
def KeepsCodes (P : RelayPrimitives) (op : PublicOp κ W ε A) (w : World κ W) : Prop :=
  ∀ s, w.relay.builder.chain.BestState s →
    ∃ s', (publicStep P op w).2.relay.builder.chain.BestState s' ∧ SameCodes s s'

/-- The operation is a registration on a lawful host, or it leaves the code maps alone, as one that
takes the chain to its next block. -/
def Onboards (P : RelayPrimitives) (op : PublicOp κ W ε A) (w : World κ W) : Prop :=
  match op with
  | .relay (.onboardPara H _ _) => H.toHost.Lawful P.toPrimitives
  | _ => KeepsCodes P op w

/-- A registration counts right, where it is made; one that fails after it stepped back does so on a
block whose counts are exact. -/
def RegistersRight (P : RelayPrimitives) (op : PublicOp κ W ε A) (w : World κ W) : Prop :=
  match op with
  | .relay (.onboardPara H para _) =>
    if (publicStep P op w).1.isOk then
      ∀ s, w.relay.builder.chain.BestState s → CountsRight P para s
    else StepsBack H w.relay → ∃ t, w.relay.builder.chain.ParentState t ∧ RefsExact t
  | _ => True

theorem refsCounted_iff {w : World κ W} {s : RelayStorage}
    (hs : w.relay.builder.chain.BestState s) : RefsCounted w ↔ RefsExact s := by
  constructor
  · rintro ⟨s', hs', hexact⟩
    rwa [Option.some.inj (hs.symm.trans hs')]
  · exact fun hexact ↦ ⟨s, hs, hexact⟩

theorem onboardPara_bestState {H : RelayHost} (hL : H.toHost.Lawful P.toPrimitives)
    {para : FudgeParaChain} {k : κ} {w : World κ W} {s : RelayStorage}
    (hs : w.relay.builder.chain.BestState s)
    (hok : (relayCall (RelaychainBuilder.onboardPara P H para k) w :
      Outcome (Error ε) Unit × _).1.isOk = true) :
    (relayCall (RelaychainBuilder.onboardPara P H para k) w :
      Outcome (Error ε) Unit × _).2.relay.builder.chain.BestState
        (RelayStorage.onboard P para s) := by
  obtain ⟨u, hu⟩ := Outcome.isOk_iff.mp hok
  obtain ⟨r, hr, hw⟩ := zoom_eq_ok.mp (eq_of_fst hu)
  have hw : (relayCall (RelaychainBuilder.onboardPara P H para k) w :
    Outcome (Error ε) Unit × _).2 = { w with relay := r } := hw
  rw [hw]
  exact (RelaychainBuilder.onboardPara_eq_ok hL hs hr).1

theorem onboardPara_of_not_ok {H : RelayHost} (hL : H.toHost.Lawful P.toPrimitives)
    (para : FudgeParaChain) (k : κ) {w : World κ W}
    (hno : (relayCall (RelaychainBuilder.onboardPara P H para k) w :
      Outcome (Error ε) Unit × _).1.isOk = false) :
    (¬ StepsBack H w.relay ∧ (relayCall (RelaychainBuilder.onboardPara P H para k) w :
        Outcome (Error ε) Unit × _).2.relay.builder.chain = w.relay.builder.chain) ∨
      StepsBack H w.relay ∧ ∃ h s, Builder.RevertsTip H.toHost w.relay.builder.chain none h s
        (relayCall (RelaychainBuilder.onboardPara P H para k) w :
          Outcome (Error ε) Unit × _).2.relay.builder.chain := by
  have hmut : (RelaychainBuilder.withMutState P H (fun s ↦ ((), RelayStorage.onboard P para s))
      w.relay : Outcome (Error ε) Unit × _).1.isOk = false :=
    (onboardPara_isOk para k w.relay).symm.trans hno
  rw [(Prod.mk.inj (onboardPara_slot (P := P) (H := H) (ε := ε) para k w)).1, relayCall_apply]
  rcases RelaychainBuilder.withMutState_of_not_ok hL hmut with
    ⟨hstay, hsame⟩ | ⟨hback, h, s, c, hrev, rfl⟩
  · exact Or.inl ⟨hstay, congrArg (·.builder.chain) hsame⟩
  · exact Or.inr ⟨hback, h, s, hrev⟩

/-- **A registration** writes to the best state, or it fails: at once, or after it stepped back from
the best block. -/
theorem publicStep_onboardPara_cases {H : RelayHost} (hL : H.toHost.Lawful P.toPrimitives)
    (para : FudgeParaChain) (k : κ) {w : World κ W} {s : RelayStorage}
    (hs : w.relay.builder.chain.BestState s) :
    let out := publicStep P (.relay (.onboardPara H para k) : PublicOp κ W ε A) w
    (out.1.isOk = true ∧ out.2.relay.builder.chain.BestState (RelayStorage.onboard P para s)) ∨
      (out.1.isOk = false ∧ ¬ StepsBack H w.relay ∧
        out.2.relay.builder.chain = w.relay.builder.chain) ∨
      out.1.isOk = false ∧ StepsBack H w.relay ∧ ∃ h t,
        Builder.RevertsTip H.toHost w.relay.builder.chain none h t out.2.relay.builder.chain := by
  have hstep : publicStep P (.relay (.onboardPara H para k)) w = Call.map
      (fun _ ↦ Reply.done (A := A))
      (relayCall (ε := ε) (RelaychainBuilder.onboardPara P H para k)) w := rfl
  intro out
  rw [show out = _ from hstep, map_isOk, map_snd]
  cases hok : (relayCall (RelaychainBuilder.onboardPara P H para k) w :
      Outcome (Error ε) Unit × _).1.isOk with
  | true => exact Or.inl ⟨rfl, onboardPara_bestState hL hs hok⟩
  | false =>
    right
    rcases onboardPara_of_not_ok hL para k hok with ⟨hstay, hsame⟩ | ⟨hback, hrev⟩
    · exact Or.inl ⟨rfl, hstay, hsame⟩
    · exact Or.inr ⟨rfl, hback, hrev⟩

theorem Onboards.cases {op : PublicOp κ W ε A} {w : World κ W} (hop : Onboards P op w) :
    (∃ H para k, op = .relay (.onboardPara H para k) ∧ H.toHost.Lawful P.toPrimitives) ∨
      (∀ H para k, op ≠ .relay (.onboardPara H para k)) ∧ KeepsCodes P op w := by
  unfold Onboards at hop
  split at hop
  · exact Or.inl ⟨_, _, _, rfl, hop⟩
  · rename_i hne
    exact Or.inr ⟨fun H para k ↦ hne H para k, hop⟩

theorem registersRight_of_ne {op : PublicOp κ W ε A} {w : World κ W}
    (hne : ∀ H para k, op ≠ .relay (.onboardPara H para k)) : RegistersRight P op w := by
  unfold RegistersRight
  split
  · exact absurd rfl (hne _ _ _)
  · trivial

/-- **One operation** keeps the counts exact unless it is a registration that counts wrong, or one
that fails after it stepped back to a block whose counts are wrong. -/
theorem publicStep_refsCounted_iff (op : PublicOp κ W ε A) (w : World κ W) (hop : Onboards P op w)
    (h : RefsCounted w) : RefsCounted (publicStep P op w).2 ↔ RegistersRight P op w := by
  obtain ⟨s, hs, hexact⟩ := h
  rcases hop.cases with ⟨H, para, k, rfl, hL⟩ | ⟨hne, hkeep⟩
  · rw [RegistersRight]
    rcases publicStep_onboardPara_cases hL para k hs with
      ⟨hok, hs'⟩ | ⟨hno, hstay, hsame⟩ | ⟨hno, hback, h, t, hrev⟩
    · rw [if_pos hok, refsCounted_iff hs', RelayStorage.onboard_refsExact_iff hexact]
      refine ⟨fun hright t ht ↦ ?_, fun hright ↦ hright s hs⟩
      rwa [← Option.some.inj (hs.symm.trans ht)]
    · rw [hno, if_neg Bool.false_ne_true, RefsCounted, hsame]
      exact ⟨fun _ hback ↦ absurd hback hstay, fun _ ↦ ⟨s, hs, hexact⟩⟩
    · rw [hno, if_neg Bool.false_ne_true]
      simp only [RefsCounted, hrev.bestState_iff hL, hback, forall_const]
  · obtain ⟨t, ht, hsame⟩ := hkeep s hs
    rw [refsCounted_iff ht, hsame.refsExact_iff]
    exact ⟨fun _ ↦ registersRight_of_ne hne, fun _ ↦ hexact⟩

/-- **Code reference counts** are exact in every state of a run exactly if every registration of the
run counts right. -/
theorem code_refs_exact_iff {w₀ : World κ W} {s₀ : RelayStorage}
    (hbest : w₀.relay.builder.chain.BestState s₀) (hexact : RefsExact s₀)
    (ops : List (PublicOp κ W ε A)) (hops : Along (publicStep P) (Onboards P) ops w₀) :
    (∀ n, ∃ s, (run (publicStep P) (ops.take n) w₀).relay.builder.chain.BestState s ∧
        ∀ h, (s.codeByHashRefs h : ℕ∞) = s.references h) ↔
      Along (publicStep P) (RegistersRight P) ops w₀ :=
  run_invariant_iff (I := RefsCounted) publicStep_refsCounted_iff ops hops ⟨s₀, hbest, hexact⟩

/-! ## Shared and new codes -/

def register (id : Id) (code : ValidationCode) : PublicOp Unit Unit Unit Unit :=
  .relay (.onboardPara .reference ⟨id, [], code⟩ ())

theorem onboards_register (id : Id) (code : ValidationCode) (w : World Unit Unit) :
    Onboards RelayPrimitives.reference (register id code) w :=
  Host.reference_lawful RelayPrimitives.reference.toPrimitives

def genesisWorld : World Unit Unit := { relay := .genesis Unit, collators := () }

/-- Two parachains with one code: the second reference to it is not counted. -/
theorem code_refs_shared : ∃ s, (run (publicStep RelayPrimitives.reference)
      [register 1 [1], register 2 [1]] genesisWorld).relay.builder.chain.BestState s ∧
    s.codeByHashRefs 2 = 1 ∧ 2 ≤ s.references 2 := by
  let chain := (run (publicStep RelayPrimitives.reference) [register 1 [1], register 2 [1]]
    genesisWorld).relay.builder.chain
  have hmaps : (chain.states chain.bestHash).map
      (fun s ↦ (s.codeByHashRefs 2, s.currentCodeHash 1, s.currentCodeHash 2)) =
        some (1, some 2, some 2) := by decide +kernel
  obtain ⟨s, hs, hmaps⟩ := Option.map_eq_some_iff.mp hmaps
  simp only [Prod.mk.injEq] at hmaps
  obtain ⟨hrefs, hone, htwo⟩ := hmaps
  exact ⟨s, hs, hrefs, RelayStorage.two_le_references (by decide) hone htwo⟩

/-- Two parachains with codes of their own, and a new code for the first. -/
theorem code_refs_exact_new : ∃ s, (run (publicStep RelayPrimitives.reference)
      [register 1 [1], register 2 [1, 2], register 1 [1, 2, 3]]
      genesisWorld).relay.builder.chain.BestState s ∧
    ∀ h, (s.codeByHashRefs h : ℕ∞) = s.references h := by
  have hright : ∀ {id : Id} {code : ValidationCode} {w : World Unit Unit},
      (publicStep RelayPrimitives.reference (register id code) w).1.isOk = true →
      (w.relay.builder.chain.states w.relay.builder.chain.bestHash).all (fun s ↦
        decide (CountsRight RelayPrimitives.reference ⟨id, [], code⟩ s)) = true →
      RegistersRight RelayPrimitives.reference (register id code) w := by
    intro id code w hok hall
    rw [register] at hok
    rw [register, RegistersRight, if_pos hok]
    intro s hs
    rw [show w.relay.builder.chain.states w.relay.builder.chain.bestHash = some s from hs] at hall
    exact of_decide_eq_true hall
  have hbest : genesisWorld.relay.builder.chain.BestState .empty := Chain.bestState_genesis _ _
  refine (code_refs_exact_iff hbest RelayStorage.refsExact_empty
    [register 1 [1], register 2 [1, 2], register 1 [1, 2, 3]]
    ⟨onboards_register _ _ _, fun _ ↦ ⟨onboards_register _ _ _, fun _ ↦
      ⟨onboards_register _ _ _, fun _ ↦ trivial⟩⟩⟩).mpr ?_ 3
  exact ⟨hright (by decide +kernel) (by decide +kernel),
    fun _ ↦ ⟨hright (by decide +kernel) (by decide +kernel),
      fun _ ↦ ⟨hright (by decide +kernel) (by decide +kernel), fun _ ↦ trivial⟩⟩⟩

end World

end Fudge
