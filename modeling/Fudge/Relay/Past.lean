import Fudge.Relay.Order

/-!
# Past code hashes

`PastCodeHash` is meant to hold the codes that were replaced, under the id and the relay block at
which this happened. `onboard_para` notes the current code there whenever there is one, before it
knows whether the code changes, and a second note at the same block overwrites the first.

The account that is kept beside a run is the true history of one id: the codes that were current,
the blocks at which the code changed, and the codes that were replaced. The map is this history in
every state of a run exactly if no registration repeats a code without need and none overwrites a
note that is not kept elsewhere (`past_codes_iff`).
-/

namespace Fudge

open Call Chain

/-! ## The history of one id -/

/-- What happened to the code of an id. -/
structure CodeHistory where
  /-- The code hashes that were current at some time. -/
  seen : List Hash := []
  /-- The blocks at which the code was changed. -/
  changed : List ℕ := []
  /-- The code hashes that were replaced by another one. -/
  replaced : List Hash := []
deriving DecidableEq, Repr

/-- A call at a block found one code hash as the current one and left another, or the same. -/
def CodeHistory.observe (history : CodeHistory) (block : ℕ) (before after : Option Hash) :
    CodeHistory :=
  match before with
  | some old =>
    if after = some old then { history with seen := history.seen ++ after.toList }
    else ⟨history.seen ++ after.toList, history.changed ++ [block], history.replaced ++ [old]⟩
  | none => { history with seen := history.seen ++ after.toList }

namespace RelayStorage

variable {P : RelayPrimitives} {para : FudgeParaChain} {s t : RelayStorage} {id : Id}
  {history : CodeHistory}

/-- What is noted for an id comes from its history, whatever the calls were. -/
structure FromHistory (id : Id) (s : RelayStorage) (history : CodeHistory) : Prop where
  current_seen : ∀ h, s.currentCodeHash id = some h → h ∈ history.seen
  past_seen : ∀ b h, s.pastCodeHash (id, b) = some h → h ∈ history.seen
  past_replaced : ∀ b h, s.pastCodeHash (id, b) = some h →
    h ∈ history.replaced ∨ s.currentCodeHash id = some h

/-- **The past code hashes are the history**: a block has an entry exactly if the code was changed
there, every code that is not current any more has one, and the current one has one only if it was
replaced before. -/
structure PastIsHistory (id : Id) (s : RelayStorage) (history : CodeHistory) : Prop where
  keys : ∀ b, (s.pastCodeHash (id, b)).isSome = true ↔ b ∈ history.changed
  complete : ∀ h ∈ history.seen, s.currentCodeHash id ≠ some h →
    ∃ b, s.pastCodeHash (id, b) = some h
  current : ∀ h b, s.currentCodeHash id = some h → s.pastCodeHash (id, b) = some h →
    h ∈ history.replaced

/-- The registration keeps the record. If it repeats the current code, then the code was changed at
this block, and the current one was replaced before. If this block has an entry, then it is that of
the old or the new code, or one of the same code at another block. -/
def KeepsRecord (P : RelayPrimitives) (para : FudgeParaChain) (s : RelayStorage)
    (history : CodeHistory) : Prop :=
  ∀ old, s.currentCodeHash para.id = some old →
    (old = P.codeHash para.code → P.blockNumber s ∈ history.changed ∧ old ∈ history.replaced) ∧
    ∀ lost, s.pastCodeHash (para.id, P.blockNumber s) = some lost →
      lost = old ∨ lost = P.codeHash para.code ∨
        ∃ b, b ≠ P.blockNumber s ∧ s.pastCodeHash (para.id, b) = some lost

def SameRecord (id : Id) (s t : RelayStorage) : Prop :=
  t.currentCodeHash id = s.currentCodeHash id ∧
    ∀ b, t.pastCodeHash (id, b) = s.pastCodeHash (id, b)

theorem SameCodes.sameRecord (h : SameCodes s t) (id : Id) : SameRecord id s t :=
  ⟨by rw [h.current], fun b ↦ by rw [h.past]⟩

theorem onboard_sameRecord (h : para.id ≠ id) (s : RelayStorage) :
    SameRecord id s (onboard P para s) := by
  constructor
  · rw [currentCodeHash_onboard, Function.update_of_ne h.symm]
  · intro b
    rw [pastCodeHash_onboard]
    exact Function.update_of_ne (fun heq ↦ h (congrArg Prod.fst heq).symm) _ _

/-! ## A call that does not concern the id -/

theorem observe_same (history : CodeHistory) (block : ℕ) (current : Option Hash) :
    history.observe block current current =
      { history with seen := history.seen ++ current.toList } := by
  rcases current with _ | old
  · rfl
  · exact if_pos rfl

theorem mem_seen_of_same {h : Hash} {current : Option Hash} :
    h ∈ history.seen ++ current.toList ↔ h ∈ history.seen ∨ current = some h := by
  rw [List.mem_append, Option.mem_toList]

theorem FromHistory.observe (h : FromHistory id s history) (b : ℕ) (before after : Option Hash) :
    FromHistory id s (history.observe b before after) := by
  have hseen : history.seen ⊆ (history.observe b before after).seen := by
    rcases before with _ | old
    · exact List.subset_append_left _ _
    · rw [CodeHistory.observe]
      split <;> exact List.subset_append_left _ _
  have hreplaced : history.replaced ⊆ (history.observe b before after).replaced := by
    rcases before with _ | old
    · exact List.Subset.refl _
    · rw [CodeHistory.observe]
      split
      · exact List.Subset.refl _
      · exact List.subset_append_left _ _
  exact
    { current_seen := fun c hc ↦ hseen (h.current_seen c hc)
      past_seen := fun b c hc ↦ hseen (h.past_seen b c hc)
      past_replaced := fun b c hc ↦ (h.past_replaced b c hc).imp_left (hreplaced ·) }

theorem SameRecord.fromHistory (hst : SameRecord id s t) (h : FromHistory id s history) :
    FromHistory id t history := by
  obtain ⟨hcurrent, hpast⟩ := hst
  refine ⟨fun c hc ↦ ?_, fun b c hc ↦ ?_, fun b c hc ↦ ?_⟩
  · rw [hcurrent] at hc
    exact h.current_seen c hc
  · rw [hpast] at hc
    exact h.past_seen b c hc
  · rw [hpast] at hc
    rw [hcurrent]
    exact h.past_replaced b c hc

theorem SameRecord.pastIsHistory (hst : SameRecord id s t) (h : PastIsHistory id s history)
    (b : ℕ) :
    PastIsHistory id t (history.observe b (s.currentCodeHash id) (t.currentCodeHash id)) := by
  obtain ⟨hcurrent, hpast⟩ := hst
  rw [hcurrent, observe_same]
  refine ⟨fun b ↦ ?_, fun c hc hne ↦ ?_, fun c b hc hb ↦ ?_⟩
  · rw [hpast]
    exact h.keys b
  · rw [hcurrent] at hne
    obtain ⟨b, hb⟩ := h.complete c ((mem_seen_of_same.mp hc).resolve_right hne) hne
    exact ⟨b, (hpast b).trans hb⟩
  · rw [hcurrent] at hc
    rw [hpast] at hb
    exact h.current c b hc hb

/-! ## A registration of the id -/

section Registration

variable {old : Hash}

theorem currentCodeHash_of_known (hold : s.currentCodeHash para.id = some old) :
    (onboard P para s).currentCodeHash para.id = some (P.codeHash para.code) := by
  rw [currentCodeHash_onboard, Function.update_self]
  by_cases hnew : NewCode P para s
  · rw [if_pos hnew]
  · rw [if_neg hnew, hold]
    rw [NewCode, not_not, hold] at hnew
    exact congrArg some hnew

theorem pastCodeHash_of_known (hold : s.currentCodeHash para.id = some old) (b : ℕ) :
    (onboard P para s).pastCodeHash (para.id, b) =
      if b = P.blockNumber s then some old else s.pastCodeHash (para.id, b) := by
  rw [pastCodeHash_onboard, hold, Option.isSome_some, if_pos rfl]
  by_cases hb : b = P.blockNumber s
  · rw [if_pos hb, hb, Function.update_self]
  · rw [if_neg hb, Function.update_of_ne fun h ↦ hb (congrArg Prod.snd h)]

theorem pastCodeHash_of_unknown (hnone : s.currentCodeHash para.id = none) :
    (onboard P para s).pastCodeHash = s.pastCodeHash := by
  rw [pastCodeHash_onboard, hnone, if_neg (by simp), Function.update_eq_self]

theorem pastIsHistory_of_unknown (hnone : s.currentCodeHash para.id = none)
    (h : PastIsHistory para.id s history) (hfrom : FromHistory para.id s history) (n : ℕ) :
    PastIsHistory para.id (onboard P para s) (history.observe n (s.currentCodeHash para.id)
      ((onboard P para s).currentCodeHash para.id)) := by
  rw [hnone]
  refine ⟨fun b ↦ ?_, fun c hc hne ↦ ?_, fun c b _ hb ↦ ?_⟩
  · rw [pastCodeHash_of_unknown hnone]
    exact h.keys b
  · rw [pastCodeHash_of_unknown hnone]
    refine h.complete c ((mem_seen_of_same.mp hc).resolve_right hne) ?_
    rw [hnone]
    exact (Option.some_ne_none c).symm
  · rw [pastCodeHash_of_unknown hnone] at hb
    refine (hfrom.past_replaced b c hb).resolve_right ?_
    rw [hnone]
    exact (Option.some_ne_none c).symm

theorem observe_of_known (hold : s.currentCodeHash para.id = some old) (n : ℕ) :
    history.observe n (s.currentCodeHash para.id)
        ((onboard P para s).currentCodeHash para.id) =
      if old = P.codeHash para.code then
        { history with seen := history.seen ++ [P.codeHash para.code] }
      else ⟨history.seen ++ [P.codeHash para.code], history.changed ++ [n],
        history.replaced ++ [old]⟩ := by
  rw [currentCodeHash_of_known hold, hold, CodeHistory.observe]
  by_cases hsame : old = P.codeHash para.code
  · rw [if_pos hsame, if_pos (by rw [hsame])]
    rfl
  · rw [if_neg hsame, if_neg fun heq ↦ hsame (Option.some.inj heq).symm]
    rfl

/-- **A registration** notes codes of the history. -/
theorem FromHistory.onboard (h : FromHistory para.id s history) :
    FromHistory para.id (onboard P para s) (history.observe (P.blockNumber s)
      (s.currentCodeHash para.id) ((onboard P para s).currentCodeHash para.id)) := by
  rcases hcurrent : s.currentCodeHash para.id with _ | old
  · refine ⟨fun c hc ↦ ?_, fun b c hb ↦ ?_, fun b c hb ↦ ?_⟩
    · exact mem_seen_of_same.mpr (Or.inr hc)
    · rw [pastCodeHash_of_unknown hcurrent] at hb
      exact mem_seen_of_same.mpr (Or.inl (h.past_seen b c hb))
    · rw [pastCodeHash_of_unknown hcurrent] at hb
      refine Or.inl ((h.past_replaced b c hb).resolve_right ?_)
      rw [hcurrent]
      exact (Option.some_ne_none c).symm
  · rw [← hcurrent, observe_of_known hcurrent]
    have hnow : ∀ c, (RelayStorage.onboard P para s).currentCodeHash para.id = some c →
        P.codeHash para.code = c := by
      intro c hc
      rw [currentCodeHash_of_known hcurrent] at hc
      exact Option.some.inj hc
    have hnoted : ∀ b c, (RelayStorage.onboard P para s).pastCodeHash (para.id, b) = some c →
        c = old ∨ s.pastCodeHash (para.id, b) = some c := by
      intro b c hb
      rw [pastCodeHash_of_known hcurrent] at hb
      by_cases hn : b = P.blockNumber s
      · rw [if_pos hn] at hb
        exact Or.inl (Option.some.inj hb).symm
      · rw [if_neg hn] at hb
        exact Or.inr hb
    have hseen : ∀ b c, (RelayStorage.onboard P para s).pastCodeHash (para.id, b) = some c →
        c ∈ history.seen := by
      intro b c hb
      rcases hnoted b c hb with rfl | hb
      · exact h.current_seen c hcurrent
      · exact h.past_seen b c hb
    by_cases hsame : old = P.codeHash para.code
    · rw [if_pos hsame]
      refine ⟨fun c hc ↦ ?_, fun b c hb ↦ List.mem_append_left _ (hseen b c hb), fun b c hb ↦ ?_⟩
      · simp [← hnow c hc]
      · rw [currentCodeHash_of_known hcurrent]
        rcases hnoted b c hb with rfl | hb
        · exact Or.inr (by rw [hsame])
        · rw [← hsame, ← hcurrent]
          exact h.past_replaced b c hb
    · rw [if_neg hsame]
      refine ⟨fun c hc ↦ ?_, fun b c hb ↦ List.mem_append_left _ (hseen b c hb), fun b c hb ↦ ?_⟩
      · simp [← hnow c hc]
      · -- the old code is replaced now
        rcases hnoted b c hb with rfl | hb
        · exact Or.inl (by simp)
        · rcases h.past_replaced b c hb with hreplaced | hcur
          · exact Or.inl (List.mem_append_left _ hreplaced)
          · rw [hcurrent] at hcur
            exact Or.inl (by simp [(Option.some.inj hcur).symm])

/-- A registration that left the past code hashes right has kept the record. -/
theorem keepsRecord_of_pastIsHistory (hcurrent : s.currentCodeHash para.id = some old)
    (hfrom : FromHistory para.id s history)
    (h : PastIsHistory para.id (onboard P para s) (history.observe (P.blockNumber s)
      (s.currentCodeHash para.id) ((onboard P para s).currentCodeHash para.id))) :
    KeepsRecord P para s history := by
  rw [observe_of_known hcurrent] at h
  have hnow := currentCodeHash_of_known (P := P) hcurrent
  have hnoted := pastCodeHash_of_known (P := P) hcurrent
  intro o ho
  obtain rfl : old = o := Option.some.inj (hcurrent.symm.trans ho)
  refine ⟨fun hsame ↦ ?_, fun lost hlost ↦ ?_⟩
  · rw [if_pos hsame] at h
    constructor
    · refine (h.keys (P.blockNumber s)).mp ?_
      rw [hnoted, if_pos rfl]
      rfl
    · refine h.current old (P.blockNumber s) (by rw [hnow, hsame]) ?_
      rw [hnoted, if_pos rfl]
  · by_contra hgone
    obtain ⟨hne, hnew, hother⟩ : lost ≠ old ∧ lost ≠ P.codeHash para.code ∧
        ¬ ∃ b, b ≠ P.blockNumber s ∧ s.pastCodeHash (para.id, b) = some lost :=
      ⟨fun heq ↦ hgone (Or.inl heq), fun heq ↦ hgone (Or.inr (Or.inl heq)),
        fun hb ↦ hgone (Or.inr (Or.inr hb))⟩
    -- the lost code was seen and is not current, so it has an entry, and at another block
    have hseen := List.mem_append_left [P.codeHash para.code] (hfrom.past_seen _ lost hlost)
    obtain ⟨b, hb⟩ := h.complete lost (by split <;> exact hseen) (by
      rw [hnow]
      exact fun heq ↦ hnew (Option.some.inj heq).symm)
    rw [hnoted] at hb
    by_cases hn : b = P.blockNumber s
    · rw [if_pos hn] at hb
      exact hne (Option.some.inj hb).symm
    · rw [if_neg hn] at hb
      exact hother ⟨b, hn, hb⟩

/-- A registration that keeps the record loses no code: each one that was seen is current, or has an
entry. -/
theorem complete_of_keepsRecord (hcurrent : s.currentCodeHash para.id = some old)
    (h : PastIsHistory para.id s history) (hkeeps : KeepsRecord P para s history) :
    ∀ c ∈ history.seen ++ [P.codeHash para.code],
      (onboard P para s).currentCodeHash para.id ≠ some c →
        ∃ b, (onboard P para s).pastCodeHash (para.id, b) = some c := by
  intro c hc hne
  have hnoted := pastCodeHash_of_known (P := P) hcurrent
  rw [currentCodeHash_of_known hcurrent] at hne
  have hnew : c ≠ P.codeHash para.code := fun heq ↦ hne (by rw [heq])
  have hseen : c ∈ history.seen := by simpa [hnew] using hc
  by_cases hold : c = old
  · exact ⟨P.blockNumber s, by rw [hnoted, if_pos rfl, hold]⟩
  · obtain ⟨b, hb⟩ := h.complete c hseen (by
      rw [hcurrent]
      exact fun heq ↦ hold (Option.some.inj heq).symm)
    by_cases hn : b = P.blockNumber s
    · -- the entry is overwritten, and there is another one
      rw [hn] at hb
      rcases (hkeeps old hcurrent).2 c hb with heq | heq | ⟨b', hb', hcb'⟩
      · exact absurd heq hold
      · exact absurd heq hnew
      · exact ⟨b', by rw [hnoted, if_neg hb', hcb']⟩
    · exact ⟨b, by rw [hnoted, if_neg hn, hb]⟩

theorem pastIsHistory_of_repeated (hcurrent : s.currentCodeHash para.id = some old)
    (h : PastIsHistory para.id s history) (hkeeps : KeepsRecord P para s history)
    (hsame : old = P.codeHash para.code) :
    PastIsHistory para.id (onboard P para s)
      { history with seen := history.seen ++ [P.codeHash para.code] } := by
  obtain ⟨hchanged, hreplaced⟩ := (hkeeps old hcurrent).1 hsame
  refine ⟨fun b ↦ ?_, complete_of_keepsRecord hcurrent h hkeeps, fun c b hc hb ↦ ?_⟩
  · rw [pastCodeHash_of_known hcurrent]
    by_cases hn : b = P.blockNumber s
    · rw [if_pos hn, hn]
      exact ⟨fun _ ↦ hchanged, fun _ ↦ rfl⟩
    · rw [if_neg hn]
      exact h.keys b
  · rw [currentCodeHash_of_known hcurrent, ← hsame] at hc
    rw [← Option.some.inj hc]
    exact hreplaced

theorem pastIsHistory_of_changed (hcurrent : s.currentCodeHash para.id = some old)
    (hfrom : FromHistory para.id s history) (h : PastIsHistory para.id s history)
    (hkeeps : KeepsRecord P para s history) (hsame : old ≠ P.codeHash para.code) :
    PastIsHistory para.id (onboard P para s) ⟨history.seen ++ [P.codeHash para.code],
      history.changed ++ [P.blockNumber s], history.replaced ++ [old]⟩ := by
  refine ⟨fun b ↦ ?_, complete_of_keepsRecord hcurrent h hkeeps, fun c b hc hb ↦ ?_⟩
  · rw [pastCodeHash_of_known hcurrent, List.mem_append, List.mem_singleton]
    by_cases hn : b = P.blockNumber s
    · rw [if_pos hn]
      exact ⟨fun _ ↦ Or.inr hn, fun _ ↦ rfl⟩
    · rw [if_neg hn, h.keys b]
      exact (or_iff_left hn).symm
  · -- the new code is noted at an earlier block, from which it came back
    rw [currentCodeHash_of_known hcurrent] at hc
    obtain rfl := Option.some.inj hc
    rw [pastCodeHash_of_known hcurrent] at hb
    by_cases hn : b = P.blockNumber s
    · rw [if_pos hn] at hb
      exact absurd (Option.some.inj hb) hsame
    · rw [if_neg hn] at hb
      rcases hfrom.past_replaced b _ hb with hreplaced | hcur
      · exact List.mem_append_left _ hreplaced
      · rw [hcurrent] at hcur
        exact absurd (Option.some.inj hcur) hsame

/-- **A registration** keeps the past code hashes to the history if and only if it keeps the
record. -/
theorem pastIsHistory_onboard_iff (hfrom : FromHistory para.id s history)
    (h : PastIsHistory para.id s history) :
    PastIsHistory para.id (onboard P para s) (history.observe (P.blockNumber s)
        (s.currentCodeHash para.id) ((onboard P para s).currentCodeHash para.id)) ↔
      KeepsRecord P para s history := by
  rcases hcurrent : s.currentCodeHash para.id with _ | old
  · rw [← hcurrent]
    refine ⟨fun _ old hold ↦ ?_, fun _ ↦ pastIsHistory_of_unknown hcurrent h hfrom _⟩
    rw [hcurrent] at hold
    cases hold
  · rw [← hcurrent]
    refine ⟨keepsRecord_of_pastIsHistory hcurrent hfrom, fun hkeeps ↦ ?_⟩
    rw [observe_of_known hcurrent]
    by_cases hsame : old = P.codeHash para.code
    · rw [if_pos hsame]
      exact pastIsHistory_of_repeated hcurrent h hkeeps hsame
    · rw [if_neg hsame]
      exact pastIsHistory_of_changed hcurrent hfrom h hkeeps hsame

end Registration

end RelayStorage

/-! ## Runs -/

namespace World

open RelaychainBuilder (Error StepsBack)
open RelayStorage (FromHistory KeepsRecord PastIsHistory SameCodes)

variable {κ W ε A : Type} {P : RelayPrimitives} {id : Id}

def bestState (w : World κ W) : Option RelayStorage :=
  w.relay.builder.chain.states w.relay.builder.chain.bestHash

/-- The history of the code of `id`: every call is observed in the best state. -/
def observeCall (P : RelayPrimitives) (id : Id) (op : PublicOp κ W ε A) (w : World κ W)
    (history : CodeHistory) : CodeHistory :=
  match bestState w, bestState (publicStep P op w).2 with
  | some s, some t =>
    history.observe (P.blockNumber s) (s.currentCodeHash id) (t.currentCodeHash id)
  | _, _ => history

/-- A call, and the history of the code of `id`. -/
def codeStep (P : RelayPrimitives) (id : Id) (op : PublicOp κ W ε A) :
    Call (World κ W × CodeHistory) (Error ε) (Reply A) :=
  tracked (publicStep P) (observeCall P id) op

/-- The past code hashes of `id` in the best state are its history. -/
def PastRecorded (id : Id) (x : World κ W × CodeHistory) : Prop :=
  ∃ s, x.1.relay.builder.chain.BestState s ∧ PastIsHistory id s x.2

/-- The operation is a registration on a lawful host, or it writes no codes: the best state keeps
its code maps, and every state that the chain holds afterwards has those of one it held before. -/
def OnboardsOnly (P : RelayPrimitives) (op : PublicOp κ W ε A) (w : World κ W) : Prop :=
  Onboards P op w ∧ match op with
    | .relay (.onboardPara _ _ _) => True
    | _ => ∀ h t, (publicStep P op w).2.relay.builder.chain.states h = some t →
      ∃ h' t', w.relay.builder.chain.states h' = some t' ∧ SameCodes t' t

/-- A registration of `id` keeps the record, where it is made; one of any id that fails after it
stepped back does so on a block with the right record. -/
def RecordsRight (P : RelayPrimitives) (id : Id) (op : PublicOp κ W ε A)
    (x : World κ W × CodeHistory) : Prop :=
  match op with
  | .relay (.onboardPara H para _) =>
    if (publicStep P op x.1).1.isOk then
      para.id = id → ∀ s, x.1.relay.builder.chain.BestState s → KeepsRecord P para s x.2
    else StepsBack H x.1.relay → ∀ s, x.1.relay.builder.chain.BestState s →
      ∃ t, x.1.relay.builder.chain.ParentState t ∧ PastIsHistory id t
        (x.2.observe (P.blockNumber s) (s.currentCodeHash id) (t.currentCodeHash id))
  | _ => True

theorem observeCall_eq {op : PublicOp κ W ε A} {w : World κ W} {s t : RelayStorage}
    (hs : w.relay.builder.chain.BestState s)
    (ht : (publicStep P op w).2.relay.builder.chain.BestState t) (history : CodeHistory) :
    observeCall P id op w history =
      history.observe (P.blockNumber s) (s.currentCodeHash id) (t.currentCodeHash id) := by
  have hs : bestState w = some s := hs
  have ht : bestState (publicStep P op w).2 = some t := ht
  rw [observeCall, hs, ht]

theorem fromHistory_observeCall {s : RelayStorage} {history : CodeHistory}
    (h : FromHistory id s history) (op : PublicOp κ W ε A) (w : World κ W) :
    FromHistory id s (observeCall P id op w history) := by
  rw [observeCall]
  split
  · exact h.observe _ _ _
  · exact h

/-- What is noted for `id` in any state that the chain holds comes from its history. -/
def AllFromHistory (id : Id) (x : World κ W × CodeHistory) : Prop :=
  ∀ h t, x.1.relay.builder.chain.states h = some t → FromHistory id t x.2

theorem onboardPara_states {H : RelayHost} (hL : H.toHost.Lawful P.toPrimitives)
    (para : FudgeParaChain) (k : κ) {w : World κ W} :
    ∀ h t, (relayCall (RelaychainBuilder.onboardPara P H para k) w :
        Outcome (Error ε) Unit × _).2.relay.builder.chain.states h = some t →
      w.relay.builder.chain.states h = some t ∨
        (relayCall (RelaychainBuilder.onboardPara P H para k) w :
          Outcome (Error ε) Unit × _).1.isOk = true ∧
        ∃ s, w.relay.builder.chain.BestState s ∧ t = RelayStorage.onboard P para s := by
  intro h t ht
  by_cases hok : (relayCall (RelaychainBuilder.onboardPara P H para k) w :
      Outcome (Error ε) Unit × _).1.isOk = true
  · have hchain := (Prod.mk.inj (onboardPara_slot (P := P) (H := H) (ε := ε) para k w)).1
    obtain ⟨u, hu⟩ := Outcome.isOk_iff.mp hok
    obtain ⟨r, hr, -⟩ := zoom_eq_ok.mp (eq_of_fst hu)
    rw [RelaychainBuilder.onboardPara] at hr
    obtain ⟨_, r', hmut, -⟩ := bind_eq_ok.mp hr
    obtain ⟨-, b, hb, rfl⟩ := RelaychainBuilder.withMutState_eq_ok hmut
    obtain ⟨s, hs, hstates⟩ := Builder.commit_states hL hb
    rw [hchain, relayCall_apply, hmut] at ht
    rcases hstates h t ht with rfl | hold
    · exact Or.inr ⟨hok, s, hs, rfl⟩
    · exact Or.inl hold
  · rcases onboardPara_of_not_ok (ε := ε) hL para k (by simpa using hok) with
      ⟨-, hsame⟩ | ⟨-, k', s, number, -, -, -, -, hrev⟩
    · rw [hsame] at ht
      exact Or.inl ht
    · exact Or.inl ((hL.revert hrev).states ht)

/-- **One call** writes nothing for `id` that does not come from its history. -/
theorem codeStep_allFromHistory (op : PublicOp κ W ε A) (x : World κ W × CodeHistory)
    (hop : OnboardsOnly P op x.1) (h : AllFromHistory id x) :
    AllFromHistory id (codeStep P id op x).2 := by
  intro k t ht
  change (publicStep P op x.1).2.relay.builder.chain.states k = some t at ht
  change FromHistory id t (observeCall P id op x.1 x.2)
  obtain ⟨hop, hstates⟩ := hop
  rcases hop.cases with ⟨H, para, k', rfl, hL⟩ | ⟨hne, -⟩
  · rcases onboardPara_states (ε := ε) hL para k' k t ht with hold | ⟨hok, s, hs, rfl⟩
    · exact fromHistory_observeCall (h k t hold) _ _
    · have hnext : (publicStep P (.relay (.onboardPara H para k') : PublicOp κ W ε A)
          x.1).2.relay.builder.chain.BestState (RelayStorage.onboard P para s) :=
        onboardPara_bestState hL hs hok
      rw [observeCall_eq hs hnext]
      by_cases hid : para.id = id
      · subst hid
        exact (h _ s hs).onboard
      · exact ((RelayStorage.onboard_sameRecord hid s).fromHistory (h _ s hs)).observe _ _ _
  · have hold : ∃ h' t', x.1.relay.builder.chain.states h' = some t' ∧ SameCodes t' t := by
      split at hstates
      · exact absurd rfl (hne _ _ _)
      · exact hstates k t ht
    obtain ⟨k', t', ht', hsame⟩ := hold
    exact fromHistory_observeCall ((hsame.sameRecord id).fromHistory (h k' t' ht')) _ _

theorem pastRecorded_iff {op : PublicOp κ W ε A} {x : World κ W × CodeHistory} {s t : RelayStorage}
    (hs : x.1.relay.builder.chain.BestState s)
    (ht : (publicStep P op x.1).2.relay.builder.chain.BestState t) :
    PastRecorded id (codeStep P id op x).2 ↔ PastIsHistory id t
      (x.2.observe (P.blockNumber s) (s.currentCodeHash id) (t.currentCodeHash id)) := by
  rw [← observeCall_eq hs ht]
  constructor
  · rintro ⟨t', ht', hpast⟩
    rwa [Option.some.inj (ht.symm.trans ht')]
  · exact fun hpast ↦ ⟨t, ht, hpast⟩

theorem recordsRight_of_ne {op : PublicOp κ W ε A} {x : World κ W × CodeHistory}
    (hne : ∀ H para k, op ≠ .relay (.onboardPara H para k)) : RecordsRight P id op x := by
  unfold RecordsRight
  split
  · exact absurd rfl (hne _ _ _)
  · trivial

/-- **One call** keeps the past code hashes of `id` to its history unless it is a registration that
does not keep the record, or one that fails after it stepped back to a wrong one. -/
theorem codeStep_recorded_iff (op : PublicOp κ W ε A) (x : World κ W × CodeHistory)
    (hop : OnboardsOnly P op x.1) (h : PastRecorded id x ∧ AllFromHistory id x) :
    (PastRecorded id (codeStep P id op x).2 ∧ AllFromHistory id (codeStep P id op x).2) ↔
      RecordsRight P id op x := by
  rw [and_iff_left (codeStep_allFromHistory op x hop h.2)]
  obtain ⟨⟨s, hs, hpast⟩, hall⟩ := h
  rcases hop.1.cases with ⟨H, para, k, rfl, hL⟩ | ⟨hne, hkeep⟩
  · rw [RecordsRight]
    rcases publicStep_onboardPara_cases hL para k hs with
      ⟨hok, ht⟩ | ⟨hno, hstay, hsame⟩ | ⟨hno, hback, k', t', hrev⟩
    · rw [if_pos hok, pastRecorded_iff hs ht]
      by_cases hid : para.id = id
      · subst hid
        rw [RelayStorage.pastIsHistory_onboard_iff (hall _ s hs) hpast]
        refine ⟨fun hkeeps _ s' hs' ↦ ?_, fun hright ↦ hright rfl s hs⟩
        rwa [← Option.some.inj (hs.symm.trans hs')]
      · exact ⟨fun _ hid' ↦ absurd hid' hid,
          fun _ ↦ (RelayStorage.onboard_sameRecord hid s).pastIsHistory hpast _⟩
    · rw [hno, if_neg Bool.false_ne_true, pastRecorded_iff hs (hsame ▸ hs)]
      exact ⟨fun _ hback ↦ absurd hback hstay,
        fun _ ↦ RelayStorage.SameRecord.pastIsHistory ⟨rfl, fun _ ↦ rfl⟩ hpast _⟩
    · rw [hno, if_neg Bool.false_ne_true]
      constructor
      · rintro ⟨t, ht, hrec⟩ - s₁ hs₁
        obtain rfl := Option.some.inj (hs.symm.trans hs₁)
        exact ⟨t, (hrev.bestState_iff hL).mp ht, (pastRecorded_iff hs ht).mp ⟨t, ht, hrec⟩⟩
      · intro hright
        obtain ⟨t, ht, hrec⟩ := hright hback s hs
        exact (pastRecorded_iff hs ((hrev.bestState_iff hL).mpr ht)).mpr hrec
  · obtain ⟨t, ht, hsame⟩ := hkeep s hs
    rw [pastRecorded_iff hs ht]
    exact ⟨fun _ ↦ recordsRight_of_ne hne, fun _ ↦ (hsame.sameRecord id).pastIsHistory hpast _⟩

/-- **Past code hashes** are the history of replaced codes in every state of a run exactly if every
registration of the run keeps the record. -/
theorem past_codes_iff {w₀ : World κ W} {s₀ : RelayStorage}
    (hbest : w₀.relay.builder.chain.BestState s₀)
    (hempty : ∀ h s, w₀.relay.builder.chain.states h = some s →
      s.currentCodeHash id = none ∧ ∀ b, s.pastCodeHash (id, b) = none)
    (ops : List (PublicOp κ W ε A))
    (hops : Along (codeStep P id) (fun op x ↦ OnboardsOnly P op x.1) ops (w₀, {})) :
    (∀ n, PastRecorded id (run (codeStep P id) (ops.take n) (w₀, {}))) ↔
      Along (codeStep P id) (RecordsRight P id) ops (w₀, {}) := by
  have hfrom : AllFromHistory id (w₀, {}) := by
    intro h s hs
    obtain ⟨hcurrent, hpast⟩ := hempty h s hs
    refine ⟨fun c hc ↦ ?_, fun b c hc ↦ ?_, fun b c hc ↦ ?_⟩
    · rw [hcurrent] at hc
      cases hc
    · rw [hpast] at hc
      cases hc
    · rw [hpast] at hc
      cases hc
  have hstart : PastRecorded id (w₀, {}) := by
    obtain ⟨hcurrent, hpast⟩ := hempty _ s₀ hbest
    refine ⟨s₀, hbest, fun b ↦ ?_, fun h hh ↦ absurd hh List.not_mem_nil, fun h b hh ↦ ?_⟩
    · rw [hpast]
      simp
    · rw [hcurrent] at hh
      cases hh
  have hall := run_take_invariant codeStep_allFromHistory ops hops hfrom
  rw [← run_invariant_iff codeStep_recorded_iff ops hops ⟨hstart, hfrom⟩]
  exact forall_congr' fun n ↦ (and_iff_left (hall n)).symm

/-! ## One code twice, and a new code -/

/-- The code of a parachain is registered a second time: it is current, it was never replaced, and
it is noted as past. -/
theorem past_codes_again : ∃ s, (run (codeStep RelayPrimitives.reference 1)
      [register 1 [1], register 1 [1]]
      (genesisWorld, {})).1.relay.builder.chain.BestState s ∧
    s.pastCodeHash (1, 0) = some 2 ∧ s.currentCodeHash 1 = some 2 ∧
    (run (codeStep RelayPrimitives.reference 1) [register 1 [1], register 1 [1]]
      (genesisWorld, {})).2 = ⟨[2, 2], [], []⟩ := by
  let chain := (run (codeStep RelayPrimitives.reference 1) [register 1 [1], register 1 [1]]
    (genesisWorld, {})).1.relay.builder.chain
  have hmaps : (chain.states chain.bestHash).map
      (fun s ↦ (s.pastCodeHash (1, 0), s.currentCodeHash 1)) = some (some 2, some 2) := by
    decide +kernel
  obtain ⟨s, hs, hmaps⟩ := Option.map_eq_some_iff.mp hmaps
  obtain ⟨hpast, hcurrent⟩ := Prod.mk.inj hmaps
  exact ⟨s, hs, hpast, hcurrent, by decide +kernel⟩

/-- A parachain is registered, and then with another code. -/
theorem past_codes_new : PastRecorded 1 (run (codeStep RelayPrimitives.reference 1)
    [register 1 [1], register 1 [1, 2]] (genesisWorld, {})) := by
  have hbest : genesisWorld.relay.builder.chain.BestState .empty := Chain.bestState_genesis _ _
  have honboards : ∀ id code w, OnboardsOnly RelayPrimitives.reference (register id code) w :=
    fun id code w ↦ ⟨onboards_register id code w, trivial⟩
  have hempty : ∀ h s, genesisWorld.relay.builder.chain.states h = some s →
      s.currentCodeHash 1 = none ∧ ∀ b, s.pastCodeHash (1, b) = none := by
    intro h s hs
    obtain rfl := Chain.states_genesis hs
    exact ⟨rfl, fun _ ↦ rfl⟩
  have hright : ∀ {code : ValidationCode} {x : World Unit Unit × CodeHistory},
      (publicStep RelayPrimitives.reference (register 1 code) x.1).1.isOk = true →
      (∀ s, x.1.relay.builder.chain.BestState s →
        KeepsRecord RelayPrimitives.reference ⟨1, [], code⟩ s x.2) →
      RecordsRight RelayPrimitives.reference 1 (register 1 code) x := by
    intro code x hok hkeeps
    rw [register] at hok
    rw [register, RecordsRight, if_pos hok]
    exact fun _ ↦ hkeeps
  refine (past_codes_iff hbest hempty [register 1 [1], register 1 [1, 2]]
    ⟨honboards _ _ _, fun _ ↦ ⟨honboards _ _ _, fun _ ↦ trivial⟩⟩).mpr ?_ 2
  refine ⟨hright (by decide +kernel) fun s hs old hold ↦ ?_, fun _ ↦
    ⟨hright (by decide +kernel) fun s hs old hold ↦ ?_, fun _ ↦ trivial⟩⟩
  · obtain rfl := Option.some.inj (hbest.symm.trans hs)
    cases hold
  · have hmaps : (bestState (publicStep RelayPrimitives.reference (register 1 [1])
        genesisWorld).2).map (fun s ↦ (s.currentCodeHash 1, s.pastCodeHash (1, 0))) =
          some (some 2, none) := by decide +kernel
    rw [show bestState (publicStep RelayPrimitives.reference (register 1 [1]) genesisWorld).2 =
      some s from hs, Option.map_some, Option.some.injEq] at hmaps
    obtain ⟨hcurrent, hpast⟩ := Prod.mk.inj hmaps
    obtain rfl : 2 = old := Option.some.inj (hcurrent.symm.trans hold)
    refine ⟨fun hsame ↦ absurd hsame (by decide), fun lost hlost ↦ ?_⟩
    cases hpast.symm.trans hlost

end World

end Fudge
