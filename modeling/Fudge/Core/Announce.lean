import Fudge.Core.Mutation
import Fudge.Core.Pending

/-!
# What the pool is told of an import

After every import that the client takes, `import_block` sends two events to the transaction pool.
Both name the block that is best *afterwards*. The parameters of the import play no part in this,
although the builders make imports of two kinds: as best and final, or as neither.

An `Import` is the record of one such call. Its events are true of it if the named block was not
best and final before and is so after; which imports these are is a condition on the parameters and
on the chain before the import (`truthful_iff`). Over a list of imports, no block is named twice if
further no block is taken twice (`heard_concat_iff`).
-/

namespace Fudge

open Chain

def ChainEvent.best : ChainEvent → Option Hash
  | .newBestBlock h => some h
  | .finalized _ _ => none

/-- The block that an event announces as finalized. -/
def ChainEvent.final : ChainEvent → Option Hash
  | .newBestBlock _ => none
  | .finalized h _ => some h

/-- An import: what the client was handed, on which chain, and what it made of it. -/
structure Import (S : Type) where
  params : BlockImportParams
  before : Chain S
  answer : Except InnerError ImportResult
  after : Chain S

namespace Import

open Builder (BuilderParams takes takes_iff)

variable {S : Type} {P : Primitives S} {i : Import S} {l m : List (Import S)}

def of (H : Host S) (params : BlockImportParams) (c : Chain S) : Import S :=
  ⟨params, c, (H.importBlock c params).1, (H.importBlock c params).2⟩

/-- The events that the pool is sent after the import. -/
def events (i : Import S) : List ChainEvent :=
  if takes i.answer then
    [.newBestBlock i.after.bestHash, .finalized i.after.bestHash [i.before.bestHash]]
  else []

/-- This very import made the announced block best, or finalized. -/
def Made (i : Import S) : ChainEvent → Prop
  | .newBestBlock h => i.before.bestHash ≠ h ∧ i.after.bestHash = h
  | .finalized h _ => i.before.finalizedHash ≠ h ∧ i.after.finalizedHash = h

/-- The pool is told nothing but what the import did. -/
def Truthful (i : Import S) : Prop := ∀ e ∈ i.events, i.Made e

/-- The client keeps its laws, and the parameters are those of the builders. -/
structure Lawful (P : Primitives S) (i : Import S) : Prop where
  imported : i.answer = .ok .imported → Imported P i.before i.params i.after
  params : BuilderParams i.params

theorem lawful_of {H : Host S} (hL : H.Lawful P) {params : BlockImportParams}
    (hp : BuilderParams params) (c : Chain S) : (of H params c).Lawful P :=
  ⟨fun h ↦ hL.importBlock (Prod.ext h rfl), hp⟩

/-! ## One import -/

/-- If the client takes the block, then as best and final, and the block is not best or finalized
already. -/
def MakesBest (P : Primitives S) (i : Import S) : Prop :=
  takes i.answer = true → i.params.forkChoice = some (.custom true) ∧ i.params.finalized = true ∧
    P.hash i.params.header ≠ i.before.bestHash ∧ P.hash i.params.header ≠ i.before.finalizedHash

theorem truthful_of_refused (h : takes i.answer = false) : i.Truthful := by
  intro e he
  rw [events, h] at he
  cases he

theorem truthful_of_taken (h : takes i.answer = true) :
    i.Truthful ↔ i.before.bestHash ≠ i.after.bestHash ∧
      i.before.finalizedHash ≠ i.after.bestHash ∧ i.after.finalizedHash = i.after.bestHash := by
  rw [Truthful, events, if_pos h]
  simp [Made]

theorem Lawful.after_of_final (hi : i.Lawful P) (h : takes i.answer = true)
    (hb : i.params.forkChoice = some (.custom true)) (hf : i.params.finalized = true) :
    i.after.bestHash = P.hash i.params.header ∧ i.after.finalizedHash = P.hash i.params.header := by
  have himp := hi.imported (takes_iff.mp h)
  exact ⟨(himp.best hb).1, (himp.finalized hf).1⟩

/-- **The events of an import** are true of it exactly if it makes its block best and final. -/
theorem truthful_iff (hi : i.Lawful P) : i.Truthful ↔ i.MakesBest P := by
  by_cases h : takes i.answer = true
  · rw [truthful_of_taken h, MakesBest, imp_iff_right h]
    rcases hi.params with ⟨hf, hb⟩ | ⟨hf, hb⟩
    · obtain ⟨hbest, hfinal⟩ := hi.after_of_final h hb hf
      rw [hbest, hfinal]
      constructor
      · exact fun ⟨hne, hne', _⟩ ↦ ⟨hb, hf, hne.symm, hne'.symm⟩
      · exact fun ⟨_, _, hne, hne'⟩ ↦ ⟨hne.symm, hne'.symm, rfl⟩
    · -- an import aside leaves the best block, which is announced again
      have hsame := ((hi.imported (takes_iff.mp h)).notBest hb).1
      constructor
      · exact fun ⟨hne, _⟩ ↦ absurd hsame.symm hne
      · intro ⟨hb', _⟩
        rw [hb] at hb'
        cases hb'
  · have hno : takes i.answer = false := by simpa using h
    exact iff_of_true (truthful_of_refused hno) fun hyes ↦ absurd hyes h

/-! ## A history of imports -/

/-- The blocks that a history of imports announces. -/
def announced (l : List (Import S)) : List Hash :=
  (l.filter (takes ·.answer)).map (·.after.bestHash)

/-- The pool hears of every block once, when it becomes best and final. -/
structure Heard (l : List (Import S)) : Prop where
  truthful : ∀ i ∈ l, i.Truthful
  best : ((l.flatMap events).filterMap ChainEvent.best).Nodup
  final : ((l.flatMap events).filterMap ChainEvent.final).Nodup

@[simp] theorem announced_append : announced (l ++ m) = announced l ++ announced m := by
  simp [announced]

theorem announced_cons (i : Import S) (l : List (Import S)) :
    announced (i :: l) = announced [i] ++ announced l := by
  rw [← List.singleton_append, announced_append]

theorem events_named (l : List (Import S)) :
    (l.flatMap events).filterMap ChainEvent.best = announced l ∧
      (l.flatMap events).filterMap ChainEvent.final = announced l := by
  induction l with
  | nil => exact ⟨rfl, rfl⟩
  | cons i l ih =>
    rw [List.flatMap_cons, List.filterMap_append, List.filterMap_append, ih.1, ih.2,
      announced_cons]
    cases h : takes i.answer
    · simp [events, announced, h]
    · rw [events, if_pos h]
      constructor
      · simp [announced, ChainEvent.best, h]
      · simp [announced, ChainEvent.final, List.filterMap_cons, h]

theorem heard_iff : Heard l ↔ (∀ i ∈ l, i.Truthful) ∧ (announced l).Nodup := by
  obtain ⟨hbest, hfinal⟩ := events_named l
  constructor
  · exact fun h ↦ ⟨h.truthful, hbest ▸ h.best⟩
  · exact fun ⟨htruthful, hnodup⟩ ↦ ⟨htruthful, hbest ▸ hnodup, hfinal ▸ hnodup⟩

theorem heard_nil : Heard ([] : List (Import S)) :=
  heard_iff.mpr ⟨fun _ hi ↦ absurd hi List.not_mem_nil, List.nodup_nil⟩

theorem Heard.of_append (h : Heard (l ++ m)) : Heard l := by
  rw [heard_iff, announced_append] at h
  exact heard_iff.mpr
    ⟨fun i hi ↦ h.1 i (List.mem_append_left m hi), (List.nodup_append.mp h.2).1⟩

/-- If the client takes the block, then it makes it best and final, and it took no import of the
block before. -/
def Announces (P : Primitives S) (l : List (Import S)) (i : Import S) : Prop :=
  i.MakesBest P ∧ ∀ j ∈ l, takes i.answer = true → takes j.answer = true →
    P.hash j.params.header ≠ P.hash i.params.header

instance : Decidable (i.MakesBest P) :=
  inferInstanceAs (Decidable (_ → _ ∧ _ ∧ _ ∧ _))

instance : Decidable (i.Announces P l) := inferInstanceAs (Decidable (_ ∧ _))

theorem Lawful.announces_own (hi : i.Lawful P) (h : i.Truthful) (ht : takes i.answer = true) :
    i.after.bestHash = P.hash i.params.header := by
  obtain ⟨hb, hf, -⟩ := (truthful_iff hi).mp h ht
  exact (hi.after_of_final ht hb hf).1

/-- **One more import** is heard of rightly exactly if it makes a new block best and final. -/
theorem heard_concat_iff (hl : ∀ j ∈ l, j.Lawful P) (hi : i.Lawful P) (h : Heard l) :
    Heard (l ++ [i]) ↔ i.Announces P l := by
  obtain ⟨htruthful, hnodup⟩ := heard_iff.mp h
  have hnew : i.Truthful → ((announced (l ++ [i])).Nodup ↔ ∀ j ∈ l, takes i.answer = true →
      takes j.answer = true → P.hash j.params.header ≠ P.hash i.params.header) := by
    intro hti
    rw [announced_append, List.nodup_append, and_iff_right hnodup]
    constructor
    · intro hall j hj hi' hj' heq
      refine hall.2 j.after.bestHash ?_ i.after.bestHash ?_ ?_
      · exact List.mem_map_of_mem (List.mem_filter.mpr ⟨hj, hj'⟩)
      · exact List.mem_map_of_mem (List.mem_filter.mpr ⟨List.mem_singleton_self i, hi'⟩)
      · rw [(hl j hj).announces_own (htruthful j hj) hj', hi.announces_own hti hi', heq]
    · refine fun hall ↦ ⟨?_, fun a ha b hb heq ↦ ?_⟩
      · cases hi' : takes i.answer <;> simp [announced, hi']
      · obtain ⟨j, hj, rfl⟩ := List.mem_map.mp ha
        obtain ⟨k, hk, rfl⟩ := List.mem_map.mp hb
        obtain ⟨hj, hj'⟩ := List.mem_filter.mp hj
        obtain ⟨hk, hi'⟩ := List.mem_filter.mp hk
        obtain rfl := List.mem_singleton.mp hk
        refine hall j hj hi' hj' ?_
        rw [← (hl j hj).announces_own (htruthful j hj) hj', ← hi.announces_own hti hi', heq]
  constructor
  · intro hconcat
    obtain ⟨htruthful', hnodup'⟩ := heard_iff.mp hconcat
    have hti := htruthful' i List.mem_concat_self
    exact ⟨(truthful_iff hi).mp hti, (hnew hti).mp hnodup'⟩
  · rintro ⟨hmakes, hfresh⟩
    have hti := (truthful_iff hi).mpr hmakes
    refine heard_iff.mpr ⟨fun j hj ↦ ?_, (hnew hti).mpr hfresh⟩
    rcases List.mem_append.mp hj with hj | hj
    · exact htruthful j hj
    · rwa [List.mem_singleton.mp hj]

end Import

/-! ## The core builder -/

namespace Builder

open Call

variable {S R : Type} {P : Primitives S} {H : Host S}

/-- The pool is sent the events of the import. -/
theorem importBlock_pool (params : BlockImportParams) (b : Builder S) :
    (importBlock H params b).2.pool.events =
      b.pool.events ++ (Import.of H params b.chain).events := by
  rcases importBlock_client (H := H) params b with ⟨e, hclient, h⟩ | ⟨result, hclient, h⟩
  · rw [h, Import.events, Import.of, hclient]
    exact (List.append_nil _).symm
  · rw [h, Import.events, Import.of, hclient, maintainPool]
    by_cases hr : result = .imported
    · subst hr
      exact List.append_assoc _ _ _
    · rw [if_neg hr, if_neg fun htakes ↦ hr (by simpa using takes_iff.mp htakes)]
      exact (List.append_nil _).symm

theorem commit_pool (at_ : Option BlockId) (exec : S → R × S) :
    Keeps Builder.pool (withState P H .commit at_ exec) := by
  have hrevert : Keeps Builder.pool (checkBestHashAndRevert H 1 : Call (Builder S) Error Unit) := by
    intro b
    rw [checkBestHashAndRevert]
    by_cases hf : b.chain.bestHash = b.chain.finalizedHash
    · rw [if_pos hf]
      cases H.revert b.chain 1 <;> rfl
    · rw [if_neg hf]
  have hcommit : ∀ h op, Keeps Builder.pool (commitOperation H h op) := by
    intro h op b
    rw [commitOperation]
    cases H.commitOperation b.chain op <;> rfl
  change Keeps Builder.pool (commit P H at_ exec)
  rw [commit]
  apply Keeps.bind (beginCommit_keeps at_)
  rintro ⟨h, s, number⟩
  have hmutate : Keeps Builder.pool (mutate P H number h s { oldState := some h } exec) := by
    rw [mutate]
    by_cases hn : number = 0
    · rw [if_pos hn]
      exact mutateGenesis_keeps _ _ _
    · rw [if_neg hn]
      exact Keeps.bind hrevert fun _ ↦ rebuild_keeps _ _ _ _
  exact Keeps.bind hmutate fun q ↦ Keeps.bind (hcommit h q.2) fun _ ↦ Keeps.pure _

theorem appendExtrinsic_events (xt : Extrinsic) :
    Keeps (fun b : Builder S ↦ b.pool.events) (appendExtrinsic H xt) :=
  Keeps.bind (ask_keeps _ _) fun _ ↦ Keeps.bind (Keeps.modify fun _ ↦ rfl) fun _ ↦ Keeps.pure _

end Builder

end Fudge
