import Fudge.Parachain.Pending
import Fudge.Relay.Pending
import Fudge.Relay.Reference
import Fudge.Standalone.Pending

/-!
# What counts as imported

The client of a builder has six answers to a block: five verdicts, of which `Imported` is one, and
an error. The core builder returns `Ok` for every verdict, and the three builders above it take `Ok`
for an import: they add the block to their imports, and the parachain builder empties its slot.

An *offer* is a block that went to the client from an `import_block` of one of the three, with the
answer. In every run the imports are the offers with a verdict (`run_taken`); they are the offers
that were imported exactly as long as the answers are decisive.
-/

namespace Fudge

open Call
open ParachainBuilder (CollatorError isImported)

/-! ## Offers -/

/-- A block that was handed to the client, and what the client said. -/
abbrev Offer := (Block × StorageProof) × Except InnerError ImportResult

/-- The answer is `Imported`, or an error. -/
def Decisive (answer : Except InnerError ImportResult) : Prop :=
  ∀ result, answer = .ok result → result = .imported

def taken (offers : List Offer) : List (Block × StorageProof) :=
  (offers.filter (·.2.isOk)).map Prod.fst

def accepted (offers : List Offer) : List (Block × StorageProof) :=
  (offers.filter (isImported ·.2)).map Prod.fst

theorem isImported_iff {answer : Except InnerError ImportResult} :
    isImported answer = true ↔ answer = .ok .imported := by
  rcases answer with e | result
  · simp [isImported]
  · cases result <;> simp [isImported]

theorem decisive_iff {answer : Except InnerError ImportResult} :
    Decisive answer ↔ (answer.isOk = true → answer = .ok .imported) := by
  rcases answer with e | result
  · simp [Decisive, Except.isOk, Except.toBool]
  · simp [Decisive, Except.isOk, Except.toBool]

@[simp] theorem taken_append (offers more : List Offer) :
    taken (offers ++ more) = taken offers ++ taken more := by
  simp [taken]

theorem taken_eq_accepted_iff {offers : List Offer} :
    taken offers = accepted offers ↔ ∀ offer ∈ offers, Decisive offer.2 := by
  have hverdict : ∀ offer : Offer, isImported offer.2 = true → offer.2.isOk = true := by
    intro offer h
    rw [isImported_iff.mp h]
    rfl
  constructor
  · intro h offer hoffer
    rw [decisive_iff]
    intro hok
    rw [← isImported_iff]
    have hsub : (offers.filter (isImported ·.2)).Sublist (offers.filter (·.2.isOk)) :=
      List.monotone_filter_right _ fun x ↦ hverdict x
    -- the shorter list is as long as the longer one, so it is the same list
    have hsame : offers.filter (isImported ·.2) = offers.filter (·.2.isOk) :=
      hsub.eq_of_length (by simpa [taken, accepted] using (congrArg List.length h).symm)
    have hmem : offer ∈ offers.filter (isImported ·.2) := by
      rw [hsame]
      exact List.mem_filter.mpr ⟨hoffer, hok⟩
    exact (List.mem_filter.mp hmem).2
  · intro h
    rw [taken, accepted]
    refine congrArg _ (List.filter_congr fun offer hoffer ↦ ?_)
    rw [Bool.eq_iff_iff, isImported_iff]
    refine ⟨decisive_iff.mp (h offer hoffer), fun himported ↦ ?_⟩
    rw [himported]
    rfl

section Run

variable {σ ε ρ ω : Type} {step : ω → Call σ ε ρ}

def offers (step : ω → Call σ ε ρ) (offer : ω → σ → Option Offer) (ops : List ω) (s : σ) :
    List Offer :=
  ledger step (fun op s history ↦ history ++ (offer op s).toList) ops s []

theorem run_taken {offer : ω → σ → Option Offer} {imports : σ → List (Block × StorageProof)}
    (h : ∀ op s, imports (step op s).2 = imports s ++ taken (offer op s).toList) (ops : List ω)
    (s : σ) : imports (run step ops s) = imports s ++ taken (offers step offer ops s) := by
  refine run_ledger (I := fun t history ↦ imports t = imports s ++ taken history)
    (fun op t history _ ht ↦ ?_) ops (along_true ops s) ?_
  · rw [h, ht, taken_append, List.append_assoc]
  · simp [taken]

theorem run_accepted_iff {offer : ω → σ → Option Offer} {f : σ → List (Block × StorageProof)}
    (h : ∀ op s, f (step op s).2 = f s ++ taken (offer op s).toList) (ops : List ω) (s : σ) :
    f (run step ops s) = f s ++ accepted (offers step offer ops s) ↔
      ∀ o ∈ offers step offer ops s, Decisive o.2 := by
  rw [run_taken h, List.append_right_inj, taken_eq_accepted_iff]

end Run

/-! ## The core builder -/

theorem Builder.importBlock_isOk_eq {S : Type} {H : Host S} (params : BlockImportParams)
    (b : Builder S) :
    (Builder.importBlock H params b).1.isOk = (H.importBlock b.chain params).1.isOk := by
  rw [Bool.eq_iff_iff, Builder.importBlock_isOk]
  rcases (H.importBlock b.chain params).1 with e | result
  · simp [Except.isOk, Except.toBool]
  · simp [Except.isOk, Except.toBool]

theorem taken_offer {S : Type} {H : Host S} {b : Builder S} {next : Block × StorageProof}
    (params : BlockImportParams) (imports : List (Block × StorageProof)) :
    (if (Builder.importBlock H params b).1.isOk then imports ++ [next] else imports) =
      imports ++ taken [(next, (H.importBlock b.chain params).1)] := by
  rw [Builder.importBlock_isOk_eq]
  cases h : (H.importBlock b.chain params).1.isOk <;> simp [taken, h]

/-! ## The stand-alone builder -/

namespace StandAloneBuilder

variable {S A : Type} {P : Primitives S}

def offer : StandAloneOp S A → StandAloneBuilder S → Option Offer
  | .importBlock H, a =>
    a.next.map fun next ↦ (next, (H.importBlock a.builder.chain (nextParams next.1)).1)
  | _, _ => none

theorem standAloneStep_imports (op : StandAloneOp S A) (a : StandAloneBuilder S) :
    (standAloneStep P op a).2.imports = a.imports ++ taken (offer op a).toList := by
  have hkeep : ∀ {α : Type} {c : Call (StandAloneBuilder S) Error α}, Keeps (·.imports) c →
      (c a).2.imports = a.imports ++ taken [] := by
    intro α c hc
    have himports : (c a).2.imports = a.imports := hc a
    rw [himports]
    simp [taken]
  have hthird : ∀ {α : Type} {c : Call (StandAloneBuilder S) Error α},
      Keeps (fun a ↦ (a.builder.chain, a.next, a.imports)) c → Keeps (·.imports) c :=
    fun hc a ↦ (Prod.mk.inj (Prod.mk.inj (hc a)).2).2
  cases op with
  | importBlock H =>
    rcases importBlock_cases (H := H) a with ⟨hnext, -, hsame⟩ | ⟨next, hnext, -, himported⟩
    · change (importBlock H a).2.imports = _
      rw [hsame, offer, hnext]
      simp [taken]
    · change (importBlock H a).2.imports = _
      rw [himported, offer, hnext]
      exact taken_offer _ _
  | buildBlock H =>
    exact hkeep (Keeps.map (Keeps.bind (Keeps.assert _) fun _ ↦ Keeps.bind proposeBlock_keeps
      fun _ ↦ Keeps.bind (Keeps.modify fun _ ↦ rfl) fun _ ↦ Keeps.pure _))
  | withState H exec => exact hkeep (Keeps.map (withState_keeps _))
  | withStateAt H at_ exec => exact hkeep (Keeps.map (withStateAt_keeps at_ _))
  | withMutState H exec =>
    exact hkeep (Keeps.map (Keeps.bind (Keeps.assert _) fun _ ↦ core_keeps fun _ _ ↦ rfl))
  | appendExtrinsic H xt => exact hkeep (Keeps.map (hthird (appendExtrinsic_keeps xt)))
  | appendExtrinsics H xts => exact hkeep (Keeps.map (hthird (appendExtrinsics_keeps xts)))
  | appendTransition aux => exact hkeep (Keeps.map (hthird (appendTransition_keeps aux)))

end StandAloneBuilder

/-! ## The relay chain builder -/

namespace World

open RelaychainBuilder (Error)

variable {κ W ε A : Type} {P : RelayPrimitives}

def offer : PublicOp κ W ε A → World κ W → Option Offer
  | .relay (.importBlock H _), w => w.relay.next.map fun next ↦
    (next, (H.importBlock w.relay.builder.chain (RelaychainBuilder.nextParams next.1)).1)
  | _, _ => none

theorem importBlock_imports {H : RelayHost} {C : CollationBuilder κ W ε} (w : World κ W) :
    (importBlock P H C w).2.relay.imports =
      (relayCall (ε := ε) (RelaychainBuilder.importNext H) w).2.relay.imports := by
  rcases importBlock_cases (P := P) (H := H) (C := C) w with ⟨-, hstop⟩ | ⟨hd, u, hu, hcase⟩
  · rw [hstop]
  · rw [hu]
    have henact : (enactLoop P H C u).2.relay.imports = u.relay.imports :=
      (Prod.mk.inj (enacting_keeps _ _ _ u)).2
    rcases hcase with ⟨-, -, hstop⟩ | ⟨-, hcollect⟩
    · rw [hstop, henact]
    · rw [hcollect, (collectLoop_keeps_builder hd _).2.2]
      exact henact

theorem publicStep_imports (op : PublicOp κ W ε A) (w : World κ W) :
    (publicStep P op w).2.relay.imports = w.relay.imports ++ taken (offer op w).toList := by
  have hkeep : ∀ {α : Type} {c : Call (RelaychainBuilder κ) (Error ε) α}, Keeps (·.imports) c →
      (relayCall c w).2.relay.imports = w.relay.imports ++ taken [] := by
    intro α c hc
    have himports : (relayCall c w).2.relay.imports = w.relay.imports := hc w.relay
    rw [himports]
    simp [taken]
  have hcore : ∀ {α : Type} {c : Call (Builder RelayStorage) Builder.Error α},
      Keeps (·.imports) (RelaychainBuilder.core c : Call (RelaychainBuilder κ) (Error ε) α) :=
    RelaychainBuilder.core_keeps fun _ _ ↦ rfl
  cases op with
  | relay op =>
    cases op with
    | onboardPara H para k =>
      exact hkeep (Keeps.bind (RelaychainBuilder.withMutState_keeps (fun _ _ ↦ rfl) _)
        fun _ ↦ Keeps.modify fun _ ↦ rfl)
    | updateParaHead H id head =>
      exact hkeep (RelaychainBuilder.updateParaHead_keeps (fun _ _ ↦ rfl) id head)
    | withMutState H exec => exact hkeep (RelaychainBuilder.withMutState_keeps (fun _ _ ↦ rfl) _)
    | buildBlock H => exact hkeep (RelaychainBuilder.buildBlock_keeps fun _ _ ↦ rfl)
    | importBlock H C =>
      change (importBlock P H C w).2.relay.imports = _
      rw [importBlock_imports, relayCall_apply]
      rcases RelaychainBuilder.importNext_cases (ε := ε) (H := H) w.relay with
        ⟨hnext, -, hsame⟩ | ⟨next, hnext, -, himported⟩
      · rw [hsame, offer, hnext]
        simp [taken]
      · rw [himported, offer, hnext]
        exact taken_offer _ _
    | collators f =>
      change w.relay.imports = w.relay.imports ++ taken []
      simp [taken]
  | withState H exec => exact hkeep (RelaychainBuilder.withState_keeps _)
  | withStateAt H at_ exec => exact hkeep hcore
  | appendExtrinsic H xt => exact hkeep hcore
  | appendExtrinsics H xts =>
    exact hkeep (RelaychainBuilder.appendExtrinsics_frame (fun _ ↦ hcore) xts)
  | appendTransition aux => exact hkeep hcore

end World

/-! ## The parachain builder -/

namespace ParachainBuilder

variable {T A : Type} {P : Primitives T}

/-- The public operations of the builder and of its collator: those of `ParaOp`, and those that
leave everything but the transaction pool and the cache alone. -/
inductive PublicOp (T A : Type) where
  | para (op : ParaOp T A)
  | withState (H : ParaHost T) (exec : T → A × T)
  | withStateAt (H : ParaHost T) (at_ : BlockId) (exec : T → A × T)
  | appendExtrinsic (H : ParaHost T) (xt : Extrinsic)
  | appendExtrinsics (H : ParaHost T) (xts : List Extrinsic)
  | appendTransition (aux : StoragePair)
  | nextBuild (H : ParaHost T)
  | collation (H : ParaHost T) (pvd : PersistedValidationData)

inductive Returned (A : Type) where
  | reply (reply : Reply A)
  | build (build : Option FudgeParaBuild)
  | collation (collation : Option Collation)

/-- The call of a builder, with what it returns as a reply. -/
def replied {α : Type} (f : α → Reply A) (c : Call (ParachainBuilder T) Error α) :
    Call (ParachainBuilder T) CollatorError (Returned A) :=
  Call.map (fun a ↦ .reply (f a)) (Call.mapErr .parachain c)

def publicStep (P : Primitives T) :
    PublicOp T A → Call (ParachainBuilder T) CollatorError (Returned A)
  | .para op => Call.map .reply (paraStep P op)
  | .withState H exec => replied .closure (withState P H exec)
  | .withStateAt H at_ exec => replied .closure (withStateAt P H at_ exec)
  | .appendExtrinsic H xt => replied .hash (appendExtrinsic H xt)
  | .appendExtrinsics H xts => replied .hashes (appendExtrinsics H xts)
  | .appendTransition aux => replied (fun _ ↦ .done) (appendTransition aux)
  | .nextBuild H => Call.map .build (Call.mapErr .parachain (nextBuild P H))
  | .collation H pvd => Call.map .collation (collation P H pvd)

def offer : PublicOp T A → ParachainBuilder T → Option Offer
  | .para (.importBlock H), p => (handed H p).map fun next ↦
    (next, (H.importBlock p.builder.chain (approvedParams next.1)).1)
  | _, _ => none

/-- **What an operation does to the imports and the next-import slot**: it is an import or a
verdict, or it leaves both alone. -/
theorem publicStep_cases (op : PublicOp T A) (p : ParachainBuilder T) :
    (∃ H, op = .para (.importBlock H)) ∨ (∃ H judgement, op = .para (.judge H judgement)) ∨
      (offer op p = none ∧ (publicStep P op p).2.imports = p.imports ∧
        (publicStep P op p).2.blockStorage.nextImport = p.blockStorage.nextImport) := by
  have hkeep : ∀ {α : Type} {c : Call (ParachainBuilder T) CollatorError α},
      Keeps (fun p ↦ (p.imports, p.blockStorage.nextImport)) c →
      (c p).2.imports = p.imports ∧
        (c p).2.blockStorage.nextImport = p.blockStorage.nextImport := fun hc ↦ Prod.mk.inj (hc p)
  have hcore : ∀ {α : Type} {c : Call (Builder T) Builder.Error α},
      Keeps (fun p ↦ (p.imports, p.blockStorage.nextImport)) (core c) :=
    core_keeps fun _ _ ↦ rfl
  cases op with
  | para op =>
    cases op with
    | buildBlock H =>
      exact Or.inr (Or.inr ⟨rfl, hkeep (Keeps.map <| Keeps.map <| Keeps.mapErr
        (Keeps.bind proposeBlock_keeps fun _ ↦ Keeps.bind hcore fun _ ↦
          Keeps.bind (Keeps.query _ _) fun _ ↦ Keeps.modify fun _ ↦ rfl))⟩)
    | withMutState H exec =>
      exact Or.inr (Or.inr ⟨rfl, hkeep (Keeps.map (Keeps.map (Keeps.mapErr hcore)))⟩)
    | importBlock H => exact Or.inl ⟨H, rfl⟩
    | judge H judgement => exact Or.inr (Or.inl ⟨H, judgement, rfl⟩)
  | withState H exec => exact Or.inr (Or.inr ⟨rfl, hkeep (Keeps.map (Keeps.mapErr hcore))⟩)
  | withStateAt H at_ exec => exact Or.inr (Or.inr ⟨rfl, hkeep (Keeps.map (Keeps.mapErr hcore))⟩)
  | appendExtrinsic H xt =>
    exact Or.inr (Or.inr ⟨rfl, hkeep (Keeps.map (Keeps.mapErr hcore))⟩)
  | appendExtrinsics H xts =>
    exact Or.inr (Or.inr ⟨rfl, hkeep (Keeps.map <| Keeps.mapErr
      (appendExtrinsics_frame (fun _ ↦ hcore) xts))⟩)
  | appendTransition aux => exact Or.inr (Or.inr ⟨rfl, hkeep (Keeps.map (Keeps.mapErr hcore))⟩)
  | nextBuild H =>
    exact Or.inr (Or.inr ⟨rfl, hkeep (Keeps.map <| Keeps.mapErr (Keeps.bind (Keeps.query _ _)
      fun _ ↦ Keeps.bind (Keeps.read _) fun _ ↦ Keeps.bind hcore fun _ ↦ Keeps.bind code_keeps
        fun _ ↦ Keeps.pure _))⟩)
  | collation H pvd =>
    exact Or.inr (Or.inr ⟨rfl, hkeep (Keeps.map (collation_keeps pvd))⟩)

/-- A verdict leaves the imports alone, and does not empty the next-import slot. -/
theorem judge_slot (H : ParaHost T) (judgement : CollationJudgement) (p : ParachainBuilder T) :
    (judge H judgement p).2.imports = p.imports ∧
      (p.blockStorage.nextImport.isSome = true →
        (judge H judgement p).2.blockStorage.nextImport.isSome = true) := by
  cases judgement with
  | approved =>
    rcases approve_cases (H := H) p with ⟨hsame, -⟩ | ⟨build, -, happroved⟩
    · exact ⟨congrArg _ hsame, fun h ↦ (congrArg (·.blockStorage.nextImport.isSome) hsame).trans h⟩
    · rw [judge, happroved]
      exact ⟨rfl, fun _ ↦ rfl⟩
  | rejected =>
    rcases reject_cases (H := H) p with ⟨hsame, -⟩ | hrejected
    · exact ⟨congrArg _ hsame, fun h ↦ (congrArg (·.blockStorage.nextImport.isSome) hsame).trans h⟩
    · rw [judge, hrejected]
      exact ⟨rfl, fun h ↦ h⟩

theorem importBlock_slot (H : ParaHost T) (p : ParachainBuilder T) :
    (handed H p = none ∧ (importBlock H p).2 = p) ∨
      ∃ next answer, handed H p = some next ∧ p.blockStorage.nextImport = some next ∧
        (H.importBlock p.builder.chain (approvedParams next.1)).1 = answer ∧
        (importBlock H p).2.imports = p.imports ++ taken [(next, answer)] ∧
        (importBlock H p).2.blockStorage.nextImport = if answer.isOk then none else some next := by
  rcases Option.eq_none_or_eq_some (handed H p) with hidle | ⟨next, hnext⟩
  · exact Or.inl ⟨hidle, (importBlock_of_idle hidle).1⟩
  · obtain ⟨hslot, hmoved, hstays⟩ := importBlock_of_handed hnext
    rw [Builder.importBlock_isOk_eq] at hmoved hstays
    refine Or.inr ⟨next, _, hnext, hslot, rfl, ?_⟩
    by_cases hok : (H.importBlock p.builder.chain (approvedParams next.1)).1.isOk = true
    · rw [hmoved hok, if_pos hok]
      refine ⟨?_, rfl⟩
      simp [importedBuilder, setNextImport, taken, hok]
    · rw [(hstays (by simpa using hok)).1, if_neg hok]
      refine ⟨?_, hslot⟩
      simp [taken, hok]

theorem publicStep_imports (op : PublicOp T A) (p : ParachainBuilder T) :
    (publicStep P op p).2.imports = p.imports ++ taken (offer op p).toList := by
  rcases publicStep_cases (P := P) op p with
    ⟨H, rfl⟩ | ⟨H, judgement, rfl⟩ | ⟨hoffer, himports, -⟩
  · change (Call.mapErr CollatorError.parachain (importBlock H) p).2.imports = _
    rw [mapErr_snd, offer]
    rcases importBlock_slot H p with ⟨hidle, hsame⟩ | ⟨next, _, hnext, -, rfl, himports, -⟩
    · rw [hsame, hidle]
      simp [taken]
    · rw [himports, hnext]
      rfl
  · have himports : (publicStep (A := A) P (.para (.judge H judgement)) p).2.imports = p.imports :=
      (judge_slot H judgement p).1
    rw [himports, show offer (A := A) (.para (.judge H judgement)) p = none from rfl]
    simp [taken]
  · rw [himports, hoffer]
    simp [taken]

theorem offer_of_empty (op : PublicOp T A) {p : ParachainBuilder T}
    (h : p.blockStorage.nextImport = none) : offer op p = none := by
  fun_cases offer op p with
  | case1 H =>
    have hidle : handed H p = none := by
      rw [handed, h]
      cases H.lock <;> rfl
    rw [hidle]
    rfl
  | case2 => rfl

/-- The next-import slot is emptied by an import of the block in it, and only if the client reported
that block as imported, exactly if the answer is decisive. -/
theorem publicStep_cleared_iff (op : PublicOp T A) (p : ParachainBuilder T) :
    (∀ next, p.blockStorage.nextImport = some next →
        (publicStep P op p).2.blockStorage.nextImport = none →
        offer op p = some (next, .ok .imported)) ↔ ∀ o ∈ offer op p, Decisive o.2 := by
  rcases Option.eq_none_or_eq_some p.blockStorage.nextImport with hempty | ⟨next, hnext⟩
  · rw [offer_of_empty op hempty, hempty]
    simp
  rw [hnext]
  simp only [Option.some.injEq, forall_eq']
  rcases publicStep_cases (P := P) op p with
    ⟨H, rfl⟩ | ⟨H, judgement, rfl⟩ | ⟨hoffer, -, hslot⟩
  · have hstep : (publicStep (A := A) P (.para (.importBlock H)) p).2 = (importBlock H p).2 :=
      mapErr_snd CollatorError.parachain (importBlock H) p
    rw [hstep, offer]
    rcases importBlock_slot H p with
      ⟨hidle, hsame⟩ | ⟨next', answer, hnext', hslot, hanswer, -, hcleared⟩
    · rw [hsame, hidle, hnext]
      simp
    · obtain rfl : next = next' := Option.some.inj (hnext.symm.trans hslot)
      rw [hcleared, hnext', Option.map_some, hanswer]
      simp only [Option.mem_some_iff, forall_eq', decisive_iff]
      by_cases hok : answer.isOk = true
      · simp [hok]
      · simp [hok]
  · have hoffer : offer (A := A) (.para (.judge H judgement)) p = none := rfl
    have hslot := (judge_slot H judgement p).2 (by rw [hnext]; rfl)
    rw [hoffer]
    refine ⟨fun _ o ho ↦ (by cases ho), fun _ hcleared ↦ ?_⟩
    change (judge H judgement p).2.blockStorage.nextImport = none at hcleared
    rw [hcleared] at hslot
    cases hslot
  · rw [hslot, hoffer, hnext]
    simp

end ParachainBuilder

/-! ## The three builders -/

/-- **Only accepted blocks count as imported**, exactly where the client's answers are decisive: in
the core builder, in the imports of the three builders over all runs, and in the slot for the next
one. -/
theorem import_accepted_iff {S T κ W ε A : Type} (P : Primitives S) (Q : Primitives T)
    (R : RelayPrimitives) :
    (∀ (H : Host S) (params : BlockImportParams) (b : Builder S),
      ((Builder.importBlock H params b).1.isOk = true →
        (H.importBlock b.chain params).1 = .ok .imported) ↔
      Decisive (H.importBlock b.chain params).1) ∧
    (∀ (ops : List (StandAloneBuilder.StandAloneOp S A)) (a : StandAloneBuilder S),
      let history := offers (StandAloneBuilder.standAloneStep P) StandAloneBuilder.offer ops a
      (run (StandAloneBuilder.standAloneStep P) ops a).imports = a.imports ++ accepted history ↔
        ∀ o ∈ history, Decisive o.2) ∧
    (∀ (ops : List (World.PublicOp κ W ε A)) (w : World κ W),
      let history := offers (World.publicStep R) World.offer ops w
      (run (World.publicStep R) ops w).relay.imports = w.relay.imports ++ accepted history ↔
        ∀ o ∈ history, Decisive o.2) ∧
    (∀ (ops : List (ParachainBuilder.PublicOp T A)) (p : ParachainBuilder T),
      let history := offers (ParachainBuilder.publicStep Q) ParachainBuilder.offer ops p
      (run (ParachainBuilder.publicStep Q) ops p).imports = p.imports ++ accepted history ↔
        ∀ o ∈ history, Decisive o.2) ∧
    (∀ (op : ParachainBuilder.PublicOp T A) (p : ParachainBuilder T),
      (∀ next, p.blockStorage.nextImport = some next →
          (ParachainBuilder.publicStep Q op p).2.blockStorage.nextImport = none →
          ParachainBuilder.offer op p = some (next, .ok .imported)) ↔
        ∀ o ∈ ParachainBuilder.offer op p, Decisive o.2) := by
  refine ⟨fun H params b ↦ ?_, fun ops a ↦ ?_, fun ops w ↦ ?_, fun ops p ↦ ?_, fun op p ↦ ?_⟩
  · rw [Builder.importBlock_isOk_eq, decisive_iff]
  · exact run_accepted_iff StandAloneBuilder.standAloneStep_imports ops a
  · exact run_accepted_iff (f := fun w : World κ W ↦ w.relay.imports)
      World.publicStep_imports ops w
  · exact run_accepted_iff ParachainBuilder.publicStep_imports ops p
  · exact ParachainBuilder.publicStep_cleared_iff op p

/-- A block is built and imported, a mutation takes it off the chain again, and it is built a second
time. -/
def buildTwice : List (StandAloneBuilder.StandAloneOp ℕ Unit) :=
  [.buildBlock (.reference counter), .importBlock (.reference counter),
    .withMutState { Host.reference counter with setBlockData := fun _ ↦ .error "refused" }
      fun s ↦ ((), s + 1),
    .buildBlock (.reference counter)]

/-- The client knows the block already and does nothing; the import returns `Ok` and the block is
among the imports twice. -/
theorem import_counts_known_block :
    let a := run (StandAloneBuilder.standAloneStep counter) buildTwice
      ({ builder := { chain := counterChain 0 } } : StandAloneBuilder ℕ)
    let op : StandAloneBuilder.StandAloneOp ℕ Unit := .importBlock (.reference counter)
    let imported := StandAloneBuilder.standAloneStep counter op a
    (StandAloneBuilder.offer op a).map (·.2) =
        some (.ok .alreadyInChain) ∧
      imported.1 = .ok .done ∧ imported.2.imports.length = 2 ∧ a.imports.length = 1 ∧
      a.builder.chain.bestNumber = 0 ∧ imported.2.builder.chain.bestNumber = 0 := by
  decide +kernel

end Fudge
