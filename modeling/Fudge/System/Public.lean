import Fudge.Core.Moves
import Fudge.Relay.Pending
import Fudge.System.Builders
import Fudge.System.Events

/-!
# All public calls on all builders

The widest system of the development: a relay chain builder and its parachain builders, of which
every public method may be called in any order, each call against hosts of its own and each of them
failing wherever it likes. The collators that the relay chain asks and tells are those of the
parachain builders.

Each chain of the system goes through the moves of the core builder and no others, and no call makes
a revert but of the best block. So the best block of each chain is always stored under its number,
and a header stays as long as every call finds a best block above it. On the relay chain an import
makes one mutation after the other; what keeps them from going down step by step is that a mutation
that returns has put the block back it took away.
-/

namespace Fudge

open Call Chain
open Relation (ReflTransGen)
open ParachainBuilder (CollatorError)

/-! ## The parachain builder -/

namespace ParachainBuilder

variable {T A R : Type} {P : Primitives T} {H : ParaHost T} {m : ℕ}

theorem core_walks {c : Call (Builder T) Builder.Error R} {p : ParachainBuilder T}
    (h : Walks (Move P m) Builder.chain c p.builder) :
    Walks (Move P m) (fun p ↦ p.builder.chain) (core c) p :=
  Walks.mapErr (Walks.zoom h rfl fun _ _ ↦ rfl)

theorem buildBlock_walks (hL : H.Lawful P) (p : ParachainBuilder T) :
    Walks (Move P m) (fun p ↦ p.builder.chain) (buildBlock P H) p :=
  Walks.bind (Walks.of_keeps proposeBlock_keeps) fun _ t _ ↦
    Walks.bind (core_walks (Builder.importBlock_walks hL.host rfl t.builder)) fun _ _ _ ↦
      Walks.of_keeps (Keeps.bind (Keeps.query _ _) fun _ ↦ Keeps.modify fun _ ↦ rfl)

theorem importBlock_walks (hL : H.Lawful P) (p : ParachainBuilder T) :
    Walks (Move P m) (fun p ↦ p.builder.chain) (importBlock H) p := by
  refine Walks.read_bind (Keeps.query _ _) fun _ _ ↦ Walks.read_bind (Keeps.read _) fun next _ ↦ ?_
  cases next with
  | none => exact Walks.of_keeps (Keeps.pure ())
  | some next =>
    exact Walks.bind (core_walks (Builder.importBlock_walks hL.host rfl p.builder)) fun _ _ _ ↦
      Walks.of_keeps (Keeps.bind (Keeps.modify fun _ ↦ rfl) fun _ ↦ Keeps.modify fun _ ↦ rfl)

/-- **Every public operation is a walk of moves.** -/
theorem publicStep_walks (op : PublicOp T A) (p : ParachainBuilder T) (hop : op.Lawful P)
    (hm : m ≤ p.builder.chain.bestNumber) :
    Walks (Move P m) (fun p ↦ p.builder.chain) (publicStep P op) p := by
  have hsubmit : ∀ {H : ParaHost T} xt,
      Keeps (fun p : ParachainBuilder T ↦ p.builder.chain) (appendExtrinsic H xt) :=
    fun xt ↦ Keeps.mapErr fun p ↦ Builder.appendExtrinsic_keeps xt p.builder
  cases op with
  | para op =>
    cases op with
    | buildBlock H => exact Walks.map (Walks.map (Walks.mapErr (buildBlock_walks hop p)))
    | withMutState H exec =>
      exact Walks.map (Walks.map (Walks.mapErr
        (core_walks (Builder.withState_walks hop.host .commit none _ p.builder hm))))
    | importBlock H => exact Walks.map (Walks.map (Walks.mapErr (importBlock_walks hop p)))
    | judge H judgement =>
      exact Walks.of_keeps fun p ↦ congrArg Builder.chain (judge_keeps_builder judgement p)
  | withState H exec => exact Walks.map (Walks.mapErr (Walks.of_keeps (withState_keeps _)))
  | withStateAt H at_ exec =>
    exact Walks.map (Walks.mapErr
      (Walks.of_keeps (core_keeps_of_read (Builder.withState_dryRun_keeps _ _))))
  | appendExtrinsic H xt => exact Walks.map (Walks.mapErr (Walks.of_keeps (hsubmit xt)))
  | appendExtrinsics H xts =>
    exact Walks.map (Walks.mapErr (Walks.of_keeps (appendExtrinsics_frame hsubmit xts)))
  | appendTransition aux =>
    have haux : Keeps (fun p : ParachainBuilder T ↦ p.builder.chain) (appendTransition aux) :=
      fun _ ↦ rfl
    exact Walks.map (Walks.mapErr (g := CollatorError.parachain) (Walks.of_keeps haux))
  | nextBuild H =>
    exact Walks.map (Walks.mapErr (Walks.of_keeps (Keeps.bind (Keeps.query _ _) fun _ ↦
      Keeps.bind (Keeps.read _) fun _ ↦
        Keeps.bind (core_keeps_of_read Builder.latestHeader_keeps) fun _ ↦
          Keeps.bind code_keeps fun _ ↦ Keeps.pure _)))
  | collation H pvd =>
    exact Walks.map (Walks.of_keeps (collation_keeps pvd))

end ParachainBuilder

namespace RelaychainBuilder

variable {P : RelayPrimitives}

theorem moves_slotInvariant (κ ε : Type) (P : RelayPrimitives) (c : Chain RelayStorage) :
    SlotInvariant κ ε P fun d _ ↦ ReflTransGen (Move P.toPrimitives 0) c d where
  withMutState {H} {R} exec hL r hr := by
    rcases withMutState_cases (ε := ε) (P := P) (H := H) exec r with ⟨-, hpanic⟩ | ⟨-, hmut⟩
    · rw [hpanic]
      exact hr
    · rw [hmut]
      exact hr.trans (Builder.commit_walks hL none exec r.builder (Nat.zero_le _))
  buildBlock {H} hL r hr := by
    have hb : (buildBlock P H r : Outcome (Error ε) Block × _).2.builder = r.builder :=
      buildBlock_builder r
    change ReflTransGen _ c (buildBlock P H r : Outcome (Error ε) Block × _).2.builder.chain
    rw [hb]
    exact hr
  importNext {H} hL r hr := by
    rcases importNext_cases (ε := ε) (H := H) r with ⟨-, -, hsame⟩ | ⟨next, -, -, himport⟩
    · rw [hsame]
      exact hr
    · rw [himport]
      exact hr.trans (Builder.importBlock_walks hL rfl r.builder)

end RelaychainBuilder

/-! ## The system -/

/-- A call of a public method of one of the builders. -/
inductive BuilderOp {κ : Type} (T : κ → Type) (A : Type) where
  | relay (op : World.PublicOp κ (Builders T) CollatorError A)
  | para (k : κ) (op : ParachainBuilder.PublicOp (T k) A)

section BuilderOp

variable {κ A : Type} [DecidableEq κ] {T : κ → Type} (R : RelayPrimitives)
  (P : ∀ k, Primitives (T k))

def builderStep :
    BuilderOp T A → Call (World κ (Builders T)) SystemError (ParachainBuilder.Returned A)
  | .relay op => Call.map .reply (Call.mapErr .relay (World.publicStep R op))
  | .para k op => World.onBuilder k (ParachainBuilder.publicStep (P k) op)

/-- The collators of an operation are those of the builders, and it does not reach around them. -/
def UsesBuilders : World.PublicOp κ (Builders T) CollatorError A → Prop
  | .relay (.importBlock _ C) => ∃ hosts, C = fudgeCollators P hosts
  | .relay (.collators _) => False
  | _ => True

/-- The hosts keep the laws, and the collators are those of the builders. -/
def BuilderOp.Lawful : BuilderOp T A → Prop
  | .relay op => op.Lawful R ∧ UsesBuilders P op
  | .para k op => op.Lawful (P k)

end BuilderOp

namespace World

variable {κ A : Type} [DecidableEq κ] {T : κ → Type} {R : RelayPrimitives}
  {P : ∀ k, Primitives (T k)}

/-! ## One operation -/

theorem publicStep_keeps_builder {op : PublicOp κ (Builders T) CollatorError A}
    (hop : UsesBuilders P op) (k : κ) :
    Keeps (fun w ↦ (w.collators k).builder) (publicStep R op) := by
  have hrelay : ∀ {α : Type} (c : Call (RelaychainBuilder κ)
      (RelaychainBuilder.Error CollatorError) α),
      Keeps (fun w : World κ (Builders T) ↦ (w.collators k).builder) (relayCall c) :=
    fun _ ↦ relayCall_frame fun _ _ ↦ rfl
  cases op with
  | relay op =>
    cases op with
    | importBlock H C =>
      obtain ⟨hosts, rfl⟩ := hop
      exact importBlock_frame fun _ _ ↦ rfl
    | collators f => exact absurd hop id
    | _ => exact hrelay _
  | _ => exact hrelay _

/-- **An operation is a walk of moves on the relay chain.** -/
theorem builderStep_relay_walks (op : BuilderOp T A) (w : World κ (Builders T))
    (hop : op.Lawful R P) :
    Walks (Move R.toPrimitives 0) (fun w ↦ w.relay.builder.chain) (builderStep R P op) w := by
  cases op with
  | relay op =>
    refine Walks.map (Walks.mapErr ?_)
    exact publicStep_preserves (RelaychainBuilder.moves_slotInvariant κ CollatorError R
      w.relay.builder.chain) op w hop.1 ReflTransGen.refl
  | para k op =>
    exact Walks.mapErr (Walks.of_keeps (Keeps.zoom fun _ _ ↦ rfl))

/-- **And on every parachain.** -/
theorem builderStep_para_walks {m : ℕ} (k : κ) (op : BuilderOp T A) (w : World κ (Builders T))
    (hop : op.Lawful R P) (hm : m ≤ (w.collators k).builder.chain.bestNumber) :
    Walks (Move (P k) m) (fun w ↦ (w.collators k).builder.chain) (builderStep R P op) w := by
  cases op with
  | relay op =>
    exact Walks.map (Walks.mapErr (Walks.of_keeps fun w ↦
      congrArg Builder.chain (publicStep_keeps_builder hop.2 k w)))
  | para l op =>
    refine Walks.mapErr ?_
    change ReflTransGen _ _ ((Function.update w.collators l _) k).builder.chain
    by_cases hk : k = l
    · subst hk
      rw [Function.update_self]
      exact ParachainBuilder.publicStep_walks op (w.collators k) hop hm
    · rw [Function.update_of_ne hk]

end World

end Fudge
