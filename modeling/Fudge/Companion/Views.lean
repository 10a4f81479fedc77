import Fudge.Call.Views
import Fudge.Companion.Evolve
import Fudge.Companion.Usable

/-!
# The chains of a companion do not interfere

`append_extrinsic`, `append_extrinsics`, `with_state` and `with_mut_state` name the chain they are
for. Each reads and writes the builder of that chain and nothing else, a call for an unknown
parachain nothing at all. Between two `evolve`s a companion therefore is as many separate chains:
what the calls on one of them return and leave does not depend on the calls on the others, and of a
run only the order of the calls on each chain matters.

`evolve` is where the chains meet, so the runs here are without it. They start in any companion
whose relay chain builder has no pending block, which is where `new` and every `evolve` that does
not fail leave it.
-/

namespace Fudge

namespace Companion

open Call
open RelaychainBuilder (Error)
open ParachainBuilder (CollatorError)
open World (Idle)

variable {κ : Type} {T : κ → Type} {R A α : Type} {Rl : RelayPrimitives}
  {P : ∀ k, Primitives (T k)} {d : CompanionDef κ}

/-- What there is to see of a chain: of the relay chain its builder, with the history of the world,
and of a parachain the builder in its field. -/
def ChainView (T : κ → Type) : Option κ → Type
  | none => RelaychainBuilder κ × List (Event κ (Builders T)) × ℕ
  | some k => ParachainBuilder (T k)

def view : ∀ i, Companion T → ChainView T i
  | none, w => (w.relay, w.log, w.tickets)
  | some k, w => w.collators k

theorem ext_view {v w : Companion T} (h : ∀ i, view i v = view i w) : v = w := by
  have hrelay : (v.relay, v.log, v.tickets) = (w.relay, w.log, w.tickets) := h none
  have hparas : v.collators = w.collators := funext fun k ↦ h (some k)
  obtain ⟨relay, collators, log, tickets⟩ := v
  obtain ⟨relay', collators', log', tickets'⟩ := w
  obtain ⟨rfl, rfl, rfl⟩ : relay = relay' ∧ log = log' ∧ tickets = tickets' := by
    simpa using hrelay
  obtain rfl : collators = collators' := hparas
  rfl

/-- The chain a `Chain` stands for, if the companion has it. -/
def chainOf (d : CompanionDef κ) : Chain → Option (Option κ)
  | .relay => some none
  | .para id => (d.fieldFor id).map some

def owner (d : CompanionDef κ) : CompanionOp T A → Option (Option κ)
  | .appendExtrinsic _ chain _ => chainOf d chain
  | .appendExtrinsics chain _ => chainOf d chain
  | .withState _ chain _ => chainOf d chain
  | .withMutState _ chain _ => chainOf d chain
  | .evolve _ => none

/-! ## Calls on one builder -/

theorem onRelay_reads (c : Call (RelaychainBuilder κ) (Error CollatorError) α) :
    Reads (view none) (onRelay c : Call (Companion T) BuilderError α) := by
  refine Reads.mapErr (Reads.zoom (fun s t h ↦ ?_) fun a s t h ↦ ?_)
  · exact (Prod.mk.inj h).1
  · exact Prod.ext rfl (Prod.mk.inj h).2

theorem onRelay_frame (c : Call (RelaychainBuilder κ) (Error CollatorError) α) (k : κ) :
    Keeps (view (some k)) (onRelay c : Call (Companion T) BuilderError α) :=
  Keeps.mapErr (Keeps.zoom fun _ _ ↦ rfl)

theorem onPara_reads [DecidableEq κ] (k : κ)
    (c : Call (ParachainBuilder (T k)) ParachainBuilder.Error α) :
    Reads (view (some k)) (onPara k c : Call (Companion T) BuilderError α) := by
  refine Reads.mapErr fun s t h ↦ ?_
  have hsame : s.collators k = t.collators k := h
  refine ⟨?_, ?_⟩
  · change (c (s.collators k)).1 = (c (t.collators k)).1
    rw [hsame]
  · change Function.update s.collators k (c (s.collators k)).2 k =
      Function.update t.collators k (c (t.collators k)).2 k
    rw [Function.update_self, Function.update_self, hsame]

theorem onPara_frame [DecidableEq κ] {k : κ}
    (c : Call (ParachainBuilder (T k)) ParachainBuilder.Error α) {i : Option κ} (hi : i ≠ some k) :
    Keeps (view i) (onPara k c : Call (Companion T) BuilderError α) := by
  refine Keeps.mapErr fun w ↦ ?_
  cases i with
  | none => rfl
  | some j =>
    have hj : j ≠ k := fun h ↦ hi (congrArg some h)
    exact Function.update_of_ne hj _ _

/-! ## Calls on one chain -/

/-- A call depends on the chain `i` alone, and the other chains do not change. -/
structure OnChain (i : Option (Option κ)) (c : Call (Companion T) BuilderError α) :
    Prop where
  frame : ∀ j, i ≠ some j → Keeps (view j) c
  reads : ∀ j, i = some j → Reads (view j) c

namespace OnChain

variable {β : Type} {i : Option (Option κ)}

theorem relay (c : Call (RelaychainBuilder κ) (Error CollatorError) α) :
    OnChain (T := T) (some none) (onRelay c) where
  frame j hj := by
    cases j with
    | none => exact absurd rfl hj
    | some k => exact onRelay_frame c k
  reads j hj := by
    obtain rfl := Option.some.inj hj
    exact onRelay_reads c

theorem para [DecidableEq κ] (k : κ) (c : Call (ParachainBuilder (T k)) ParachainBuilder.Error α) :
    OnChain (some (some k)) (onPara k c) where
  frame j hj := onPara_frame c fun h ↦ hj (congrArg some h.symm)
  reads j hj := by
    obtain rfl := Option.some.inj hj
    exact onPara_reads k c

protected theorem pure (a : α) : OnChain (T := T) i (pure a) :=
  ⟨fun _ _ ↦ Keeps.pure a, fun _ _ ↦ Reads.pure a⟩

protected theorem fail (e : BuilderError) : OnChain (T := T) i (Call.fail e : Call _ _ α) :=
  ⟨fun _ _ _ ↦ rfl, fun _ _ ↦ Reads.fail e⟩

protected theorem query {δ : Type} (a : Except δ α) (mk : δ → BuilderError) :
    OnChain (T := T) i (Call.query (fun _ ↦ a) mk) :=
  ⟨fun _ _ ↦ Keeps.query _ mk, fun _ _ ↦ Reads.query a mk⟩

protected theorem bind {c : Call (Companion T) BuilderError α}
    {g : α → Call (Companion T) BuilderError β} (hc : OnChain i c) (hg : ∀ a, OnChain i (g a)) :
    OnChain i (c >>= g) where
  frame j hj := Keeps.bind (hc.frame j hj) fun a ↦ (hg a).frame j hj
  reads j hj := Reads.bind (hc.reads j hj) fun a ↦ (hg a).reads j hj

protected theorem map {c : Call (Companion T) BuilderError α} {g : α → β} (hc : OnChain i c) :
    OnChain i (Call.map g c) where
  frame j hj := Keeps.map (hc.frame j hj)
  reads j hj := Reads.map (hc.reads j hj)

protected theorem forEach {g : β → Call (Companion T) BuilderError Unit}
    (h : ∀ b, OnChain i (g b)) (l : List β) : OnChain i (forEach g l) where
  frame j hj := Keeps.forEach (fun b ↦ (h b).frame j hj) l
  reads j hj := Reads.forEach (fun b ↦ (h b).reads j hj) l

/-- A call that is dispatched on an id is one on the field for it, and fails without a field. -/
theorem field (id : Id) {c : κ → Call (Companion T) BuilderError α}
    (hc : ∀ k, OnChain (some (some k)) (c k)) :
    OnChain (chainOf d (.para id)) (match d.fieldFor id with
      | some k => c k
      | none => Call.fail (.parachainNotFound id)) := by
  rw [chainOf]
  cases d.fieldFor id with
  | none => exact OnChain.fail _
  | some k => exact hc k

end OnChain

variable [DecidableEq κ]

theorem appendExtrinsic_onChain (hosts : Hosts T) (chain : Chain) (xt : Bytes) :
    OnChain (chainOf d chain) (appendExtrinsic d hosts chain xt) := by
  cases chain with
  | relay =>
    exact OnChain.bind (OnChain.query _ _) fun _ ↦
      OnChain.bind (OnChain.relay _) fun _ ↦ OnChain.pure _
  | para id =>
    exact OnChain.field id fun k ↦ OnChain.bind (OnChain.query _ _) fun _ ↦
      OnChain.bind (OnChain.para k _) fun _ ↦ OnChain.pure _

theorem withState_onChain (hosts : Hosts T) (chain : Chain) (exec : Exec T R) :
    OnChain (chainOf d chain) (withState Rl P d hosts chain exec) := by
  cases chain with
  | relay => exact OnChain.relay _
  | para id => exact OnChain.field id fun k ↦ OnChain.para k _

theorem withMutState_onChain (hosts : Hosts T) (chain : Chain) (exec : Exec T R) :
    OnChain (chainOf d chain) (withMutState Rl P d hosts chain exec) := by
  cases chain with
  | relay => exact OnChain.relay _
  | para id => exact OnChain.field id fun k ↦ OnChain.para k _

/-! ## Runs -/

def CompanionOp.IsEvolve : CompanionOp T A → Prop
  | .evolve _ => True
  | _ => False

theorem companionStep_onChain {op : CompanionOp T A} (hop : ¬ op.IsEvolve) :
    OnChain (owner d op) (companionStep Rl P d op) := by
  cases op with
  | appendExtrinsic hosts chain xt => exact (appendExtrinsic_onChain hosts chain xt).map
  | appendExtrinsics chain xts =>
    exact (OnChain.forEach (fun xt ↦ appendExtrinsic_onChain xt.1 chain xt.2) xts).map
  | withState hosts chain exec => exact (withState_onChain hosts chain exec).map
  | withMutState hosts chain exec => exact (withMutState_onChain hosts chain exec).map
  | evolve hosts => exact absurd trivial hop

theorem companionStep_separated :
    Separated (fun op : CompanionOp T A ↦ ¬ op.IsEvolve) (companionStep Rl P d) view (owner d) where
  frame _ i hop hi := (companionStep_onChain hop).frame i hi
  reads _ i hop hi := (companionStep_onChain hop).reads i hi

theorem companionStep_safe {op : CompanionOp T A} (hop : ¬ op.IsEvolve) :
    Safe Idle (companionStep Rl P d op) := by
  intro w hw
  cases op with
  | evolve hosts => exact absurd trivial hop
  | _ => exact companionStep_idle _ w trivial hw

/-- **The chains do not interfere**: what happens to a chain between two `evolve`s, and what the
calls on it return, is what happens if the calls on the other chains are not made. -/
theorem chains_do_not_interfere {w : Companion T} (hw : Idle w) {ops : List (CompanionOp T A)}
    (hops : ∀ op ∈ ops, ¬ op.IsEvolve) (i : Option κ) :
    view i (run (companionStep Rl P d) ops w) =
        view i (run (companionStep Rl P d) (ops.filter (owner d · = some i)) w) ∧
      (trace (companionStep Rl P d) ops w).filter (owner d ·.1 = some i) =
        trace (companionStep Rl P d) (ops.filter (owner d · = some i)) w :=
  companionStep_separated.run_filter (fun _ ↦ companionStep_safe) i ops hops hw hw rfl

/-- Two parachains are mutated and one of them is read, and an extrinsic is appended to the relay
chain between. -/
def mutateBoth : List (CompanionOp (fun _ : Fin 2 ↦ ℕ) ℕ) :=
  [.withMutState (.reference (Fin 2)) (.para 1) ⟨fun s ↦ (0, s), fun _ s ↦ (s, s + 10)⟩,
    .appendExtrinsic (.reference (Fin 2)) .relay [1],
    .withMutState (.reference (Fin 2)) (.para 2) ⟨fun s ↦ (0, s), fun _ s ↦ (s, s + 20)⟩,
    .withState (.reference (Fin 2)) (.para 2) ⟨fun s ↦ (0, s), fun _ s ↦ (s, s)⟩]

/-- The same calls, those on the second parachain first. -/
def mutateSecondFirst : List (CompanionOp (fun _ : Fin 2 ↦ ℕ) ℕ) :=
  mutateBoth.drop 2 ++ mutateBoth.take 2

theorem reference_idle : Idle (reference twoFields fun k ↦ k + 1) :=
  new_idle (new_reference (by decide +kernel))

theorem not_isEvolve_mutateBoth : ∀ op ∈ mutateBoth, ¬ op.IsEvolve := by
  simp [mutateBoth, CompanionOp.IsEvolve]

theorem chains_do_not_interfere_mutateBoth :
    view (some 1) (run (companionStep .reference (fun _ ↦ counter) twoFields) mutateBoth
        (reference twoFields fun k ↦ k + 1)) =
      view (some 1) (run (companionStep .reference (fun _ ↦ counter) twoFields)
        (mutateBoth.filter (owner twoFields · = some (some 1)))
        (reference twoFields fun k ↦ k + 1)) :=
  (chains_do_not_interfere reference_idle not_isEvolve_mutateBoth (some 1)).1

/-- **Interleaving does not matter**: two runs between `evolve`s in which the calls on each chain
come in the same order leave the same companion, and the calls on each chain return the same. -/
theorem interleaving_irrelevant {w : Companion T} (hw : Idle w) {ops ops' : List (CompanionOp T A)}
    (hops : ∀ op ∈ ops, ¬ op.IsEvolve) (hops' : ∀ op ∈ ops', ¬ op.IsEvolve)
    (hsame : ∀ i, ops.filter (owner d · = some i) = ops'.filter (owner d · = some i)) :
    run (companionStep Rl P d) ops w = run (companionStep Rl P d) ops' w ∧
      ∀ i, (trace (companionStep Rl P d) ops w).filter (owner d ·.1 = some i) =
        (trace (companionStep Rl P d) ops' w).filter (owner d ·.1 = some i) := by
  have hsafe : ∀ op : CompanionOp T A, ¬ op.IsEvolve → Safe Idle (companionStep Rl P d op) :=
    fun _ ↦ companionStep_safe
  have hviews := companionStep_separated.run_congr hsafe hops hops' hw hsame
  exact ⟨ext_view fun i ↦ (hviews i).1, fun i ↦ (hviews i).2⟩

theorem interleaving_irrelevant_mutateBoth :
    run (companionStep .reference (fun _ ↦ counter) twoFields) mutateBoth
        (reference twoFields fun k ↦ k + 1) =
      run (companionStep .reference (fun _ ↦ counter) twoFields) mutateSecondFirst
        (reference twoFields fun k ↦ k + 1) := by
  refine (interleaving_irrelevant reference_idle not_isEvolve_mutateBoth (fun op hop ↦ ?_)
    fun i ↦ ?_).1
  · rcases List.mem_append.mp hop with hop | hop
    · exact not_isEvolve_mutateBoth op (List.mem_of_mem_drop hop)
    · exact not_isEvolve_mutateBoth op (List.mem_of_mem_take hop)
  · rcases i with - | k
    · rfl
    · match k with
      | 0 => rfl
      | 1 => rfl

end Companion

end Fudge
