import Fudge.Core.Commit
import Fudge.Core.Reference
import Fudge.Overlay.Layers

/-!
# Running a closure in externalities

`with_state` and `with_mut_state` run a closure on the state of a block. The closure reads and
writes through an `ExternalitiesProvider`, which puts an overlay over that state, and which opens a
transaction around the closure if its changes are to be taken out of the overlay afterwards. The
definitions follow `provider/externalities.rs`; the overlay is that of the node libraries, of which
they use what `Overlay` says.

The core builder is modelled with closures that are plain functions of the state. This module says
when that is what a closure is. Of any closure at all, `executeWithMut_eq_ok` says what is returned:
a closure may close the transaction that was opened around it, or leave one open, and there is a
result exactly if one transaction is open when it returns. A closure that keeps to transactions of
its own is a plain function (`externalities_refine`), and running it for its result and running it
for its changes is the same thing.
-/

namespace Fudge

open Call

structure ExternalitiesProvider (O K V : Type) where
  overlay : O
  backend : Store K V

namespace ExternalitiesProvider

variable {O K V R ε : Type} [DecidableEq K] (I : Overlay O K V)

/-- The variant of `externalities::Error` that only `execute_with_safe` returns. What was thrown is
not kept. -/
inductive SafeError where
  | externalitiesSetAndRun
deriving DecidableEq, Repr

def new (backend : Store K V) : ExternalitiesProvider O K V := ⟨I.empty, backend⟩

/-- `set_and_run_with_externalities(&mut self.ext(), execute)`. -/
def setAndRun (execute : Closure K V R) : Call (ExternalitiesProvider O K V) ε R := fun p ↦
  match execute.exec I p.backend p.overlay with
  | (some r, o) => (.ok r, { p with overlay := o })
  | (none, o) => (.panic, { p with overlay := o })

def executeWith (execute : Closure K V R) : Call (ExternalitiesProvider O K V) ε R :=
  setAndRun I execute

/-- `ext.storage_start_transaction()`. -/
def storageStartTransaction : Call (ExternalitiesProvider O K V) ε Unit :=
  Call.modify fun p ↦ { p with overlay := I.start p.overlay }

/-- `ext.storage_commit_transaction()`. -/
def storageCommitTransaction :
    Call (ExternalitiesProvider O K V) Builder.ExternalitiesError Unit := fun p ↦
  match I.commit p.overlay with
  | some o => (.ok (), { p with overlay := o })
  | none => (.err .storageTransactionCommit, p)

/-- `overlay.drain_storage_changes(backend, version)`: it panics while a transaction is open, and
`drain` is what else it may find. -/
def drainStorageChanges (P : Primitives (Store K V))
    (drain : Store K V → Except InnerError Unit) (version : StateVersion) :
    Call (ExternalitiesProvider O K V) Builder.ExternalitiesError (StorageChanges (Store K V)) :=
  fun p ↦
    let post := (I.abs p.backend p.overlay).current
    if I.isOpen p.overlay then (.panic, p)
    else match drain post with
      | .ok _ => (.ok ⟨post, P.storageRoot version post⟩, { p with overlay := I.empty })
      | .error e => (.err (.storageChangesDraining e), p)

/-- `execute_with_mut`. The storage root that is computed first is not used. -/
def executeWithMut (P : Primitives (Store K V)) (drain : Store K V → Except InnerError Unit)
    (execute : Closure K V R) (version : StateVersion) :
    Call (ExternalitiesProvider O K V) Builder.ExternalitiesError
      (R × StorageChanges (Store K V)) := do
  storageStartTransaction I
  let r ← setAndRun I execute
  storageCommitTransaction I
  let changes ← drainStorageChanges I P drain version
  pure (r, changes)

/-- `execute_with_safe`: a panic of the closure is caught. -/
def executeWithSafe (execute : Closure K V R) : Call (ExternalitiesProvider O K V) SafeError R :=
  fun p ↦ match execute.exec I p.backend p.overlay with
    | (some r, o) => (.ok r, { p with overlay := o })
    | (none, o) => (.err .externalitiesSetAndRun, { p with overlay := o })

variable {I}

/-- What the provider shows, and what its open transactions would go back to. -/
def savepoints (I : Overlay O K V) (p : ExternalitiesProvider O K V) : Savepoints (Store K V) :=
  I.abs p.backend p.overlay

theorem savepoints_new (s : Store K V) : savepoints I (new I s) = ⟨s, []⟩ := I.abs_empty s

/-! ## The transaction around the closure -/

/-- What comes of the transaction, from what the closure returned and left: without an open
transaction the commit fails, with more than one the drain panics. -/
def concluded (P : Primitives (Store K V)) (drain : Store K V → Except InnerError Unit)
    (version : StateVersion) : Option R × Savepoints (Store K V) →
      Outcome Builder.ExternalitiesError (R × StorageChanges (Store K V))
  | (none, _) => .panic
  | (some _, ⟨_, []⟩) => .err .storageTransactionCommit
  | (some r, ⟨post, [_]⟩) => match drain post with
    | .ok _ => .ok (r, ⟨post, P.storageRoot version post⟩)
    | .error e => .err (.storageChangesDraining e)
  | (some _, ⟨_, _ :: _ :: _⟩) => .panic

variable {P : Primitives (Store K V)} {drain : Store K V → Except InnerError Unit}
  {execute : Closure K V R} {version : StateVersion}

theorem setAndRun_cases (execute : Closure K V R) (p : ExternalitiesProvider O K V) :
    ∃ p' : ExternalitiesProvider O K V, p'.backend = p.backend ∧
      savepoints I p' = (execute.eval (savepoints I p)).2 ∧
      (setAndRun I execute p : Outcome ε R × _) = (match (execute.eval (savepoints I p)).1 with
        | some r => .ok r
        | none => .panic, p') := by
  obtain ⟨hresult, hstate⟩ := execute.exec_abs I p.backend p.overlay
  rw [savepoints, ← hresult, ← hstate, setAndRun]
  rcases execute.exec I p.backend p.overlay with ⟨_ | r, o⟩
  · exact ⟨{ p with overlay := o }, rfl, rfl, rfl⟩
  · exact ⟨{ p with overlay := o }, rfl, rfl, rfl⟩

theorem conclude (r : R) (p : ExternalitiesProvider O K V) :
    ((storageCommitTransaction I >>= fun _ ↦ drainStorageChanges I P drain version >>=
      fun changes ↦ pure (r, changes)) p).1 =
        concluded P drain version (some r, savepoints I p) := by
  have hcommit := I.commit_abs p.backend p.overlay
  have hp : savepoints I p = I.abs p.backend p.overlay := rfl
  rw [hp]
  rcases habs : I.abs p.backend p.overlay with ⟨post, saved⟩
  rw [habs] at hcommit
  cases saved with
  | nil =>
    -- the closure closed the transaction
    have hnone : I.commit p.overlay = none := Option.map_eq_none_iff.mp hcommit
    rw [bind_of_err (e := .storageTransactionCommit) (by rw [storageCommitTransaction, hnone])]
    rfl
  | cons s rest =>
    obtain ⟨o, ho, hafter⟩ := Option.map_eq_some_iff.mp hcommit
    rw [bind_of_ok (a := ()) (by rw [storageCommitTransaction, ho])]
    have hopen := I.isOpen_abs p.backend o
    have hcurrent : (I.abs p.backend o).current = post := congrArg Savepoints.current hafter
    rw [hafter] at hopen
    cases rest with
    | nil =>
      have hclosed : I.isOpen o = false := hopen
      cases hd : drain post with
      | error e =>
        have hdrain : drainStorageChanges I P drain version { p with overlay := o } =
            (.err (.storageChangesDraining e), { p with overlay := o }) := by
          simp [drainStorageChanges, hclosed, hcurrent, hd]
        rw [bind_of_err hdrain, concluded, hd]
      | ok u =>
        have hdrain : drainStorageChanges I P drain version { p with overlay := o } =
            (.ok ⟨post, P.storageRoot version post⟩, { p with overlay := I.empty }) := by
          simp [drainStorageChanges, hclosed, hcurrent, hd]
        rw [bind_of_ok hdrain, concluded, hd]
        rfl
    | cons t rest =>
      -- the closure left a transaction open
      have hopen : I.isOpen o = true := hopen
      have hdrain : drainStorageChanges I P drain version { p with overlay := o } =
          (.panic, { p with overlay := o }) := by
        simp [drainStorageChanges, hopen]
      rw [bind_of_panic hdrain]
      rfl

/-- **What `execute_with_mut` returns**, whatever the closure does. -/
theorem executeWithMut_fst (P : Primitives (Store K V))
    (drain : Store K V → Except InnerError Unit) (execute : Closure K V R)
    (version : StateVersion) (p : ExternalitiesProvider O K V) :
    (executeWithMut I P drain execute version p).1 =
      concluded P drain version (execute.eval (savepoints I p).start) := by
  have hstart : executeWithMut I P drain execute version p =
      (setAndRun I execute >>= fun r ↦ storageCommitTransaction I >>= fun _ ↦
        drainStorageChanges I P drain version >>= fun changes ↦ pure (r, changes))
        { p with overlay := I.start p.overlay } := rfl
  have hsave : savepoints I { p with overlay := I.start p.overlay } = (savepoints I p).start :=
    I.start_abs p.backend p.overlay
  obtain ⟨p', -, hp', hrun⟩ := setAndRun_cases (I := I) (ε := Builder.ExternalitiesError) execute
    { p with overlay := I.start p.overlay }
  rw [hsave] at hp' hrun
  rw [hstart]
  rcases he : execute.eval (savepoints I p).start with ⟨_ | r, sp⟩
  · rw [he] at hrun
    rw [bind_of_panic hrun]
    rfl
  · rw [he] at hrun hp'
    rw [bind_of_ok hrun, conclude, hp']

/-- **There is a result exactly if one transaction is open at the end.** Then it is what the closure
returned, with the state it left, whichever transactions it closed and opened in between. -/
theorem executeWithMut_ok_iff (p : ExternalitiesProvider O K V) {r : R}
    {changes : StorageChanges (Store K V)} :
    (executeWithMut I P drain execute version p).1 = .ok (r, changes) ↔
      ∃ post s, execute.eval (savepoints I p).start = (some r, ⟨post, [s]⟩) ∧
        drain post = .ok () ∧ changes = ⟨post, P.storageRoot version post⟩ := by
  rw [executeWithMut_fst]
  rcases execute.eval (savepoints I p).start with ⟨_ | r', post, _ | ⟨s, _ | ⟨t, rest⟩⟩⟩
  · simp [concluded]
  · simp [concluded]
  · simp [concluded]
  · simp [concluded]
  · -- one transaction
    rw [concluded]
    cases hd : drain post with
    | error e => simp [hd]
    | ok u =>
      simp only [Outcome.ok.injEq, Prod.mk.injEq, Option.some.injEq, Savepoints.mk.injEq,
        List.cons.injEq, and_true]
      constructor
      · rintro ⟨rfl, rfl⟩
        exact ⟨post, s, ⟨rfl, rfl, rfl⟩, hd, rfl⟩
      · rintro ⟨_, _, ⟨rfl, rfl, rfl⟩, -, rfl⟩
        exact ⟨rfl, rfl⟩
  · simp [concluded]

/-- A closure that closes the transaction around it is not committed. -/
example (s : Store ℕ ℕ) (P : Primitives (Store ℕ ℕ)) : (executeWithMut (Layers.overlay ℕ ℕ) P
    (fun _ ↦ .ok ()) (.rollback fun found ↦ .ret found) .v1 (new (Layers.overlay ℕ ℕ) s)).1 =
      .err .storageTransactionCommit := rfl

/-! ## Closures as functions -/

theorem eval_start_of_keeps {s : Store K V} (hkeeps : execute.Keeps ⟨s, []⟩) {r : R}
    (hr : (execute.meaning s).1 = some r) :
    execute.eval (Savepoints.start ⟨s, []⟩) = (some r, ⟨(execute.meaning s).2, [s]⟩) := by
  have hframe := execute.eval_frame [s] ⟨s, []⟩ hkeeps
  have hclosed : (execute.eval ⟨s, []⟩).2.saved = [] := hkeeps.closed hr
  have hstart : Savepoints.start ⟨s, []⟩ = Savepoints.around ⟨s, []⟩ [s] := rfl
  rw [hstart, hframe]
  refine Prod.ext hr ?_
  rw [Savepoints.around, hclosed]
  rfl

omit [DecidableEq K] in
theorem core_executeWithMut_fst {H : Host (Store K V)} {exec : Store K V → R × Store K V}
    {s : Store K V} (hcommit : H.storageCommitTransaction (exec s).2 = .ok ())
    (id : Option BlockId) (b : Builder (Store K V)) :
    (Builder.executeWithMut P H id exec version s b).1 =
      match H.drainStorageChanges (exec s).2 with
      | .ok _ => .ok ((exec s).1, ⟨(exec s).2, P.storageRoot version (exec s).2⟩)
      | .error e => .err (.externalitiesExecution id (.storageChangesDraining e)) := by
  have hrun : Builder.executeWithMut P H id exec version s b =
      (Builder.ask (fun _ ↦ H.storageCommitTransaction (exec s).2)
          (fun _ ↦ .externalitiesExecution id .storageTransactionCommit) >>= fun _ ↦
        Builder.ask (fun _ ↦ H.drainStorageChanges (exec s).2)
          (fun e ↦ .externalitiesExecution id (.storageChangesDraining e)) >>= fun _ ↦
        pure ((exec s).1, ⟨(exec s).2, P.storageRoot version (exec s).2⟩)) b := rfl
  rw [hrun, bind_of_ok (Builder.ask_eq_ok.mpr ⟨hcommit, rfl⟩)]
  cases H.drainStorageChanges (exec s).2 <;> rfl

/-- **A closure that keeps to its own transactions is a function of the state.** Run for its result
it returns that of the function, and run for its changes it does what the core builder does with
the function. -/
theorem externalities_refine {H : Host (Store K V)} {exec : Store K V → R × Store K V}
    {s : Store K V} (hkeeps : execute.Keeps ⟨s, []⟩)
    (hexec : execute.meaning s = (some (exec s).1, (exec s).2))
    (hcommit : H.storageCommitTransaction (exec s).2 = .ok ()) (id : Option BlockId)
    (b : Builder (Store K V)) :
    (executeWith I execute (new I s) : Outcome ε R × _).1 = .ok (exec s).1 ∧
      (Builder.executeWithMut P H id exec version s b).1 = (mapErr (.externalitiesExecution id)
        (executeWithMut I P H.drainStorageChanges execute version) (new I s)).1 := by
  have hresult : (execute.meaning s).1 = some (exec s).1 := congrArg Prod.fst hexec
  have hpost : (execute.meaning s).2 = (exec s).2 := congrArg Prod.snd hexec
  constructor
  · obtain ⟨p', -, -, hrun⟩ := setAndRun_cases (I := I) (ε := ε) execute (new I s)
    rw [savepoints_new] at hrun
    have hr : (execute.eval ⟨s, []⟩).1 = some (exec s).1 := hresult
    rw [executeWith, hrun, hr]
  · have hmut := executeWithMut_fst (I := I) P H.drainStorageChanges execute version (new I s)
    rw [savepoints_new, eval_start_of_keeps hkeeps hresult, hpost, concluded] at hmut
    rw [core_executeWithMut_fst hcommit, mapErr]
    rcases hrun : executeWithMut I P H.drainStorageChanges execute version (new I s) with ⟨o, p'⟩
    obtain rfl : o = _ := (congrArg Prod.fst hrun).symm.trans hmut
    cases H.drainStorageChanges (exec s).2 <;> rfl

/-! ## A panic that is caught -/

theorem executeWithSafe_cases (execute : Closure K V R) (p : ExternalitiesProvider O K V) :
    savepoints I (executeWithSafe I execute p).2 = (execute.eval (savepoints I p)).2 ∧
      (executeWithSafe I execute p).1 = match (execute.eval (savepoints I p)).1 with
        | some r => .ok r
        | none => .err .externalitiesSetAndRun := by
  obtain ⟨hresult, hstate⟩ := execute.exec_abs I p.backend p.overlay
  rw [savepoints, savepoints, ← hresult, ← hstate, executeWithSafe]
  rcases execute.exec I p.backend p.overlay with ⟨_ | r, o⟩
  · exact ⟨rfl, rfl⟩
  · exact ⟨rfl, rfl⟩

/-- Transactions that are open already make `execute_with_mut` panic. -/
theorem concluded_of_open {next : Closure K V R} {left : Store K V} {saved : List (Store K V)}
    (hkeeps : next.Keeps ⟨left, []⟩) (hopen : saved ≠ []) :
    concluded P drain version (next.eval (Savepoints.start ⟨left, saved⟩)) = .panic := by
  have hstart : Savepoints.start ⟨left, saved⟩ = Savepoints.around ⟨left, []⟩ (left :: saved) := rfl
  obtain ⟨t, rest, rfl⟩ := List.exists_cons_of_ne_nil hopen
  rw [hstart, next.eval_frame _ _ hkeeps]
  rcases heval : next.eval ⟨left, []⟩ with ⟨_ | r, post, own⟩
  · rfl
  · have hclosed : own = [] := by
      have hown := hkeeps.closed (congrArg Prod.fst heval)
      rwa [heval] at hown
    rw [hclosed]
    rfl

/-- **After a closure that was run safely**, a provider is as good as a new one over the state that
the closure left, if the closure left no transaction open. One that did, by panicking within it,
makes the next `execute_with_mut` panic. -/
theorem executeWithMut_after_safe {Q : Type} (execute : Closure K V Q) {next : Closure K V R}
    {s : Store K V} (hkeeps : next.Keeps ⟨(execute.meaning s).2, []⟩) :
    (executeWithMut I P drain next version (executeWithSafe I execute (new I s)).2).1 =
      if (execute.eval ⟨s, []⟩).2.saved = [] then
        (executeWithMut I P drain next version (new I (execute.meaning s).2)).1
      else .panic := by
  obtain ⟨hleft, -⟩ := executeWithSafe_cases (I := I) execute (new I s)
  rw [savepoints_new] at hleft
  have hpost : (execute.eval ⟨s, []⟩).2 =
      ⟨(execute.meaning s).2, (execute.eval ⟨s, []⟩).2.saved⟩ := rfl
  rw [executeWithMut_fst, executeWithMut_fst, hleft, savepoints_new]
  split_ifs with hclosed
  · rw [hpost, hclosed]
  · rw [hpost]
    exact concluded_of_open hkeeps hclosed

/-! ## A closure with a transaction of its own -/

/-- A key is counted up, and counted up again in a transaction that is rolled back. -/
def countOnce : Closure ℕ ℕ (Option ℕ) :=
  .get 0 fun n ↦ .place 0 (some (n.getD 0 + 1)) <| .start <| .place 0 (some 7) <| .rollback fun _ ↦
    .get 0 fun n ↦ .ret n

def countedOnce (s : Store ℕ ℕ) : Option ℕ × Store ℕ ℕ :=
  (some ((s 0).getD 0 + 1), Function.update s 0 (some ((s 0).getD 0 + 1)))

/-- A chain whose state is a store, and whose root is what is under key 0. -/
def storeChain : Primitives (Store ℕ ℕ) := .reference (fun s ↦ (s 0).getD 0) fun s _ ↦ s

theorem externalities_refine_countOnce :
    let s : Store ℕ ℕ := fun _ ↦ none
    let p := new (Layers.overlay ℕ ℕ) s
    let H := Host.reference storeChain
    (executeWith (ε := InnerError) (Layers.overlay ℕ ℕ) countOnce p).1 = .ok (some 1) ∧
      (Builder.executeWithMut storeChain H none countedOnce .v1 s
          { chain := Chain.genesis storeChain s }).1 =
        (mapErr (.externalitiesExecution none) (executeWithMut (Layers.overlay ℕ ℕ) storeChain
          H.drainStorageChanges countOnce .v1) p).1 := by
  have hkeeps : countOnce.Keeps ⟨fun _ ↦ none, []⟩ := by
    simp [countOnce, Closure.Keeps, Savepoints.write, Savepoints.start, Savepoints.rollback]
  have hmeaning : countOnce.meaning (fun _ ↦ none) =
      (some (countedOnce fun _ ↦ none).1, (countedOnce fun _ ↦ none).2) := by
    simp [countOnce, Closure.meaning, Closure.eval, countedOnce, Savepoints.write,
      Savepoints.start, Savepoints.rollback]
  exact externalities_refine hkeeps hmeaning rfl none _

/-- A key is written in a transaction, and then the closure panics. -/
def panicWithin : Closure ℕ ℕ Unit := .start <| .place 0 (some 7) .panic

/-- The panic is caught, and the next closure panics in its place. -/
theorem executeWithMut_after_safe_panicWithin :
    let I := Layers.overlay ℕ ℕ
    let p := (executeWithSafe I panicWithin (new I fun _ ↦ none)).2
    (executeWithSafe I panicWithin (new I fun _ ↦ none)).1.isPanic = false ∧
      (executeWithMut I storeChain (fun _ ↦ .ok ()) countOnce .v1 p).1 = .panic := by
  have hkeeps : countOnce.Keeps ⟨(panicWithin.meaning fun _ ↦ none).2, []⟩ := by
    simp [countOnce, Closure.Keeps, Savepoints.write, Savepoints.start, Savepoints.rollback]
  exact ⟨rfl, (executeWithMut_after_safe panicWithin hkeeps).trans (if_neg (List.cons_ne_nil _ _))⟩

end ExternalitiesProvider

end Fudge
