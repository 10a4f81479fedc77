import Fudge.Relay.Steps

/-!
# The assertions of the relay chain builder

`build_block` and `with_mut_state` assert that no block is pending; no other call of the builder
asserts anything. `Idle` is the state in which both assertions hold. An import makes the builder
idle before it does anything that may fail, so it leaves it idle however it ends; a block that was
built is the only thing that makes it busy.
-/

namespace Fudge

open Call

/-- No collator panics. -/
structure CollationBuilder.Calm {κ W ε : Type} (C : CollationBuilder κ W ε) : Prop where
  collation : ∀ k pvd, NoPanic (C.collation k pvd)
  judge : ∀ k judgement, NoPanic (C.judge k judgement)

namespace RelayStorage

variable {ε : Type} {P : RelayPrimitives} {H : RelayHost}

theorem enact_noPanic (parent : Hash) (n : ℕ) (pvd : PersistedValidationData) (id : Id)
    (c : Collation) (hd : Header) :
    NoPanic (enact (ε := ε) P H parent n pvd id c hd) := by
  have hforce : NoPanic (forceEnact (ε := ε) P id) := by
    intro s
    rw [forceEnact]
    rcases P.includedValidationData id s with ⟨_ | _, _⟩ <;> rfl
  refine NoPanic.bind ?_ fun _ ↦ hforce
  exact NoPanic.bind (NoPanic.modify _) fun _ ↦
    NoPanic.bind (NoPanic.bind (NoPanic.query _ _) fun o ↦ NoPanic.require _ o) fun _ ↦
      NoPanic.bind (NoPanic.bind (NoPanic.read _) fun _ ↦ NoPanic.bind (NoPanic.require _ _) fun _ ↦
        NoPanic.require _ _) fun _ ↦
          NoPanic.bind (NoPanic.query _ _) fun _ ↦ NoPanic.modify _

end RelayStorage

namespace RelaychainBuilder

variable {κ ε R : Type} {P : RelayPrimitives} {H : RelayHost}

def Idle (r : RelaychainBuilder κ) : Prop := r.next = none

theorem core_noPanic {c : Call (Builder RelayStorage) Builder.Error R} (hc : NoPanic c) :
    NoPanic (core c : Call (RelaychainBuilder κ) (Error ε) R) :=
  NoPanic.mapErr (NoPanic.zoom hc)

theorem safe_of_keeps {c : Call (RelaychainBuilder κ) (Error ε) R} (hc : NoPanic c)
    (hnext : Keeps (fun r ↦ r.next) c) : Safe Idle c :=
  Safe.of_noPanic hc fun r hr ↦ (hnext r).trans hr

theorem assert_safe :
    Safe Idle (Call.assert (·.next.isNone) : Call (RelaychainBuilder κ) (Error ε) Unit) := by
  intro r hr
  have hnone : r.next.isNone = true := by rw [hr]; rfl
  rw [Call.assert, if_pos hnone]
  exact ⟨rfl, hr⟩

theorem withState_safe (exec : RelayStorage → R × RelayStorage) :
    Safe Idle (withState P H exec : Call (RelaychainBuilder κ) (Error ε) R) :=
  safe_of_keeps (core_noPanic (Builder.withState_noPanic _ _ _)) (withState_keeps exec)

theorem withMutState_safe (exec : RelayStorage → R × RelayStorage) :
    Safe Idle (withMutState P H exec : Call (RelaychainBuilder κ) (Error ε) R) :=
  Safe.seq assert_safe fun _ ↦ safe_of_keeps (core_noPanic (Builder.withState_noPanic _ _ _))
    (core_keeps fun _ _ ↦ rfl)

theorem appendExtrinsic_safe (xt : Extrinsic) :
    Safe Idle (appendExtrinsic H xt : Call (RelaychainBuilder κ) (Error ε) Hash) :=
  safe_of_keeps (core_noPanic (Builder.appendExtrinsic_noPanic xt)) (core_keeps fun _ _ ↦ rfl)

theorem persistedValidationData_safe (parent : Hash) (id : Id) :
    Safe Idle (persistedValidationData P H parent id :
      Call (RelaychainBuilder κ) (Error ε) PersistedValidationData) :=
  Safe.seq (safe_of_keeps (NoPanic.read _) (Keeps.read _)) fun _ ↦
    Safe.seq (withState_safe _) fun _ ↦
      Safe.seq (safe_of_keeps (NoPanic.query _ _) (Keeps.query _ _)) fun o ↦
        safe_of_keeps (NoPanic.require _ o) (Keeps.require _ o)

theorem collatorFor_safe (id : Id) :
    Safe Idle (collatorFor id : Call (RelaychainBuilder κ) (Error ε) (ℕ × κ)) :=
  safe_of_keeps (NoPanic.bind (NoPanic.read _) fun _ ↦ NoPanic.bind (NoPanic.require _ _) fun _ ↦
    NoPanic.bind (NoPanic.require _ _) fun _ ↦ NoPanic.pure _) (collatorFor_keeps id)

/-- **Building a block in an idle builder** does not panic, and leaves it idle unless it returns
`Ok`. -/
theorem buildBlock_stopsIn {r : RelaychainBuilder κ} (hr : Idle r) :
    StopsIn Idle (buildBlock P H : Call (RelaychainBuilder κ) (Error ε) Block) r := by
  have hpropose : Safe Idle (proposeBlock P H : Call (RelaychainBuilder κ) (Error ε) Proposal) :=
    safe_of_keeps (NoPanic.zoom (Builder.proposeBlock_noPanic _ _ _ _)) proposeBlock_keeps
  refine (assert_safe.stopsIn hr).bind fun _ t ht ↦ ?_
  refine (hpropose.stopsIn (assert_safe.ok hr ht)).bind fun proposal u _ ↦ ?_
  exact ⟨rfl, fun hno ↦ (by cases hno)⟩

/-- An import takes the pending block out first. -/
theorem importNext_idle (r : RelaychainBuilder κ) :
    (importNext H r : Outcome (Error ε) Header × _).1.isPanic = false ∧
      Idle (importNext H r : Outcome (Error ε) Header × _).2 := by
  have hrest : ∀ o : Option (Block × StorageProof), Safe Idle (do
      let q ← (Call.require .nextBlockNotFound o : Call (RelaychainBuilder κ) (Error ε) _)
      core (Builder.importBlock H.toHost
        { origin := .networkInitialSync, header := q.1.header, body := some q.1.extrinsics,
          finalized := true, forkChoice := some (.custom true) })
      Call.modify fun r ↦ { r with imports := r.imports ++ [(q.1, q.2)] }
      pure q.1.header) := by
    intro o
    exact Safe.seq (safe_of_keeps (NoPanic.require _ o) (Keeps.require _ o)) fun _ ↦
      Safe.seq (safe_of_keeps (core_noPanic (Builder.importBlock_noPanic _))
        (core_keeps fun _ _ ↦ rfl)) fun _ ↦
          Safe.seq (safe_of_keeps (NoPanic.modify _) (Keeps.modify fun _ ↦ rfl)) fun _ ↦
            safe_of_keeps (NoPanic.pure _) (Keeps.pure _)
  exact hrest r.next { r with next := none } rfl

end RelaychainBuilder

namespace World

open RelaychainBuilder (Error Idle)

variable {κ W ε R α : Type} {P : RelayPrimitives} {H : RelayHost} {C : CollationBuilder κ W ε}

def Idle (w : World κ W) : Prop := w.relay.Idle

theorem relayCall_safe {c : Call (RelaychainBuilder κ) (Error ε) α}
    (h : Safe RelaychainBuilder.Idle c) : Safe Idle (relayCall c : Call (World κ W) _ α) :=
  Safe.zoom (fun _ _ ↦ rfl) h

theorem safe_of_relay {c : Call (World κ W) ε α} (hc : NoPanic c)
    (hrelay : Keeps (fun w ↦ w.relay.next) c) : Safe Idle c :=
  Safe.of_noPanic hc fun w hw ↦ (hrelay w).trans hw

theorem enactCollation_safe (parent : Hash) (n : ℕ) (e : CollationEntry) :
    Safe Idle (enactCollation (ε := ε) P H parent n e : Call (World κ W) _ Unit) := by
  refine Safe.seq (relayCall_safe (RelaychainBuilder.persistedValidationData_safe parent e.id))
    fun pvd ↦ Safe.bind (relayCall_safe (RelaychainBuilder.withMutState_safe _)) ?_
  intro w mutation v hm hv
  -- what the mutation returns is what its closure returned, which did not panic
  have hpanic : mutation.2.isPanic = false := by
    obtain ⟨r, hr, -⟩ := zoom_eq_ok.mp hm
    obtain ⟨-, b, hb, -⟩ := RelaychainBuilder.withMutState_eq_ok hr
    obtain ⟨_, s, _, _, _, _, -, -, -, rfl, -⟩ := Builder.commit_eq_ok.mp hb
    exact RelayStorage.enact_noPanic parent n pvd e.id e.collation e.generationParent s
  rw [bind_of_ok (noteEnacted_apply e mutation.1 v)]
  refine ⟨hpanic, ?_⟩
  change Idle (if mutation.1 = true then v.note _ else v)
  split
  · exact hv
  · exact hv

theorem judge_safe (hC : C.Calm) (reg : ℕ) (k : κ) (e : CollationEntry) :
    Safe Idle (judge C reg k e) := by
  refine safe_of_relay (fun w ↦ ?_) fun w ↦ ?_
  · have hpanic := hC.judge k .approved w.collators
    rw [judge]
    rcases h : C.judge k .approved w.collators with ⟨_ | _ | _, v⟩
    · rfl
    · rfl
    · rw [h] at hpanic
      cases hpanic
  · rw [(judge_apply reg k e w).2]
    rfl

theorem enactAndJudge_safe (hC : C.Calm) (parent : Hash) (n : ℕ) (e : CollationEntry) :
    Safe Idle (enactAndJudge P H C parent n e) :=
  Safe.seq (enactCollation_safe parent n e) fun _ ↦
    Safe.seq (relayCall_safe (RelaychainBuilder.collatorFor_safe e.id)) fun q ↦
      judge_safe hC q.1 q.2 e

theorem poll_safe (hC : C.Calm) (reg : ℕ) (id : Id) (k : κ) (pvd : PersistedValidationData) :
    Safe Idle (poll C reg id k pvd) := by
  refine safe_of_relay (fun w ↦ ?_) fun w ↦ ?_
  · have hpanic := hC.collation k pvd w.collators
    rw [poll]
    rcases h : C.collation k pvd w.collators with ⟨_ | _ | _, v⟩
    · rfl
    · rfl
    · rw [h] at hpanic
      cases hpanic
  · change (poll C reg id k pvd w).2.relay.next = w.relay.next
    rw [poll]
    rcases C.collation k pvd w.collators with ⟨_ | _ | _, v⟩ <;> rfl

theorem collectFrom_safe (hC : C.Calm) (parent : Hash) (hd : Header) (q : (Id × κ) × ℕ) :
    Safe Idle (collectFrom P H C parent hd q) := by
  refine Safe.seq
    (relayCall_safe (RelaychainBuilder.persistedValidationData_safe parent q.1.1)) fun pvd ↦
      Safe.seq (poll_safe hC q.2 q.1.1 q.1.2 pvd) fun reply ↦ ?_
  cases reply with
  | none => exact safe_of_relay (NoPanic.pure _) (Keeps.pure _)
  | some c =>
    refine safe_of_relay (NoPanic.modify _) (Keeps.modify fun w ↦ ?_)
    rcases collect_cases hd q.2 q.1.1 c w with ⟨-, h⟩ | ⟨-, h⟩
    · rw [h]
    · rw [h]
      rfl

/-- **An import never panics and leaves the builder idle**, however it ends and whether or not a
block was pending. -/
theorem importBlock_idle (hC : C.Calm) (w : World κ W) :
    (importBlock P H C w).1.isPanic = false ∧ Idle (importBlock P H C w).2 := by
  have hread : ∀ {γ : Type} (f : World κ W → γ),
      Safe Idle (Call.read f : Call (World κ W) (Error ε) γ) :=
    fun f ↦ safe_of_relay (NoPanic.read _) (Keeps.read f)
  have henact : Safe Idle (forceEnactCollations P H C) :=
    Safe.seq (hread _) fun _ ↦ Safe.seq (hread _) fun _ ↦ Safe.seq (hread _) fun _ ↦
      Safe.seq (Safe.forEach (fun e ↦ enactAndJudge_safe hC _ _ e) _) fun _ ↦
        safe_of_relay (NoPanic.modify _) (Keeps.modify fun _ ↦ rfl)
  have hcollect : ∀ hd, Safe Idle (collectCollations P H C hd) := fun hd ↦
    Safe.seq (hread _) fun _ ↦ Safe.seq (hread _) fun _ ↦
      Safe.forEach (fun q ↦ collectFrom_safe hC _ hd q) _
  -- the slot is emptied first, so the mutations of the two loops find it empty
  obtain ⟨hpanic, hidle⟩ := RelaychainBuilder.importNext_idle (ε := ε) (H := H) w.relay
  rw [importBlock]
  rcases h : relayCall (ε := ε) (RelaychainBuilder.importNext H) w with ⟨hd | e | _, u⟩
  · rw [bind_of_ok h]
    have hu : Idle u := by
      obtain ⟨r, hr, rfl⟩ := zoom_eq_ok.mp h
      rw [hr] at hidle
      exact hidle
    exact Safe.seq henact (fun _ ↦ hcollect hd) u hu
  · rw [bind_of_err h]
    refine ⟨rfl, ?_⟩
    obtain ⟨-, rfl⟩ := Prod.mk.inj h
    exact hidle
  · obtain ⟨ho, -⟩ := Prod.mk.inj h
    rw [ho] at hpanic
    cases hpanic

end World

end Fudge
