import Fudge.Call.Blind
import Fudge.Core.Builder

/-!
# Appended transitions

`append_transition` puts a pair into the cache of the core builder. Nothing else in the core builder
reads that cache or writes it: every other call is blind to it.
-/

namespace Fudge

namespace Builder

open Call

variable {S R : Type} {P : Primitives S} {H : Host S}

def setCache (l : List StoragePair) (b : Builder S) : Builder S := { b with cache := l }

/-! ## Reading -/

theorem ask_blind {δ α : Type} (q : Chain S → Except δ α) (mk : δ → Error) :
    Blind setCache (ask q mk : Call (Builder S) Error α) :=
  Blind.query mk fun _ _ ↦ rfl

theorem latestBlock_blind : Blind setCache (latestBlock : Call (Builder S) Error Hash) :=
  Blind.read fun _ _ ↦ rfl

theorem latestHeader_blind : Blind setCache (latestHeader H) :=
  Blind.bind latestBlock_blind fun _ ↦ Blind.bind (ask_blind _ _) fun _ ↦ Blind.require _ _

theorem getBlockHash_blind (at_ : BlockId) : Blind setCache (getBlockHash H at_) := by
  cases at_ with
  | hash h => exact Blind.pure h
  | number n => exact Blind.bind (ask_blind _ _) fun _ ↦ Blind.require _ _

theorem getBlockHeader_blind (at_ : BlockId) : Blind setCache (getBlockHeader H at_) :=
  Blind.bind (getBlockHash_blind at_) fun _ ↦ Blind.bind (ask_blind _ _) fun _ ↦ Blind.require _ _

theorem openState_blind (at_ : Option BlockId) : Blind setCache (openState H at_) := by
  have htarget : Blind setCache (targetHash H at_) := by
    cases at_ with
    | none => exact latestBlock_blind
    | some id => exact getBlockHash_blind id
  exact Blind.bind htarget fun _ ↦ Blind.bind (ask_blind _ _) fun _ ↦ Blind.pure _

theorem dryRun_blind (at_ : Option BlockId) (exec : S → R × S) :
    Blind setCache (dryRun H at_ exec) :=
  Blind.bind (openState_blind at_) fun _ ↦ Blind.pure _

theorem latestCode_blind : Blind setCache (latestCode P H) :=
  Blind.bind (dryRun_blind none _) fun _ ↦ Blind.require _ _

theorem stateVersion_blind : Blind setCache (stateVersion P H) :=
  Blind.bind latestCode_blind fun _ ↦ ask_blind _ _

/-! ## Mutating -/

theorem executeWithMut_blind (id : Option BlockId) (exec : S → R × S) (version : StateVersion)
    (s : S) : Blind setCache (executeWithMut P H id exec version s) :=
  Blind.bind (ask_blind _ _) fun _ ↦ Blind.bind (ask_blind _ _) fun _ ↦ Blind.pure _

theorem checkBestHashAndRevert_blind (n : ℕ) : Blind setCache (checkBestHashAndRevert H n) := by
  intro l b
  rw [checkBestHashAndRevert, checkBestHashAndRevert, setCache]
  split_ifs with hfinal
  · cases H.revert b.chain n with
    | ok c => rfl
    | error e => rfl
  · rfl

theorem updateOperation_blind (id : Option BlockId) (op : BlockImportOperation S)
    (changes : StorageChanges S) : Blind setCache (updateOperation H id op changes) :=
  Blind.bind (ask_blind _ _) fun _ ↦ Blind.bind (ask_blind _ _) fun _ ↦
    Blind.bind (ask_blind _ _) fun _ ↦ Blind.pure _

theorem setBlockData_blind (id : Option BlockId) (op : BlockImportOperation S)
    (block : PendingBlock) : Blind setCache (setBlockData H id op block) :=
  Blind.bind (ask_blind _ _) fun _ ↦ Blind.pure _

theorem mutateGenesis_blind (op : BlockImportOperation S) (s : S) (exec : S → R × S) :
    Blind setCache (mutateGenesis P H op s exec) :=
  Blind.bind stateVersion_blind fun _ ↦ Blind.bind (executeWithMut_blind _ _ _ _) fun _ ↦
    Blind.bind (updateOperation_blind _ _ _) fun _ ↦ Blind.bind stateVersion_blind fun _ ↦
      Blind.bind (setBlockData_blind _ _ _) fun _ ↦ Blind.pure _

theorem mutateNormal_blind (op : BlockImportOperation S) (changes : StorageChanges S)
    (at_ : BlockId) : Blind setCache (mutateNormal P H op changes at_) :=
  Blind.bind (getBlockHeader_blind at_) fun _ ↦ Blind.bind (updateOperation_blind _ _ _) fun _ ↦
    Blind.bind (ask_blind _ _) fun _ ↦ Blind.bind (ask_blind _ _) fun _ ↦
      Blind.bind (ask_blind _ _) fun _ ↦ setBlockData_blind _ _ _

theorem commitOperationAt_blind (at_ : BlockId) (op : BlockImportOperation S) :
    Blind setCache (commitOperationAt H at_ op) := by
  intro l b
  rw [commitOperationAt, commitOperationAt, setCache]
  cases H.commitOperation b.chain op with
  | ok c => rfl
  | error e => rfl

theorem mutate_blind (number : ℕ) (h : Hash) (s : S) (op : BlockImportOperation S)
    (exec : S → R × S) : Blind setCache (mutate P H number h s op exec) := by
  rw [mutate]
  split_ifs with hgenesis
  · exact mutateGenesis_blind _ _ _
  · exact Blind.bind (checkBestHashAndRevert_blind 1) fun _ ↦ Blind.bind stateVersion_blind fun _ ↦
      Blind.bind (executeWithMut_blind _ _ _ _) fun _ ↦ Blind.bind (mutateNormal_blind _ _ _)
        fun _ ↦ Blind.pure _

theorem beginCommit_blind (at_ : Option BlockId) : Blind setCache (beginCommit H at_) :=
  Blind.bind (openState_blind at_) fun _ ↦ Blind.bind (ask_blind _ _) fun _ ↦
    Blind.bind (ask_blind _ _) fun _ ↦ Blind.bind (ask_blind _ _) fun _ ↦
      Blind.bind (Blind.require _ _) fun _ ↦ Blind.pure _

theorem commit_blind (at_ : Option BlockId) (exec : S → R × S) :
    Blind setCache (commit P H at_ exec) :=
  Blind.bind (beginCommit_blind at_) fun _ ↦ Blind.bind (mutate_blind _ _ _ _ _) fun _ ↦
    Blind.bind (commitOperationAt_blind _ _) fun _ ↦ Blind.pure _

/-- **No `with_state` looks at the cache**, and none writes it to the chain. -/
theorem withState_blind (op : Operation) (at_ : Option BlockId) (exec : S → R × S) :
    Blind setCache (withState P H op at_ exec) := by
  cases op with
  | commit => exact commit_blind at_ exec
  | dryRun => exact dryRun_blind at_ exec

/-! ## Extrinsics, blocks and imports -/

theorem appendExtrinsic_blind (xt : Extrinsic) : Blind setCache (appendExtrinsic H xt) :=
  Blind.bind (ask_blind _ _) fun _ ↦ Blind.bind (Blind.modify fun _ _ ↦ rfl) fun _ ↦ Blind.pure _

theorem proposeBlock_blind {ε : Type} (coreBuilder : Error → ε)
    (inherentDataProvidersCreation inherentDataCreation digestCreation : InnerError → ε) :
    Blind setCache (proposeBlock P H coreBuilder inherentDataProvidersCreation inherentDataCreation
      digestCreation) :=
  Blind.bind (Blind.mapErr latestBlock_blind) fun _ ↦
    Blind.bind (Blind.mapErr (withState_blind _ _ _)) fun _ ↦
      Blind.bind (Blind.query _ fun _ _ ↦ rfl) fun _ ↦
        Blind.bind (Blind.query _ fun _ _ ↦ rfl) fun _ ↦
          Blind.bind (Blind.mapErr latestHeader_blind) fun _ ↦
            Blind.bind (Blind.mapErr (withState_blind _ _ _)) fun _ ↦
              Blind.bind (Blind.query _ fun _ _ ↦ rfl) fun _ ↦
                Blind.mapErr (Blind.bind latestBlock_blind fun _ ↦
                  Blind.bind (getBlockHeader_blind _) fun _ ↦ Blind.bind (ask_blind _ _) fun _ ↦
                    Blind.query _ fun _ _ ↦ rfl)

theorem importBlock_blind (params : BlockImportParams) : Blind setCache (importBlock H params) := by
  have hclient : Blind setCache (clientImport H params) := by
    intro l b
    rw [clientImport, clientImport, setCache]
    rcases H.importBlock b.chain params with ⟨_ | _, c⟩ <;> rfl
  have hmaintain : ∀ event,
      Blind setCache (maintain event : Call (Builder S) Error Unit) :=
    fun _ ↦ Blind.modify fun _ _ ↦ rfl
  refine Blind.bind latestBlock_blind fun prevHash ↦ Blind.bind hclient fun result ↦ ?_
  rw [maintainPool]
  split_ifs with himported
  · exact Blind.bind latestBlock_blind fun _ ↦ Blind.bind (hmaintain _) fun _ ↦ hmaintain _
  · exact Blind.pure ()

end Builder

end Fudge
