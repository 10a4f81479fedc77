import Fudge.Core.Builder

/-!
# What a committing call reads and writes

Every step of `with_state(Commit)` but two only reads: the revert of the best block and the final
`commit_operation`. The first half of this file records that, as frames; the second half inverts a
committing call into the answers of the host that decide it.

The inversion is exact in both directions, which is what the error behaviour needs. Between the two
writes lie the runtime version lookup, the closure's transaction, three updates of the operation,
four reads and `set_block_data`; `Reimports` lists them, and the call loses the tip of the chain
precisely when the revert took effect and one of them fails.
-/

namespace Fudge

namespace Builder

open Call

variable {S R γ : Type} {P : Primitives S} {H : Host S} {f : Builder S → γ}

/-! ## Frames -/

theorem ask_keeps {δ α : Type} (q : Chain S → Except δ α) (mk : δ → Error) :
    Keeps f (ask q mk) := Keeps.query _ _

theorem getBlockHash_keeps (id : BlockId) : Keeps f (getBlockHash H id) := by
  cases id with
  | hash h => exact Keeps.pure h
  | number n => exact Keeps.bind (ask_keeps _ _) fun h ↦ Keeps.require _ h

theorem latestHeader_keeps : Keeps f (latestHeader H) :=
  Keeps.bind (Keeps.read _) fun _ ↦ Keeps.bind (ask_keeps _ _) fun hd ↦ Keeps.require _ hd

theorem getBlockHeader_keeps (id : BlockId) : Keeps f (getBlockHeader H id) :=
  Keeps.bind (getBlockHash_keeps id) fun _ ↦
    Keeps.bind (ask_keeps _ _) fun hd ↦ Keeps.require _ hd

theorem targetHash_keeps (at_ : Option BlockId) : Keeps f (targetHash H at_) := by
  cases at_ with
  | none => exact Keeps.read _
  | some id => exact getBlockHash_keeps id

theorem openState_keeps (at_ : Option BlockId) : Keeps f (openState H at_) :=
  Keeps.bind (targetHash_keeps at_) fun _ ↦ Keeps.bind (ask_keeps _ _) fun _ ↦ Keeps.pure _

theorem dryRun_keeps (at_ : Option BlockId) (exec : S → R × S) : Keeps f (dryRun H at_ exec) :=
  Keeps.bind (openState_keeps at_) fun _ ↦ Keeps.pure _

theorem withState_dryRun_keeps (at_ : Option BlockId) (exec : S → R × S) :
    Keeps f (withState P H .dryRun at_ exec) := dryRun_keeps at_ exec

theorem latestCode_keeps : Keeps f (latestCode P H) :=
  Keeps.bind (dryRun_keeps _ _) fun code ↦ Keeps.require _ code

theorem stateVersion_keeps : Keeps f (stateVersion P H) :=
  Keeps.bind latestCode_keeps fun _ ↦ ask_keeps _ _

theorem executeWithMut_keeps (id : Option BlockId) (exec : S → R × S) (v : StateVersion) (s : S) :
    Keeps f (executeWithMut P H id exec v s) :=
  Keeps.bind (ask_keeps _ _) fun _ ↦ Keeps.bind (ask_keeps _ _) fun _ ↦ Keeps.pure _

theorem updateOperation_keeps (id : Option BlockId) (op : BlockImportOperation S)
    (changes : StorageChanges S) : Keeps f (updateOperation H id op changes) :=
  Keeps.bind (ask_keeps _ _) fun _ ↦ Keeps.bind (ask_keeps _ _) fun _ ↦
    Keeps.bind (ask_keeps _ _) fun _ ↦ Keeps.pure _

theorem setBlockData_keeps (id : Option BlockId) (op : BlockImportOperation S)
    (block : PendingBlock) : Keeps f (setBlockData H id op block) :=
  Keeps.bind (ask_keeps _ _) fun _ ↦ Keeps.pure _

theorem mutateGenesis_keeps (op : BlockImportOperation S) (s : S) (exec : S → R × S) :
    Keeps f (mutateGenesis P H op s exec) :=
  Keeps.bind stateVersion_keeps fun _ ↦ Keeps.bind (executeWithMut_keeps _ _ _ _) fun _ ↦
    Keeps.bind (updateOperation_keeps _ _ _) fun _ ↦ Keeps.bind stateVersion_keeps fun _ ↦
      Keeps.bind (setBlockData_keeps _ _ _) fun _ ↦ Keeps.pure _

theorem mutateNormal_keeps (op : BlockImportOperation S) (changes : StorageChanges S)
    (id : BlockId) : Keeps f (mutateNormal P H op changes id) :=
  Keeps.bind (getBlockHeader_keeps id) fun _ ↦ Keeps.bind (updateOperation_keeps _ _ _) fun _ ↦
    Keeps.bind (ask_keeps _ _) fun _ ↦ Keeps.bind (ask_keeps _ _) fun _ ↦
      Keeps.bind (ask_keeps _ _) fun _ ↦ setBlockData_keeps _ _ _

theorem rebuild_keeps (h : Hash) (s : S) (op : BlockImportOperation S) (exec : S → R × S) :
    Keeps f (rebuild P H h s op exec) :=
  Keeps.bind stateVersion_keeps fun _ ↦ Keeps.bind (executeWithMut_keeps _ _ _ _) fun _ ↦
    Keeps.bind (mutateNormal_keeps _ _ _) fun _ ↦ Keeps.pure _

theorem beginCommit_keeps (at_ : Option BlockId) : Keeps f (beginCommit H at_) :=
  Keeps.bind (openState_keeps at_) fun _ ↦ Keeps.bind (ask_keeps _ _) fun _ ↦
    Keeps.bind (ask_keeps _ _) fun _ ↦ Keeps.bind (ask_keeps _ _) fun number ↦
      Keeps.bind (Keeps.require _ number) fun _ ↦ Keeps.pure _

/-! ## No step panics -/

theorem getBlockHash_noPanic (id : BlockId) : NoPanic (getBlockHash H id) := by
  cases id with
  | hash h => exact NoPanic.pure h
  | number n => exact NoPanic.bind (NoPanic.query _ _) fun o ↦ NoPanic.require _ o

theorem latestHeader_noPanic : NoPanic (latestHeader H) :=
  NoPanic.bind (NoPanic.read _) fun _ ↦ NoPanic.bind (NoPanic.query _ _) fun o ↦ NoPanic.require _ o

theorem getBlockHeader_noPanic (id : BlockId) : NoPanic (getBlockHeader H id) :=
  NoPanic.bind (getBlockHash_noPanic id) fun _ ↦
    NoPanic.bind (NoPanic.query _ _) fun o ↦ NoPanic.require _ o

theorem openState_noPanic (at_ : Option BlockId) : NoPanic (openState H at_) := by
  have target_noPanic : NoPanic (targetHash H at_) := by
    cases at_ with
    | none => exact NoPanic.read _
    | some id => exact getBlockHash_noPanic id
  exact NoPanic.bind target_noPanic fun _ ↦ NoPanic.bind (NoPanic.query _ _) fun _ ↦ NoPanic.pure _

theorem dryRun_noPanic (at_ : Option BlockId) (exec : S → R × S) : NoPanic (dryRun H at_ exec) :=
  NoPanic.bind (openState_noPanic at_) fun _ ↦ NoPanic.pure _

theorem latestCode_noPanic : NoPanic (latestCode P H) :=
  NoPanic.bind (dryRun_noPanic _ _) fun o ↦ NoPanic.require _ o

theorem beginCommit_noPanic (at_ : Option BlockId) : NoPanic (beginCommit H at_) :=
  NoPanic.bind (openState_noPanic at_) fun _ ↦ NoPanic.bind (NoPanic.query _ _) fun _ ↦
    NoPanic.bind (NoPanic.query _ _) fun _ ↦ NoPanic.bind (NoPanic.query _ _) fun o ↦
      NoPanic.bind (NoPanic.require _ o) fun _ ↦ NoPanic.pure _

theorem stateVersion_noPanic : NoPanic (stateVersion P H) :=
  NoPanic.bind latestCode_noPanic fun _ ↦ NoPanic.query _ _

theorem executeWithMut_noPanic (id : Option BlockId) (exec : S → R × S) (v : StateVersion)
    (s : S) : NoPanic (executeWithMut P H id exec v s) :=
  NoPanic.bind (NoPanic.query _ _) fun _ ↦ NoPanic.bind (NoPanic.query _ _) fun _ ↦ NoPanic.pure _

theorem updateOperation_noPanic (id : Option BlockId) (op : BlockImportOperation S)
    (changes : StorageChanges S) : NoPanic (updateOperation H id op changes) :=
  NoPanic.bind (NoPanic.query _ _) fun _ ↦ NoPanic.bind (NoPanic.query _ _) fun _ ↦
    NoPanic.bind (NoPanic.query _ _) fun _ ↦ NoPanic.pure _

theorem setBlockData_noPanic (id : Option BlockId) (op : BlockImportOperation S)
    (block : PendingBlock) : NoPanic (setBlockData H id op block) :=
  NoPanic.bind (NoPanic.query _ _) fun _ ↦ NoPanic.pure _

theorem rebuild_noPanic (h : Hash) (s : S) (op : BlockImportOperation S) (exec : S → R × S) :
    NoPanic (rebuild P H h s op exec) := by
  have normal_noPanic : ∀ op changes, NoPanic (mutateNormal P H op changes (.hash h)) :=
    fun _ _ ↦ NoPanic.bind (getBlockHeader_noPanic _) fun _ ↦
      NoPanic.bind (updateOperation_noPanic _ _ _) fun _ ↦
        NoPanic.bind (NoPanic.query _ _) fun _ ↦ NoPanic.bind (NoPanic.query _ _) fun _ ↦
          NoPanic.bind (NoPanic.query _ _) fun _ ↦ setBlockData_noPanic _ _ _
  exact NoPanic.bind stateVersion_noPanic fun _ ↦
    NoPanic.bind (executeWithMut_noPanic _ _ _ _) fun _ ↦
      NoPanic.bind (normal_noPanic _ _) fun _ ↦ NoPanic.pure _

theorem mutateGenesis_noPanic (op : BlockImportOperation S) (s : S) (exec : S → R × S) :
    NoPanic (mutateGenesis P H op s exec) :=
  NoPanic.bind stateVersion_noPanic fun _ ↦ NoPanic.bind (executeWithMut_noPanic _ _ _ _) fun _ ↦
    NoPanic.bind (updateOperation_noPanic _ _ _) fun _ ↦ NoPanic.bind stateVersion_noPanic fun _ ↦
      NoPanic.bind (setBlockData_noPanic _ _ _) fun _ ↦ NoPanic.pure _

theorem checkBestHashAndRevert_noPanic (n : ℕ) : NoPanic (checkBestHashAndRevert H n) := by
  intro b
  rw [checkBestHashAndRevert]
  by_cases hf : b.chain.bestHash = b.chain.finalizedHash
  · rw [if_pos hf]
    cases H.revert b.chain n <;> rfl
  · rw [if_neg hf]
    rfl

theorem commitOperation_noPanic (h : Hash) (op : BlockImportOperation S) :
    NoPanic (commitOperation H h op) := by
  intro b
  rw [commitOperation]
  cases H.commitOperation b.chain op <;> rfl

theorem commit_noPanic (at_ : Option BlockId) (exec : S → R × S) :
    NoPanic (commit P H at_ exec) := by
  have mutate_noPanic : ∀ n h s op, NoPanic (mutate P H n h s op exec) := by
    intro n h s op
    rw [mutate]
    by_cases hn : n = 0
    · rw [if_pos hn]
      exact mutateGenesis_noPanic _ _ _
    · rw [if_neg hn]
      exact NoPanic.bind (checkBestHashAndRevert_noPanic 1) fun _ ↦ rebuild_noPanic _ _ _ _
  exact NoPanic.bind (beginCommit_noPanic at_) fun _ ↦ NoPanic.bind (mutate_noPanic _ _ _ _)
    fun _ ↦ NoPanic.bind (commitOperation_noPanic _ _) fun _ ↦ NoPanic.pure _

theorem withState_noPanic (op : Operation) (at_ : Option BlockId) (exec : S → R × S) :
    NoPanic (withState P H op at_ exec) := by
  cases op with
  | commit => exact commit_noPanic at_ exec
  | dryRun => exact dryRun_noPanic at_ exec

/-! ## The answers a successful call rests on -/

theorem ask_eq_ok {δ α : Type} {q : Chain S → Except δ α} {mk : δ → Error} {b b' : Builder S}
    {a : α} : ask q mk b = (.ok a, b') ↔ q b.chain = .ok a ∧ b' = b :=
  query_eq_ok

def Resolves (H : Host S) (c : Chain S) : Option BlockId → Hash → Prop
  | none, h => h = c.bestHash
  | some (.hash h'), h => h = h'
  | some (.number n), h => H.hash c n = .ok (some h)

/-- The state version declared by the code of the best block. -/
def DeclaresVersion (P : Primitives S) (H : Host S) (c : Chain S) (v : StateVersion) : Prop :=
  ∃ s code, H.stateAt c c.bestHash = .ok s ∧ P.code s = some code ∧ H.runtimeVersion code = .ok v

theorem getBlockHash_eq_ok {id : BlockId} {b b' : Builder S} {h : Hash} :
    getBlockHash H id b = (.ok h, b') ↔ Resolves H b.chain (some id) h ∧ b' = b := by
  cases id with
  | hash h' =>
    change (Outcome.ok h', b) = (.ok h, b') ↔ h = h' ∧ b' = b
    rw [Prod.mk.injEq, Outcome.ok.injEq, eq_comm, @eq_comm _ b]
  | number n =>
    rw [getBlockHash, bind_eq_ok]
    constructor
    · rintro ⟨o, t, ho, hr⟩
      obtain ⟨ho, rfl⟩ := ask_eq_ok.mp ho
      obtain ⟨rfl, rfl⟩ := require_eq_ok.mp hr
      exact ⟨ho, rfl⟩
    · rintro ⟨ho, rfl⟩
      exact ⟨some h, b', ask_eq_ok.mpr ⟨ho, rfl⟩, require_eq_ok.mpr ⟨rfl, rfl⟩⟩

theorem getBlockHeader_eq_ok {h : Hash} {b b' : Builder S} {hd : Header} :
    getBlockHeader H (.hash h) b = (.ok hd, b') ↔ H.header b.chain h = .ok (some hd) ∧ b' = b := by
  rw [getBlockHeader, bind_eq_ok]
  constructor
  · rintro ⟨h', t, hh, ht⟩
    obtain ⟨rfl, rfl⟩ := getBlockHash_eq_ok.mp hh
    obtain ⟨o, u, ho, hr⟩ := bind_eq_ok.mp ht
    obtain ⟨ho, rfl⟩ := ask_eq_ok.mp ho
    obtain ⟨rfl, rfl⟩ := require_eq_ok.mp hr
    exact ⟨ho, rfl⟩
  · rintro ⟨ho, rfl⟩
    exact ⟨h, b', getBlockHash_eq_ok.mpr ⟨rfl, rfl⟩,
      bind_eq_ok.mpr ⟨some hd, b', ask_eq_ok.mpr ⟨ho, rfl⟩, require_eq_ok.mpr ⟨rfl, rfl⟩⟩⟩

theorem latestHeader_eq_ok {b b' : Builder S} {hd : Header} :
    latestHeader H b = (.ok hd, b') ↔
      H.header b.chain b.chain.bestHash = .ok (some hd) ∧ b' = b := by
  rw [latestHeader]
  simp only [bind_eq_ok, latestBlock, read_apply, ask_eq_ok, require_eq_ok, Prod.mk.injEq,
    Outcome.ok.injEq]
  constructor
  · rintro ⟨_, _, ⟨rfl, rfl⟩, _, _, ⟨hhd, rfl⟩, rfl, rfl⟩
    exact ⟨hhd, rfl⟩
  · rintro ⟨hhd, rfl⟩
    exact ⟨_, b', ⟨rfl, rfl⟩, some hd, b', ⟨hhd, rfl⟩, rfl, rfl⟩

theorem targetHash_eq_ok {at_ : Option BlockId} {b b' : Builder S} {h : Hash} :
    targetHash H at_ b = (.ok h, b') ↔ Resolves H b.chain at_ h ∧ b' = b := by
  cases at_ with
  | none =>
    change (Outcome.ok b.chain.bestHash, b) = (.ok h, b') ↔ h = b.chain.bestHash ∧ b' = b
    rw [Prod.mk.injEq, Outcome.ok.injEq, eq_comm, @eq_comm _ b]
  | some id => exact getBlockHash_eq_ok

theorem openState_eq_ok {at_ : Option BlockId} {b b' : Builder S} {q : Hash × S} :
    openState H at_ b = (.ok q, b') ↔
      Resolves H b.chain at_ q.1 ∧ H.stateAt b.chain q.1 = .ok q.2 ∧ b' = b := by
  rw [openState, bind_eq_ok]
  constructor
  · rintro ⟨h, t, hh, ht⟩
    obtain ⟨hres, rfl⟩ := targetHash_eq_ok.mp hh
    obtain ⟨s, u, hs, hp⟩ := bind_eq_ok.mp ht
    obtain ⟨hs, rfl⟩ := ask_eq_ok.mp hs
    obtain ⟨rfl, rfl⟩ : (h, s) = q ∧ u = b' := by simpa using hp
    exact ⟨hres, hs, rfl⟩
  · rintro ⟨hres, hs, rfl⟩
    exact ⟨q.1, b', targetHash_eq_ok.mpr ⟨hres, rfl⟩,
      bind_eq_ok.mpr ⟨q.2, b', ask_eq_ok.mpr ⟨hs, rfl⟩, rfl⟩⟩

theorem dryRun_eq_ok {at_ : Option BlockId} {exec : S → R × S} {b b' : Builder S} {r : R} :
    dryRun H at_ exec b = (.ok r, b') ↔ ∃ h s, Resolves H b.chain at_ h ∧
      H.stateAt b.chain h = .ok s ∧ (exec s).1 = r ∧ b' = b := by
  rw [dryRun, bind_eq_ok]
  constructor
  · rintro ⟨⟨h, s⟩, t, ho, hp⟩
    obtain ⟨hres, hs, rfl⟩ := openState_eq_ok.mp ho
    obtain ⟨rfl, rfl⟩ : (exec s).1 = r ∧ t = b' := by simpa using hp
    exact ⟨h, s, hres, hs, rfl, rfl⟩
  · rintro ⟨h, s, hres, hs, rfl, rfl⟩
    exact ⟨(h, s), b', openState_eq_ok.mpr ⟨hres, hs, rfl⟩, rfl⟩

theorem stateVersion_eq_ok {b b' : Builder S} {v : StateVersion} :
    stateVersion P H b = (.ok v, b') ↔ DeclaresVersion P H b.chain v ∧ b' = b := by
  rw [stateVersion, bind_eq_ok]
  constructor
  · rintro ⟨code, t, hc, hv⟩
    obtain ⟨o, u, hd, hr⟩ := bind_eq_ok.mp hc
    obtain ⟨h, s, rfl, hs, ho, rfl⟩ := dryRun_eq_ok.mp hd
    obtain ⟨rfl, rfl⟩ := require_eq_ok.mp hr
    obtain ⟨hver, rfl⟩ := ask_eq_ok.mp hv
    exact ⟨⟨s, code, hs, ho, hver⟩, rfl⟩
  · rintro ⟨⟨s, code, hs, ho, hv⟩, rfl⟩
    exact ⟨code, b', bind_eq_ok.mpr ⟨some code, b',
      dryRun_eq_ok.mpr ⟨_, s, rfl, hs, ho, rfl⟩, require_eq_ok.mpr ⟨rfl, rfl⟩⟩,
      ask_eq_ok.mpr ⟨hv, rfl⟩⟩

theorem executeWithMut_eq_ok {id : Option BlockId} {exec : S → R × S} {v : StateVersion} {s : S}
    {b b' : Builder S} {q : R × StorageChanges S} :
    executeWithMut P H id exec v s b = (.ok q, b') ↔
      H.storageCommitTransaction (exec s).2 = .ok () ∧ H.drainStorageChanges (exec s).2 = .ok () ∧
        q = ((exec s).1, ⟨(exec s).2, P.storageRoot v (exec s).2⟩) ∧ b' = b := by
  rw [executeWithMut]
  simp only [bind_eq_ok, ask_eq_ok, pure_apply, Prod.mk.injEq, Outcome.ok.injEq]
  constructor
  · rintro ⟨_, _, ⟨h₁, rfl⟩, _, _, ⟨h₂, rfl⟩, rfl, rfl⟩
    exact ⟨h₁, h₂, rfl, rfl⟩
  · rintro ⟨h₁, h₂, rfl, rfl⟩
    exact ⟨(), b', ⟨h₁, rfl⟩, (), b', ⟨h₂, rfl⟩, rfl, rfl⟩

/-- The host accepts the three storage updates of an operation. -/
def AcceptsUpdates (H : Host S) (s : S) : Prop :=
  H.updateDbStorage s = .ok () ∧ H.updateStorage s = .ok () ∧ H.updateTransactionIndex s = .ok ()

theorem updateOperation_eq_ok {id : Option BlockId} {op op' : BlockImportOperation S}
    {changes : StorageChanges S} {b b' : Builder S} :
    updateOperation H id op changes b = (.ok op', b') ↔ AcceptsUpdates H changes.post ∧
      op' = { op with dbStorage := some changes.post, storage := some changes.post } ∧
      b' = b := by
  rw [updateOperation]
  simp only [bind_eq_ok, ask_eq_ok, pure_apply, Prod.mk.injEq, Outcome.ok.injEq, AcceptsUpdates]
  constructor
  · rintro ⟨_, _, ⟨h₁, rfl⟩, _, _, ⟨h₂, rfl⟩, _, _, ⟨h₃, rfl⟩, rfl, rfl⟩
    exact ⟨⟨h₁, h₂, h₃⟩, rfl, rfl⟩
  · rintro ⟨⟨h₁, h₂, h₃⟩, rfl, rfl⟩
    exact ⟨(), b', ⟨h₁, rfl⟩, (), b', ⟨h₂, rfl⟩, (), b', ⟨h₃, rfl⟩, rfl, rfl⟩

theorem setBlockData_eq_ok {id : Option BlockId} {op op' : BlockImportOperation S}
    {block : PendingBlock} {b b' : Builder S} :
    setBlockData H id op block b = (.ok op', b') ↔
      H.setBlockData block = .ok () ∧ op' = { op with block := some block } ∧ b' = b := by
  rw [setBlockData]
  simp only [bind_eq_ok, ask_eq_ok, pure_apply, Prod.mk.injEq, Outcome.ok.injEq]
  constructor
  · rintro ⟨_, _, ⟨h, rfl⟩, rfl, rfl⟩
    exact ⟨h, rfl, rfl⟩
  · rintro ⟨h, rfl, rfl⟩
    exact ⟨(), b', ⟨h, rfl⟩, rfl, rfl⟩

def ReadsContents (H : Host S) (c : Chain S) (h : Hash) (ct : Contents) : Prop :=
  H.body c h = .ok ct.body ∧ H.blockIndexedBody c h = .ok ct.indexedBody ∧
    H.justifications c h = .ok ct.justifications

/-- The operation that imports `block` with the state `s` over the state of the block `h`. -/
def importOperation (h : Hash) (s : S) (block : PendingBlock) : BlockImportOperation S :=
  { oldState := some h, dbStorage := some s, storage := some s, block := some block }

/-- The block `hd` under a header with the root of `s`. -/
def remade (P : Primitives S) (v : StateVersion) (hd : Header) (s : S) (ct : Contents) :
    PendingBlock :=
  ⟨{ hd with stateRoot := P.storageRoot v s }, ct⟩

/-- The genesis block that `mutate_genesis` makes for the state `s`. -/
def remadeGenesis (P : Primitives S) (v : StateVersion) (s : S) : PendingBlock :=
  ⟨{ parentHash := 0, number := 0, stateRoot := P.storageRoot v s,
     extrinsicsRoot := P.emptyTrieRoot v, digest := [] }, ⟨some [], none, none⟩⟩

/-- What `rebuild` asks of the host, on the chain it finds after the revert. -/
def Rebuilds (P : Primitives S) (H : Host S) (c : Chain S) (h : Hash) (post : S)
    (block : PendingBlock) : Prop :=
  ∃ v hd ct, DeclaresVersion P H c v ∧ H.storageCommitTransaction post = .ok () ∧
    H.drainStorageChanges post = .ok () ∧ H.header c h = .ok (some hd) ∧ AcceptsUpdates H post ∧
    ReadsContents H c (P.hash hd) ct ∧ block = remade P v hd post ct ∧
    H.setBlockData block = .ok ()

/-- What `mutateGenesis` asks of the host. -/
def RebuildsGenesis (P : Primitives S) (H : Host S) (c : Chain S) (post : S)
    (block : PendingBlock) : Prop :=
  ∃ v, DeclaresVersion P H c v ∧ H.storageCommitTransaction post = .ok () ∧
    H.drainStorageChanges post = .ok () ∧ AcceptsUpdates H post ∧ block = remadeGenesis P v post ∧
    H.setBlockData block = .ok ()

theorem declaresVersion_unique {c : Chain S} {v w : StateVersion} (hv : DeclaresVersion P H c v)
    (hw : DeclaresVersion P H c w) : v = w := by
  obtain ⟨s, code, hs, hc, hv⟩ := hv
  obtain ⟨s', code', hs', hc', hw⟩ := hw
  rw [hs] at hs'
  cases hs'
  obtain rfl := Option.mem_unique hc hc'
  rw [hv] at hw
  cases hw
  rfl

theorem mutateNormal_eq_ok {op op' : BlockImportOperation S} {changes : StorageChanges S}
    {h : Hash} {b b' : Builder S} :
    mutateNormal P H op changes (.hash h) b = (.ok op', b') ↔
      ∃ hd ct, H.header b.chain h = .ok (some hd) ∧ AcceptsUpdates H changes.post ∧
        ReadsContents H b.chain (P.hash hd) ct ∧
        H.setBlockData ⟨{ hd with stateRoot := changes.root }, ct⟩ = .ok () ∧
        op' = { op with
          dbStorage := some changes.post, storage := some changes.post,
          block := some ⟨{ hd with stateRoot := changes.root }, ct⟩ } ∧ b' = b := by
  rw [mutateNormal]
  simp only [bind_eq_ok, getBlockHeader_eq_ok, updateOperation_eq_ok, ask_eq_ok,
    setBlockData_eq_ok]
  constructor
  · rintro ⟨hd, _, ⟨hhd, rfl⟩, _, _, ⟨hup, rfl, rfl⟩, body, _, ⟨hb, rfl⟩, ib, _, ⟨hi, rfl⟩, js, _,
      ⟨hj, rfl⟩, hset, rfl, rfl⟩
    exact ⟨hd, ⟨body, ib, js⟩, hhd, hup, ⟨hb, hi, hj⟩, hset, rfl, rfl⟩
  · rintro ⟨hd, ct, hhd, hup, ⟨hb, hi, hj⟩, hset, rfl, rfl⟩
    exact ⟨hd, b', ⟨hhd, rfl⟩, _, b', ⟨hup, rfl, rfl⟩, _, b', ⟨hb, rfl⟩, _, b', ⟨hi, rfl⟩, _, b',
      ⟨hj, rfl⟩, hset, rfl, rfl⟩

theorem rebuild_eq_ok {h : Hash} {s : S} {exec : S → R × S} {b b' : Builder S}
    {q : R × BlockImportOperation S} :
    rebuild P H h s { oldState := some h } exec b = (.ok q, b') ↔
      ∃ block, Rebuilds P H b.chain h (exec s).2 block ∧
        q = ((exec s).1, importOperation h (exec s).2 block) ∧ b' = b := by
  rw [rebuild]
  simp only [bind_eq_ok, stateVersion_eq_ok, executeWithMut_eq_ok, mutateNormal_eq_ok, pure_apply,
    Prod.mk.injEq, Outcome.ok.injEq]
  constructor
  · rintro ⟨v, _, ⟨hv, rfl⟩, _, _, ⟨hc, hdr, rfl, rfl⟩, _, _,
      ⟨hd, ct, hhd, hup, hct, hset, rfl, rfl⟩, rfl, rfl⟩
    exact ⟨_, ⟨v, hd, ct, hv, hc, hdr, hhd, hup, hct, rfl, hset⟩, rfl, rfl⟩
  · rintro ⟨_, ⟨v, hd, ct, hv, hc, hdr, hhd, hup, hct, rfl, hset⟩, rfl, rfl⟩
    exact ⟨v, b', ⟨hv, rfl⟩, _, b', ⟨hc, hdr, rfl, rfl⟩, _, b',
      ⟨hd, ct, hhd, hup, hct, hset, rfl, rfl⟩, rfl, rfl⟩

theorem mutateGenesis_eq_ok {h : Hash} {s : S} {exec : S → R × S} {b b' : Builder S}
    {q : R × BlockImportOperation S} :
    mutateGenesis P H { oldState := some h } s exec b = (.ok q, b') ↔
      ∃ block, RebuildsGenesis P H b.chain (exec s).2 block ∧
        q = ((exec s).1, importOperation h (exec s).2 block) ∧ b' = b := by
  rw [mutateGenesis]
  simp only [bind_eq_ok, stateVersion_eq_ok, executeWithMut_eq_ok, updateOperation_eq_ok,
    setBlockData_eq_ok, pure_apply, Prod.mk.injEq, Outcome.ok.injEq]
  constructor
  · rintro ⟨v, _, ⟨hv, rfl⟩, _, _, ⟨hc, hdr, rfl, rfl⟩, _, _, ⟨hup, rfl, rfl⟩, w, _, ⟨hw, rfl⟩,
      _, _, ⟨hset, rfl, rfl⟩, rfl, rfl⟩
    -- the version is asked for twice, of the same chain
    obtain rfl := declaresVersion_unique hv hw
    exact ⟨_, ⟨v, hv, hc, hdr, hup, rfl, hset⟩, rfl, rfl⟩
  · rintro ⟨_, ⟨v, hv, hc, hdr, hup, rfl, hset⟩, rfl, rfl⟩
    exact ⟨v, b', ⟨hv, rfl⟩, _, b', ⟨hc, hdr, rfl, rfl⟩, _, b', ⟨hup, rfl, rfl⟩, v, b', ⟨hv, rfl⟩,
      _, b', ⟨hset, rfl, rfl⟩, rfl, rfl⟩

/-- What `beginCommit` asks of the host. -/
def Opens (H : Host S) (c : Chain S) (at_ : Option BlockId) (h : Hash) (s : S) (number : ℕ) :
    Prop :=
  Resolves H c at_ h ∧ H.stateAt c h = .ok s ∧ H.beginOperation c = .ok () ∧
    H.beginStateOperation c h = .ok () ∧ H.blockNumberFromId c h = .ok (some number)

theorem beginCommit_eq_ok {at_ : Option BlockId} {b b' : Builder S} {q : Hash × S × ℕ} :
    beginCommit H at_ b = (.ok q, b') ↔ Opens H b.chain at_ q.1 q.2.1 q.2.2 ∧ b' = b := by
  rw [beginCommit]
  simp only [bind_eq_ok, openState_eq_ok, ask_eq_ok, require_eq_ok, pure_apply, Prod.mk.injEq,
    Outcome.ok.injEq, Opens]
  constructor
  · rintro ⟨⟨h, s⟩, _, ⟨hr, hs, rfl⟩, _, _, ⟨h₁, rfl⟩, _, _, ⟨h₂, rfl⟩, _, _, ⟨h₃, rfl⟩, n, _,
      ⟨rfl, rfl⟩, rfl, rfl⟩
    exact ⟨⟨hr, hs, h₁, h₂, h₃⟩, rfl⟩
  · rintro ⟨⟨hr, hs, h₁, h₂, h₃⟩, rfl⟩
    exact ⟨(q.1, q.2.1), b', ⟨hr, hs, rfl⟩, (), b', ⟨h₁, rfl⟩, (), b', ⟨h₂, rfl⟩, some q.2.2, b',
      ⟨h₃, rfl⟩, q.2.2, b', ⟨rfl, rfl⟩, rfl, rfl⟩

theorem commitOperation_eq_ok {h : Hash} {op : BlockImportOperation S} {b b' : Builder S}
    {u : Unit} : commitOperation H h op b = (.ok u, b') ↔
      ∃ c, H.commitOperation b.chain op = .ok c ∧ b' = { b with chain := c } := by
  rw [commitOperation]
  cases H.commitOperation b.chain op with
  | ok c =>
    constructor
    · intro h'
      exact ⟨c, rfl, (Prod.mk.inj h').2.symm⟩
    · rintro ⟨_, hc, rfl⟩
      cases hc
      rfl
  | error e => simp

theorem commitOperation_of_not_ok {h : Hash} {op : BlockImportOperation S} {b : Builder S}
    (hn : (commitOperation H h op b).1.isOk = false) : (commitOperation H h op b).2 = b := by
  rw [commitOperation] at hn ⊢
  cases hc : H.commitOperation b.chain op with
  | ok c =>
    rw [hc] at hn
    cases hn
  | error e => rfl

/-- The chain on which the normal path goes on: reverted by one block, or as it was. -/
def Unfinalizes (H : Host S) (c c' : Chain S) : Prop :=
  (c.bestHash = c.finalizedHash ∧ H.revert c 1 = .ok c') ∨
    (c.bestHash ≠ c.finalizedHash ∧ c' = c)

theorem checkBestHashAndRevert_eq_ok {b b' : Builder S} {u : Unit} :
    checkBestHashAndRevert H 1 b = (.ok u, b') ↔
      ∃ c, Unfinalizes H b.chain c ∧ b' = { b with chain := c } := by
  rw [checkBestHashAndRevert]
  by_cases hf : b.chain.bestHash = b.chain.finalizedHash
  · rw [if_pos hf]
    cases hr : H.revert b.chain 1 with
    | error e =>
      refine ⟨fun h ↦ (by cases h), ?_⟩
      rintro ⟨c, ⟨-, hc⟩ | ⟨hne, -⟩, -⟩
      · rw [hr] at hc
        cases hc
      · exact absurd hf hne
    | ok d =>
      constructor
      · intro h
        exact ⟨d, Or.inl ⟨hf, hr⟩, (Prod.mk.inj h).2.symm⟩
      · rintro ⟨c, ⟨-, hc⟩ | ⟨hne, -⟩, rfl⟩
        · rw [hr] at hc
          cases hc
          rfl
        · exact absurd hf hne
  · rw [if_neg hf]
    constructor
    · intro h
      exact ⟨b.chain, Or.inr ⟨hf, rfl⟩, (Prod.mk.inj h).2.symm⟩
    · rintro ⟨c, ⟨hf', -⟩ | ⟨-, rfl⟩, rfl⟩
      · exact absurd hf' hf
      · rfl

/-- The block a commit imports, and the chain on which it imports it. -/
def Prepares (P : Primitives S) (H : Host S) (c : Chain S) (number : ℕ) (h : Hash) (post : S)
    (d : Chain S) (block : PendingBlock) : Prop :=
  (number = 0 ∧ d = c ∧ RebuildsGenesis P H c post block) ∨
    (number ≠ 0 ∧ Unfinalizes H c d ∧ Rebuilds P H d h post block)

theorem mutate_eq_ok {number : ℕ} {h : Hash} {s : S} {exec : S → R × S} {b b' : Builder S}
    {q : R × BlockImportOperation S} :
    mutate P H number h s { oldState := some h } exec b = (.ok q, b') ↔
      ∃ d block, Prepares P H b.chain number h (exec s).2 d block ∧
        q = ((exec s).1, importOperation h (exec s).2 block) ∧ b' = { b with chain := d } := by
  rw [mutate]
  by_cases hn : number = 0
  · rw [if_pos hn, mutateGenesis_eq_ok]
    constructor
    · rintro ⟨block, hre, rfl, rfl⟩
      exact ⟨b'.chain, block, Or.inl ⟨hn, rfl, hre⟩, rfl, rfl⟩
    · rintro ⟨d, block, ⟨-, rfl, hre⟩ | ⟨hne, -⟩, rfl, rfl⟩
      · exact ⟨block, hre, rfl, rfl⟩
      · exact absurd hn hne
  · rw [if_neg hn, bind_eq_ok]
    -- the normal path: the revert first, then the new operation
    constructor
    · rintro ⟨_, t, hr, hq⟩
      obtain ⟨d, hd, rfl⟩ := checkBestHashAndRevert_eq_ok.mp hr
      obtain ⟨block, hre, rfl, rfl⟩ := rebuild_eq_ok.mp hq
      exact ⟨d, block, Or.inr ⟨hn, hd, hre⟩, rfl, rfl⟩
    · rintro ⟨d, block, ⟨h0, -⟩ | ⟨-, hd, hre⟩, rfl, rfl⟩
      · exact absurd h0 hn
      · exact ⟨(), _, checkBestHashAndRevert_eq_ok.mpr ⟨d, hd, rfl⟩,
          rebuild_eq_ok.mpr ⟨block, hre, rfl, rfl⟩⟩

/-- **Inversion of a successful commit.** -/
theorem commit_eq_ok {at_ : Option BlockId} {exec : S → R × S} {b b' : Builder S} {r : R} :
    commit P H at_ exec b = (.ok r, b') ↔
      ∃ h s number d block c, Opens H b.chain at_ h s number ∧
        Prepares P H b.chain number h (exec s).2 d block ∧
        H.commitOperation d (importOperation h (exec s).2 block) = .ok c ∧ r = (exec s).1 ∧
        b' = { b with chain := c } := by
  rw [commit, bind_eq_ok]
  constructor
  · rintro ⟨⟨h, s, number⟩, t, hb, ht⟩
    obtain ⟨ho, rfl⟩ := beginCommit_eq_ok.mp hb
    obtain ⟨q, u, hm, hu⟩ := bind_eq_ok.mp ht
    obtain ⟨d, block, hp, rfl, rfl⟩ := mutate_eq_ok.mp hm
    obtain ⟨_, w, hc, hw⟩ := bind_eq_ok.mp hu
    obtain ⟨c, hcom, rfl⟩ := commitOperation_eq_ok.mp hc
    obtain ⟨rfl, rfl⟩ : (exec s).1 = r ∧ _ = b' := by simpa using hw
    exact ⟨h, s, number, d, block, c, ho, hp, hcom, rfl, rfl⟩
  · rintro ⟨h, s, number, d, block, c, ho, hp, hc, rfl, rfl⟩
    exact ⟨(h, s, number), b, beginCommit_eq_ok.mpr ⟨ho, rfl⟩,
      bind_eq_ok.mpr ⟨_, _, mutate_eq_ok.mpr ⟨d, block, hp, rfl, rfl⟩,
        bind_eq_ok.mpr ⟨(), _, commitOperation_eq_ok.mpr ⟨c, hc, rfl⟩, rfl⟩⟩⟩

theorem commit_bestState (hL : H.Lawful P)
    {exec : S → R × S} {b b' : Builder S} {r : R}
    (hc : commit P H none exec b = (.ok r, b')) :
    ∃ s, b.chain.states b.chain.bestHash = some s ∧ r = (exec s).1 ∧
      b'.chain.states b'.chain.bestHash = some (exec s).2 := by
  obtain ⟨h, s, _, d, block, c, ⟨rfl, hs, -⟩, -, hcom, rfl, rfl⟩ := commit_eq_ok.mp hc
  have hcommitted := hL.commitOperation (by rfl) (by rfl) hcom
  refine ⟨s, hL.stateAt hs, rfl, ?_⟩
  change c.states c.bestHash = some (exec s).2
  rw [hcommitted.states, hcommitted.best, Function.update_self]

/-- Of the states that a chain holds after a mutation of the best block, only that of its closure is
new. -/
theorem commit_states (hL : H.Lawful P) {exec : S → R × S} {b b' : Builder S} {r : R}
    (hc : commit P H none exec b = (.ok r, b')) :
    ∃ s, b.chain.states b.chain.bestHash = some s ∧
      ∀ k t, b'.chain.states k = some t → t = (exec s).2 ∨ b.chain.states k = some t := by
  obtain ⟨h, s, _, d, block, c, ⟨rfl, hs, -⟩, hp, hcom, -, rfl⟩ := commit_eq_ok.mp hc
  have hcommitted := hL.commitOperation (by rfl) (by rfl) hcom
  have hkept : ∀ k t, d.states k = some t → b.chain.states k = some t := by
    rcases hp with ⟨-, rfl, -⟩ | ⟨-, ⟨-, hrev⟩ | ⟨-, rfl⟩, -⟩
    · exact fun _ _ ↦ id
    · exact fun _ _ ↦ (hL.revert hrev).states
    · exact fun _ _ ↦ id
  refine ⟨s, hL.stateAt hs, fun k t hk ↦ ?_⟩
  change c.states k = some t at hk
  rw [hcommitted.states] at hk
  by_cases hh : k = P.hash block.header
  · rw [hh, Function.update_self] at hk
    exact Or.inl (Option.some.inj hk).symm
  · rw [Function.update_of_ne hh] at hk
    exact Or.inr (hkept k t hk)

end Builder

end Fudge
