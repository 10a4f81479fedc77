import Fudge.Core.Mutation
import Fudge.Parachain.Builder

/-!
# What the calls of a parachain builder can do

One lemma for each call that writes: what it leaves in the two slots, in the imports and in the
chain, early returns included. The two slots are written by `build_block` and `import_block`, and
from the relay chain side by the verdicts; the reading calls, the collator's `collation` among them,
leave the builder alone.
-/

namespace Fudge

open Call

namespace ParachainBuilder

variable {T R γ : Type} {P : Primitives T} {H : ParaHost T} {f : ParachainBuilder T → γ}

/-! ## Calls that read -/

theorem core_keeps_of_read {c : Call (Builder T) Builder.Error R} (hc : Keeps (fun b ↦ b) c) :
    Keeps f (core c) :=
  Keeps.mapErr (Keeps.zoom_of_read (fun _ ↦ rfl) hc)

theorem core_keeps {c : Call (Builder T) Builder.Error R}
    (hf : ∀ b p, f { p with builder := b } = f p) : Keeps f (core c) :=
  Keeps.mapErr (Keeps.zoom hf)

theorem appendExtrinsics_frame (hf : ∀ xt, Keeps f (appendExtrinsic H xt)) (xts : List Extrinsic) :
    Keeps f (appendExtrinsics H xts) := by
  induction xts with
  | nil => exact Keeps.pure []
  | cons xt xts ih => exact Keeps.bind (hf xt) fun _ ↦ Keeps.bind ih fun _ ↦ Keeps.pure _

theorem withState_keeps (exec : T → R × T) : Keeps f (withState P H exec) :=
  core_keeps_of_read (Builder.withState_dryRun_keeps none exec)

theorem head_keeps : Keeps f (head P H) :=
  Keeps.bind (core_keeps_of_read Builder.latestHeader_keeps) fun _ ↦ Keeps.pure _

theorem code_keeps : Keeps f (code P H) := core_keeps_of_read Builder.latestCode_keeps

theorem proposeBlock_keeps : Keeps f (proposeBlock P H) :=
  Keeps.zoom_of_read (fun _ ↦ rfl) (Builder.proposeBlock_keeps _ _ _ _)

theorem fetchCollationInfo_keeps (h : Hash) (hd : Header) :
    Keeps f (fetchCollationInfo P H h hd) := by
  refine Keeps.bind (Keeps.query _ _) fun version ↦ Keeps.bind (Keeps.require _ version) fun v ↦ ?_
  by_cases hv : v < 2
  · simp only [if_pos hv]
    exact Keeps.bind (Keeps.query _ _) fun _ ↦ Keeps.pure _
  · simp only [if_neg hv]
    exact Keeps.bind (Keeps.query _ _) fun _ ↦ Keeps.pure _

theorem collate_keeps (pvd : PersistedValidationData) (next : Block × StorageProof) :
    Keeps f (collate P H pvd next) :=
  Keeps.bind (Keeps.query _ _) fun _ ↦ Keeps.bind (Keeps.query _ _) fun _ ↦
    Keeps.bind (Keeps.mapErr (fetchCollationInfo_keeps _ _)) fun _ ↦
      Keeps.bind (Keeps.require _ _) fun _ ↦ Keeps.bind (Keeps.require _ _) fun _ ↦
        Keeps.bind (Keeps.require _ _) fun _ ↦ Keeps.pure _

theorem createCollation_keeps (pvd : PersistedValidationData) :
    Keeps f (createCollation P H pvd) := by
  refine Keeps.bind (Keeps.query _ _) fun _ ↦ Keeps.bind (Keeps.read _) fun next ↦ ?_
  cases next with
  | none => exact Keeps.pure _
  | some next => exact Keeps.bind (Keeps.mapErr (collate_keeps pvd next)) fun _ ↦ Keeps.pure _

theorem collation_keeps (pvd : PersistedValidationData) : Keeps f (collation P H pvd) :=
  Keeps.bind (Keeps.query _ _) fun _ ↦ createCollation_keeps pvd

/-- The encoded header of the best block: what `head` returns. -/
def bestHead (P : Primitives T) (p : ParachainBuilder T) : Option HeadData :=
  (p.builder.chain.headers p.builder.chain.bestHash).map P.encode

/-! ## Building -/

/-- The parameters under which `build_block` imports its block. -/
def buildParams (block : Block) : BlockImportParams :=
  { origin := .own, header := block.header, body := some block.extrinsics,
    forkChoice := some (.custom false) }

/-- The parameters under which an approved block is imported. -/
def approvedParams (block : Block) : BlockImportParams :=
  { origin := .networkInitialSync, header := block.header, body := some block.extrinsics,
    finalized := true, importExisting := true, forkChoice := some (.custom true) }

theorem core_bind_cases {α β : Type} (c : Call (Builder T) Builder.Error α)
    (g : α → Call (ParachainBuilder T) Error β) (p : ParachainBuilder T) :
    (∃ x, (c p.builder).1 = .ok x ∧ (core c >>= g) p = g x { p with builder := (c p.builder).2 }) ∨
      ((c p.builder).1.isOk = false ∧ ((core c >>= g) p).1.isOk = false ∧
        ((core c >>= g) p).2 = { p with builder := (c p.builder).2 }) :=
  zoom_bind_cases _ _ _ c g p

theorem storeBlock_cases (proposal : Proposal) (p : ParachainBuilder T) :
    ((storeBlock H proposal p).2 = p ∧ (storeBlock H proposal p).1.isOk = false) ∨
      storeBlock H proposal p =
        (.ok (), setNextBlock (some (proposal.block, proposal.proof)) p) := by
  rw [storeBlock]
  rcases hl : H.lock with e | _
  · rw [bind_of_err (show Call.query _ _ p = (.err (.nextBlockLockPoisoned e), p) from rfl)]
    exact Or.inl ⟨rfl, rfl⟩
  · exact Or.inr rfl

/-- **What `build_block` can do.** It fails without a proposal and leaves the builder alone. Or it
makes a proposal on the best header and hands it to the client; then it fails, or it puts the block
into the next-block slot, over whatever was there. -/
theorem buildBlock_cases (p : ParachainBuilder T) :
    ((buildBlock P H p).2 = p ∧ (buildBlock P H p).1.isOk = false) ∨
      ∃ hd inherents digest proposal b,
        H.header p.builder.chain p.builder.chain.bestHash = .ok (some hd) ∧
        H.propose p.builder.chain p.builder.pool hd inherents digest = .ok proposal ∧
        b.chain = (H.importBlock p.builder.chain (buildParams proposal.block)).2 ∧
        (((buildBlock P H p).2 = { p with builder := b } ∧ (buildBlock P H p).1.isOk = false) ∨
          (∃ result, (H.importBlock p.builder.chain (buildParams proposal.block)).1 = .ok result) ∧
            buildBlock P H p = (.ok (),
              setNextBlock (some (proposal.block, proposal.proof)) { p with builder := b })) := by
  have hread : (proposeBlock P H p).2 = p := proposeBlock_keeps (f := fun q ↦ q) p
  rw [buildBlock]
  rcases bind_cases (proposeBlock P H) _ p with ⟨proposal, hprop, hrest⟩ | ⟨-, hstop⟩
  · rw [hrest, hread]
    obtain ⟨b₀, hb₀, -⟩ := zoom_eq_ok.mp hprop
    obtain ⟨-, hd, inherents, digest, hhd, hpropose⟩ := Builder.proposeBlock_eq_ok hb₀
    refine Or.inr ⟨hd, inherents, digest, proposal, _, hhd, hpropose,
      Builder.importBlock_chain _ p.builder, ?_⟩
    -- the client gets the block before the slot does
    rcases core_bind_cases (Builder.importBlock H.toHost (buildParams proposal.block))
      (fun _ ↦ storeBlock H proposal) p with ⟨u, hok, hstore⟩ | ⟨-, hno, hstop⟩
    · have hclient : (Builder.importBlock H.toHost (buildParams proposal.block)
          p.builder).1.isOk = true := by
        rw [hok]
        rfl
      rcases storeBlock_cases (H := H) proposal { p with
          builder := (Builder.importBlock H.toHost (buildParams proposal.block) p.builder).2 }
        with ⟨hsame, hfail⟩ | hstored
      · exact Or.inl ⟨(congrArg Prod.snd hstore).trans hsame,
          (congrArg (·.1.isOk) hstore).trans hfail⟩
      · exact Or.inr ⟨(Builder.importBlock_isOk _ _).mp hclient, hstore.trans hstored⟩
    · exact Or.inl ⟨hstop, hno⟩
  · rw [hread] at hstop
    exact Or.inl ⟨hstop.2, hstop.1⟩

theorem buildBlock_on_tip (hinj : Function.Injective P.hash) (hL : H.Lawful P)
    {p p' : ParachainBuilder T} {u : Unit} (hset : p.builder.chain.Settled P)
    (h : buildBlock P H p = (.ok u, p')) :
    ∃ b build, p' = setNextBlock (some build) { p with builder := b } ∧ b.chain.Settled P ∧
      b.chain.bestHash = p.builder.chain.bestHash ∧
      b.chain.bestNumber = p.builder.chain.bestNumber ∧
      b.chain.states b.chain.bestHash = p.builder.chain.states p.builder.chain.bestHash ∧
      build.1.header.parentHash = b.chain.bestHash := by
  rcases buildBlock_cases (P := P) (H := H) p with ⟨-, hno⟩ |
    ⟨hd, inherents, digest, proposal, b, hhd, hprop, hb, ⟨-, hno⟩ | ⟨-, hbuilt⟩⟩
  · rw [h] at hno
    cases hno
  · rw [h] at hno
    cases hno
  · obtain ⟨hparent, hnum⟩ := hset.propose_on_tip hL.host hhd hprop
    have himport : H.importBlock p.builder.chain (buildParams proposal.block) = (_, b.chain) :=
      Prod.ext rfl hb.symm
    obtain ⟨hset', hbest, hnumber, hstate⟩ :=
      hset.importBlock_aside hinj hL.host hnum rfl rfl himport
    exact ⟨b, _, (Prod.mk.inj (h.symm.trans hbuilt)).2, hset', hbest, hnumber, hstate,
      hparent.trans hbest.symm⟩

/-! ## Importing -/

/-- The builder after the approved block `next` was imported. -/
def importedBuilder (next : Block × StorageProof) (b : Builder T) (p : ParachainBuilder T) :
    ParachainBuilder T :=
  setNextImport none { p with builder := b, imports := p.imports ++ [next] }

/-- The approved block that an import hands to the client: the one in its slot, if the lock is
free. -/
def handed (H : ParaHost T) (p : ParachainBuilder T) : Option (Block × StorageProof) :=
  match H.lock with
  | .ok _ => p.blockStorage.nextImport
  | .error _ => none

theorem importBlock_unlocked {u : Unit} (hl : H.lock = .ok u) (p : ParachainBuilder T) :
    importBlock H p = (match p.blockStorage.nextImport with
      | some next => importApproved H next
      | none => pure ()) p := by
  rw [importBlock]
  exact bind_of_ok (query_eq_ok.mpr ⟨hl, rfl⟩)

/-- Nothing is handed over: the builder is left alone, and the call fails only at the lock. -/
theorem importBlock_of_idle {p : ParachainBuilder T} (h : handed H p = none) :
    (importBlock H p).2 = p ∧
      ((importBlock H p).1.isOk = true → p.blockStorage.nextImport = none) := by
  rw [handed] at h
  rcases hl : H.lock with e | u
  · have hlock : importBlock H p = (.err (.nextImportLockPoisoned e), p) := by
      rw [importBlock]
      exact bind_of_err (by rw [Call.query, hl])
    rw [hlock]
    exact ⟨rfl, fun hok ↦ (by cases hok)⟩
  · rw [hl] at h
    rw [importBlock_unlocked hl, show p.blockStorage.nextImport = none from h]
    exact ⟨rfl, fun _ ↦ rfl⟩

/-- An approved block is handed to the client. If the core builder returns `Ok`, the block moves
from its slot to the imports, and else it stays. -/
theorem importBlock_of_handed {p : ParachainBuilder T} {next : Block × StorageProof}
    (h : handed H p = some next) :
    p.blockStorage.nextImport = some next ∧
      let imported := Builder.importBlock H.toHost (approvedParams next.1) p.builder
      (imported.1.isOk = true → importBlock H p = (.ok (), importedBuilder next imported.2 p)) ∧
        (imported.1.isOk = false → (importBlock H p).2 = { p with builder := imported.2 } ∧
          (importBlock H p).1.isOk = false) := by
  rw [handed] at h
  rcases hl : H.lock with e | u
  · rw [hl] at h
    cases h
  · rw [hl] at h
    have hn : p.blockStorage.nextImport = some next := h
    rw [importBlock_unlocked hl, hn]
    refine ⟨rfl, ?_⟩
    -- the imports and the slot are written only after the core builder returned `Ok`
    rcases core_bind_cases (Builder.importBlock H.toHost (approvedParams next.1))
        (fun _ ↦ (Call.modify fun p : ParachainBuilder T ↦
            { p with imports := p.imports ++ [next] }) >>= fun _ ↦ Call.modify (setNextImport none))
        p with ⟨u, hok, hrest⟩ | ⟨hno, hstop⟩
    · refine ⟨fun _ ↦ hrest, fun hno ↦ ?_⟩
      rw [hok] at hno
      cases hno
    · refine ⟨fun hok ↦ ?_, fun _ ↦ ⟨hstop.2, hstop.1⟩⟩
      rw [hno] at hok
      cases hok

/-- **What `import_block` can do.** Without an approved block it leaves the builder alone. An
approved block is handed to the client; if the client gives a verdict, whichever it is, the block
moves from its slot to the imports. -/
theorem importBlock_cases (p : ParachainBuilder T) :
    ((importBlock H p).2 = p ∧
        ((importBlock H p).1.isOk = true → p.blockStorage.nextImport = none)) ∨
      ∃ next b, p.blockStorage.nextImport = some next ∧
        b.chain = (H.importBlock p.builder.chain (approvedParams next.1)).2 ∧
        (((importBlock H p).2 = { p with builder := b } ∧ (importBlock H p).1.isOk = false) ∨
          (∃ result, (H.importBlock p.builder.chain (approvedParams next.1)).1 = .ok result) ∧
            importBlock H p = (.ok (), importedBuilder next b p)) := by
  rcases Option.eq_none_or_eq_some (handed H p) with hidle | ⟨next, hnext⟩
  · exact Or.inl (importBlock_of_idle hidle)
  · obtain ⟨hslot, hmoved, hstays⟩ := importBlock_of_handed hnext
    refine Or.inr ⟨next, _, hslot, Builder.importBlock_chain _ p.builder, ?_⟩
    by_cases hok : (Builder.importBlock H.toHost (approvedParams next.1) p.builder).1.isOk = true
    · exact Or.inr ⟨(Builder.importBlock_isOk _ _).mp hok, hmoved hok⟩
    · exact Or.inl (hstays (by simpa using hok))

theorem importBlock_on_tip (hinj : Function.Injective P.hash) (hL : H.Lawful P)
    (hreport : H.toHost.ReportsImported) {p p' : ParachainBuilder T} {u : Unit}
    (hset : p.builder.chain.Settled P) {next : Block × StorageProof}
    (hnext : p.blockStorage.nextImport = some next)
    (htip : next.1.header.parentHash = p.builder.chain.bestHash)
    (h : importBlock H p = (.ok u, p')) :
    ∃ b, p' = importedBuilder next b p ∧ b.chain.Settled P ∧
      b.chain.bestNumber = p.builder.chain.bestNumber + 1 ∧
      b.chain.headers b.chain.bestHash = some next.1.header := by
  rcases importBlock_cases (H := H) p with ⟨-, hnone⟩ |
    ⟨next', b, hnext', hb, ⟨-, hno⟩ | ⟨⟨result, hresult⟩, himported⟩⟩
  · have hempty := hnone (by rw [h]; rfl)
    rw [hnext] at hempty
    cases hempty
  · rw [h] at hno
    cases hno
  · obtain rfl : next = next' := Option.some.inj (hnext.symm.trans hnext')
    have hclient : H.importBlock p.builder.chain (approvedParams next.1) = (.ok result, b.chain) :=
      Prod.ext hresult hb.symm
    obtain rfl := hreport htip hclient
    obtain ⟨hset', hnumber, hhead, -⟩ := hset.importBlock_best hinj hL.host htip rfl rfl hclient
    exact ⟨b, (Prod.mk.inj (h.symm.trans himported)).2, hset', hnumber, hhead⟩

/-! ## Collations -/

/-- A collation of the block `build`: it carries the header and the extrinsics of the block, and the
encoded header as the new head of the parachain. -/
structure Collates (P : Primitives T) (build : Block × StorageProof) (c : Collation) : Prop where
  header : c.proofOfValidity.header = build.1.header
  extrinsics : c.proofOfValidity.extrinsics = build.1.extrinsics
  headData : c.headData = P.encode build.1.header

theorem fetchCollationInfo_eq_ok (hL : H.Lawful P) {h : Hash} {hd : Header}
    {p p' : ParachainBuilder T} {info : Option CollationInfo}
    (hf : fetchCollationInfo P H h hd p = (.ok info, p')) :
    ∀ i, info = some i → i.headData = P.encode hd := by
  rw [fetchCollationInfo] at hf
  obtain ⟨version, p₁, h₁, k₁⟩ := bind_eq_ok.mp hf
  obtain ⟨v, p₂, h₂, k₂⟩ := bind_eq_ok.mp k₁
  by_cases hv : v < 2
  · rw [if_pos hv] at k₂
    obtain ⟨old, p₃, h₃, k₃⟩ := bind_eq_ok.mp k₂
    obtain ⟨rfl, -⟩ : some (old.intoLatest (P.encode hd)) = info ∧ p₃ = p' := by simpa using k₃
    intro i hi
    rw [← Option.some.inj hi]
    rfl
  · rw [if_neg hv] at k₂
    obtain ⟨new, p₃, h₃, k₃⟩ := bind_eq_ok.mp k₂
    obtain ⟨rfl, -⟩ : some new = info ∧ p₃ = p' := by simpa using k₃
    obtain ⟨hquery, -⟩ := query_eq_ok.mp h₃
    intro i hi
    rw [← Option.some.inj hi]
    exact hL.collectCollationInfo hquery

theorem collate_eq_ok (hL : H.Lawful P) {pvd : PersistedValidationData}
    {build : Block × StorageProof} {p p' : ParachainBuilder T} {c : Collation}
    (h : collate P H pvd build p = (.ok c, p')) : Collates P build c := by
  rw [collate] at h
  obtain ⟨lastHead, p₁, h₁, k₁⟩ := bind_eq_ok.mp h
  obtain ⟨proof, p₂, h₂, k₂⟩ := bind_eq_ok.mp k₁
  obtain ⟨info, p₃, h₃, k₃⟩ := bind_eq_ok.mp k₂
  obtain ⟨i, p₄, h₄, k₄⟩ := bind_eq_ok.mp k₃
  obtain ⟨upward, p₅, h₅, k₅⟩ := bind_eq_ok.mp k₄
  obtain ⟨horizontal, p₆, h₆, k₆⟩ := bind_eq_ok.mp k₅
  have hhead := fetchCollationInfo_eq_ok hL (mapErr_eq_ok.mp h₃) i (require_eq_ok.mp h₄).1
  obtain ⟨hc, -⟩ := Prod.mk.inj k₆
  obtain rfl := Outcome.ok.inj hc
  exact ⟨rfl, rfl, hhead⟩

/-- **What `collation` offers**: nothing if the next-block slot is empty, and else a collation of
the block in it. -/
theorem collation_eq_ok {pvd : PersistedValidationData} {p p' : ParachainBuilder T}
    {reply : Option Collation} (h : collation P H pvd p = (.ok reply, p')) :
    (p.blockStorage.nextBlock = none ∧ reply = none) ∨
      ∃ build c, p.blockStorage.nextBlock = some build ∧ reply = some c ∧
        (H.Lawful P → Collates P build c) := by
  rw [collation] at h
  obtain ⟨_, p₁, h₁, k₁⟩ := bind_eq_ok.mp h
  obtain ⟨-, rfl⟩ := query_eq_ok.mp h₁
  rw [createCollation] at k₁
  obtain ⟨_, p₂, h₂, k₂⟩ := bind_eq_ok.mp k₁
  obtain ⟨-, rfl⟩ := query_eq_ok.mp h₂
  obtain ⟨next, p₃, h₃, k₃⟩ := bind_eq_ok.mp k₂
  obtain ⟨rfl, rfl⟩ : p₂.blockStorage.nextBlock = next ∧ p₂ = p₃ := by simpa using h₃
  cases hslot : p₂.blockStorage.nextBlock with
  | none =>
    rw [hslot] at k₃
    obtain ⟨rfl, -⟩ : none = reply ∧ p₂ = p' := by simpa using k₃
    exact Or.inl ⟨rfl, rfl⟩
  | some build =>
    rw [hslot] at k₃
    obtain ⟨c, p₄, h₄, k₄⟩ := bind_eq_ok.mp k₃
    obtain ⟨rfl, -⟩ : some c = reply ∧ p₄ = p' := by simpa using k₄
    exact Or.inr ⟨build, c, rfl, rfl, fun hL ↦ collate_eq_ok hL (mapErr_eq_ok.mp h₄)⟩

/-! ## Verdicts -/

/-- The builder after the block `build` was approved. -/
def approvedBuilder (build : Block × StorageProof) (p : ParachainBuilder T) : ParachainBuilder T :=
  setNextImport (some build) (setNextBlock none p)

/-- What `approve` can do: it moves the block in the next-block slot, or fails. -/
theorem approve_cases (p : ParachainBuilder T) :
    ((approve H p).2 = p ∧ (approve H p).1.isOk = false) ∨
      ∃ build, p.blockStorage.nextBlock = some build ∧
        approve H p = (.ok (), approvedBuilder build p) := by
  rcases hl : H.lock with e | _
  · have hlock : approve H p = (.err (.parachain (.nextBlockLockPoisoned e)), p) := by
      rw [approve]
      exact bind_of_err (by rw [Call.query, hl])
    rw [hlock]
    exact Or.inl ⟨rfl, rfl⟩
  · have hlock : approve H p = (Call.require (.parachain .nextBlockNotFound)
        p.blockStorage.nextBlock >>= fun build ↦ (Call.modify (setNextBlock none)) >>= fun _ ↦
          Call.modify (setNextImport (some build))) p := by
      rw [approve]
      exact bind_of_ok (query_eq_ok.mpr ⟨hl, rfl⟩)
    rw [hlock]
    cases hn : p.blockStorage.nextBlock with
    | none => exact Or.inl ⟨rfl, rfl⟩
    | some build => exact Or.inr ⟨build, rfl, rfl⟩

theorem reject_cases (p : ParachainBuilder T) :
    ((reject H p).2 = p ∧ (reject H p).1.isOk = false) ∨
      reject H p = (.ok (), setNextBlock none p) := by
  rcases hl : H.lock with e | _
  · have hlock : reject H p = (.err (.parachain (.nextBlockLockPoisoned e)), p) := by
      rw [reject]
      exact bind_of_err (by rw [Call.query, hl])
    rw [hlock]
    exact Or.inl ⟨rfl, rfl⟩
  · refine Or.inr ?_
    rw [reject]
    exact bind_of_ok (query_eq_ok.mpr ⟨hl, rfl⟩)

/-! ## Looking at the pending block -/

theorem nextBuild_eq_ok {p p' : ParachainBuilder T} {build : FudgeParaBuild}
    (h : nextBuild P H p = (.ok (some build), p')) :
    ∃ block hd code, p.blockStorage.nextBlock = some block ∧
      H.header p.builder.chain p.builder.chain.bestHash = .ok (some hd) ∧
      build = ⟨P.encode hd, block.1, code⟩ := by
  rw [nextBuild] at h
  obtain ⟨_, p₁, h₁, k₁⟩ := bind_eq_ok.mp h
  obtain ⟨-, rfl⟩ := query_eq_ok.mp h₁
  obtain ⟨next, p₂, h₂, k₂⟩ := bind_eq_ok.mp k₁
  obtain ⟨rfl, rfl⟩ : p₁.blockStorage.nextBlock = next ∧ p₁ = p₂ := by simpa using h₂
  obtain ⟨hd, p₃, h₃, k₃⟩ := bind_eq_ok.mp k₂
  obtain ⟨code, p₄, -, k₄⟩ := bind_eq_ok.mp k₃
  obtain ⟨hnext, -⟩ : p₁.blockStorage.nextBlock.map
      (fun b ↦ (⟨P.encode hd, b.1, code⟩ : FudgeParaBuild)) = some build ∧ p₄ = p' := by
    simpa using k₄
  obtain ⟨block, hblock, rfl⟩ := Option.map_eq_some_iff.mp hnext
  obtain ⟨b, hb, -⟩ := zoom_eq_ok.mp (mapErr_eq_ok.mp h₃)
  exact ⟨block, hd, code, hblock, (Builder.latestHeader_eq_ok.mp hb).1, rfl⟩

/-! ## Mutating -/

theorem withMutState_eq_ok {exec : T → R × T} {p p' : ParachainBuilder T} {r : R}
    (h : withMutState P H exec p = (.ok r, p')) :
    ∃ b, Builder.commit P H.toHost none exec p.builder = (.ok r, b) ∧
      p' = { p with builder := b } :=
  zoom_eq_ok.mp (mapErr_eq_ok.mp h)

/-! ## No call panics -/

theorem core_noPanic {c : Call (Builder T) Builder.Error R} (hc : NoPanic c) : NoPanic (core c) :=
  NoPanic.mapErr (NoPanic.zoom hc)

theorem head_noPanic : NoPanic (head P H) :=
  NoPanic.bind (core_noPanic Builder.latestHeader_noPanic) fun _ ↦ NoPanic.pure _

theorem buildBlock_noPanic : NoPanic (buildBlock P H) :=
  NoPanic.bind (NoPanic.zoom (Builder.proposeBlock_noPanic _ _ _ _)) fun _ ↦
    NoPanic.bind (core_noPanic (Builder.importBlock_noPanic _)) fun _ ↦
      NoPanic.bind (NoPanic.query _ _) fun _ ↦ NoPanic.modify _

theorem importBlock_noPanic : NoPanic (importBlock H) := by
  refine NoPanic.bind (NoPanic.query _ _) fun _ ↦ NoPanic.bind (NoPanic.read _) fun next ↦ ?_
  cases next with
  | none => exact NoPanic.pure _
  | some next =>
    exact NoPanic.bind (core_noPanic (Builder.importBlock_noPanic _)) fun _ ↦
      NoPanic.bind (NoPanic.modify _) fun _ ↦ NoPanic.modify _

theorem fetchCollationInfo_noPanic (h : Hash) (hd : Header) :
    NoPanic (fetchCollationInfo P H h hd) := by
  refine NoPanic.bind (NoPanic.query _ _) fun o ↦ NoPanic.bind (NoPanic.require _ o) fun v ↦ ?_
  by_cases hv : v < 2
  · rw [if_pos hv]
    exact NoPanic.bind (NoPanic.query _ _) fun _ ↦ NoPanic.pure _
  · rw [if_neg hv]
    exact NoPanic.bind (NoPanic.query _ _) fun _ ↦ NoPanic.pure _

theorem collation_noPanic (pvd : PersistedValidationData) : NoPanic (collation P H pvd) := by
  refine NoPanic.bind (NoPanic.query _ _) fun _ ↦ NoPanic.bind (NoPanic.query _ _) fun _ ↦
    NoPanic.bind (NoPanic.read _) fun next ↦ ?_
  cases next with
  | none => exact NoPanic.pure _
  | some next =>
    refine NoPanic.bind (NoPanic.mapErr ?_) fun _ ↦ NoPanic.pure _
    exact NoPanic.bind (NoPanic.query _ _) fun _ ↦ NoPanic.bind (NoPanic.query _ _) fun _ ↦
      NoPanic.bind (NoPanic.mapErr (fetchCollationInfo_noPanic _ _)) fun _ ↦
        NoPanic.bind (NoPanic.require _ _) fun _ ↦ NoPanic.bind (NoPanic.require _ _) fun _ ↦
          NoPanic.bind (NoPanic.require _ _) fun _ ↦ NoPanic.pure _

theorem judge_noPanic (judgement : CollationJudgement) : NoPanic (judge H judgement) := by
  cases judgement with
  | approved =>
    exact NoPanic.bind (NoPanic.query _ _) fun _ ↦ NoPanic.bind (NoPanic.read _) fun next ↦
      NoPanic.bind (NoPanic.require _ next) fun _ ↦ NoPanic.bind (NoPanic.modify _) fun _ ↦
        NoPanic.modify _
  | rejected => exact NoPanic.bind (NoPanic.query _ _) fun _ ↦ NoPanic.modify _

end ParachainBuilder

/-! ## A reference host -/

/-- The host in memory of a parachain. A proof is made compact against a root that it starts from,
and the runtime sends no messages. -/
def ParaHost.reference {T : Type} (P : Primitives T) : ParaHost T where
  toHost := Host.reference P
  lock := .ok ()
  intoCompactProof proof root :=
    if Codec.number.write root ∈ proof then .ok proof else .error "InvalidStateRoot"
  apiVersion _ _ := .ok (some 2)
  collectCollationInfoBeforeVersion2 _ _ := .ok ⟨[], [], none, 0, 0⟩
  collectCollationInfo _ _ hd := .ok ⟨⟨[], [], none, 0, 0⟩, P.encode hd⟩
  maxUpwardMessages := 10
  maxHorizontalMessages := 10

/-- A counting parachain of height `n` with empty slots. -/
def ParachainBuilder.counterBuilder (n : ℕ) : ParachainBuilder ℕ where
  id := 1
  builder := { chain := counterChain n }

theorem ParaHost.reference_lawful {T : Type} (P : Primitives T) :
    (ParaHost.reference P).Lawful P where
  host := Host.reference_lawful P
  collectCollationInfo h := by
    cases h
    rfl

end Fudge
