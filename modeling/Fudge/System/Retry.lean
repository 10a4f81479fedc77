import Fudge.System.Accepted
import Fudge.System.Pending

/-!
# An import that fails

`import_block` of the parachain builder looks at the block in its slot and empties the slot when
everything is done. The stand-alone and the relay chain builder take the block out first. The
difference shows when the call fails: the parachain builder can try again, the others have lost the
block.

The relay chain builder goes on to enact, judge and collect after the block is imported, and each of
these may fail as well. By then the block is imported and among the imports.
-/

namespace Fudge

open Call
open ParachainBuilder (CollatorError)

/-- What an import that failed should leave alone: the best block, the block that waits, the
imports, and whatever else of the builder takes part in an import. -/
structure ImportState (τ : Type) where
  best : Hash
  pending : Option (Block × StorageProof)
  imports : List (Block × StorageProof)
  others : τ

theorem Builder.importBlock_best {S : Type} {P : Primitives S} {H : Host S} (hL : H.Lawful P)
    {params : BlockImportParams} {b : Builder S}
    (hno : (Builder.importBlock H params b).1.isOk = false) :
    (Builder.importBlock H params b).2.chain = b.chain := by
  rw [Builder.importBlock_isOk_eq] at hno
  rw [Builder.importBlock_chain]
  refine hL.importBlock_refused rfl fun hyes ↦ ?_
  rw [hyes] at hno
  cases hno

/-! ## The stand-alone builder -/

namespace StandAloneBuilder

variable {S : Type} {P : Primitives S} {H : Host S} {a : StandAloneBuilder S}

/-- The stand-alone builder as its import sees it. -/
def importState (a : StandAloneBuilder S) : ImportState Unit :=
  ⟨a.builder.chain.bestHash, a.next, a.imports, ()⟩

theorem importBlock_of_err (hL : H.Lawful P) (herr : (importBlock H a).1.isErr = true) :
    (importBlock H a).2.importState = { a.importState with pending := none } := by
  have hno := Outcome.isOk_of_isErr herr
  rcases importBlock_cases (H := H) a with ⟨hnext, -, hsame⟩ | ⟨next, -, hok, hleft⟩
  · rw [hsame, importState, hnext]
  · rw [hok] at hno
    rw [hleft, hno]
    simp [importState, Builder.importBlock_best hL hno]

end StandAloneBuilder

/-! ## The relay chain builder -/

namespace World

open RelaychainBuilder (Error)

variable {κ W ε : Type} {P : RelayPrimitives} {H : RelayHost} {C : CollationBuilder κ W ε}

/-- The relay chain builder as its import sees it, with its collation table and its collators. -/
def importState (w : World κ W) : ImportState (List CollationEntry × W) :=
  ⟨w.relay.builder.chain.bestHash, w.relay.next, w.relay.imports, (w.relay.collations, w.collators)⟩

theorem importBlock_next (w : World κ W) :
    (importBlock P H C w).2.relay.next =
      (relayCall (ε := ε) (RelaychainBuilder.importNext H) w).2.relay.next := by
  rcases importBlock_cases (P := P) (H := H) (C := C) w with ⟨-, hstop⟩ | ⟨hd, u, hu, hcase⟩
  · rw [hstop]
  · rw [hu]
    have henact : (enactLoop P H C u).2.relay.next = u.relay.next :=
      (Prod.mk.inj (enacting_keeps _ _ _ u)).1
    rcases hcase with ⟨-, -, hstop⟩ | ⟨-, hcollect⟩
    · rw [hstop, henact]
    · rw [hcollect, (collectLoop_keeps_builder hd _).2.1]
      exact henact

/-- **An import empties the slot**, however it ends. -/
theorem importBlock_empties (w : World κ W) : (importBlock P H C w).2.relay.next = none := by
  rw [importBlock_next, relayCall_apply]
  rcases RelaychainBuilder.importNext_cases (ε := ε) (H := H) w.relay with
    ⟨hnext, -, hsame⟩ | ⟨next, -, -, himport⟩
  · rw [hsame]
    exact hnext
  · rw [himport]

theorem importBlock_of_refused (hL : H.toHost.Lawful P.toPrimitives) {w : World κ W}
    {next : Block × StorageProof} (hnext : w.relay.next = some next)
    (hno : (H.importBlock w.relay.builder.chain
      (RelaychainBuilder.nextParams next.1)).1.isOk = false) :
    (importBlock P H C w).2.importState = { w.importState with pending := none } := by
  have hclient : (Builder.importBlock H.toHost (RelaychainBuilder.nextParams next.1)
      w.relay.builder).1.isOk = false := (Builder.importBlock_isOk_eq _ _).trans hno
  rcases RelaychainBuilder.importNext_cases (ε := ε) (H := H) w.relay with
    ⟨hnone, -, -⟩ | ⟨next', hnext', hok, hleft⟩
  · rw [hnext] at hnone
    cases hnone
  · obtain rfl : next = next' := Option.some.inj (hnext.symm.trans hnext')
    rw [hclient] at hok hleft
    rcases importBlock_cases (P := P) (H := H) (C := C) w with ⟨-, hstop⟩ | ⟨hd, u, hu, -⟩
    · rw [hstop, relayCall_apply, hleft]
      simp [importState, Builder.importBlock_best hL hclient]
    · have hyes : (RelaychainBuilder.importNext H w.relay : Outcome (Error ε) Header × _).1.isOk =
          true := congrArg (·.1.isOk) hu
      rw [hok] at hyes
      cases hyes

end World

/-! ## The parachain builder -/

namespace ParachainBuilder

variable {T : Type} {P : Primitives T} {H : ParaHost T} {p : ParachainBuilder T}

/-- The parachain builder as its import sees it. -/
def importState (p : ParachainBuilder T) : ImportState Unit :=
  ⟨p.builder.chain.bestHash, p.blockStorage.nextImport, p.imports, ()⟩

theorem importBlock_of_err (hL : H.Lawful P) (herr : (importBlock H p).1.isErr = true) :
    (importBlock H p).2.importState = p.importState := by
  have hno := Outcome.isOk_of_isErr herr
  rcases Option.eq_none_or_eq_some (handed H p) with hidle | ⟨next, hnext⟩
  · rw [(importBlock_of_idle hidle).1]
  · obtain ⟨-, hmoved, hstays⟩ := importBlock_of_handed hnext
    have hclient : (Builder.importBlock H.toHost (approvedParams next.1) p.builder).1.isOk =
        false := by
      by_contra hok
      rw [hmoved (by simpa using hok)] at hno
      cases hno
    rw [(hstays hclient).1, importState, Builder.importBlock_best hL.host hclient]
    rfl

end ParachainBuilder

/-! ## The three builders -/

/-- **An import that fails** can be tried again by the parachain builder, and never by the two
others: the block that waited is gone. If the client refused it, that is all that changed; and if it
is the relay chain builder that failed later, then the block is among its imports. -/
theorem import_retry {S T κ W ε : Type} (P : Primitives S) (Q : Primitives T)
    (R : RelayPrimitives) :
    (∀ (H : Host S) (a : StandAloneBuilder S), H.Lawful P → a.next.isSome = true →
      (StandAloneBuilder.importBlock H a).1.isErr = true →
      (StandAloneBuilder.importBlock H a).2.importState ≠ a.importState ∧
        (StandAloneBuilder.importBlock H a).2.importState =
          { a.importState with pending := none }) ∧
    (∀ (H : RelayHost) (C : CollationBuilder κ W ε) (w : World κ W) (next : Block × StorageProof),
      H.toHost.Lawful R.toPrimitives → w.relay.next = some next →
      (World.importBlock R H C w).1.isErr = true →
      (World.importBlock R H C w).2.importState ≠ w.importState ∧
        if (H.importBlock w.relay.builder.chain (RelaychainBuilder.nextParams next.1)).1.isOk then
          (World.importBlock R H C w).2.relay.imports = w.relay.imports ++ [next]
        else (World.importBlock R H C w).2.importState = { w.importState with pending := none }) ∧
    (∀ (H : ParaHost T) (p : ParachainBuilder T), H.Lawful Q →
      p.blockStorage.nextImport.isSome = true →
      (ParachainBuilder.importBlock H p).1.isErr = true →
      (ParachainBuilder.importBlock H p).2.importState = p.importState) := by
  refine ⟨fun H a hL hnext herr ↦ ?_, fun H C w next hL hnext herr ↦ ?_, fun H p hL _ herr ↦ ?_⟩
  · have hlost := StandAloneBuilder.importBlock_of_err hL herr
    refine ⟨fun hsame ↦ ?_, hlost⟩
    have hnone : a.next = none := congrArg ImportState.pending (hsame.symm.trans hlost)
    rw [hnone] at hnext
    cases hnext
  · constructor
    · intro hsame
      have hstays : (World.importBlock R H C w).2.relay.next = w.relay.next :=
        congrArg ImportState.pending hsame
      rw [World.importBlock_empties, hnext] at hstays
      cases hstays
    · by_cases hok : (H.importBlock w.relay.builder.chain
          (RelaychainBuilder.nextParams next.1)).1.isOk = true
      · rw [if_pos hok]
        have himports := World.publicStep_imports (P := R) (A := Unit) (.relay (.importBlock H C)) w
        rw [World.offer, hnext] at himports
        refine himports.trans ?_
        simp [taken, hok]
      · rw [if_neg hok]
        exact World.importBlock_of_refused hL hnext (by simpa using hok)
  · exact ParachainBuilder.importBlock_of_err hL herr

def Host.refusing {S : Type} (P : Primitives S) : Host S :=
  { Host.reference P with importBlock := fun c _ ↦ (.error "refused", c) }

theorem Host.refusing_lawful {S : Type} (P : Primitives S) : (Host.refusing P).Lawful P :=
  { Host.reference_lawful P with
    importBlock := fun h ↦ by cases h
    importBlock_refused := fun h _ ↦ (Prod.mk.inj h).2.symm }

/-- The client refuses a block once, and the stand-alone builder has no block to try again. -/
theorem import_loses_block :
    let a := run (StandAloneBuilder.standAloneStep (A := Unit) counter)
      [.buildBlock (.reference counter)] (StandAloneBuilder.counterBuilder 0)
    let failed := StandAloneBuilder.importBlock (.refusing counter) a
    a.next.isSome = true ∧ failed.1.isErr = true ∧ failed.2.next = none ∧
      (StandAloneBuilder.importBlock (.reference counter) failed.2).1 =
        .err .nextBlockNotFound := by
  decide +kernel

theorem import_retry_refused :
    let a := run (StandAloneBuilder.standAloneStep (A := Unit) counter)
      [.buildBlock (.reference counter)] (StandAloneBuilder.counterBuilder 0)
    let p := run (ParachainBuilder.publicStep (A := Unit) counter)
      [.para (.buildBlock (.reference counter)), .para (.judge (.reference counter) .approved)]
      (ParachainBuilder.counterBuilder 0)
    let H : ParaHost ℕ := { ParaHost.reference counter with toHost := .refusing counter }
    let w : World ℕ Unit := run (World.publicStep (ε := Unit) (A := Unit) RelayPrimitives.reference)
      (relayHeadRound.take 2) { relay := .genesis ℕ, collators := () }
    let C : CollationBuilder ℕ Unit Unit := ⟨fun _ _ ↦ pure none, fun _ _ ↦ pure ()⟩
    let L : RelayHost :=
      { RelayHost.reference with toHost := .refusing RelayPrimitives.reference.toPrimitives }
    (StandAloneBuilder.importBlock (.refusing counter) a).2.importState ≠ a.importState ∧
      (World.importBlock RelayPrimitives.reference L C w).2.importState ≠ w.importState ∧
      (ParachainBuilder.importBlock H p).2.importState = p.importState := by
  intro a p H w C L
  obtain ⟨halone, hrelay, hpara⟩ := import_retry (κ := ℕ) (W := Unit) (ε := Unit) counter counter
    RelayPrimitives.reference
  have hsome : w.relay.next.isSome = true := by decide +kernel
  obtain ⟨next, hnext⟩ := Option.isSome_iff_exists.mp hsome
  refine ⟨?_, ?_, ?_⟩
  · exact (halone _ a (Host.refusing_lawful _) (by decide +kernel) (by decide +kernel)).1
  · exact (hrelay L C w next (Host.refusing_lawful _) hnext (by decide +kernel)).1
  · have hH : H.Lawful counter :=
      { ParaHost.reference_lawful counter with host := Host.refusing_lawful _ }
    exact hpara H p hH (by decide +kernel) (by decide +kernel)

end Fudge
