import Fudge.Inherent.Timestamp
import Fudge.Parachain.Builder

/-!
# The other inherent data providers

A provider puts one item into the inherent data of a block, under an identifier of its own. The
providers of `inherent/relay_parachain.rs` and `inherent/para_parachain.rs` do nothing else: the one
for the relay chain leaves out the builds and candidates it was made with, and is its own dummy.

An item that was put stays, whatever other providers put after it.
-/

namespace Fudge

open CurrTimeProvider (InherentsError putData putData_cases)

/-! ## The providers -/

/-- `PARACHAINS_INHERENT_IDENTIFIER`, which is `parachn0`. -/
def parachainsInherentIdentifier : Bytes := [112, 97, 114, 97, 99, 104, 110, 48]

/-- `cumulus_primitives_parachain_inherent::INHERENT_IDENTIFIER`, which is `sysi1337`. -/
def parachainInherentIdentifier : Bytes := [115, 121, 115, 105, 49, 51, 51, 55]

/-- `polkadot_primitives::InherentData`. The elements of its lists are encoded. -/
structure ParachainsInherentData where
  bitfields : List Bytes
  backedCandidates : List Bytes
  disputes : List Bytes
  parentHeader : Header
deriving DecidableEq, Repr

/-- `relay_parachain::DummyInherent`. -/
structure DummyInherent where
  parentHead : Header
deriving DecidableEq, Repr

/-- `relay_parachain::Inherent`, without its client. -/
structure RelayParachainInherent where
  paraBuilds : List FudgeParaBuild
  backedCandidates : List Bytes
  parentHead : Header

/-- `para_parachain::Inherent`, of encoded data. -/
structure ParaParachainInherent where
  data : Bytes
deriving DecidableEq, Repr

variable (encode : ParachainsInherentData → Bytes)

/-- `DummyInherent::provide_inherent_data`. -/
def DummyInherent.provideInherentData (i : DummyInherent) : Call InherentData InherentsError Unit :=
  putData parachainsInherentIdentifier (encode ⟨[], [], [], i.parentHead⟩)

/-- `Inherent::provide_inherent_data`. -/
def RelayParachainInherent.provideInherentData (i : RelayParachainInherent) :
    Call InherentData InherentsError Unit :=
  putData parachainsInherentIdentifier (encode ⟨[], [], [], i.parentHead⟩)

/-- `Inherent::provide_inherent_data`. -/
def ParaParachainInherent.provideInherentData (i : ParaParachainInherent) :
    Call InherentData InherentsError Unit :=
  putData parachainInherentIdentifier i.data

/-- A provider that a build may have beside the clock: one of the repository, or one that puts
something else. -/
inductive InherentProvider where
  | dummy (i : DummyInherent)
  | relayParachain (i : RelayParachainInherent)
  | paraParachain (i : ParaParachainInherent)
  | other (identifier inherent : Bytes)

namespace InherentProvider

def provideInherentData : InherentProvider → Call InherentData InherentsError Unit
  | dummy i => i.provideInherentData encode
  | relayParachain i => i.provideInherentData encode
  | paraParachain i => i.provideInherentData
  | other identifier inherent => putData identifier inherent

/-- The providers put their data one after the other. -/
def provideAll (providers : List InherentProvider) : Call InherentData InherentsError Unit :=
  Call.forEach (provideInherentData encode) providers

variable {encode}

/-! ## What they put -/

theorem exists_putData (provider : InherentProvider) :
    ∃ identifier inherent, provider.provideInherentData encode = putData identifier inherent := by
  cases provider with
  | dummy i => exact ⟨_, _, rfl⟩
  | relayParachain i => exact ⟨_, _, rfl⟩
  | paraParachain i => exact ⟨_, _, rfl⟩
  | other identifier inherent => exact ⟨_, _, rfl⟩

theorem putData_lookup (identifier inherent : Bytes) {key x : Bytes} :
    Call.Preserves (fun data : InherentData ↦ data.lookup key = some x)
      (putData identifier inherent) := by
  intro data h
  rcases putData_cases identifier inherent data with ⟨-, hsame⟩ | hok
  · rw [hsame]
    exact h
  · rw [hok, List.lookup_append, h]
    rfl

/-- **What was put stays.** -/
theorem provideAll_lookup {key x : Bytes} (providers : List InherentProvider) :
    Call.Preserves (fun data : InherentData ↦ data.lookup key = some x)
      (provideAll encode providers) := by
  refine Call.Preserves.forEach fun provider _ ↦ ?_
  obtain ⟨identifier, inherent, hput⟩ : ∃ identifier inherent,
      provider.provideInherentData encode = putData identifier inherent := exists_putData provider
  rw [hput]
  exact putData_lookup _ _

end InherentProvider

end Fudge
