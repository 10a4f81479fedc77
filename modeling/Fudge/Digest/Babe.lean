import Fudge.Digest.Aura

/-!
# The Babe digest

A Babe pre-digest carries the slot that the slot provider of the inherent data put, not one that is
computed from the timestamp; the two agree because the slot provider is made from the clock's time.
`BabeDigest` follows `digest/babe.rs`, and `buildDigest` and `appendDigest` the two methods that
`digest/mod.rs` gives every digest provider.

The pre-digest is encoded into the header, and the runtime finds its slot there again.
-/

namespace Fudge

open CurrTimeProvider (decodeTimestamp encodeTimestamp)

/-- `digest::Error`, as far as the Babe provider returns it. -/
inductive BabeDigestError where
  | babeInherentDataRetrieval (e : InnerError)
  | babeInherentDataNotFound
deriving DecidableEq, Repr

/-- `sp_consensus_babe::inherents::INHERENT_IDENTIFIER`, which is `babeslot`. -/
def babeInherentIdentifier : Bytes := [98, 97, 98, 101, 115, 108, 111, 116]

/-- `BABE_ENGINE_ID`, which is `BABE`. -/
def babeEngineId : Bytes := [66, 65, 66, 69]

/-- `inherents.babe_inherent_data()`. A slot is encoded as a timestamp is. -/
def babeInherentData (inherents : InherentData) : Except InnerError (Option ℕ) :=
  match inherents.lookup babeInherentIdentifier with
  | some b => match decodeTimestamp b with
    | some slot => .ok (some slot)
    | none => .error "decoding failed"
  | none => .ok none

/-- `DigestItem::PreRuntime`. -/
structure PreRuntime where
  engine : Bytes
  payload : Bytes
deriving DecidableEq, Repr

structure SecondaryPlainPreDigest where
  authorityIndex : ℕ
  slot : ℕ
deriving DecidableEq, Repr

/-- The encoding of `PreDigest::SecondaryPlain`: the index of the variant, four bytes of authority
index and eight bytes of slot, the low ones first. -/
def SecondaryPlainPreDigest.encode (d : SecondaryPlainPreDigest) : Bytes :=
  2 :: (((List.range 4).map fun i ↦ UInt8.ofNat (d.authorityIndex / 256 ^ i)) ++
    encodeTimestamp d.slot)

/-- The slot of an encoded pre-digest of that variant. -/
def decodeSlot : Bytes → Option ℕ
  | 2 :: rest => decodeTimestamp (rest.drop 4)
  | _ => none

theorem decodeSlot_encode {d : SecondaryPlainPreDigest} (h : d.slot < 2 ^ 64) :
    decodeSlot d.encode = some d.slot :=
  CurrTimeProvider.decode_encodeTimestamp h

/-- `babe::Digest::digest`. It reads the inherent data, and the parent is not used. -/
def babeDigest (_parent : Header) : Call InherentData BabeDigestError PreRuntime := do
  let slot ← Call.query babeInherentData .babeInherentDataRetrieval
  let slot ← Call.require .babeInherentDataNotFound slot
  pure ⟨babeEngineId, (SecondaryPlainPreDigest.mk 0 slot).encode⟩

/-- **The digest of inherent data**: there is one where they have a slot, and it has that slot. -/
theorem babeDigest_eq_ok {parent : Header} {item : PreRuntime} {inherents s : InherentData} :
    babeDigest parent inherents = (.ok item, s) ↔ ∃ slot,
      babeInherentData inherents = .ok (some slot) ∧
        item = ⟨babeEngineId, (SecondaryPlainPreDigest.mk 0 slot).encode⟩ ∧ s = inherents := by
  rw [babeDigest]
  simp only [Call.bind_eq_ok, Call.query_eq_ok, Call.require_eq_ok, Call.pure_eq_ok]
  constructor
  · rintro ⟨_, _, ⟨hslot, rfl⟩, slot, _, ⟨rfl, rfl⟩, hitem⟩
    exact ⟨slot, hslot, hitem⟩
  · rintro ⟨slot, hslot, hitem⟩
    exact ⟨_, _, ⟨hslot, rfl⟩, slot, _, ⟨rfl, rfl⟩, hitem⟩

theorem babeInherentData_of_lookup {inherents : InherentData} {slot : ℕ} (hslot : slot < 2 ^ 64)
    (h : inherents.lookup babeInherentIdentifier = some (encodeTimestamp slot)) :
    babeInherentData inherents = .ok (some slot) := by
  rw [babeInherentData, h]
  simp only [CurrTimeProvider.decode_encodeTimestamp hslot]

/-! ## Digests of one item and more -/

section Logs

variable {ε α : Type} (digest : Header → Call InherentData ε α)

/-- `DigestProvider::build_digest`. -/
def buildDigest (parent : Header) : Call InherentData ε (List α) := do
  let item ← digest parent
  pure [item]

/-- `DigestProvider::append_digest`. -/
def appendDigest (parent : Header) (logs : List α) : Call InherentData ε (List α) := do
  let item ← digest parent
  pure (logs ++ [item])

end Logs

inductive LogItem where
  | aura (item : DigestItem)
  | preRuntime (item : PreRuntime)
deriving DecidableEq, Repr

def LogItem.slot : LogItem → Option ℕ
  | aura (.auraPreDigest slot) => some slot
  | preRuntime item => if item.engine = babeEngineId then decodeSlot item.payload else none

/-- The slot of a digest: that of its first item that has one. -/
def slotOf (logs : List LogItem) : Option ℕ := logs.findSome? LogItem.slot

end Fudge
