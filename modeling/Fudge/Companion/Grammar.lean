import Fudge.Call.Fallible
import Fudge.Companion.Parse

/-!
# The grammar of a companion

A field is the relay chain, a parachain or neither, by its one attribute whose path starts with
`fudge`. The parser reads the *first* such attribute of a field as the grammar reads the only one,
so what it returns is described by the same relation between an attribute and what it makes of the
field (`parseField_eq_ok`).

The loop over the fields puts each of them in one of three places. It returns if every field parses
and at most one is a relay chain, and `parse_struct` asks for one.
-/

namespace Fudge

namespace Parse

open Fallible

/-! ## The grammar -/

/-- What the grammar lets follow the path `fudge::relaychain`: nothing, as in the documentation of
the macro, or anything, as in the parser. What is proved holds for both. -/
inductive Tail where
  | nothing
  | anything
deriving DecidableEq, Repr

def Tail.Allows : Tail → TokenStream → Prop
  | nothing, tokens => tokens = []
  | anything, _ => True

instance : (tail : Tail) → (tokens : TokenStream) → Decidable (tail.Allows tokens)
  | .nothing, tokens => inferInstanceAs (Decidable (tokens = []))
  | .anything, _ => isTrue trivial

namespace Attribute

/-- `#[fudge::relaychain]`. -/
def IsRelaychain (tail : Tail) (attr : Attribute) : Prop :=
  attr.path = ["fudge", "relaychain"] ∧ tail.Allows attr.tokens

/-- `#[fudge::parachain(..)]`. -/
def IsParachain (attr : Attribute) : Prop :=
  attr.path = ["fudge", "parachain"] ∧
    ∃ delimiter stream, attr.tokens = [.group delimiter stream]

instance (tail : Tail) (attr : Attribute) : Decidable (attr.IsRelaychain tail) :=
  inferInstanceAs (Decidable (_ ∧ _))

inductive ReadAs (tail : Tail) (attr : Attribute) (field : Field) : FieldType → Prop
  | relaychain {name : Ident} (hattr : attr.IsRelaychain tail) (hname : field.ident = some name) :
      attr.ReadAs tail field (.relaychain ⟨name, field.ty, field.vis⟩)
  | parachain {name : Ident} {delimiter : Delimiter} {id : TokenStream}
      (hpath : attr.path = ["fudge", "parachain"])
      (htokens : attr.tokens = [.group delimiter id]) (hname : field.ident = some name) :
      attr.ReadAs tail field (.parachain ⟨name, id, field.ty, field.vis⟩)

end Attribute

namespace Field

/-- The field carries exactly one attribute whose path starts with `fudge`, and it is one of
those. -/
def CarriesOne (p : Attribute → Prop) (field : Field) : Prop :=
  ∃ attr, field.companionFields = [attr] ∧ p attr

def IsOther (field : Field) : Prop := field.companionFields = []

def IsRelaychain (tail : Tail) (field : Field) : Prop :=
  field.CarriesOne (Attribute.IsRelaychain tail)

def IsParachain (field : Field) : Prop := field.CarriesOne Attribute.IsParachain

instance (p : Attribute → Prop) [DecidablePred p] (field : Field) :
    Decidable (field.CarriesOne p) :=
  match h : field.companionFields with
  | [attr] => decidable_of_iff (p attr) (by simp [CarriesOne, h])
  | [] => isFalse (by simp [CarriesOne, h])
  | _ :: _ :: _ => isFalse (by simp [CarriesOne, h])

instance (tail : Tail) (field : Field) : Decidable (field.IsRelaychain tail) :=
  inferInstanceAs (Decidable (field.CarriesOne _))

inductive ReadAs (tail : Tail) (field : Field) : FieldType → Prop
  | other (h : field.IsOther) : field.ReadAs tail (.other field)
  | attr {attr : Attribute} {type : FieldType} (hattr : field.companionFields = [attr])
      (h : attr.ReadAs tail field type) : field.ReadAs tail type

end Field

/-- **The grammar**: every field conforms, and exactly one of them is the relay chain. -/
structure WellFormed (tail : Tail) (fields : List Field) : Prop where
  conform : ∀ field ∈ fields, field.IsOther ∨ field.IsRelaychain tail ∨ field.IsParachain
  one : fields.countP (fun field ↦ field.IsRelaychain tail) = 1

/-! ## What the parser reads off an attribute -/

variable {tail : Tail} {attr : Attribute} {field : Field} {type : FieldType}

theorem parse2_paraId_eq_ok {tokens : TokenStream} {id : ParaId} :
    parse2 ParaId.parse tokens = .ok id ↔ ∃ delimiter, tokens = [.group delimiter id.stream] := by
  constructor
  · intro h
    rcases tokens with _ | ⟨⟨delimiter, stream⟩ | _ | _ | _, _ | ⟨_, _⟩⟩
    case cons.group.nil =>
      cases h
      exact ⟨delimiter, rfl⟩
    all_goals cases h
  · rintro ⟨delimiter, rfl⟩
    rfl

theorem name_eq_ok {message : String} {name : Ident} :
    field.name message = .ok name ↔ field.ident = some name := by
  rw [Field.name]
  rcases field.ident with _ | name'
  · simp
  · simp

theorem parachain_eq_ok {tokens : TokenStream} :
    field.parachain tokens = .ok type ↔ ∃ delimiter id name, tokens = [.group delimiter id] ∧
      field.ident = some name ∧ .parachain ⟨name, id, field.ty, field.vis⟩ = type := by
  rw [Field.parachain, bind_eq_ok]
  constructor
  · rintro ⟨id, hid, h⟩
    obtain ⟨name, hname, htype⟩ := bind_eq_ok.mp h
    obtain ⟨delimiter, htokens⟩ := parse2_paraId_eq_ok.mp hid
    exact ⟨delimiter, id.stream, name, htokens, name_eq_ok.mp hname, Except.ok.inj htype⟩
  · rintro ⟨delimiter, id, name, htokens, hname, rfl⟩
    refine ⟨⟨id⟩, parse2_paraId_eq_ok.mpr ⟨delimiter, htokens⟩, ?_⟩
    exact bind_eq_ok.mpr ⟨name, name_eq_ok.mpr hname, rfl⟩

theorem relaychain_eq_ok :
    field.relaychain = .ok type ↔
      ∃ name, field.ident = some name ∧ .relaychain ⟨name, field.ty, field.vis⟩ = type := by
  rw [Field.relaychain, bind_eq_ok]
  constructor
  · rintro ⟨name, hname, htype⟩
    exact ⟨name, name_eq_ok.mp hname, Except.ok.inj htype⟩
  · rintro ⟨name, hname, rfl⟩
    exact ⟨name, name_eq_ok.mpr hname, rfl⟩

theorem isFudge_iff : attr.isFudge = true ↔ ∃ segments, attr.path = "fudge" :: segments := by
  rw [Attribute.isFudge]
  rcases attr.path with _ | ⟨first, segments⟩
  · simp
  · simp

/-- An attribute that passed the filter is read as the grammar says, whatever follows the path of
`fudge::relaychain`. -/
theorem parseAttribute_eq_ok (h : attr.isFudge = true) :
    field.parseAttribute attr = .ok type ↔ attr.ReadAs .anything field type := by
  obtain ⟨segments, hpath⟩ := isFudge_iff.mp h
  constructor
  · intro hok
    rw [Field.parseAttribute, hpath] at hok
    rcases segments with _ | ⟨second, _ | ⟨third, segments⟩⟩
    · cases hok
    · by_cases hpara : second = "parachain"
      · subst hpara
        obtain ⟨delimiter, id, name, htokens, hname, rfl⟩ := parachain_eq_ok.mp hok
        exact .parachain hpath htokens hname
      · by_cases hrelay : second = "relaychain"
        · subst hrelay
          obtain ⟨name, hname, rfl⟩ := relaychain_eq_ok.mp hok
          exact .relaychain ⟨hpath, trivial⟩ hname
        · simp [expectedPathSegments, hpara, hrelay] at hok
    · simp [expectedPathSegments] at hok
  · intro hread
    rw [Field.parseAttribute]
    rcases hread with ⟨⟨hpath, -⟩, hname⟩ | ⟨hpath, htokens, hname⟩
    · rw [hpath]
      exact relaychain_eq_ok.mpr ⟨_, hname, rfl⟩
    · rw [hpath]
      exact parachain_eq_ok.mpr ⟨_, _, _, htokens, hname, rfl⟩


/-! ## What the parser reads off a field -/

theorem isFudge_of_companionFields {attrs : List Attribute}
    (h : field.companionFields = attr :: attrs) : attr.isFudge = true := by
  have hmem : attr ∈ field.companionFields := h ▸ List.mem_cons_self
  exact (List.mem_filter.mp hmem).2

/-- Only the first attribute counts. -/
theorem parseField_eq_ok :
    parseField field = .ok type ↔ (field.IsOther ∧ .other field = type) ∨
      ∃ attr, field.companionFields.head? = some attr ∧ attr.ReadAs .anything field type := by
  rw [parseField, Field.IsOther]
  rcases hattrs : field.companionFields with _ | ⟨attr, attrs⟩
  · simp
  · have hparse : field.parseAttribute attr = .ok type ↔ attr.ReadAs .anything field type :=
      parseAttribute_eq_ok (isFudge_of_companionFields hattrs)
    simpa [Field.parseAttributes] using hparse

/-! ## What the parser makes of all fields -/

namespace FieldType

def relaychain? : FieldType → Option RelaychainDef
  | relaychain d => some d
  | _ => none

def parachain? : FieldType → Option ParachainDef
  | parachain d => some d
  | _ => none

def other? : FieldType → Option Field
  | other field => some field
  | _ => none

end FieldType

open FieldType

/-- The three lists of a sorted struct, from the fields it was sorted from. -/
structure Sorted.Gained (s : Sorted) (types : List FieldType) (s' : Sorted) : Prop where
  relaychain : s.relaychain.toList ++ types.filterMap relaychain? = s'.relaychain.toList
  parachains : s.parachains ++ types.filterMap parachain? = s'.parachains
  others : s.others ++ types.filterMap other? = s'.others

variable {attrSpan : Span} {s s' : Sorted} {fields : List Field}

theorem Sorted.gained_nil : s.Gained [] s' ↔ s = s' := by
  constructor
  · rintro ⟨hrelay, hparas, hothers⟩
    rw [List.filterMap_nil, List.append_nil] at hrelay hparas hothers
    rcases s with ⟨paras, others, relay⟩
    rcases s' with ⟨paras', others', relay'⟩
    rw [Sorted.mk.injEq]
    have hhead := congrArg List.head? hrelay
    rw [Option.head?_toList, Option.head?_toList] at hhead
    exact ⟨hparas, hothers, hhead⟩
  · rintro rfl
    exact ⟨List.append_nil _, List.append_nil _, List.append_nil _⟩

theorem Sorted.push_eq_ok (types : List FieldType) :
    (∃ t, s.push attrSpan type = .ok t ∧ t.Gained types s') ↔ s.Gained (type :: types) s' := by
  constructor
  · rintro ⟨t, hpush, hrelay, hparas, hothers⟩
    rcases type with d | d | field
    · cases hpush
      exact ⟨hrelay, by simpa [parachain?] using hparas, hothers⟩
    · rcases hs : s.relaychain with _ | d'
      · rw [Sorted.push, hs] at hpush
        cases hpush
        exact ⟨by rw [hs]; exact hrelay, hparas, hothers⟩
      · rw [Sorted.push, hs] at hpush
        cases hpush
    · cases hpush
      exact ⟨hrelay, hparas, by simpa [other?] using hothers⟩
  · rintro ⟨hrelay, hparas, hothers⟩
    rcases type with d | d | field
    · exact ⟨_, rfl, hrelay, by simpa [parachain?] using hparas, hothers⟩
    · rcases hs : s.relaychain with _ | d'
      · refine ⟨{ s with relaychain := some d }, ?_, ?_, hparas, hothers⟩
        · rw [Sorted.push, hs]
        · rw [hs] at hrelay
          exact hrelay
      · -- two relay chains do not fit into the one place
        rw [hs] at hrelay
        have hlength := congrArg List.length hrelay
        have hle : s'.relaychain.toList.length ≤ 1 := Option.length_toList_le
        simp [relaychain?] at hlength
        omega
    · exact ⟨_, rfl, hrelay, hparas, by simpa [other?] using hothers⟩

theorem parseFields_eq_ok :
    parseFields attrSpan s fields = .ok s' ↔
      ∃ types, List.Forall₂ (fun field type ↦ parseField field = .ok type) fields types ∧
        s.Gained types s' := by
  induction fields generalizing s with
  | nil =>
    simp only [List.forall₂_nil_left_iff, exists_eq_left, Sorted.gained_nil, parseFields,
      Except.ok.injEq]
  | cons field fields ih =>
    rw [parseFields, bind_eq_ok]
    constructor
    · rintro ⟨type, hparse, hrest⟩
      obtain ⟨t, hpush, hrest⟩ := bind_eq_ok.mp hrest
      obtain ⟨types, hall, hgained⟩ := ih.mp hrest
      exact ⟨type :: types, .cons hparse hall, (Sorted.push_eq_ok types).mp ⟨t, hpush, hgained⟩⟩
    · rintro ⟨types, hall, hgained⟩
      rcases hall with _ | ⟨hparse, hall⟩
      obtain ⟨t, hpush, hgained⟩ := (Sorted.push_eq_ok _).mpr hgained
      exact ⟨_, hparse, bind_eq_ok.mpr ⟨t, hpush, ih.mpr ⟨_, hall, hgained⟩⟩⟩

/-- The result holds the fields, each in its own place. -/
structure CompanionDef.Holds (d : CompanionDef) (types : List FieldType) : Prop where
  relaychain : types.filterMap relaychain? = [d.relaychain]
  parachains : types.filterMap parachain? = d.parachains
  others : types.filterMap other? = d.others

variable {vis : TokenStream} {attrs : List Attribute} {companionName : Ident} {named : FieldsNamed}
  {d : CompanionDef}

/-- **What `parse_struct` returns.** -/
theorem parseStruct_eq_ok :
    parseStruct vis attrs companionName named attrSpan = .ok d ↔
      (d.vis = vis ∧ d.companionName = companionName ∧ d.attrSpan = attrSpan) ∧
        ∃ types, List.Forall₂ (fun field type ↦ parseField field = .ok type) named.named types ∧
          d.Holds types := by
  rw [parseStruct, bind_eq_ok]
  constructor
  · rintro ⟨s, hs, hd⟩
    obtain ⟨types, hall, hrelay, hparas, hothers⟩ := parseFields_eq_ok.mp hs
    rcases hsome : s.relaychain with _ | relay
    · rw [hsome] at hd
      cases hd
    · rw [hsome] at hd hrelay
      cases hd
      exact ⟨⟨rfl, rfl, rfl⟩, types, hall, hrelay, hparas, hothers⟩
  · rintro ⟨⟨rfl, rfl, rfl⟩, types, hall, hrelay, hparas, hothers⟩
    exact ⟨⟨d.parachains, d.others, some d.relaychain⟩,
      parseFields_eq_ok.mpr ⟨types, hall, hrelay, hparas, hothers⟩, rfl⟩

end Parse

end Fudge
