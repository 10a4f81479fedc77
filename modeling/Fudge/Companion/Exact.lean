import Fudge.Companion.Grammar

/-!
# Where the parser of a companion is exact

The loop over the attributes of a field ends in its first round, and the tokens behind
`fudge::relaychain` are not read. So a struct is accepted if the first attributes of its fields are
as the grammar wants them (`exists_parseStruct_iff`), and it is in the grammar if, in addition,
nothing stands where the parser does not look (`wellFormed_iff`).
-/

namespace Fudge

namespace Parse

open Fallible FieldType

variable {tail : Tail} {attr : Attribute} {field : Field} {type : FieldType} {fields : List Field}
  {vis : TokenStream} {attrs : List Attribute} {companionName : Ident} {named : FieldsNamed}
  {attrSpan : Span}

/-! ## The first attributes -/

namespace Field

/-- There is nothing where the parser does not look: no second attribute, and no tokens that may not
follow the path of a relay chain. -/
def Plain (tail : Tail) (field : Field) : Prop :=
  field.companionFields.length ≤ 1 ∧
    ∀ attr ∈ field.companionFields,
      attr.path = ["fudge", "relaychain"] → tail.Allows attr.tokens

/-- The first attribute of the field, if it has one, conforms. -/
def FirstConforms (field : Field) : Prop :=
  ∀ attr, field.companionFields.head? = some attr →
    attr.path = ["fudge", "relaychain"] ∨ attr.IsParachain

/-- The first attribute of the field is `fudge::relaychain`. -/
def firstIsRelaychain (field : Field) : Bool :=
  field.companionFields.head?.any (·.path == ["fudge", "relaychain"])

end Field

/-- The struct is in the grammar as far as the first attributes of its fields go. -/
structure FirstsConform (fields : List Field) : Prop where
  conform : ∀ field ∈ fields, field.FirstConforms
  one : fields.countP Field.firstIsRelaychain = 1

theorem Attribute.readAs_iff
    (h : attr.path = ["fudge", "relaychain"] → tail.Allows attr.tokens) :
    attr.ReadAs tail field type ↔ attr.ReadAs .anything field type := by
  constructor
  · rintro (⟨⟨hpath, -⟩, hname⟩ | ⟨hpath, htokens, hname⟩)
    · exact .relaychain ⟨hpath, trivial⟩ hname
    · exact .parachain hpath htokens hname
  · rintro (⟨⟨hpath, -⟩, hname⟩ | ⟨hpath, htokens, hname⟩)
    · exact .relaychain ⟨hpath, h hpath⟩ hname
    · exact .parachain hpath htokens hname

namespace Field

theorem isRelaychain_iff (h : field.Plain tail) :
    field.IsRelaychain tail ↔ field.firstIsRelaychain = true := by
  obtain ⟨hlength, htail⟩ := h
  rw [IsRelaychain, CarriesOne, firstIsRelaychain]
  rcases hattrs : field.companionFields with _ | ⟨attr, _ | ⟨attr', attrs⟩⟩
  · simp
  · have hallows := htail attr (hattrs ▸ List.mem_cons_self)
    simpa [Attribute.IsRelaychain] using hallows
  · rw [hattrs] at hlength
    simp at hlength

theorem conforms_iff :
    (field.IsOther ∨ field.IsRelaychain tail ∨ field.IsParachain) ↔
      field.Plain tail ∧ field.FirstConforms := by
  rw [IsOther, IsRelaychain, IsParachain, CarriesOne, CarriesOne, Plain, FirstConforms]
  rcases field.companionFields with _ | ⟨attr, _ | ⟨attr', attrs⟩⟩
  · simp
  · constructor
    · rintro (h | ⟨_, h, hrelay⟩ | ⟨_, h, hpara⟩)
      · cases h
      · cases h
        simpa using ⟨fun _ ↦ hrelay.2, Or.inl hrelay.1⟩
      · cases h
        have hnot : attr.path ≠ ["fudge", "relaychain"] := by
          rw [hpara.1]
          decide
        simpa using ⟨fun h ↦ absurd h hnot, Or.inr hpara⟩
    · rintro ⟨⟨-, htail⟩, hfirst⟩
      rcases hfirst attr rfl with hrelay | hpara
      · exact Or.inr (Or.inl ⟨attr, rfl, hrelay, htail attr List.mem_cons_self hrelay⟩)
      · exact Or.inr (Or.inr ⟨attr, rfl, hpara⟩)
  · simp

theorem Plain.eq_singleton (h : field.Plain tail)
    (hattr : field.companionFields.head? = some attr) : field.companionFields = [attr] := by
  have hlength := h.1
  rcases hattrs : field.companionFields with _ | ⟨attr', _ | ⟨attr'', attrs⟩⟩
  · rw [hattrs] at hattr
    cases hattr
  · rw [hattrs] at hattr
    cases hattr
    rfl
  · rw [hattrs] at hlength
    simp at hlength

theorem parseField_of_plain (h : field.Plain tail) :
    parseField field = .ok type ↔ field.ReadAs tail type := by
  rw [parseField_eq_ok]
  constructor
  · rintro (⟨hother, rfl⟩ | ⟨attr, hattr, hread⟩)
    · exact .other hother
    · have hattrs := h.eq_singleton hattr
      have hmem : attr ∈ field.companionFields := hattrs ▸ List.mem_cons_self
      exact .attr hattrs ((Attribute.readAs_iff (h.2 attr hmem)).mpr hread)
  · rintro (hother | ⟨hattrs, hread⟩)
    · exact Or.inl ⟨hother, rfl⟩
    · have hmem := hattrs ▸ List.mem_cons_self
      exact Or.inr ⟨_, by rw [hattrs]; rfl, (Attribute.readAs_iff (h.2 _ hmem)).mp hread⟩

theorem exists_parseField_iff (hname : field.ident.isSome) :
    (∃ type, parseField field = .ok type) ↔ field.FirstConforms := by
  obtain ⟨name, hname⟩ := Option.isSome_iff_exists.mp hname
  constructor
  · rintro ⟨type, hparse⟩ attr hattr
    rcases parseField_eq_ok.mp hparse with ⟨hother, -⟩ | ⟨attr', hattr', hread⟩
    · rw [hother] at hattr
      cases hattr
    · rw [hattr'] at hattr
      cases hattr
      rcases hread with ⟨⟨hpath, -⟩, -⟩ | ⟨hpath, htokens, -⟩
      · exact Or.inl hpath
      · exact Or.inr ⟨hpath, _, _, htokens⟩
  · intro h
    rcases hattr : field.companionFields.head? with _ | attr
    · exact ⟨_, parseField_eq_ok.mpr (Or.inl ⟨List.head?_eq_none_iff.mp hattr, rfl⟩)⟩
    · rcases h attr hattr with hpath | ⟨hpath, delimiter, id, htokens⟩
      · exact ⟨_, parseField_eq_ok.mpr (Or.inr ⟨attr, hattr, .relaychain ⟨hpath, trivial⟩ hname⟩)⟩
      · exact ⟨_, parseField_eq_ok.mpr (Or.inr ⟨attr, hattr, .parachain hpath htokens hname⟩)⟩

theorem relaychain?_isSome (h : parseField field = .ok type) :
    type.relaychain?.isSome = field.firstIsRelaychain := by
  rw [firstIsRelaychain]
  rcases parseField_eq_ok.mp h with ⟨hother, rfl⟩ | ⟨attr, hattr, hread⟩
  · rw [hother]
    rfl
  · rw [hattr]
    rcases hread with ⟨⟨hpath, -⟩, -⟩ | ⟨hpath, -, -⟩
    · rw [Option.any_some, hpath]
      rfl
    · rw [Option.any_some, hpath]
      simp [relaychain?]

end Field

theorem length_filterMap_relaychain? {types : List FieldType}
    (h : List.Forall₂ (fun field type ↦ parseField field = .ok type) fields types) :
    (types.filterMap relaychain?).length = fields.countP Field.firstIsRelaychain := by
  induction h with
  | nil => rfl
  | cons hparse _ ih =>
    have hsome := Field.relaychain?_isSome hparse
    rw [List.countP_cons, ← ih, ← hsome, List.filterMap_cons]
    split
    case h_1 hnone => rw [hnone]; rfl
    case h_2 relay hrelay => rw [hrelay]; rfl

theorem exists_parseStruct_iff :
    (∃ d, parseStruct vis attrs companionName named attrSpan = .ok d) ↔
      FirstsConform named.named := by
  simp only [parseStruct_eq_ok]
  constructor
  · rintro ⟨d, -, types, hall, hrelay, -, -⟩
    refine ⟨fun field hfield ↦ ?_, ?_⟩
    · apply (Field.exists_parseField_iff (named.isNamed field hfield)).mp
      exact exists_forall₂.mp ⟨types, hall⟩ field hfield
    · rw [← length_filterMap_relaychain? hall, hrelay]
      rfl
  · rintro ⟨hconform, hone⟩
    have hparse : ∀ field ∈ named.named, ∃ type, parseField field = .ok type :=
      fun field hfield ↦
        (Field.exists_parseField_iff (named.isNamed field hfield)).mpr (hconform field hfield)
    obtain ⟨types, hall⟩ := exists_forall₂.mpr hparse
    rw [← length_filterMap_relaychain? hall] at hone
    obtain ⟨relay, hrelay⟩ := List.length_eq_one_iff.mp hone
    exact ⟨⟨vis, companionName, attrSpan, relay, types.filterMap parachain?,
      types.filterMap other?⟩, ⟨rfl, rfl, rfl⟩, types, hall, hrelay, rfl, rfl⟩

theorem countP_isRelaychain (h : ∀ field ∈ fields, field.Plain tail) :
    fields.countP (fun field ↦ field.IsRelaychain tail) =
      fields.countP Field.firstIsRelaychain := by
  refine List.countP_congr fun field hfield ↦ ?_
  rw [decide_eq_true_iff, Field.isRelaychain_iff (h field hfield)]

theorem wellFormed_iff :
    WellFormed tail fields ↔ (∀ field ∈ fields, field.Plain tail) ∧ FirstsConform fields := by
  constructor
  · rintro ⟨hconform, hone⟩
    have hboth : ∀ field ∈ fields, field.Plain tail ∧ field.FirstConforms :=
      fun field hfield ↦ Field.conforms_iff.mp (hconform field hfield)
    have hplain : ∀ field ∈ fields, field.Plain tail := fun field hfield ↦ (hboth field hfield).1
    rw [countP_isRelaychain hplain] at hone
    exact ⟨hplain, fun field hfield ↦ (hboth field hfield).2, hone⟩
  · rintro ⟨hplain, hconform, hone⟩
    refine ⟨fun field hfield ↦ ?_, (countP_isRelaychain hplain).trans hone⟩
    exact Field.conforms_iff.mpr ⟨hplain field hfield, hconform field hfield⟩

/-! ## What a refusal says -/

variable {e : Error} {s : Sorted}

theorem Sorted.push_eq_error :
    s.push attrSpan type = .error e ↔ (∃ d, type = .relaychain d) ∧ s.relaychain.isSome ∧
      .new attrSpan "Only one relaychain field allowed." = e := by
  rcases type with d | d | field
  · simp [Sorted.push]
  · rw [Sorted.push]
    rcases s.relaychain with _ | d'
    · simp
    · simp
  · simp [Sorted.push]

/-- The loop stops at the first field that does not parse or is a second relay chain. -/
theorem parseFields_eq_error (h : parseFields attrSpan s fields = .error e) :
    ∃ before field after s', fields = before ++ field :: after ∧
      parseFields attrSpan s before = .ok s' ∧
      (parseField field = .error e ∨
        ∃ type, parseField field = .ok type ∧ s'.push attrSpan type = .error e) := by
  induction fields generalizing s with
  | nil => cases h
  | cons field fields ih =>
    rcases bind_eq_error.mp h with hparse | ⟨type, hparse, h⟩
    · exact ⟨[], field, fields, s, rfl, rfl, Or.inl hparse⟩
    · rcases bind_eq_error.mp h with hpush | ⟨t, hpush, h⟩
      · exact ⟨[], field, fields, s, rfl, rfl, Or.inr ⟨type, hparse, hpush⟩⟩
      · obtain ⟨before, field', after, s', hfields, hbefore, hstop⟩ := ih h
        refine ⟨field :: before, field', after, s', by rw [hfields]; rfl, ?_, hstop⟩
        exact bind_eq_ok.mpr ⟨type, hparse, bind_eq_ok.mpr ⟨t, hpush, hbefore⟩⟩

theorem exists_firstIsRelaychain {s' : Sorted} (h : parseFields attrSpan {} fields = .ok s')
    (hsome : s'.relaychain.isSome) : ∃ field ∈ fields, field.firstIsRelaychain = true := by
  obtain ⟨types, hall, hrelay, -, -⟩ := parseFields_eq_ok.mp h
  have hlength : (types.filterMap relaychain?).length = 1 := by
    rw [← Option.length_toList_eq_one_iff, ← hrelay] at hsome
    exact hsome
  rw [length_filterMap_relaychain? hall] at hlength
  apply List.countP_pos_iff.mp
  omega

/-- **A refusal tells the truth.** It is about the first field that does not parse or is a second
relay chain; and if the relay chain is said to be missing, no field is one. -/
theorem parseStruct_eq_error (h : parseStruct vis attrs companionName named attrSpan = .error e) :
    (∃ before field after, named.named = before ++ field :: after ∧
      (parseField field = .error e ∨
        .new attrSpan "Only one relaychain field allowed." = e ∧
          field.firstIsRelaychain = true ∧ ∃ other ∈ before, other.firstIsRelaychain = true)) ∨
      .new named.span "Relay chain not found." = e ∧
        ∀ field ∈ named.named, field.firstIsRelaychain = false := by
  rcases bind_eq_error.mp h with hloop | ⟨s, hs, hnone⟩
  · obtain ⟨before, field, after, s', hfields, hbefore, hstop⟩ := parseFields_eq_error hloop
    refine Or.inl ⟨before, field, after, hfields, ?_⟩
    rcases hstop with hparse | ⟨type, hparse, hpush⟩
    · exact Or.inl hparse
    · obtain ⟨⟨d, rfl⟩, hsome, he⟩ := Sorted.push_eq_error.mp hpush
      have hfirst := (Field.relaychain?_isSome hparse).symm
      exact Or.inr ⟨he, hfirst, exists_firstIsRelaychain hbefore hsome⟩
  · rcases hrelay : s.relaychain with _ | d
    · rw [hrelay] at hnone
      obtain ⟨types, hall, hgained, -, -⟩ := parseFields_eq_ok.mp hs
      rw [hrelay] at hgained
      have hzero : (types.filterMap relaychain?).length = 0 := congrArg List.length hgained
      rw [length_filterMap_relaychain? hall, List.countP_eq_zero] at hzero
      exact Or.inr ⟨Except.error.inj hnone,
        fun field hfield ↦ Bool.eq_false_iff.mpr (hzero field hfield)⟩
    · rw [hrelay] at hnone
      cases hnone

/-! ## Acceptance and the grammar -/

/-- The parser accepts the fields if they are in the grammar, and its result holds each of them, as
what it is by the grammar. -/
structure ExactOn (tail : Tail) (fields : FieldsNamed) (result : Except Error CompanionDef) :
    Prop where
  accepts : (∃ d, result = .ok d) ↔ WellFormed tail fields.named
  sorts : ∀ d, result = .ok d → ∃ types,
    List.Forall₂ (Field.ReadAs tail) fields.named types ∧ d.Holds types

/-- **Where the parser is exact**: on a struct that is refused for its first attributes anyway, or
that has nothing where the parser does not look. -/
theorem parseStruct_exact_iff (tail : Tail) (vis : TokenStream) (attrs : List Attribute)
    (companionName : Ident) (fields : FieldsNamed) (attrSpan : Span) :
    ExactOn tail fields (parseStruct vis attrs companionName fields attrSpan) ↔
      (∀ field ∈ fields.named, field.Plain tail) ∨ ¬ FirstsConform fields.named := by
  constructor
  · intro hexact
    by_cases hfirst : FirstsConform fields.named
    · exact Or.inl (wellFormed_iff.mp (hexact.accepts.mp (exists_parseStruct_iff.mpr hfirst))).1
    · exact Or.inr hfirst
  · intro h
    have hsimple : FirstsConform fields.named → ∀ field ∈ fields.named, field.Plain tail :=
      fun hfirst ↦ h.resolve_right (not_not_intro hfirst)
    refine ⟨?_, fun d hd ↦ ?_⟩
    · rw [exists_parseStruct_iff, wellFormed_iff]
      exact ⟨fun hfirst ↦ ⟨hsimple hfirst, hfirst⟩, fun hwell ↦ hwell.2⟩
    · have hplain := hsimple (exists_parseStruct_iff.mp ⟨d, hd⟩)
      obtain ⟨-, types, hall, hholds⟩ := parseStruct_eq_ok.mp hd
      have hboth := (List.forall₂_and_left _ types).mpr ⟨hplain, hall⟩
      exact ⟨types, hboth.imp fun field type ⟨hplain, hparse⟩ ↦
        (Field.parseField_of_plain hplain).mp hparse, hholds⟩

def twiceMarked : FieldsNamed where
  named := [
    { attrs := [⟨["fudge", "relaychain"], []⟩,
        ⟨["fudge", "parachain"], [.group .parenthesis [.literal "2000u32"]]⟩]
      vis := []
      ident := some "polkadot"
      ty := [.ident "RelaychainBuilder"]
      span := ⟨0, 9⟩ }]
  span := ⟨0, 9⟩
  isNamed := by simp

/-- The parser takes it for the relay chain and drops the parachain. -/
theorem parseStruct_twiceMarked :
    ¬ ExactOn .nothing twiceMarked (parseStruct [] [] "TestEnv" twiceMarked ⟨0, 9⟩) ∧
      ¬ ExactOn .anything twiceMarked (parseStruct [] [] "TestEnv" twiceMarked ⟨0, 9⟩) := by
  have htwo : ∀ tail, ¬ WellFormed tail twiceMarked.named := by
    intro tail hwell
    have hplain := (wellFormed_iff.mp hwell).1 _ List.mem_cons_self
    exact absurd hplain.1 (by decide)
  exact ⟨fun h ↦ htwo _ (h.accepts.mp ⟨_, rfl⟩), fun h ↦ htwo _ (h.accepts.mp ⟨_, rfl⟩)⟩

end Parse

end Fudge
