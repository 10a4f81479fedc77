import Fudge.Companion.Exact
import Fudge.Companion.Expand
import Mathlib.Data.Option.Basic

/-!
# What the companion macro takes and refuses

The macro takes a struct with named fields whose first attributes conform, if it has no argument and
the crates are there (`implCompanionGen_takes`). What it makes of it has the fields of the struct,
the relay chain first and then the parachains and the others, each group in the order of the
struct (`implCompanionGen_sorts`): this is the order in which the parachains are onboarded and
evolved. And when it refuses something, what it says about it is so (`implCompanionGen_refuses`).
-/

namespace Fudge

namespace Parse

open Fallible FieldType

variable {found : String → Bool} {callSite attrSpan : Span} {attr vis : TokenStream}
  {attrs : List Attribute} {companionName : Ident} {field : Field} {type : FieldType}
  {fields : FieldsNamed} {d : CompanionDef} {item : ItemStruct} {e : Expansion} {refusal : Error}

/-! ## What is taken -/

theorem getCrateWithName_eq_ok {name : String} :
    getCrateWithName found callSite name = .ok () ↔ found name = true := by
  rw [getCrateWithName]
  split_ifs with h
  · exact ⟨fun _ ↦ h, fun _ ↦ rfl⟩
  · exact ⟨fun hok ↦ (nomatch hok), fun hfound ↦ absurd hfound h⟩

theorem expand_isOk (h : CompanionDef.parse item = .ok d) :
    (∃ e, expand found callSite d = .ok e) ↔ ∀ name ∈ crates, found name = true := by
  have hcrates : crates.forM (getCrateWithName found callSite) = .ok () ↔
      ∀ name ∈ crates, found name = true := by
    simp only [forM_eq_ok, getCrateWithName_eq_ok]
  rw [← hcrates]
  obtain ⟨others, hothers⟩ := exists_structFields h
  rw [expand, hothers]
  rcases crates.forM (getCrateWithName found callSite) with e' | _
  · constructor
    · rintro ⟨e, he⟩
      cases he
    · intro he
      cases he
  · exact ⟨fun _ ↦ rfl, fun _ ↦ ⟨_, rfl⟩⟩

theorem exists_parse_iff :
    (∃ d, CompanionDef.parse item = .ok d) ↔
      ∃ fields, item.fields = .named fields ∧ FirstsConform fields.named := by
  constructor
  · rintro ⟨d, hd⟩
    obtain ⟨fields, hfields, hstruct⟩ := parse_eq_ok hd
    exact ⟨fields, hfields, exists_parseStruct_iff.mp ⟨d, hstruct⟩⟩
  · rintro ⟨fields, hfields, hconform⟩
    obtain ⟨d, hd⟩ := exists_parseStruct_iff.mpr hconform
    exact ⟨d, by rw [CompanionDef.parse, hfields]; exact hd⟩

/-- **What the macro takes.** It never panics. -/
theorem implCompanionGen_takes (found : String → Bool) (callSite : Span) (attr : TokenStream)
    (attrSpan : Span) (item : ItemStruct) :
    (implCompanionGen found callSite attr attrSpan item).isPanic = false ∧
      ((∃ e, implCompanionGen found callSite attr attrSpan item = .ok e) ↔
        attr = [] ∧ (∀ name ∈ crates, found name = true) ∧
          ∃ fields, item.fields = .named fields ∧ FirstsConform fields.named) := by
  refine ⟨implCompanionGen_no_panic, ?_⟩
  rw [← exists_parse_iff, implCompanionGen]
  split_ifs with hempty
  · rw [List.isEmpty_iff] at hempty
    rcases hparse : CompanionDef.parse item with e' | d
    · simp
    · simpa [hempty] using expand_isOk hparse
  · rw [List.isEmpty_iff] at hempty
    simp [hempty]

/-! ## What becomes of the fields -/

namespace Field

/-- The first attribute of the field is `fudge::parachain`. -/
def firstIsParachain (field : Field) : Bool :=
  field.companionFields.head?.any (·.path == ["fudge", "parachain"])

def hasNone (field : Field) : Bool := field.companionFields.isEmpty

theorem role_cases (h : parseField field = .ok type) :
    (∃ d, type = .relaychain d ∧ field.structField = some d.structField ∧
        field.firstIsRelaychain = true ∧ field.firstIsParachain = false ∧ field.hasNone = false) ∨
      (∃ d, type = .parachain d ∧ field.structField = some d.structField ∧
        field.firstIsRelaychain = false ∧ field.firstIsParachain = true ∧ field.hasNone = false) ∨
      type = .other field ∧ field.firstIsRelaychain = false ∧ field.firstIsParachain = false ∧
        field.hasNone = true := by
  have hplace := structField_of_parseField h
  rcases parseField_eq_ok.mp h with ⟨hother, rfl⟩ | ⟨attr, hattr, hread⟩
  · right; right
    rw [IsOther] at hother
    simp [firstIsRelaychain, firstIsParachain, hasNone, hother]
  · have hsome : field.hasNone = false := by
      rw [hasNone, List.isEmpty_eq_false_iff]
      rintro hnil
      rw [hnil] at hattr
      cases hattr
    rcases hread with ⟨⟨hpath, -⟩, hname⟩ | ⟨hpath, -, hname⟩
    · refine Or.inl ⟨_, rfl, hplace.symm, ?_, ?_, hsome⟩
      · simp [firstIsRelaychain, hattr, hpath]
      · simp [firstIsParachain, hattr, hpath]
    · refine Or.inr (Or.inl ⟨_, rfl, hplace.symm, ?_, ?_, hsome⟩)
      · simp [firstIsRelaychain, hattr, hpath]
      · simp [firstIsParachain, hattr, hpath]

end Field

section Places

variable {types : List FieldType} {fields : List Field}
  (h : List.Forall₂ (fun field type ↦ parseField field = .ok type) fields types)

include h

theorem relaychain_fields :
    ((types.filterMap relaychain?).map RelaychainDef.structField).map some =
      (fields.filter Field.firstIsRelaychain).map Field.structField := by
  rw [List.map_filterMap]
  refine map_filterMap (fun field type hparse ↦ ?_) h
  rcases Field.role_cases hparse with
    ⟨d, rfl, hplace, hrelay, -⟩ | ⟨d, rfl, -, hrelay, -⟩ | ⟨rfl, hrelay, -⟩
  · rw [if_pos hrelay]
    exact ⟨_, rfl, hplace⟩
  · rw [hrelay]
    rfl
  · rw [hrelay]
    rfl

theorem parachain_fields :
    ((types.filterMap parachain?).map ParachainDef.structField).map some =
      (fields.filter Field.firstIsParachain).map Field.structField := by
  rw [List.map_filterMap]
  refine map_filterMap (fun field type hparse ↦ ?_) h
  rcases Field.role_cases hparse with
    ⟨d, rfl, -, -, hpara, -⟩ | ⟨d, rfl, hplace, -, hpara, -⟩ | ⟨rfl, -, hpara, -⟩
  · rw [hpara]
    rfl
  · rw [if_pos hpara]
    exact ⟨_, rfl, hplace⟩
  · rw [hpara]
    rfl

theorem other_fields :
    (types.filterMap other?).map some = (fields.filter Field.hasNone).map some := by
  refine map_filterMap (fun field type hparse ↦ ?_) h
  rcases Field.role_cases hparse with
    ⟨d, rfl, -, -, -, hnone⟩ | ⟨d, rfl, -, -, -, hnone⟩ | ⟨rfl, -, -, hnone⟩
  · rw [hnone]
    rfl
  · rw [hnone]
    rfl
  · rw [if_pos hnone]
    exact ⟨_, rfl, rfl⟩

end Places

theorem implCompanionGen_eq_ok (h : implCompanionGen found callSite attr attrSpan item = .ok e) :
    ∃ d, CompanionDef.parse item = .ok d ∧ expand found callSite d = .ok e := by
  rw [implCompanionGen] at h
  split_ifs at h with hempty
  rcases hparse : CompanionDef.parse item with e' | d
  · rw [hparse] at h
    cases h
  · rw [hparse] at h
    exact ⟨d, rfl, h⟩

/-- **What the macro makes of a struct**: its fields, with their names, types and visibilities, the
relay chain before the parachains and these before the others, and within each group as they
stood. -/
theorem implCompanionGen_sorts
    (h : implCompanionGen found callSite attr attrSpan item = .ok e) :
    ∃ fields, item.fields = .named fields ∧ e.vis = item.vis ∧ e.name = item.ident ∧
      e.fields.map some =
        (fields.named.filter Field.firstIsRelaychain ++
          (fields.named.filter Field.firstIsParachain ++
            fields.named.filter Field.hasNone)).map Field.structField := by
  obtain ⟨d, hparse, hexpand⟩ := implCompanionGen_eq_ok h
  obtain ⟨fields, hfields, hstruct⟩ := parse_eq_ok hparse
  obtain ⟨⟨hvis, hname, -⟩, types, hall, hholds⟩ := parseStruct_eq_ok.mp hstruct
  obtain ⟨others, hothers, rfl⟩ := expand_eq_ok hexpand
  refine ⟨fields, hfields, hvis, hname, ?_⟩
  have hrelay := relaychain_fields hall
  rw [hholds.relaychain] at hrelay
  have hparas := parachain_fields hall
  rw [hholds.parachains] at hparas
  have hrest : d.others = fields.named.filter Field.hasNone := by
    rw [← hholds.others]
    exact List.map_injective_iff.mpr (Option.some_injective _) (other_fields hall)
  rw [List.map_append, List.map_append, ← hrelay, ← hparas, ← hrest, mapM_eq_some.mp hothers,
    ← List.map_append, ← List.map_append]
  rfl

/-- A parachain before the relay chain, and a field of another kind before both. -/
def testEnv : ItemStruct where
  attrs := []
  vis := [.ident "pub"]
  ident := "TestEnv"
  fields := .named
    { named := [
        ⟨[], [], some "name", [.ident "String"], ⟨0, 1⟩⟩,
        ⟨[⟨["fudge", "parachain"], [.group .parenthesis [.literal "2000u32"]]⟩], [],
          some "sibling", [.ident "ParachainBuilder"], ⟨1, 2⟩⟩,
        ⟨[⟨["doc"], []⟩, ⟨["fudge", "relaychain"], []⟩], [], some "polkadot",
          [.ident "RelaychainBuilder"], ⟨2, 3⟩⟩]
      span := ⟨0, 3⟩
      isNamed := by simp }
  span := ⟨0, 4⟩

theorem implCompanionGen_sorts_testEnv :
    ∃ e fields, implCompanionGen (fun _ ↦ true) ⟨0, 4⟩ [] ⟨0, 0⟩ testEnv = .ok e ∧
      testEnv.fields = .named fields ∧
      e.fields.map (·.name) = ["polkadot", "sibling", "name"] ∧
      e.fields.map some =
        (fields.named.filter Field.firstIsRelaychain ++
          (fields.named.filter Field.firstIsParachain ++
            fields.named.filter Field.hasNone)).map Field.structField := by
  obtain ⟨e, he⟩ : ∃ e, implCompanionGen (fun _ ↦ true) ⟨0, 4⟩ [] ⟨0, 0⟩ testEnv = .ok e :=
    ⟨_, rfl⟩
  obtain ⟨fields, hfields, -, -, hsorts⟩ := implCompanionGen_sorts he
  cases he
  exact ⟨_, fields, rfl, hfields, rfl, hsorts⟩

/-! ## What is refused -/

/-- What is wrong with the first attribute of a field that does not parse. -/
inductive AttributeFault (field : Field) (attr : Attribute) : Error → Prop
  | segments (h : attr.path.length ≠ expectedPathSegments) :
      AttributeFault field attr
        (.new field.span s!"Expected {expectedPathSegments} path segments")
  | unsupported {second : Ident} (h : attr.path = ["fudge", second])
      (hpara : second ≠ "parachain") (hrelay : second ≠ "relaychain") :
      AttributeFault field attr
        (.new field.span "Only parachain or relaychain attributes supported currently.")
  | noGroup (h : attr.path = ["fudge", "parachain"])
      (htokens : ∀ delimiter stream rest, attr.tokens ≠ .group delimiter stream :: rest) :
      AttributeFault field attr .expectedGroup
  | trailing {delimiter : Delimiter} {stream rest : TokenStream}
      (h : attr.path = ["fudge", "parachain"])
      (htokens : attr.tokens = .group delimiter stream :: rest) (hrest : rest ≠ []) :
      AttributeFault field attr .unexpectedToken

/-- The id of a parachain is refused if it is no group, or if something follows the group. -/
theorem parse2_paraId_eq_error {tokens : TokenStream}
    (h : parse2 ParaId.parse tokens = .error refusal) :
    (refusal = .expectedGroup ∧
        ∀ delimiter stream rest, tokens ≠ .group delimiter stream :: rest) ∨
      refusal = .unexpectedToken ∧
        ∃ delimiter stream rest, tokens = .group delimiter stream :: rest ∧ rest ≠ [] := by
  rcases tokens with _ | ⟨⟨delimiter, stream⟩ | _ | _ | _, rest⟩
  case cons.group =>
    rcases rest with _ | ⟨token, rest⟩
    · cases h
    · cases h
      exact Or.inr ⟨rfl, delimiter, stream, _, rfl, List.cons_ne_nil _ _⟩
  all_goals
    cases h
    exact Or.inl ⟨rfl, fun _ _ _ hne ↦ (nomatch hne)⟩

theorem parseField_eq_error (hname : field.ident.isSome)
    (h : parseField field = .error refusal) :
    ∃ attr, field.companionFields.head? = some attr ∧ AttributeFault field attr refusal := by
  obtain ⟨name, hname⟩ := Option.isSome_iff_exists.mp hname
  have hnamed : ∀ message, field.name message = .ok name := fun _ ↦ name_eq_ok.mpr hname
  rw [parseField] at h
  rcases hattrs : field.companionFields with _ | ⟨attr, attrs⟩
  · rw [hattrs] at h
    cases h
  · rw [hattrs] at h
    change field.parseAttribute attr = .error refusal at h
    obtain ⟨segments, hpath⟩ := isFudge_iff.mp (isFudge_of_companionFields hattrs)
    refine ⟨attr, rfl, ?_⟩
    rw [Field.parseAttribute] at h
    split_ifs at h with hsegments
    · cases h
      exact .segments hsegments
    · rw [hpath, List.length_cons, expectedPathSegments] at hsegments
      obtain ⟨second, rfl⟩ := List.length_eq_one_iff.mp (by omega : segments.length = 1)
      rw [hpath] at h
      change (if second = "parachain" then field.parachain attr.tokens
        else if second = "relaychain" then field.relaychain else _) = _ at h
      split_ifs at h with hpara hrelay
      · subst hpara
        rw [Field.parachain] at h
        rcases bind_eq_error.mp h with hid | ⟨id, -, h⟩
        · rcases parse2_paraId_eq_error hid with
            ⟨rfl, hno⟩ | ⟨rfl, delimiter, stream, rest, htokens, hrest⟩
          · exact .noGroup hpath hno
          · exact .trailing hpath htokens hrest
        · rw [hnamed] at h
          cases h
      · rw [Field.relaychain, hnamed] at h
        cases h
      · cases h
        exact .unsupported hpath hpara hrelay

/-- What is wrong with a struct that does not parse. -/
inductive Fault (item : ItemStruct) : Error → Prop
  | unit {span : Span} (h : item.fields = .unit span) :
      Fault item (.new span "Must be a struct with named fields. Not an unit struct.")
  | unnamed {span : Span} (h : item.fields = .unnamed span) :
      Fault item (.new span "Must be a struct with named fields. Not an unnamed fields struct.")
  | attribute {fields : FieldsNamed} {field : Field} {attr : Attribute} {refusal : Error}
      (h : item.fields = .named fields) (hmem : field ∈ fields.named)
      (hattr : field.companionFields.head? = some attr)
      (hfault : AttributeFault field attr refusal) : Fault item refusal
  | second {fields : FieldsNamed} {before after : List Field} {other field : Field}
      (h : item.fields = .named fields) (hsplit : fields.named = before ++ field :: after)
      (hmem : other ∈ before) (hother : other.firstIsRelaychain = true)
      (hfield : field.firstIsRelaychain = true) :
      Fault item (.new item.span "Only one relaychain field allowed.")
  | missing {fields : FieldsNamed} (h : item.fields = .named fields)
      (hnone : ∀ field ∈ fields.named, field.firstIsRelaychain = false) :
      Fault item (.new fields.span "Relay chain not found.")

theorem parse_eq_error (h : CompanionDef.parse item = .error refusal) : Fault item refusal := by
  rw [CompanionDef.parse] at h
  rcases hfields : item.fields with fields | span | span
  · rw [hfields] at h
    rcases parseStruct_eq_error h with
      ⟨before, field, after, hsplit, hparse | ⟨rfl, hfield, other, hmem, hother⟩⟩ | ⟨rfl, hnone⟩
    · have hmem : field ∈ fields.named := hsplit ▸ List.mem_append_right _ List.mem_cons_self
      obtain ⟨attr, hattr, hfault⟩ := parseField_eq_error (fields.isNamed field hmem) hparse
      exact .attribute hfields hmem hattr hfault
    · exact .second hfields hsplit hmem hother hfield
    · exact .missing hfields hnone
  · rw [hfields] at h
    cases h
    exact .unnamed hfields
  · rw [hfields] at h
    cases h
    exact .unit hfields

/-- The first crate that is missing is the one that is named. -/
theorem expand_eq_error (h : expand found callSite d = .err refusal) :
    ∃ before name after, crates = before ++ name :: after ∧ (∀ c ∈ before, found c = true) ∧
      found name = false ∧
      .new callSite s!"Crate {name} must be present for companion macro." = refusal := by
  have hloop : crates.forM (getCrateWithName found callSite) = .error refusal := by
    rw [expand] at h
    rcases hcrates : crates.forM (getCrateWithName found callSite) with e' | _
    · rw [hcrates] at h
      cases h
      rfl
    · rw [hcrates] at h
      rcases hothers : d.others.mapM Field.structField with _ | others
      · rw [hothers] at h
        cases h
      · rw [hothers] at h
        cases h
  obtain ⟨before, name, after, hsplit, hbefore, hname⟩ := forM_eq_error.mp hloop
  refine ⟨before, name, after, hsplit, fun c hc ↦ getCrateWithName_eq_ok.mp (hbefore c hc), ?_⟩
  rw [getCrateWithName] at hname
  split_ifs at hname with hfound
  exact ⟨Bool.eq_false_iff.mpr hfound, Except.error.inj hname⟩

/-- **What the macro says when it refuses is so**: there is an argument, or the struct has the fault
that is reported, or it has none and the crate is missing. -/
theorem implCompanionGen_refuses
    (h : implCompanionGen found callSite attr attrSpan item = .err refusal) :
    (attr ≠ [] ∧ .new attrSpan ("Invalid companion macro call: expected no attributes, " ++
        "e.g. macro call must be just `#[fudge::companion]` or `#[companion]`") = refusal) ∨
      Fault item refusal ∨
      (∃ d, CompanionDef.parse item = .ok d) ∧
        ∃ before name after, crates = before ++ name :: after ∧ (∀ c ∈ before, found c = true) ∧
          found name = false ∧
          .new callSite s!"Crate {name} must be present for companion macro." = refusal := by
  rw [implCompanionGen] at h
  split_ifs at h with hempty
  · rcases hparse : CompanionDef.parse item with e' | d
    · rw [hparse] at h
      cases h
      exact Or.inr (Or.inl (parse_eq_error hparse))
    · rw [hparse] at h
      exact Or.inr (Or.inr ⟨⟨d, rfl⟩, expand_eq_error h⟩)
  · rw [List.isEmpty_iff] at hempty
    cases h
    exact Or.inl ⟨hempty, rfl⟩

def noId : ItemStruct where
  attrs := []
  vis := []
  ident := "TestEnv"
  fields := .named
    { named := [⟨[⟨["fudge", "parachain"], []⟩], [], some "sibling", [.ident "ParachainBuilder"],
        ⟨0, 1⟩⟩]
      span := ⟨0, 1⟩
      isNamed := by simp }
  span := ⟨0, 1⟩

theorem implCompanionGen_refuses_noId :
    implCompanionGen (fun _ ↦ true) ⟨0, 1⟩ [] ⟨0, 0⟩ noId = .err .expectedGroup ∧
      Fault noId .expectedGroup := by
  have h : implCompanionGen (fun _ ↦ true) ⟨0, 1⟩ [] ⟨0, 0⟩ noId = .err .expectedGroup := rfl
  rcases implCompanionGen_refuses h with ⟨hattr, -⟩ | hfault | ⟨-, _, _, _, -, -, hfound, -⟩
  · exact absurd rfl hattr
  · exact ⟨h, hfault⟩
  · cases hfound

end Parse

end Fudge
