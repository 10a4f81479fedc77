import Fudge.Call.Basic
import Fudge.Companion.Grammar

/-!
# What the companion macro generates

The generated struct has the relay chain first, then the parachains, then the other fields. For
every struct that the macro accepts these are the fields of the struct, and none is lost or made up
(`implCompanionGen_fields`): also on the structs that only the parser takes, since an attribute
that it overlooks is no field.

The parser is what makes the expansion safe. `expand` unwraps the names of the other fields, and
that never fails for a struct the parser let through.
-/

namespace Fudge

namespace Parse

open Fallible FieldType

/-! ## The expansion -/

structure StructField where
  vis : TokenStream
  name : Ident
  ty : TokenStream

/-- The generated struct. The methods generated with it are those of `Companion`. -/
structure Expansion where
  vis : TokenStream
  name : Ident
  fields : List StructField

namespace Field

/-- One of `others_vis`, `others_names` and `others_types` each. There is no name to unwrap if the
field has none. -/
def structField (field : Field) : Option StructField :=
  field.ident.map fun name ↦ ⟨field.vis, name, field.ty⟩

end Field

/-- One element of `helper::parachains`. -/
def ParachainDef.structField (parachain : ParachainDef) : StructField :=
  ⟨parachain.vis, parachain.name, parachain.builder⟩

def RelaychainDef.structField (relaychain : RelaychainDef) : StructField :=
  ⟨relaychain.vis, relaychain.name, relaychain.builder⟩

/-- The crates that `expand` looks up, in order. -/
def crates : List String :=
  ["fudge", "fudge-core", "sp-tracing", "parity-scale-codec", "sp-std", "thiserror"]

/-- `get_crate_with_name`, given which crates are there. -/
def getCrateWithName (found : String → Bool) (callSite : Span) (name : String) :
    Except Error Unit :=
  if found name then .ok ()
  else .error (.new callSite s!"Crate {name} must be present for companion macro.")

def expand (found : String → Bool) (callSite : Span) (d : CompanionDef) :
    Outcome Error Expansion :=
  match crates.forM (getCrateWithName found callSite) with
  | .error e => .err e
  | .ok () => match d.others.mapM Field.structField with
    | none => .panic
    | some others =>
      .ok ⟨d.vis, d.companionName,
        d.relaychain.structField :: (d.parachains.map ParachainDef.structField ++ others)⟩

/-- `impl_companion_gen`, given the parsed struct. -/
def implCompanionGen (found : String → Bool) (callSite : Span) (attr : TokenStream)
    (attrSpan : Span) (item : ItemStruct) : Outcome Error Expansion :=
  if attr.isEmpty then
    match CompanionDef.parse item with
    | .ok d => expand found callSite d
    | .error e => .err e
  else
    .err (.new attrSpan ("Invalid companion macro call: expected no attributes, e.g. macro call " ++
      "must be just `#[fudge::companion]` or `#[companion]`"))

variable {found : String → Bool} {callSite attrSpan : Span} {attr vis : TokenStream}
  {attrs : List Attribute} {companionName : Ident} {field : Field} {type : FieldType}
  {fields : FieldsNamed} {d : CompanionDef} {item : ItemStruct} {e : Expansion}

/-! ## No field is lost -/

def FieldType.structField : FieldType → Option StructField
  | .relaychain d => some d.structField
  | .parachain d => some d.structField
  | .other field => field.structField

theorem structField_of_parseField (h : parseField field = .ok type) :
    type.structField = field.structField := by
  rcases parseField_eq_ok.mp h with ⟨-, rfl⟩ | ⟨attr, -, hread⟩
  · rfl
  · rcases hread with ⟨-, hname⟩ | ⟨-, -, hname⟩
    · rw [Field.structField, hname]
      rfl
    · rw [Field.structField, hname]
      rfl

theorem sorted_perm (types : List FieldType) :
    types.Perm ((types.filterMap relaychain?).map .relaychain ++
      ((types.filterMap parachain?).map .parachain ++ (types.filterMap other?).map .other)) := by
  induction types with
  | nil => exact .refl _
  | cons type types ih =>
    rcases type with d | d | field
    · have hmiddle := (ih.cons (.parachain d)).trans List.perm_middle.symm
      simpa [List.filterMap_cons, relaychain?, parachain?, other?] using hmiddle
    · exact ih.cons _
    · have hmiddle := ih.cons (.other field)
      rw [← List.append_assoc] at hmiddle
      have hlast := hmiddle.trans List.perm_middle.symm
      simpa [List.filterMap_cons, relaychain?, parachain?, other?] using hlast

/-- The fields of the generated struct are the parsed ones, each in its place. -/
theorem CompanionDef.Holds.perm {types : List FieldType} (h : d.Holds types)
    {others : List StructField} (hothers : d.others.mapM Field.structField = some others) :
    ((d.relaychain.structField ::
      (d.parachains.map ParachainDef.structField ++ others)).map some).Perm
        (types.map FieldType.structField) := by
  have hperm := (sorted_perm types).map FieldType.structField
  rw [h.relaychain, h.parachains, h.others, List.map_append, List.map_append, List.map_map,
    List.map_map, List.map_map] at hperm
  have hnames : d.others.map (FieldType.structField ∘ FieldType.other) = others.map some :=
    mapM_eq_some.mp hothers
  rw [hnames] at hperm
  refine .trans (.of_eq ?_) hperm.symm
  rw [List.map_cons, List.map_append, List.map_map]
  rfl

theorem map_structField {types : List FieldType} {fields : List Field}
    (h : List.Forall₂ (fun field type ↦ parseField field = .ok type) fields types) :
    types.map FieldType.structField = fields.map Field.structField := by
  induction h with
  | nil => rfl
  | cons hparse _ ih => rw [List.map_cons, List.map_cons, ih, structField_of_parseField hparse]

theorem parse_eq_ok (h : CompanionDef.parse item = .ok d) :
    ∃ fields, item.fields = .named fields ∧
      parseStruct item.vis item.attrs item.ident fields item.span = .ok d := by
  rw [CompanionDef.parse] at h
  rcases hfields : item.fields with fields | span | span
  · rw [hfields] at h
    exact ⟨fields, rfl, h⟩
  · rw [hfields] at h
    cases h
  · rw [hfields] at h
    cases h

theorem expand_eq_ok (h : expand found callSite d = .ok e) :
    ∃ others, d.others.mapM Field.structField = some others ∧
      e = ⟨d.vis, d.companionName,
        d.relaychain.structField :: (d.parachains.map ParachainDef.structField ++ others)⟩ := by
  rw [expand] at h
  rcases hcrates : crates.forM (getCrateWithName found callSite) with e' | _
  · rw [hcrates] at h
    cases h
  · rcases hothers : d.others.mapM Field.structField with _ | others
    · rw [hcrates, hothers] at h
      cases h
    · rw [hcrates, hothers] at h
      cases h
      exact ⟨others, rfl, rfl⟩

/-- **No field is lost**: the generated struct has the fields of the struct that the macro was put
on, with their names, types and visibilities. -/
theorem implCompanionGen_fields
    (h : implCompanionGen found callSite attr attrSpan item = .ok e) :
    ∃ fields, item.fields = .named fields ∧ e.vis = item.vis ∧ e.name = item.ident ∧
      (e.fields.map some).Perm (fields.named.map Field.structField) := by
  rw [implCompanionGen] at h
  split at h
  · rcases hparse : CompanionDef.parse item with e' | d
    · rw [hparse] at h
      cases h
    · rw [hparse] at h
      obtain ⟨fields, hfields, hstruct⟩ := parse_eq_ok hparse
      obtain ⟨⟨hvis, hname, -⟩, types, hall, hholds⟩ := parseStruct_eq_ok.mp hstruct
      obtain ⟨others, hothers, rfl⟩ := expand_eq_ok h
      refine ⟨fields, hfields, hvis, hname, ?_⟩
      rw [← map_structField hall]
      exact hholds.perm hothers
  · cases h

/-! ## No name is missing -/

theorem mem_others {types : List FieldType} (h : d.Holds types) (hmem : field ∈ d.others) :
    .other field ∈ types := by
  rw [← h.others] at hmem
  obtain ⟨type, htype, hother⟩ := List.mem_filterMap.mp hmem
  rcases type with d | d | field'
  · cases hother
  · cases hother
  · cases hother
    exact htype

theorem others_named (h : parseStruct vis attrs companionName fields attrSpan = .ok d)
    (hmem : field ∈ d.others) : field.ident.isSome := by
  obtain ⟨-, types, hall, hholds⟩ := parseStruct_eq_ok.mp h
  have htypes : (FieldType.other field).structField ∈ types.map FieldType.structField :=
    List.mem_map_of_mem (mem_others hholds hmem)
  rw [map_structField hall] at htypes
  obtain ⟨field', hfield', hsame⟩ := List.mem_map.mp htypes
  have hnamed := fields.isNamed field' hfield'
  have hsome := congrArg Option.isSome hsame
  rw [FieldType.structField, Field.structField, Field.structField, Option.isSome_map,
    Option.isSome_map] at hsome
  rwa [← hsome]

/-- No name is missing where `expand` unwraps one. -/
theorem exists_structFields (h : CompanionDef.parse item = .ok d) :
    ∃ others, d.others.mapM Field.structField = some others := by
  obtain ⟨fields, -, hstruct⟩ := parse_eq_ok h
  refine exists_mapM fun field hfield ↦ ?_
  rw [Field.structField, Option.isSome_map]
  exact others_named hstruct hfield

/-- **The macro does not panic**. -/
theorem implCompanionGen_no_panic :
    (implCompanionGen found callSite attr attrSpan item).isPanic = false := by
  rw [implCompanionGen]
  split
  · rcases hparse : CompanionDef.parse item with e' | d
    · rfl
    · obtain ⟨others, hothers⟩ := exists_structFields hparse
      change (expand found callSite d).isPanic = false
      rw [expand, hothers]
      rcases crates.forM (getCrateWithName found callSite) with e' | _
      · rfl
      · rfl
  · rfl

end Parse

end Fudge
