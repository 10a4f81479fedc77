import Mathlib.Data.List.Basic

/-!
# Parsing a companion

`#[fudge::companion]` reads a struct. A field with an attribute whose path starts with `fudge` is
the relay chain or a parachain, and the other fields are carried along. The definitions follow
`companion/src/parse/mod.rs`, on the syntax trees that `syn` hands to it.

Types, visibilities and ids are token streams here, since the parser passes them on unread. The
span of a node is a field of it, as spans only occur in errors.

`CompanionDef` in this namespace is the result of the parser. The one outside it is what the
generated methods use of it.
-/

namespace Fudge

namespace Parse

/-! ## Tokens -/

/-- `proc_macro2::Delimiter`. There is no group without delimiters: the cursor of `syn` steps into
those, so that a parser does not see them. -/
inductive Delimiter where
  | parenthesis
  | brace
  | bracket
deriving DecidableEq, Repr

/-- `proc_macro2::TokenTree`. -/
inductive TokenTree where
  | group (delimiter : Delimiter) (stream : List TokenTree)
  | ident (text : String)
  | punct (char : Char)
  | literal (text : String)

/-- `proc_macro2::TokenStream`. -/
abbrev TokenStream := List TokenTree

/-- `proc_macro2::Ident`, as its text. A raw identifier has its `r#`. -/
abbrev Ident := String

/-- `proc_macro2::Span`. -/
structure Span where
  start : ℕ
  stop : ℕ
deriving DecidableEq, Repr

/-- `syn::Error`: one that the macro makes, or one of the two that `syn` makes for the tokens of an
attribute. -/
inductive Error where
  | new (span : Span) (message : String)
  | expectedGroup
  | unexpectedToken
deriving DecidableEq, Repr

/-- A parser takes what it parses from the front of a stream and leaves the rest. -/
abbrev Parser (α : Type) : Type := TokenStream → Except Error (α × TokenStream)

/-- `Group::parse`, as the tokens of the group. -/
def parseGroup : Parser TokenStream
  | .group _ stream :: rest => .ok (stream, rest)
  | _ => .error .expectedGroup

/-- `parse2`: a parser has to take all tokens. -/
def parse2 {α : Type} (parser : Parser α) (tokens : TokenStream) : Except Error α :=
  match parser tokens with
  | .ok (a, []) => .ok a
  | .ok (_, _ :: _) => .error .unexpectedToken
  | .error e => .error e

structure ParaId where
  stream : TokenStream

/-- `ParaId::parse`. -/
def ParaId.parse : Parser ParaId := fun input ↦ do
  let (parsedId, rest) ← parseGroup input
  return (⟨parsedId⟩, rest)

/-- `ParaId::to_tokens`. -/
def ParaId.toTokenStream (id : ParaId) : TokenStream := id.stream

/-! ## Fields -/

/-- `syn::Attribute`; the path is the list of its segments. -/
structure Attribute where
  path : List Ident
  tokens : TokenStream

/-- `syn::Field`. -/
structure Field where
  attrs : List Attribute
  vis : TokenStream
  ident : Option Ident
  ty : TokenStream
  span : Span

/-- `syn::FieldsNamed`. -/
structure FieldsNamed where
  named : List Field
  span : Span
  isNamed : ∀ field ∈ named, field.ident.isSome

/-- `syn::Fields`. -/
inductive Fields where
  | named (fields : FieldsNamed)
  | unnamed (span : Span)
  | unit (span : Span)

/-- `syn::ItemStruct`. -/
structure ItemStruct where
  attrs : List Attribute
  vis : TokenStream
  ident : Ident
  fields : Fields
  span : Span

/-! ## The result -/

structure RelaychainDef where
  name : Ident
  builder : TokenStream
  vis : TokenStream

structure ParachainDef where
  name : Ident
  id : TokenStream
  builder : TokenStream
  vis : TokenStream

inductive FieldType where
  | parachain (parachain : ParachainDef)
  | relaychain (relaychain : RelaychainDef)
  | other (field : Field)

structure CompanionDef where
  vis : TokenStream
  companionName : Ident
  attrSpan : Span
  relaychain : RelaychainDef
  parachains : List ParachainDef
  others : List Field

/-! ## One field -/

def expectedPathSegments : ℕ := 2

/-- The filter of `parse_field`: the first segment of the path is `fudge`. -/
def Attribute.isFudge (attr : Attribute) : Bool := attr.path.head?.any (· == "fudge")

namespace Field

/-- The `companion_fields` of `parse_field`. -/
def companionFields (field : Field) : List Attribute := field.attrs.filter Attribute.isFudge

/-- `field.ident.clone().ok_or_else(..)`. -/
def name (field : Field) (message : String) : Except Error Ident :=
  match field.ident with
  | some name => .ok name
  | none => .error (.new field.span message)

/-- `ParachainDef` of a field whose attribute has the given tokens. -/
def parachain (field : Field) (tokens : TokenStream) : Except Error FieldType := do
  let id ← parse2 ParaId.parse tokens
  let name ← field.name "Parachain field identifier not found."
  return .parachain ⟨name, id.toTokenStream, field.ty, field.vis⟩

/-- `RelaychainDef` of a field. The tokens of the attribute are not read. -/
def relaychain (field : Field) : Except Error FieldType := do
  let name ← field.name "Relaychain field identifier not found."
  return .relaychain ⟨name, field.ty, field.vis⟩

/-- The body of the loop of `parse_field`. Each of its arms returns from the function. -/
def parseAttribute (field : Field) (attr : Attribute) : Except Error FieldType :=
  if attr.path.length ≠ expectedPathSegments then
    .error (.new field.span s!"Expected {expectedPathSegments} path segments")
  else match attr.path.getLast? with
    | none => .error (.new field.span "Last path segment not found.")
    | some second =>
      if second = "parachain" then field.parachain attr.tokens
      else if second = "relaychain" then field.relaychain
      else .error
        (.new field.span "Only parachain or relaychain attributes supported currently.")

/-- The loop of `parse_field`. It ends in its first round, and the attributes after the first one
are never looked at. -/
def parseAttributes (field : Field) : List Attribute → Except Error FieldType
  | attr :: _ => field.parseAttribute attr
  | [] => .error (.new field.span "Only parachain or relaychain attributes supported currently.")

end Field

def parseField (field : Field) : Except Error FieldType :=
  if field.companionFields.isEmpty then .ok (.other field)
  else field.parseAttributes field.companionFields

/-! ## All fields -/

/-- The local variables of `parse_struct`. -/
structure Sorted where
  parachains : List ParachainDef := []
  others : List Field := []
  relaychain : Option RelaychainDef := none

/-- What one round of the loop of `parse_struct` does with a parsed field. -/
def Sorted.push (attrSpan : Span) (s : Sorted) : FieldType → Except Error Sorted
  | .other named => .ok { s with others := s.others ++ [named] }
  | .parachain parachain => .ok { s with parachains := s.parachains ++ [parachain] }
  | .relaychain relaychain => match s.relaychain with
    | none => .ok { s with relaychain := some relaychain }
    | some _ => .error (.new attrSpan "Only one relaychain field allowed.")

/-- The loop of `parse_struct`. -/
def parseFields (attrSpan : Span) : Sorted → List Field → Except Error Sorted
  | s, [] => .ok s
  | s, field :: fields => do
    let type ← parseField field
    let s ← s.push attrSpan type
    parseFields attrSpan s fields

def parseStruct (vis : TokenStream) (_attrs : List Attribute) (companionName : Ident)
    (fields : FieldsNamed) (attrSpan : Span) : Except Error CompanionDef := do
  let s ← parseFields attrSpan {} fields.named
  match s.relaychain with
  | some relaychain => .ok ⟨vis, companionName, attrSpan, relaychain, s.parachains, s.others⟩
  | none => .error (.new fields.span "Relay chain not found.")

/-- `CompanionDef::parse`, given the parsed struct. -/
def CompanionDef.parse (ds : ItemStruct) : Except Error CompanionDef :=
  match ds.fields with
  | .named named => parseStruct ds.vis ds.attrs ds.ident named ds.span
  | .unit span => .error (.new span "Must be a struct with named fields. Not an unit struct.")
  | .unnamed span =>
    .error (.new span "Must be a struct with named fields. Not an unnamed fields struct.")

end Parse

end Fudge
