import SharedStream.Offset
/-!
What a library for TOML offers: it makes a table of a text, and reads values of a type from a table.
How a structure is read follows from the names and types of its fields, and a type with several
forms is read as the first of them that fits. The rules are stated for any library; what is read
with them does not depend on how a library goes about it.
-/

namespace SharedStream.Toml

/-- The value of a key. -/
inductive Value where
  | string (text : String)
  | integer (value : Int)
  /-- A float or a date keeps the text it was written with: nobody computes with it here. -/
  | float (lexeme : String)
  | boolean (value : Bool)
  | dateTime (lexeme : String)
  | array (elements : List Value)
  | table (entries : List (String × Value))

/-- The entries of a table in order of appearance; no key occurs twice. -/
abbrev Table := List (String × Value)

/-- No key stands twice. -/
def Keyed {α : Type} (entries : List (String × α)) : Prop :=
  (entries.map Prod.fst).Nodup

/-- A value that a text can stand for. -/
inductive Value.WellFormed : Value → Prop
  | string (text : String) : WellFormed (.string text)
  | integer {value : Int} :
      -0x8000000000000000 ≤ value → value < 0x8000000000000000 → WellFormed (.integer value)
  | float (lexeme : String) : WellFormed (.float lexeme)
  | boolean (value : Bool) : WellFormed (.boolean value)
  | dateTime (lexeme : String) : WellFormed (.dateTime lexeme)
  | array {elements : List Value} :
      (∀ element ∈ elements, element.WellFormed) → WellFormed (.array elements)
  | table {entries : Table} :
      Keyed entries → (∀ entry ∈ entries, entry.2.WellFormed) → WellFormed (.table entries)

/-- How a type is read from a value, where that is possible. -/
abbrev Reader (α : Type) := Value → Option α

/-- A field of a structure: its name, and how a value sets it. -/
structure Field (σ : Type) where
  name : String
  set : σ → Value → Option σ

namespace Field

variable {σ α : Type}

/-- A field of a type that can be read. -/
def of (name : String) (read : Reader α) (put : σ → α → σ) : Field σ :=
  ⟨name, fun state value => (read value).map (put state)⟩

/-- Set the field that an entry of a table names; no other entries are known. -/
def setNamed (fields : List (Field σ)) (state : σ) (entry : String × Value) : Option σ :=
  (fields.find? fun field => field.name = entry.1).bind fun field => field.set state entry.2

/-- Set the field that stands beside a value. -/
def setPaired (state : σ) (pair : Field σ × Value) : Option σ := pair.1.set state pair.2

end Field

/-- A parser, and the readers of types and ways to make them that settings need. -/
structure Library where
  /-- The table that a text stands for, if it is a document. -/
  parse : String → Option Table
  /-- An unsigned number of 64 bits. -/
  word : Reader (Fin (maxOffset + 1))
  boolean : Reader Bool
  /-- A structure that starts from a default, and has these fields in order and no others. -/
  record {σ : Type} (start : σ) (fields : List (Field σ)) : Reader σ
  /-- A form of a type with several forms: it has one field, which must be there. -/
  form {α : Type} (name : String) (read : Reader α) : Reader α
  /-- A type with several forms, tried in order. -/
  untagged {α : Type} (forms : List (Reader α)) : Reader α

/-- The library keeps the rules of the format and of derived readers. -/
structure Library.Lawful (library : Library) : Prop where
  /-- A document has no key twice in any table, and no integer beyond 64 bits. -/
  parse_wellFormed {text : String} {document : Table} :
    library.parse text = some document → (Value.table document).WellFormed
  /-- A number that is not signed is an integer in range, and nothing is converted to one. -/
  word_eq_some_iff {value : Value} {n : Fin (maxOffset + 1)} :
    library.word value = some n ↔ value = .integer n.val
  boolean_eq_some_iff {value : Value} {b : Bool} :
    library.boolean value = some b ↔ value = .boolean b
  /-- The entries of a table set the fields that they name. An unknown name is refused, and a field
  that is not named keeps its default. -/
  record_table {σ : Type} (start : σ) (fields : List (Field σ)) {entries : Table} :
    Keyed entries → library.record start fields (.table entries) =
      entries.foldlM (Field.setNamed fields) start
  /-- The elements of an array set the fields in order. One too many is refused, and fields at the
  end that are left out keep their defaults. -/
  record_array {σ : Type} (start : σ) (fields : List (Field σ)) (elements : List Value) :
    library.record start fields (.array elements) =
      if elements.length ≤ fields.length then
        (fields.zip elements).foldlM Field.setPaired start
      else none
  /-- Nothing else is a structure. -/
  record_other {σ : Type} (start : σ) (fields : List (Field σ)) {value : Value} :
    (∀ entries, value ≠ .table entries) → (∀ elements, value ≠ .array elements) →
      library.record start fields value = none
  /-- Entries beside the field of a form are passed over. -/
  form_table {α : Type} (name : String) (read : Reader α) {entries : Table} :
    Keyed entries → library.form name read (.table entries) = (entries.lookup name).bind read
  /-- The first form that can be read is taken. -/
  untagged_eq {α : Type} (forms : List (Reader α)) (value : Value) :
    library.untagged forms value = forms.findSome? fun read => read value

end SharedStream.Toml
