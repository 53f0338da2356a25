import SharedStream.Toml.Lexeme
import SharedStream.Toml.Tree
/-!
TOML documents: from text to a table, and a library of TOML that starts from there.
-/

namespace SharedStream.Toml

namespace Scan

def scalar : Scan Value :=
  (Value.string <$> string) <|> (Value.dateTime <$> dateTime) <|> (Value.float <$> float) <|>
    (Value.integer <$> integer) <|> (text "true" *> pure (.boolean true)) <|>
      (text "false" *> pure (.boolean false))

def array (element : Scan Value) : Scan Value := do
  let _ ← char '['
  let elements ←
    (do
      let elements ← separated1 (gap *> element <* gap) (char ',')
      let _ ← optional (char ',')
      return elements) <|> pure []
  gap
  let _ ← char ']'
  return .array elements

def inlineTable (element : Scan Value) : Scan Value := do
  let _ ← char '\x7b'
  let pair := do
    let keys ← path
    let _ ← char '='
    blanks
    let value ← element
    blanks
    return (keys, value)
  let pairs ← separated pair (char ',')
  blanks
  let _ ← char '\x7d'
  let entries := pairs.foldlM (fun entries (keys, value) => Entries.insert entries [] keys value) []
  match entries with
  | some entries => return (Node.table .header entries).value
  | none => failure

def value : (depth : Nat) → Scan Value
  | 0 => scalar
  | depth + 1 => array (value depth) <|> inlineTable (value depth) <|> scalar

end Scan

/-- What a line can say. -/
inductive Statement where
  | blank
  | pair (keys : List String) (value : Value)
  | header (place : List String)
  | element (place : List String)

namespace Scan

def pair : Scan Statement := do
  let keys ← path
  let _ ← char '='
  blanks
  let value ← value (nestingLimit - 1)
  lineRest
  return .pair keys value

def header : Scan Statement := do
  let _ ← char '['
  let place ← path
  let _ ← char ']'
  lineRest
  return .header place

def element : Scan Statement := do
  text "[["
  let place ← path
  text "]]"
  lineRest
  return .element place

def statement : Scan Statement :=
  ((comment *> lineEnd <|> newline) *> pure .blank) <|> element <|> header <|> pair

/-- All statements of a document. A byte order mark may stand in front. -/
def statements : Scan (List Statement) := do
  let _ ← optional (char '\uFEFF')
  blanks
  let all ← many (statement <* blanks)
  done
  return all

end Scan

/-- A document on the way: what it says so far, and the table that the next pair belongs to. -/
structure Draft where
  entries : Entries := []
  place : List String := []

def Draft.add (draft : Draft) : Statement → Option Draft
  | .blank => some draft
  | .pair keys value =>
      (draft.entries.insert draft.place keys value).map fun entries => { draft with entries }
  | .header place => (draft.entries.openTable place).map fun entries => ⟨entries, place⟩
  | .element place => (draft.entries.openElement place).map fun entries => ⟨entries, place⟩

def parse (text : String) : Option Table := do
  let (statements, _) ← Scan.statements text.toList
  let draft ← statements.foldlM Draft.add {}
  return entryValues draft.entries

def word : Reader (Fin (maxOffset + 1))
  | .integer n =>
      if h : 0 ≤ n ∧ n ≤ maxOffset then some ⟨n.toNat, by omega⟩ else none
  | _ => none

def boolean : Reader Bool
  | .boolean b => some b
  | _ => none

def record {σ : Type} (start : σ) (fields : List (Field σ)) : Reader σ
  | .table entries => entries.foldlM (Field.setNamed fields) start
  | .array elements =>
      if elements.length ≤ fields.length then
        (fields.zip elements).foldlM Field.setPaired start
      else none
  | _ => none

def form {α : Type} (name : String) (read : Reader α) : Reader α
  | .table entries => (entries.lookup name).bind read
  | _ => none

def library : Library where
  parse := parse
  word := word
  boolean := boolean
  record := record
  form := form
  untagged forms value := forms.findSome? fun read => read value

end SharedStream.Toml
