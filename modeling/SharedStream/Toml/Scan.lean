/-!
Scanners: a scanner takes a piece off the front of the input, or fails and takes nothing.
-/

namespace SharedStream.Toml

/-- A scanner for pieces of a type: the piece and the rest of the input, or nothing. -/
abbrev Scan := StateT (List Char) Option

namespace Scan

def one (accepts : Char → Bool) : Scan Char
  | [] => none
  | c :: rest => if accepts c then some (c, rest) else none

def char (c : Char) : Scan Char := one (· == c)

def text (word : String) : Scan Unit := fun input =>
  if word.toList.isPrefixOf input then some ((), input.drop word.length) else none

def run (accepts : Char → Bool) : Scan (List Char) := fun input =>
  some (input.takeWhile accepts, input.dropWhile accepts)

def run1 (accepts : Char → Bool) : Scan (List Char) := do
  let first ← one accepts
  return first :: (← run accepts)

def exactly (accepts : Char → Bool) : Nat → Scan (List Char)
  | 0 => pure []
  | n + 1 => do
      let first ← one accepts
      return first :: (← exactly accepts n)

def done : Scan Unit
  | [] => some ((), [])
  | _ => none

def optional {α : Type} (piece : Scan α) : Scan (Option α) :=
  (some <$> piece) <|> pure none

def manyWithin {α : Type} (piece : Scan α) : (rounds : Nat) → Scan (List α)
  | 0 => pure []
  | rounds + 1 =>
      (do
        let first ← piece
        return first :: (← manyWithin piece rounds)) <|> pure []

/-- As many pieces as there are. A piece has at least one character, so the length of the input
bounds their number. -/
def many {α : Type} (piece : Scan α) : Scan (List α) := fun input =>
  manyWithin piece input.length input

def separated1 {α β : Type} (piece : Scan α) (separator : Scan β) : Scan (List α) := do
  let first ← piece
  return first :: (← many (separator *> piece))

def separated {α β : Type} (piece : Scan α) (separator : Scan β) : Scan (List α) :=
  separated1 piece separator <|> pure []

def withLexeme {α : Type} (piece : Scan α) : Scan (α × String) := fun input => do
  let (result, rest) ← piece input
  return ((result, String.ofList (input.take (input.length - rest.length))), rest)

def filter {α β : Type} (piece : Scan α) (convert : α → Option β) : Scan β := do
  let result ← piece
  match convert result with
  | some value => pure value
  | none => failure

end Scan

end SharedStream.Toml
