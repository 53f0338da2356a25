import SharedStream.Toml.Scan
/-!
The words of TOML: blanks, comments, strings, keys, numbers and dates.
-/

namespace SharedStream.Toml

namespace Scan

/-! ### Blanks and comments -/

def isBlank (c : Char) : Bool := c == ' ' || c == '\t'

/-- Characters that may stand in a line: no control character but the tab. -/
def isPrintable (c : Char) : Bool := c == '\t' || (' ' ≤ c && c != '\x7f')

def blanks : Scan Unit := do
  let _ ← run isBlank

/-- A line ends with a line feed, before which a carriage return may stand. -/
def newline : Scan Unit := text "\n" <|> text "\r\n"

def lineEnd : Scan Unit := newline <|> done

def comment : Scan Unit := do
  let _ ← char '#'
  let _ ← run isPrintable

def lineRest : Scan Unit := do
  blanks
  let _ ← optional comment
  lineEnd

/-- Blanks, line ends and commented lines, as they may stand between the elements of an array. -/
def gap : Scan Unit := do
  let _ ← many (text " " <|> text "\t" <|> newline <|> (comment *> newline))

/-! ### Strings -/

def isHexDigit (c : Char) : Bool :=
  c.isDigit || ('a' ≤ c && c ≤ 'f') || ('A' ≤ c && c ≤ 'F')

def hexDigit (c : Char) : Nat :=
  if c.isDigit then c.toNat - '0'.toNat
  else if 'a' ≤ c then c.toNat - 'a'.toNat + 10
  else c.toNat - 'A'.toNat + 10

def number (base : Nat) (digits : List Char) : Nat :=
  digits.foldl (fun n c => n * base + hexDigit c) 0

def charOfNat? (n : Nat) : Option Char :=
  if n.isValidChar then some (Char.ofNat n) else none

def escape : Scan Char := do
  let _ ← char '\\'
  let c ← one fun _ => true
  match c with
  | 'b' => pure '\x08'
  | 't' => pure '\t'
  | 'n' => pure '\n'
  | 'f' => pure '\x0c'
  | 'r' => pure '\r'
  | '"' => pure '"'
  | '\\' => pure '\\'
  | 'u' => filter (exactly isHexDigit 4) fun digits => charOfNat? (number 16 digits)
  | 'U' => filter (exactly isHexDigit 8) fun digits => charOfNat? (number 16 digits)
  | _ => failure

def plainQuoted : Scan Char := one fun c => isPrintable c && c != '"' && c != '\\'

def plainLiteral : Scan Char := one fun c => isPrintable c && c != '\''

def quotedString : Scan String := do
  let _ ← char '"'
  let body ← many (plainQuoted <|> escape)
  let _ ← char '"'
  return String.ofList body

def literalString : Scan String := do
  let _ ← char '\''
  let body ← many plainLiteral
  let _ ← char '\''
  return String.ofList body

/-- A backslash at the end of a line: it and all blanks and line ends after it count for nothing. -/
def lineJoin : Scan Unit := do
  let _ ← char '\\'
  blanks
  newline
  let _ ← many (text " " <|> text "\t" <|> newline)

def innerQuote (quote : Char) : Scan Char := fun input =>
  if [quote, quote, quote].isPrefixOf input then none else char quote input

/-- The end of a string of several lines. Up to two quotes before the closing three belong to the
string. -/
def closeLong (quote : Char) : Scan (List Char) := do
  let quotes ← run (· == quote)
  let inside := min (quotes.length - 3) 2
  if quotes.length < 3 ∨ 5 < quotes.length then failure
  else return List.replicate inside quote

/-- A string between three quotes on either side; a line end right after the first three counts for
nothing. -/
def longString (quote : Char) (piece : Scan (List Char)) : Scan String := do
  text (String.ofList [quote, quote, quote])
  let _ ← optional newline
  let body ← many (piece <|> (List.singleton <$> innerQuote quote))
  let quotes ← closeLong quote
  return String.ofList (body.flatten ++ quotes)

def longQuotedString : Scan String :=
  longString '"'
    ((List.singleton <$> plainQuoted) <|> (lineJoin *> pure []) <|> (List.singleton <$> escape) <|>
      (newline *> pure ['\n']))

def longLiteralString : Scan String :=
  longString '\'' ((List.singleton <$> plainLiteral) <|> (newline *> pure ['\n']))

/-- A string of any of the four kinds. Three quotes are tried before one. -/
def string : Scan String :=
  longQuotedString <|> quotedString <|> longLiteralString <|> literalString

/-! ### Keys -/

def isBareKey (c : Char) : Bool := c.isAlphanum || c == '_' || c == '-'

def simpleKey : Scan String :=
  quotedString <|> literalString <|> (String.ofList <$> run1 isBareKey)

/-- The nesting that a document may have: a path of keys, or brackets inside brackets, must be
shorter. -/
def nestingLimit : Nat := 80

def path : Scan (List String) :=
  filter (separated1 (blanks *> simpleKey <* blanks) (char '.')) fun keys =>
    if keys.length < nestingLimit then some keys else none

/-! ### Numbers -/

def digits (accepts : Char → Bool) : Scan (List Char) := do
  let first ← one accepts
  return first :: (← many (one accepts <|> (char '_' *> one accepts)))

def sign : Scan Bool := do
  match ← optional (one fun c => c == '+' || c == '-') with
  | some c => return c == '-'
  | none => return false

/-- A whole number without needless zeros: its sign and its digits. -/
def decimal : Scan (Bool × List Char) := do
  let negative ← sign
  let zero := List.singleton <$> char '0'
  let other := do
    let first ← one fun c => c.isDigit && c != '0'
    return first :: (← many (one Char.isDigit <|> (char '_' *> one Char.isDigit)))
  return (negative, ← other <|> zero)

def based (announce : String) (base : Nat) (accepts : Char → Bool) : Scan Int := do
  text announce
  return number base (← digits accepts)

def integer : Scan Int :=
  filter
    (based "0x" 16 isHexDigit <|> based "0o" 8 (fun c => '0' ≤ c && c ≤ '7') <|>
      based "0b" 2 (fun c => c == '0' || c == '1') <|>
      (do
        let (negative, magnitude) ← decimal
        let value : Int := number 10 magnitude
        return if negative then -value else value))
    fun value =>
      if -0x8000000000000000 ≤ value ∧ value < 0x8000000000000000 then some value else none

/-- Whether `mantissa * 10 ^ exponent` is too large for a 64-bit float: it would be rounded to
2 ^ 1024 or beyond. -/
def overflows (mantissa : Nat) (exponent : Int) : Bool :=
  let bound := Nat.pow 2 1024 - Nat.pow 2 970
  let magnitude : Int := (Nat.toDigits 10 mantissa).length + exponent
  if mantissa = 0 ∨ magnitude < 300 then false
  else if 320 < magnitude then true
  else if 0 ≤ exponent then bound ≤ mantissa * Nat.pow 10 exponent.toNat
  else bound * Nat.pow 10 (-exponent).toNat ≤ mantissa

def fraction : Scan (List Char) := char '.' *> digits Char.isDigit

def exponent : Scan Int := do
  let _ ← one fun c => c == 'e' || c == 'E'
  let negative ← sign
  let value : Int := number 10 (← digits Char.isDigit)
  return if negative then -value else value

/-- A float with a fraction, an exponent or both. One that is too large is refused, one that is too
far below zero is not. -/
def finiteFloat : Scan Unit := do
  let (negative, whole) ← decimal
  let fraction ← optional fraction
  let power ← if fraction.isSome then optional exponent else some <$> exponent
  let places := fraction.getD []
  if !negative && overflows (number 10 (whole ++ places)) (power.getD 0 - places.length) then
    failure

def specialFloat : Scan Unit := do
  let _ ← sign
  text "inf" <|> text "nan"

def float : Scan String := Prod.snd <$> withLexeme (finiteFloat <|> specialFloat)

/-! ### Dates and times -/

def field (width low high : Nat) : Scan Nat :=
  filter (exactly Char.isDigit width) fun ds =>
    let value := number 10 ds
    if low ≤ value ∧ value ≤ high then some value else none

def isLeapYear (year : Nat) : Bool :=
  year % 4 == 0 && (year % 100 != 0 || year % 400 == 0)

def daysInMonth (year month : Nat) : Nat :=
  if month == 2 then (if isLeapYear year then 29 else 28)
  else if month == 4 || month == 6 || month == 9 || month == 11 then 30
  else 31

def date : Scan Unit := do
  let year ← field 4 0 9999
  let _ ← char '-'
  let month ← field 2 1 12
  let _ ← char '-'
  let _ ← field 2 1 (daysInMonth year month)

def time : Scan Unit := do
  let _ ← field 2 0 23
  let _ ← char ':'
  let _ ← field 2 0 59
  let _ ← char ':'
  let _ ← field 2 0 60
  let _ ← optional (char '.' *> run1 Char.isDigit)

def zone : Scan Unit :=
  (do let _ ← one fun c => c == 'Z' || c == 'z') <|>
    (do
      let _ ← one fun c => c == '+' || c == '-'
      let _ ← field 2 0 23
      let _ ← char ':'
      let _ ← field 2 0 59)

def dateTime : Scan String :=
  Prod.snd <$> withLexeme
    ((do
        date
        let _ ← optional do
          let _ ← one fun c => c == 'T' || c == 't' || c == ' '
          time
          optional zone) <|>
      time)

end Scan

end SharedStream.Toml
