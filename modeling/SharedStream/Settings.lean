import SharedStream.Error
import SharedStream.Toml.Library
/-!
What a block is told when it is made, and keeps. Settings may be written down in TOML: the fields
stand in a table `stream`, or at the top of the document.
-/

namespace SharedStream

/-- The parameters of a block. Clones and splits share them, a composition takes those of its left
child. -/
structure Settings where
  /-- The largest outer position that a holder of the block may use. -/
  limit : Nat := maxOffset
  /-- Whether the store hears which bytes are no longer needed. -/
  hints : Bool := true
  /-- A limit is itself a position. -/
  limit_le : limit ≤ maxOffset := by decide
deriving DecidableEq

namespace Settings

def compact : Settings := { limit := 0xFFFFFFFF }

/-- Settings that allow no position are refused. -/
def validate (settings : Settings) : Except Fault Unit :=
  if settings.limit = 0 then .error .zeroLimit else .ok ()

theorem validate_eq_ok_iff (settings : Settings) :
    settings.validate = .ok () ↔ 0 < settings.limit := by
  unfold validate
  split <;> simp <;> omega

variable (library : Toml.Library)

def limitField : Toml.Field Settings :=
  .of "max_position" library.word fun settings limit =>
    { settings with limit := limit.val, limit_le := Nat.le_of_lt_succ limit.isLt }

def hintsField : Toml.Field Settings :=
  .of "forward_release_hints" library.boolean fun settings hints => { settings with hints }

def fields : List (Toml.Field Settings) := [limitField library, hintsField library]

/-- The fields by name, or in order; there are no others, and those left out have their defaults. -/
def reader : Toml.Reader Settings := library.record {} (fields library)

/-- A document is tried as one with a table `stream`, whatever stands beside it, and then as one
that holds the fields itself. -/
def documentReader : Toml.Reader Settings :=
  library.untagged [library.form "stream" (reader library), reader library]

def ofToml (text : String) : Except Fault Settings :=
  match library.parse text with
  | none => .error .malformedDocument
  | some document =>
      match documentReader library (.table document) with
      | none => .error .unfitDocument
      | some settings => settings.validate.map fun () => settings

end Settings

end SharedStream
