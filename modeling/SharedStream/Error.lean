import SharedStream.Offset
/-!
What can go wrong. A *fault* is a reason of the library itself, with the numbers that explain it; a
*store failure* comes from a backing store and passes through every layer unchanged. Callers see
both as a kind, a message and an optional cause.
-/

namespace SharedStream

/-- The classes of failure that a caller may branch on. -/
inductive FailureKind where
  | illegalArgument
  | notFound
  | system
  | busy
  | cancelled
  | security
deriving DecidableEq

namespace FailureKind

def code : FailureKind → String
  | illegalArgument => "stream.illegal_argument"
  | notFound => "stream.not_found"
  | system => "stream.system"
  | busy => "stream.busy"
  | cancelled => "stream.cancelled"
  | security => "stream.security"

def name : FailureKind → String
  | illegalArgument => "IllegalArgument"
  | notFound => "NotFound"
  | system => "System"
  | busy => "Busy"
  | cancelled => "Cancelled"
  | security => "Security"

end FailureKind

/-- The classes of failure of a plain byte reader. -/
inductive IoKind where
  | invalidInput
  | notFound
  | wouldBlock
  | interrupted
  | permissionDenied
  | other
deriving DecidableEq

namespace IoKind

def name : IoKind → String
  | invalidInput => "InvalidInput"
  | notFound => "NotFound"
  | wouldBlock => "WouldBlock"
  | interrupted => "Interrupted"
  | permissionDenied => "PermissionDenied"
  | other => "Other"

def ofKind : FailureKind → IoKind
  | .illegalArgument => invalidInput
  | .notFound => notFound
  | .system => other
  | .busy => wouldBlock
  | .cancelled => interrupted
  | .security => permissionDenied

end IoKind

/-- A failure that a backing store reports. -/
structure StoreFailure where
  kind : FailureKind
  message : String
  cause : Option String
deriving DecidableEq

/-- One of the two children of a composition: `left` comes first. -/
inductive Side where
  | left
  | right
deriving DecidableEq

def Side.label : Side → String
  | left => "a"
  | right => "b"

/-- The reasons for which the library itself refuses or fails. -/
inductive Fault where
  | zeroLimit
  /-- A text with settings is no document. -/
  | malformedDocument
  /-- A document has neither of the two forms of settings. -/
  | unfitDocument
  | emptyStore (name : String)
  | storeTooLong (length limit : Nat)
  /-- A position lies outside the closed range that a cursor may take. -/
  | outsideView (position first last : Nat)
  | everythingReleased
  | emptyBuffer
  /-- A store claimed to have delivered nothing, or more than was asked for. -/
  | badCount (store : String) (count wanted : Nat)
  /-- A child that a read needs is gone. -/
  | childRetired (side : Side)
  | outsideChild (position length : Nat)
  | childStarved (store : String)
  | compositionStarved
  | notPassed (position current : Nat)
  | alreadyReleased (position : Nat)
  | cloneOverflow (offset remaining limit : Nat)
  | concatOverflow (boundary remaining limit : Nat)
  /-- The end of a cursor is no position. -/
  | endOverflow (position remaining : Nat)
  | emptyHalf (position start stop : Nat)
  | splitOutside (position start stop : Nat)
  /-- A split position names no byte of the block. -/
  | splitUnnamed (position : Nat)
  | cannotShrink (length : Nat)
  /-- An operation of one table was asked to serve a block of the other. -/
  | wrongTable (table call content : String)
deriving DecidableEq

namespace Fault

/-- What a caller asked for wrongly is an illegal argument, what is not there any more is not found,
and what stores or the library owe each other is a failure of the system. -/
def kind : Fault → FailureKind
  | zeroLimit | malformedDocument | unfitDocument => .illegalArgument
  | emptyStore _ | storeTooLong _ _ => .illegalArgument
  | emptyBuffer | notPassed _ _ => .illegalArgument
  | cloneOverflow _ _ _ | concatOverflow _ _ _ => .illegalArgument
  | emptyHalf _ _ _ | cannotShrink _ | wrongTable _ _ _ => .illegalArgument
  | outsideView _ _ _ | everythingReleased | alreadyReleased _ | splitOutside _ _ _ => .notFound
  | badCount _ _ _ | childRetired _ | outsideChild _ _ => .system
  | childStarved _ | compositionStarved | endOverflow _ _ | splitUnnamed _ => .system

def message : Fault → String
  | zeroLimit => "stream configuration: max_position must be greater than zero"
  | malformedDocument | unfitDocument => "stream configuration is not valid TOML"
  | emptyStore name => "cannot expose empty backing store `" ++ name ++ "`"
  | storeTooLong length limit => s!"backing store length {length} exceeds max_position {limit}"
  | outsideView position first last =>
      s!"position {position} is outside the valid range [{first}, {last}]"
  | everythingReleased => "reset: every visible byte has been released"
  | emptyBuffer => "read requires a non-empty local buffer"
  | badCount store count wanted =>
      "backing store `" ++ store ++ s!"` returned {count} bytes for a {wanted}-byte request"
  | childRetired side => "child " ++ side.label ++ " was retired while still referenced"
  | outsideChild position length =>
      s!"composed range {position}+{length} is outside the child window"
  | childStarved store => "child `" ++ store ++ "` returned no data before its end"
  | compositionStarved => "composition produced no data before its end"
  | notPassed position current =>
      s!"release position {position} is not before the current position {current}"
  | alreadyReleased position => s!"position {position} has already been released"
  | cloneOverflow offset remaining limit =>
      s!"clone offset {offset} plus remaining size {remaining} overflows max position {limit}"
  | concatOverflow boundary remaining limit =>
      s!"concatenated length {boundary} + {remaining} overflows max position {limit}"
  | endOverflow position remaining =>
      s!"visible end overflows: position {position} + remaining {remaining}"
  | emptyHalf position start stop =>
      s!"split at {position} would produce an empty half of [{start}, {stop})"
  | splitOutside position start stop =>
      s!"split position {position} is outside [{start}, {stop})"
  | splitUnnamed position => s!"split position {position} has no inner position"
  | cannotShrink length => s!"cannot shrink visible length to {length}"
  | wrongTable table call content =>
      table ++ "::" ++ call ++ " invoked on a cursor bound to `" ++ content ++ "` content"

/-- What stood behind a fault: of a text with settings, whether its syntax or its shape was
wrong. -/
def cause : Fault → Option String
  | malformedDocument => some "syntax"
  | unfitDocument => some "shape"
  | _ => none

end Fault

/-- Why a stream operation failed. -/
inductive Failure where
  | fault (reason : Fault)
  | store (failure : StoreFailure)
deriving DecidableEq

instance : Coe Fault Failure := ⟨.fault⟩

instance : Coe StoreFailure Failure := ⟨.store⟩

namespace Failure

def kind : Failure → FailureKind
  | fault reason => reason.kind
  | store failure => failure.kind

def message : Failure → String
  | fault reason => reason.message
  | store failure => failure.message

def cause : Failure → Option String
  | fault reason => reason.cause
  | store failure => failure.cause

def display (error : Failure) : String :=
  "[" ++ error.kind.code ++ "] " ++ error.message

def ioKind (error : Failure) : IoKind := IoKind.ofKind error.kind

end Failure

end SharedStream
