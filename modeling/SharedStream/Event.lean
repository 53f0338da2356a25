import SharedStream.Block
/-!
What happens, in domain terms. The journal of a pool lists every event in order; how much of it a
reader sees, and in which words, is decided when it is read.
-/

namespace SharedStream

/-- The two moments at which a block may have a hook: its data goes first, then the block. -/
inductive HookRole where
  | data
  | block
deriving DecidableEq

/-- One entry of the journal. -/
inductive Event where
  | blockCreated (name : String) (length : Nat)
  /-- Nobody holds the block any more. -/
  | blockFreed (block : Nat) (name : String)
  | hookRan (block : Nat) (role : HookRole) (hook : Hook)
  | storeRead (store position length : Nat) (answer : Except StoreFailure Nat)
  | storeHinted (store position : Nat)
  | storeDropped (store : Nat)
  | positionSet (position : Nat)
  | sourceRead (name : String) (copied position : Nat)
  | composedRead (copied position : Nat)
  /-- A range with bytes of both children was taken apart. -/
  | boundaryRead (position length : Nat)
  /-- A composed read kept the bytes it had when a child failed. -/
  | partialRead (filled : Nat) (error : Failure)
  | hintRejected (name : String) (failure : StoreFailure)
  /-- One more holder of a composition sees a child, which `before` holders saw until then. -/
  | childNeeded (block : Nat) (side : Side) (before : Nat)
  | childRetired (block : Nat) (side : Side)
  /-- The table of a child's block refused to dispose of the child. -/
  | disposeFailed (fault : Fault)
  | concatenated (boundary length position : Nat)
  | streamSplit (position head tail : Nat)

/-- How much attention an event asks for. -/
inductive Level where
  | warn
  | debug
  | trace
deriving DecidableEq

namespace Level

def name : Level → String
  | warn => "WARN"
  | debug => "DEBUG"
  | trace => "TRACE"

/-- A reader who asks for `threshold` sees everything as urgent as that or more. -/
def visibleAt : Level → (threshold : Level) → Bool
  | warn, _ => true
  | debug, warn => false
  | debug, _ => true
  | trace, trace => true
  | trace, _ => false

end Level

/-- The value of a field of a log record. -/
inductive FieldValue where
  | number (n : Nat)
  | text (s : String)

/-- An event in the words of the log. -/
structure LogRecord where
  level : Level
  message : String
  fields : List (String × FieldValue)

/-- The log record of an event. Hooks and stores speak for themselves and have none, and the books
are not logged. -/
def Event.record? : Event → Option LogRecord
  | blockCreated name length =>
      some ⟨.debug, "content block created",
        [("content", .text name), ("length", .number length)]⟩
  | blockFreed _ name => some ⟨.debug, "content block released", [("content", .text name)]⟩
  | hookRan _ _ _ | storeRead _ _ _ _ | storeHinted _ _ | storeDropped _ => none
  | childNeeded _ _ _ => none
  | positionSet position => some ⟨.trace, "set_position", [("position", .number position)]⟩
  | sourceRead name copied position =>
      some ⟨.trace, "read",
        [("content", .text name), ("copied", .number copied), ("position", .number position)]⟩
  | composedRead copied position =>
      some ⟨.trace, "composed read",
        [("copied", .number copied), ("position", .number position)]⟩
  | boundaryRead position length =>
      some ⟨.trace, "boundary read", [("position", .number position), ("len", .number length)]⟩
  | partialRead filled error =>
      some ⟨.warn, "composed read returned partial data after child failure",
        [("filled", .number filled), ("error", .text error.display)]⟩
  | hintRejected name failure =>
      some ⟨.warn, "backing store rejected release hint",
        [("content", .text name), ("error", .text (Failure.store failure).display)]⟩
  | childRetired _ side =>
      some ⟨.debug, "composition child retired", [("child", .text side.label)]⟩
  | disposeFailed fault =>
      some ⟨.warn, "child cursor dispose failed",
        [("error", .text (Failure.fault fault).display)]⟩
  | concatenated boundary length position =>
      some ⟨.debug, "streams concatenated",
        [("boundary", .number boundary), ("length", .number length),
          ("position", .number position)]⟩
  | streamSplit position head tail =>
      some ⟨.debug, "stream split",
        [("position", .number position), ("head", .number head), ("tail", .number tail)]⟩

end SharedStream
