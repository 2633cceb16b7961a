import ListScript.Path.Parser
import ListScript.Text.Quoted
import ListScript.Value

/-!
# Errors

A `Cause` says what went wrong; `Cause.kind` is the class it is reported under and `Cause.message` its text. Errors of
the language are the script kinds; the others come from the host's values and functions. A `Raised` error also carries
the value it is about and, once it has left a call, the calls that were active (`Frame`).
-/

namespace ListScript

/-- The classes of errors. -/
inductive Kind where
  /-- the first element of an expression is no command -/
  | unknownCommand
  /-- a value of the wrong type -/
  | typeMismatch
  /-- a call of something that cannot be called -/
  | invocation
  /-- missing or surplus parameters -/
  | malformed
  /-- a text that is no path, or a path that cannot be assigned to -/
  | badPath
  /-- any other error of a script -/
  | script
  | badValue
  | badType
  | missingKey
  | missingAttribute
  | badIndex
  | overflow
  | memory
  | runtime
  | zeroDivision
  | recursion
  /-- a host error that takes no record of the active calls -/
  | sealed
  /-- a host error that brings a record of calls of its own -/
  | preset
  /-- a host error that brings an empty record of calls -/
  | bare
  deriving DecidableEq

namespace Kind

/-- The name under which a class of errors is reported. -/
def label : Kind → String
  | unknownCommand => "UnknownCommand"
  | typeMismatch => "TypeMismatch"
  | invocation => "InvocationError"
  | malformed => "ScriptSyntaxError"
  | badPath => "PathSyntaxError"
  | script => "ScriptError"
  | badValue => "ValueError"
  | badType => "TypeError"
  | missingKey => "KeyError"
  | missingAttribute => "AttributeError"
  | badIndex => "IndexError"
  | overflow => "OverflowError"
  | memory => "MemoryError"
  | runtime => "RuntimeError"
  | zeroDivision => "ZeroDivisionError"
  | recursion => "RecursionError"
  | sealed => "Sealed"
  | preset => "Preset"
  | bare => "Bare"

/-- Whether a class belongs to the language and not to the host. -/
def isScript : Kind → Bool
  | unknownCommand | typeMismatch | invocation | malformed | badPath | script => true
  | _ => false

/-- The classes that a host function can be asked to raise by name. -/
def raisable : List Kind :=
  [badValue, missingKey, runtime, badType, zeroDivision, missingAttribute, script, unknownCommand, typeMismatch,
    invocation, malformed, badPath, sealed, preset, bare]

end Kind

/-- What went wrong. Texts named `shown` are printed values; texts named `quoted` are literals with their quotes. -/
inductive Cause where
  -- the shape of scripts
  | notAScript (shown : String)
  | notAnExpression (shown : String)
  | unknownCommand (tag shown : String)
  | tooFewParameters (tag : String) (least given : Nat) (shown : String)
  | tooManyParameters (tag : String) (most given : Nat) (shown : String)
  | argumentsNotAList (shown : String)
  | parametersNotNames (shown : String)
  | receiverNotAPath (shown : String)
  -- calls and reads
  | notAPathText (type shown : String)
  | badCallTarget (shown result : String)
  | notAFunction (name shown : String)
  -- paths
  | path (quoted : String) (fault : Path.Fault)
  | assignLastValue (quoted : String)
  | assignContext (quoted : String)
  | nullContext (quoted : String)
  -- writes
  | nameOnList (quoted : String)
  | fieldOfScalar (key shown : String)
  | indexRefused (index : Nat) (type reason : String)
  | privateAttribute (quoted : String)
  | paddingTooLong
  | noMemory
  | noAttribute (type name : String)
  | noSetter (name type : String)
  -- objects of the host
  | noItemAssignment (type : String)
  | unhashable (type : String)
  | notCallable (type : String)
  | notIterable (type : String)
  | notAContainer (type : String)
  | notAPart (type : String)
  | notInBytes (type : String)
  | unsized (type : String)
  | textAsIndex (container type : String)
  | joinNeedsText (position : Nat) (type : String)
  | integerTooLong
  | tooDeep
  | scopeKeyNotText (label : String)
  | missingBinding (key : String)
  | missingEntry (shown : String)
  | missingReceiver (function : String)
  | unexpectedKeyword (function keyword : String)
  | popFromEmpty
  | indexTooLarge
  | amountTooLarge
  /-- an error that the host words itself -/
  | host (kind : Kind) (text : String)
  deriving DecidableEq

namespace Cause

/-- The class a cause is reported under. -/
def kind : Cause → Kind
  | unknownCommand .. => .unknownCommand
  | notAScript _ | notAnExpression _ | argumentsNotAList _ | parametersNotNames _ | receiverNotAPath _ => .typeMismatch
  | notAPathText .. | nullContext _ | nameOnList _ | fieldOfScalar .. | indexRefused .. => .typeMismatch
  | privateAttribute _ => .typeMismatch
  | tooFewParameters .. | tooManyParameters .. => .malformed
  | badCallTarget .. | notAFunction .. => .invocation
  | path _ (.badDigits _) | path _ (.tooManyDigits _) | integerTooLong => .badValue
  | path .. | assignLastValue _ | assignContext _ => .badPath
  | paddingTooLong | indexTooLarge | amountTooLarge => .overflow
  | noMemory => .memory
  | noAttribute .. | noSetter .. => .missingAttribute
  | noItemAssignment _ | unhashable _ | notCallable _ | notIterable _ | notAContainer _ | notAPart _ => .badType
  | notInBytes _ | joinNeedsText .. | unsized _ | textAsIndex .. => .badType
  | scopeKeyNotText _ | missingReceiver _ | unexpectedKeyword .. => .badType
  | missingBinding _ | missingEntry _ => .missingKey
  | popFromEmpty => .badIndex
  | tooDeep => .recursion
  | host kind _ => kind

/-- The message about a text that is no path. -/
def pathMessage (quoted : String) : Path.Fault → String
  | .empty => s!"Invalid path: {quoted}"
  | .emptyName offset => s!"Invalid path: {quoted} (empty name at offset {offset})"
  | .badBracket offset => s!"Invalid path: {quoted} (bad bracket at offset {offset})"
  | .unexpected c offset =>
    let shown := Text.literal (String.singleton c)
    s!"Invalid path: {quoted} (unexpected {shown} at offset {offset})"
  | .badDigits piece =>
    let shown := String.ofList ((Text.quoteLiteral piece.toList).take 200)
    s!"invalid literal for int() with base 10: {shown}"
  | .tooManyDigits count =>
    s!"Exceeds the limit ({maxIntegerDigits} digits) for integer string conversion: value has {count} digits; " ++
      "use sys.set_int_max_str_digits() to increase the limit"

/-- The text of an error. -/
def message : Cause → String
  | notAScript shown => s!"Expected a script, got {shown}"
  | notAnExpression shown => s!"Expected an expression, got {shown}"
  | unknownCommand tag shown => s!"Unknown command {tag} in {shown}"
  | tooFewParameters tag least given shown => s!"{tag} expects at least {least} parameter(s), got {given}: {shown}"
  | tooManyParameters tag most given shown => s!"{tag} expects at most {most} parameter(s), got {given}: {shown}"
  | argumentsNotAList shown => s!"call arguments must be a list: {shown}"
  | parametersNotNames shown => s!"lambda parameters must be a list of names: {shown}"
  | receiverNotAPath shown => s!"set receiver must be a path string: {shown}"
  | notAPathText type shown => s!"Expected string in get, got {type} from {shown}"
  | badCallTarget shown result =>
    s!"Call target {shown} evaluated to {result}, expected a path string or a function"
  | notAFunction name shown => s!"{name} is not a function (got {shown})"
  | path quoted fault => pathMessage quoted fault
  | assignLastValue quoted => s!"Cannot assign to the last value: {quoted}"
  | assignContext quoted => s!"Cannot assign to the bare context object: {quoted}"
  | nullContext quoted => s!"Cannot assign {quoted}: the context object is null"
  | nameOnList quoted => s!"Cannot set field {quoted} on a list"
  | fieldOfScalar key shown => s!"Cannot set {key} on {shown}"
  | indexRefused index type reason => s!"Cannot set index {index} on {type}: {reason}"
  | privateAttribute quoted => s!"Cannot set private attribute {quoted}"
  | paddingTooLong => "cannot fit 'int' into an index-sized integer"
  | noMemory => ""
  | noAttribute type name => s!"'{type}' object has no attribute '{name}'"
  | noSetter name type => s!"property '{name}' of '{type}' object has no setter"
  | noItemAssignment type => s!"'{type}' object does not support item assignment"
  | unhashable type => s!"unhashable type: '{type}'"
  | notCallable type => s!"'{type}' object is not callable"
  | notIterable type => s!"'{type}' object is not iterable"
  | notAContainer type => s!"argument of type '{type}' is not iterable"
  | notAPart type => s!"'in <string>' requires string as left operand, not {type}"
  | notInBytes type => s!"a bytes-like object is required, not '{type}'"
  | unsized type => s!"object of type '{type}' has no len()"
  | textAsIndex container type => s!"{container} indices must be integers or slices, not {type}"
  | joinNeedsText position type => s!"sequence item {position}: expected str instance, {type} found"
  | integerTooLong =>
    s!"Exceeds the limit ({maxIntegerDigits} digits) for integer string conversion; " ++
      "use sys.set_int_max_str_digits() to increase the limit"
  | tooDeep => "maximum recursion depth exceeded"
  | scopeKeyNotText label => s!"Scope key must be a str, not {label}"
  | missingBinding key => Text.literal s!"'{key}'"
  | missingEntry shown => shown
  | missingReceiver function => s!"{function}() missing 1 required keyword-only argument: 'this'"
  | unexpectedKeyword function keyword => s!"{function}() got an unexpected keyword argument '{keyword}'"
  | popFromEmpty => "pop from empty list"
  | indexTooLarge => "Python int too large to convert to C ssize_t"
  | amountTooLarge => "int too large to convert to float"
  | host .missingKey text => Text.literal text
  | host _ text => text

end Cause

/-- What an error is about. -/
inductive Subject where
  | nothing
  | value (v : Value)
  | path (p : Path)
  | segment (s : Segment)
  deriving DecidableEq

/-- An active call: the name it was called by and the list of its arguments. -/
structure Frame where
  name : Value
  args : Value
  deriving DecidableEq

/-- An error on its way out. -/
structure Raised where
  cause : Cause
  subject : Subject
  /-- the calls that were active, outermost first, once they have been recorded -/
  stack : Option (List Frame)
  deriving DecidableEq

namespace Raised

/-- An error about nothing in particular. -/
def of (cause : Cause) : Raised := ⟨cause, .nothing, none⟩

/-- An error about a value. -/
def about (v : Value) (cause : Cause) : Raised := ⟨cause, .value v, none⟩

/-- The class of an error. -/
def kind (e : Raised) : Kind := e.cause.kind

/-- The text of an error. -/
def message (e : Raised) : String := e.cause.message

/-- Whether an error still takes a record of the active calls. -/
def awaitsStack (e : Raised) : Bool := e.stack.isNone && e.kind != .sealed

end Raised

end ListScript
