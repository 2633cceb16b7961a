import ListScript.Interpreter

/-!
# Runners

A runner executes scripts on behalf of a host and reports how they end. The methods of the host object that are marked
as its programming interface are bound by name in a root scope, which is the parent of the variables of each run.
Without an object of its own a run has the host object as its context.
-/

namespace ListScript

open Effect

/-- How a run ended. -/
inductive Report where
  | success (v : Value)
  | failure (kind message : String)
  deriving DecidableEq

/-- A host object, an evaluator and the root scope, with the names bound in it for the host. -/
structure Runner where
  host : Value
  engine : Ref
  rootScope : Value
  api : List String

/-! ## Messages -/

namespace Store

/-- The short form of an argument in a stack trace. -/
def printArgument (s : Store) (v : Value) : Except Raised String :=
  match s.cell? v with
  | some (.closure ..) => .ok "lambda"
  | some (.list items _) => .ok ("[" ++ toString items.length ++ "]")
  | some (.dict _) => .ok "\x7b...\x7d"
  | _ => s.print v

/-- One call in a stack trace. -/
def printFrame (s : Store) (frame : Frame) : Except Raised String := do
  let args ← if s.isTrue frame.args then s.elements frame.args else pure []
  let shown := " ".intercalate (← args.mapM s.printArgument)
  let name ← if s.isTrue frame.name then s.plainText frame.name else pure "<call>"
  return "(" ++ name ++ (if shown.isEmpty then "" else " " ++ shown) ++ ")"

/-- The stack trace of an error, if it has one. -/
def printTrace (s : Store) (e : Raised) : Except Raised (Option String) :=
  match e.stack.getD [] with
  | [] => .ok none
  | frames => do
    let shown ← frames.mapM s.printFrame
    return some ("Script stacktrace: " ++ " ".intercalate shown)

/-- The kind and the message under which an error is reported. Errors that are not of the language are reported as
errors of the host. -/
def describe (s : Store) (e : Raised) : Except Raised (String × String) := do
  let class_ := e.kind.label
  let (kind, line) :=
    if e.kind.isScript then (class_, class_ ++ ": " ++ e.message)
    else ("HostError", "HostError: " ++ class_ ++ ": " ++ e.message)
  match ← s.printTrace e with
  | none => return (kind, line)
  | some trace => return (kind, line ++ "\n" ++ trace)

/-- The text of a reported error: the message, after its kind unless it starts with that. There is none unless the
status is that of an error. -/
def formatError (s : Store) (status : String) (message kind : Value) : Except Raised String := do
  if status != "error" then return ""
  let text ← if s.isTrue message then s.plainText message else pure "Unknown error"
  if s.isTrue kind then
    let mark := (← s.plainText kind) ++ ":"
    return if Text.beginsWith text mark then text else mark ++ " " ++ text
  else return text

end Store

/-! ## The interface of the host -/

namespace Store

/-- The names of the attributes of a value, methods included. -/
def attributeNames (s : Store) (v : Value) : List String :=
  let own : List String :=
    match s.cell? v with
    | some (.raw _) => ["payload"]
    | some (.closure _ attrs) => ["params", "body", "closure", "evaluator"] ++ attrs.map Prod.fst
    | some (.context _ attrs) => ["this", "variables", "last_value"] ++ attrs.map Prod.fst
    | some (.engine _ attrs) => "call_stack" :: attrs.map Prod.fst
    | some (.object .trap attrs) => ["bad", "gone"] ++ attrs.map Prod.fst
    | some (.function _ attrs) | some (.object _ attrs) => attrs.map Prod.fst
    | _ => []
  own ++ ((s.methodsOf v).map Host.Method.label).filter fun name => !own.contains name

/-- The mark that a value carries for the interface of its host. -/
def interfaceMark (s : Store) (v : Value) : Value :=
  match s.cell? v with
  | some (.function f _) => .bool f.isMarked
  | some (.method _ m) => .bool m.isMarked
  | _ => (s.hiddenAttribute? v "_is_script_api").getD .null

/-- Whether a value is marked as part of the interface of its host: it can be called, and its mark is true. Without a
mark of its own, that of the object it says it stands for counts. -/
def isMarked (s : Store) (v : Value) : Bool :=
  let own := s.interfaceMark v
  let mark := if s.isTrue own then own else s.interfaceMark ((s.hiddenAttribute? v "__func__").getD .null)
  s.isCallable v && mark == .bool true

/-- Binds the marked attributes among some names in a scope; gives the names bound. -/
def bindMarked (s : Store) (host scope : Value) : List String → Except Raised (List String × Store)
  | [] => .ok ([], s)
  | name :: names => do
    match ← s.attribute? host name with
    | none => s.bindMarked host scope names
    | some reading =>
      let (member, s) := s.materialize host reading
      if s.isMarked member then
        let s ← s.bind scope (.text name) member
        let (bound, s) ← s.bindMarked host scope names
        return (name :: bound, s)
      else s.bindMarked host scope names

/-- Removes names from the own bindings of a scope. -/
def unbindAll (s : Store) (scope : Value) (names : List String) : Store :=
  match s.scope? scope with
  | some (bindings, _) => names.foldl (fun s name => s.dropEntry bindings (.text name)) s
  | none => s

end Store

namespace Runner

/-- Removes the interface that was bound for a host. -/
def unbindHost (r : Runner) : Effect Runner := do
  extend fun s => ((), s.unbindAll r.rootScope r.api)
  return { r with api := [] }

/-- Binds the interface of the host of a runner that has none bound. -/
def bindHost (r : Runner) : Effect Runner := do
  if r.host = .null then return r
  let bound ← askGrowing fun s =>
    s.bindMarked r.host r.rootScope ((s.attributeNames r.host).mergeSort fun a b => a ≤ b)
  return { r with api := bound }

/-- A runner for a host object with global variables of its own, copied from a dictionary. -/
def new (host vars : Value) : Effect Runner := do
  let entries ← ask fun s => if s.isTrue vars then s.copiedEntries vars else .ok []
  let globals ← extend (·.allocDict entries)
  let rootScope ← extend (·.allocScope .null globals)
  let engine ← extend (·.allocEngine)
  bindHost ⟨host, engine, rootScope, []⟩

/-- Runs a script and reports how it ended. -/
def run (fuel : Nat) (r : Runner) (script this vars : Value) : Effect Report := do
  change (·.clearStack r.engine)
  let ctx ← newContext (if this = .null then r.host else this) vars r.rootScope
  match ← attempt (runScript fuel r.engine script ctx) with
  | .ok v => return .success v
  | .error e =>
    let (kind, message) ← ask (·.describe e)
    return .failure kind message

end Runner

end ListScript
