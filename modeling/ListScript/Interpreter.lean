import ListScript.Access.Write
import ListScript.CallStack
import ListScript.Command
import ListScript.Host.Methods

/-!
# The interpreter

`runScript` runs a script in a context. Expressions run from left to right, each seeing the value of the one before as
the last value; the script's value is that of its last expression. A nested script runs on a copy of the context, so
it does not disturb the last value of the script around it. A script list is read anew at each step: expressions that
are added to it while it runs are run too.

Calls from scripts go through `call`, which keeps the stack of active calls; callbacks from the host go to `apply`
directly. All of them recur on one measure of fuel, and running out of it is told apart from values and errors.

An evaluator is itself an object that scripts can get hold of. It runs nested scripts by its attribute `eval` and calls
functions by its attribute `call`, so something else can be put in their place (`evaluatorOf`, `callerOf`).
-/

namespace ListScript

open Effect

/-- The way to apply a value to arguments; the last part is the receiver if it is handed over. -/
abbrev Application := Value → List Value → Option Value → Effect Value

/-- The way to run a script in a context. -/
abbrev Evaluation := Value → Context → Effect Value

namespace Store

/-- Whether a callable takes the receiver of the call. A boolean mark on a callable object, or on the object that it
says it stands for, overrides its class. -/
def acceptsReceiver (s : Store) (f : Value) : Bool :=
  match s.cell? f with
  | some (.function g _) => g.takesReceiver
  | some (.method _ m) => m.takesReceiver
  | some (.object cls attrs) =>
    match s.hiddenAttribute? ((attrs.lookup "__func__").getD f) "_script_accepts_this" with
    | some (.bool b) => b
    | _ => cls.takesReceiver
  | _ => false

/-- An attribute that has to be there. -/
def needAttribute (s : Store) (v : Value) (name : String) : Except Raised Value := do
  match ← s.attribute? v name with
  | some (.stored w) => return w
  | _ => .error (.of (.noAttribute (s.typeName v) name))

/-- Binds parameters to arguments in a scope; a parameter without an argument is null. -/
def bindParameters (s : Store) (scope : Value) : List Value → List Value → Except Raised Store
  | [], _ => .ok s
  | name :: names, args => do
    let s ← s.bind scope name (args.head?.getD .null)
    s.bindParameters scope names args.tail

/-- The evaluator that a value is. -/
def engine? (s : Store) (v : Value) : Option Ref :=
  match v, s.cell? v with
  | .ref r, some (.engine ..) => some r
  | _, _ => none

/-- The context that a value is. -/
def context? (s : Store) (v : Value) : Option Context :=
  match s.cell? v with
  | some (.context ctx _) => some ctx
  | _ => none

/-- A new function with the context in which it was made. -/
def allocClosure (s : Store) (params body : Value) (ctx : Context) (engine : Ref) : Value × Store :=
  let (context, s) := s.alloc (.context ctx [])
  let (r, s) := s.alloc (.closure ⟨params, body, .ref context, .ref engine⟩ [])
  (.ref r, s)

end Store

/-! ## What stands in for parts of the interpreter

A run that goes on in a function of some other kind, put in place of a part of the interpreter, is not followed: it gets
hold of the very context that is in use. -/

/-- Refuses to call what cannot be called; a call of anything else is not followed. -/
def unfollowed {α : Type} (f : Value) : Effect α := do
  let s ← store
  if s.isCallable f then exhaust else raise (.of (.notCallable (s.typeName f)))

/-- The evaluator whose method of this kind a value is. -/
def standIn (m : Host.Method) (f : Value) : Effect Ref := do
  let s ← store
  match s.cell? f with
  | some (.method self m') =>
    match s.engine? self with
    | some r => if m' = m then return r else exhaust
    | none => exhaust
  | _ => unfollowed f

/-- The evaluator that runs the scripts of an evaluator: itself, unless its attribute `eval` has been set. -/
def evaluatorOf (engine : Ref) : Effect Ref := do
  match (← store).hiddenAttribute? (.ref engine) Host.Method.evaluate.label with
  | none => return engine
  | some f => standIn .evaluate f

/-- The evaluator that makes the calls of an evaluator: itself, unless its attribute `call` has been set. A function made
by a script does not take the name of the call. -/
def callerOf (engine : Ref) : Effect Ref := do
  let s ← store
  match s.hiddenAttribute? (.ref engine) Host.Method.invoke.label with
  | none => return engine
  | some f =>
    if s.isClosure f then raise (.of (.unexpectedKeyword "ScriptFunction.__call__" "name")) else standIn .invoke f

/-- The evaluator that a value has to be. Another object with an attribute `eval` is not followed. -/
def engineFor (v : Value) : Effect Ref := do
  let s ← store
  match s.engine? v, s.hiddenAttribute? v Host.Method.evaluate.label with
  | some r, _ => return r
  | none, none => raise (.of (.noAttribute (s.typeName v) Host.Method.evaluate.label))
  | none, some _ => exhaust

/-- A copy of the context that a value has to be. An attribute `derive` stands in for the making of the copy. -/
def contextFrom (v : Value) : Effect Context := do
  let s ← store
  match s.hiddenAttribute? v "derive", s.context? v with
  | some f, _ => unfollowed f
  | none, some ctx => return ctx
  | none, none => raise (.of (.noAttribute (s.typeName v) "derive"))

/-! ## Expressions -/

/-- The value of a value source: a list is run as a script, everything else stands for itself. -/
def evalSource (nested : Evaluation) (source : Value) (ctx : Context) : Effect Value := do
  let s ← store
  if s.isLiteral source then return s.unwrap source else nested source ctx

/-- Writes a value at the path that a text spells. -/
def assignAt (receiver v : Value) (ctx : Context) : Effect Unit := do
  let path ← ask (·.pathOf receiver)
  fun st =>
    match st.store.assign path v ctx with
    | (store, none) => .value () { st with store }
    | (store, some e) => .raised e { st with store }

/-- The path text that a target stands for: a text stands for itself, anything else is run. -/
def evalTarget (nested : Evaluation) (target : Value) (ctx : Context) : Effect Value :=
  if target.isText then pure target else nested target ctx

/-- Reads the value at the path that a target gives. -/
def evalGet (nested : Evaluation) (expression target : Value) (ctx : Context) : Effect Value := do
  let text ← evalTarget nested target ctx
  if text.isText then
    let path ← ask (·.pathOf text)
    readAt path ctx
  else
    ask fun s => do
      let shown ← s.print target
      .error (.about expression (.notAPathText (s.typeName text) shown))

/-- What is called, on which receiver and by which name. -/
structure Callee where
  function : Value
  receiver : Value
  name : Value

/-- Finds what a target asks to call. A path gives the function, and the object it was found on is the receiver. -/
def evalCallee (nested : Evaluation) (expression target : Value) (ctx : Context) : Effect Callee := do
  let resolved ← evalTarget nested target ctx
  if resolved.isText then
    let path ← ask (·.pathOf resolved)
    let function ← readAt path ctx
    match path.parent with
    | none => return ⟨function, ctx.this, resolved⟩
    | some parent => return ⟨function, ← readAt parent ctx, resolved⟩
  else if (← store).isCallable resolved then
    return ⟨resolved, ctx.this, .text (← ask (·.print target))⟩
  else
    ask fun s => do
      let shown ← s.print target
      let result ← s.print resolved
      .error (.about expression (.badCallTarget shown result))

/-- The name that a call goes by: the one that is given, or what is called in print. -/
def callLabel (f name : Value) : Effect Value := do
  if (← store).isTrue name then return name else return .text (← ask (·.print f))

/-- What the trace tells of an expression that is run. -/
def evalEntry (s : Store) (expression : Value) (command : Command) : String :=
  s!"[DBG] eval {command.label} params {((s.list? expression).getD []).length - 1}\n"

/-- What the trace tells of a call by a name, with a number of arguments. It breaks off before a name that cannot be
printed. -/
def callEntry (s : Store) (name : Value) (count : Nat) : String :=
  match s.plainText name with
  | .ok shown => s!"[DBG] call {shown} argc {count}\n"
  | .error _ => "[DBG] call "

/-- The outcome of a call, an error with a record of the active calls. -/
def recordOutcome (engine : Ref) : Except Raised Value → Effect (Except Raised Value)
  | .ok v => pure (.ok v)
  | .error e => attempt (do raise (← recordCalls engine e))

/-- Calls a value with a list of arguments, keeping the stack of active calls. An error that leaves the call takes a
record of the calls active in it. -/
def call (apply : Application) (engine : Ref) (f args receiver name : Value) : Effect Value := do
  let label ← callLabel f name
  let s ← store
  let items ← ask (·.sizedElements args)
  trace (callEntry s label items.length)
  change (·.pushFrame engine label args)
  let this := if (← store).acceptsReceiver f then some receiver else none
  let outcome ← attempt (apply f items this)
  let recorded ← recordOutcome engine outcome
  change (·.popFrame engine)
  ofExcept recorded

/-- Calls a value as an evaluator does, by whatever makes its calls. -/
def callBy (apply : Application) (engine : Ref) (f args receiver name : Value) : Effect Value := do
  let caller ← callerOf engine
  call apply caller f args receiver name

/-- The values of the arguments that a call gives; it may give no list of them. -/
def evalArguments (arguments : Value → Context → Effect (List Value)) (args : Option Value) (ctx : Context) :
    Effect (List Value) :=
  match args with
  | some list => arguments list ctx
  | none => pure []

/-- Runs one expression. -/
def evalExpression (nested : Evaluation) (arguments : Value → Context → Effect (List Value)) (apply : Application)
    (engine : Ref) (expression : Value) (ctx : Context) : Effect Value := do
  let command ← ask (·.command expression)
  trace (evalEntry (← store) expression command)
  match command with
  | .call target args =>
    let callee ← evalCallee nested expression target ctx
    let values ← evalArguments arguments args ctx
    if (← store).isCallable callee.function then
      let list ← extend (·.allocList values)
      callBy apply engine callee.function list callee.receiver callee.name
    else
      ask fun s => do
        let name ← s.plainText callee.name
        let shown ← s.print callee.function
        .error (.about expression (.notAFunction name shown))
  | .get target => evalGet nested expression target ctx
  | .lambda params body => extend (·.allocClosure params body ctx engine)
  | .set receiver source =>
    let v ← evalSource nested source ctx
    assignAt receiver v ctx
    return v
  | .value payload => return (← store).unwrap payload

/-- Applies a function made by a script: its body runs in a new scope below the captured variables. -/
def applyClosure (run : Ref → Evaluation) (f : Closure) (args : List Value) : Effect Value := do
  let outer ← ask (·.needAttribute f.context "variables")
  let scope ← extend (·.allocEmptyScope outer)
  let names ← ask (·.traverse f.params)
  change (·.bindParameters scope names.items args)
  let _ ← ofExcept names.result
  let engine ← engineFor f.engine
  let ctx ← contextFrom f.context
  run engine f.body { ctx with scope }

/-- Runs a script as the one expression or as the list of expressions that it is. -/
def runForm (single sequence : Value → Effect Value) (script : Value) : Effect Value := do
  match ← ask (·.script script) with
  | .single expression => single expression
  | .sequence list => sequence list

/-- Refuses a number of arguments that a method of an evaluator does not take. -/
def refuseCount (m : Host.Method) (given : Nat) : Effect Value :=
  let missing (names : List String) : String :=
    s!"missing {names.length} required positional argument" ++ (if names.length = 1 then "" else "s") ++ ": " ++
      " and ".intercalate (names.map Text.literal)
  let surplus (bounds : String) : String := s!"takes {bounds} positional arguments but {given + 1} were given"
  let wording : String :=
    match m with
    | .evaluate => if given < 2 then missing (["script", "ctx"].drop given) else surplus "3"
    | _ => if given < 2 then missing (["func", "args"].drop given) else surplus "from 3 to 5"
  Host.fault .badType ("Evaluator." ++ m.label ++ "() " ++ wording)

/-- What a method of an evaluator does. -/
def performOnEngine (run : Evaluation) (call : Value → Value → Value → Value → Effect Value) (m : Host.Method)
    (args : List Value) : Effect Value :=
  match m, args with
  | .evaluate, [script, context] => do
    let ctx ← contextFrom context
    run script ctx
  | .invoke, [f, list] => call f list .null .null
  | .invoke, [f, list, receiver] => call f list receiver .null
  | .invoke, [f, list, receiver, name] => call f list receiver name
  | m, args => refuseCount m args.length

mutual

/-- Runs a script on an evaluator. -/
def runScript : Nat → Ref → Value → Context → Effect Value
  | 0, _, _, _ => exhaust
  | fuel + 1, engine, script, ctx => do
    let engine ← evaluatorOf engine
    runForm
      (evalExpression (runScript fuel engine) (runArguments fuel engine 0) (apply fuel) engine · ctx)
      (runFrom fuel engine · 0 ctx .null) script

/-- Runs the expressions of a list from a position on; `last` is the value so far. -/
def runFrom : Nat → Ref → Value → Nat → Context → Value → Effect Value
  | 0, _, _, _, _, _ => exhaust
  | fuel + 1, engine, list, i, ctx, last => do
    match ← element? list i with
    | none => return last
    | some expression =>
      let v ← evalExpression (runScript fuel engine) (runArguments fuel engine 0) (apply fuel) engine expression ctx
      runFrom fuel engine list (i + 1) { ctx with last := v } v

/-- The values of the sources in a list from a position on. -/
def runArguments : Nat → Ref → Nat → Value → Context → Effect (List Value)
  | 0, _, _, _, _ => exhaust
  | fuel + 1, engine, i, list, ctx => do
    match ← element? list i with
    | none => return []
    | some source =>
      let v ← evalSource (runScript fuel engine) source ctx
      return v :: (← runArguments fuel engine (i + 1) list ctx)

/-- Applies a value to arguments. -/
def apply : Nat → Value → List Value → Option Value → Effect Value
  | 0, _, _, _ => exhaust
  | fuel + 1, f, args, this => do
    let s ← store
    let callback : Host.Callback := fun g args => apply fuel g args none
    match s.cell? f with
    | some (.closure parts _) => applyClosure (runScript fuel) parts args
    | some (.function g _) => g.perform callback fuel args this
    | some (.method self m) =>
      match s.engine? self with
      | some engine =>
        performOnEngine
          (fun script ctx => runForm
            (evalExpression (runScript fuel engine) (runArguments fuel engine 0) (apply fuel) engine · ctx)
            (runFrom fuel engine · 0 ctx .null) script)
          (call (apply fuel) engine) m args
      | none => m.perform callback fuel self args this
    | some (.object cls _) => cls.perform callback fuel f args this
    | _ => raise (.of (.notCallable (s.typeName f)))

end

/-- The context with some of its fields replaced. -/
def Context.derive (ctx : Context) : Attributes → Except Raised Context
  | [] => .ok ctx
  | (name, v) :: rest =>
    match name with
    | "this" => derive { ctx with this := v } rest
    | "variables" => derive { ctx with scope := v } rest
    | "last_value" => derive { ctx with last := v } rest
    | _ => .error (.of (.unexpectedKeyword "ExecutionContext.__init__" name))

/-- Whether two contexts count as equal. -/
def Store.sameContext (s : Store) (a b : Context) : Bool :=
  Store.equalCells s.equal s.alike (.context a []) (.context b [])

/-- A new context with the given object, over the given variables; null stands for a new dictionary. -/
def newContext (this vars parent : Value) : Effect Context := do
  let this ← if this = .null then extend (·.allocDict []) else pure this
  let bindings ← if vars = .null then extend (·.allocDict []) else pure vars
  let scope ← extend (·.allocScope parent bindings)
  return ⟨this, scope, .null⟩

/-- Runs a script on an object and variables, in place. -/
def execute (fuel : Nat) (engine : Ref) (script this vars : Value) : Effect Value := do
  let ctx ← newContext this vars .null
  runScript fuel engine script ctx

end ListScript
