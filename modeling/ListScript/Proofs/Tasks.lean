import Mathlib.Logic.Relation
import ListScript.Proofs.Fuel

/-!
# The tasks of a run

A run of a script goes through nested scripts, expressions, calls, applications of functions, and reads and writes at
paths: its tasks. A task that starts another one hands it fuel and the state at that time, which makes a `Moment` of the
run. `Logged` effects list the tasks that they start, and whether they catch their errors. Each task is written here as
such an effect, made of steps that start no task and of the tasks it starts (`Task.logged`), and is the one that runs
(`Task.run_logged`).

From this come the moments that a run comes to, `Moment.Reaches`, about which runs are stated: those that make no call,
or that follow no path to some object.
-/

namespace ListScript

open Effect

/-! ## Effects in sequence -/

namespace Effect

section Laws

variable {α β γ : Type}

theorem bind_assoc (act : Effect α) (f : α → Effect β) (g : β → Effect γ) :
    act >>= f >>= g = act >>= fun a => f a >>= g := by
  funext st
  change Effect.bind (Effect.bind act f) g st = Effect.bind act (fun a => Effect.bind (f a) g) st
  unfold Effect.bind
  cases act st <;> rfl

theorem pure_bind (a : α) (f : α → Effect β) : (pure a >>= f) = f a := rfl

theorem attempt_bind (act : Effect α) (f : α → Effect β) :
    attempt (act >>= f) = attempt act >>= fun
      | .ok a => attempt (f a)
      | .error e => pure (.error e) := by
  funext st
  change attempt (Effect.bind act f) st = Effect.bind (attempt act) _ st
  unfold Effect.bind Effect.attempt
  dsimp only
  cases act st <;> rfl

end Laws

section Values

variable {α β : Type} {act : Effect α} {f : α → Effect β} {st st' : State} {a : α} {b : β}

theorem bind_eq_value : (act >>= f) st = .value b st' ↔ ∃ a st₁, act st = .value a st₁ ∧ f a st₁ = .value b st' := by
  change Effect.bind act f st = _ ↔ _
  unfold Effect.bind
  cases act st with
  | value a st₁ =>
    constructor
    · exact fun h => ⟨a, st₁, rfl, h⟩
    · rintro ⟨_, _, ⟨⟩, h⟩
      exact h
  | raised | exhausted => simp

theorem bind_of_value {st₁ : State} (h : act st = .value a st₁) : (act >>= f) st = f a st₁ := by
  change Effect.bind act f st = _
  unfold Effect.bind
  rw [h]

theorem bind_of_raised {e : Raised} {st₁ : State} (h : act st = .raised e st₁) : (act >>= f) st = .raised e st₁ := by
  change Effect.bind act f st = _
  unfold Effect.bind
  rw [h]

theorem bind_of_exhausted (h : act st = .exhausted) : (act >>= f) st = .exhausted := by
  change Effect.bind act f st = _
  unfold Effect.bind
  rw [h]

theorem store_bind (f : Store → Effect β) (st : State) : (store >>= f) st = f st.store st := rfl

theorem pure_eq_value {a' : α} : (pure a : Effect α) st = .value a' st' ↔ a = a' ∧ st = st' := by
  change Outcome.value a st = _ ↔ _
  simp

theorem ask_eq_value {g : Store → Except Raised α} : ask g st = .value a st' ↔ g st.store = .ok a ∧ st = st' := by
  unfold ask
  cases g st.store <;> simp

theorem extend_eq_value {g : Store → α × Store} :
    extend g st = .value a st' ↔ (g st.store).1 = a ∧ { st with store := (g st.store).2 } = st' := by
  simp [extend]

theorem change_eq_value {g : Store → Except Raised Store} :
    change g st = .value () st' ↔ ∃ s, g st.store = .ok s ∧ { st with store := s } = st' := by
  unfold change
  cases g st.store <;> simp

theorem ofExcept_eq_value {x : Except Raised α} : ofExcept x st = .value a st' ↔ x = .ok a ∧ st = st' := by
  cases x with
  | ok b => simp [ofExcept, pure_eq_value]
  | error e => simp [ofExcept, raise]

end Values

end Effect

/-- The error in which an effect ends. -/
def Outcome.error? {α : Type} : Outcome α → Option Raised
  | .raised e _ => some e
  | .value .. | .exhausted => none

/-- The value that a run ends with. -/
def Outcome.value? {α : Type} : Outcome α → Option α
  | .value a _ => some a
  | _ => none

/-- The state in which an effect ends. -/
def Outcome.state? {α : Type} : Outcome α → Option State
  | .value _ st | .raised _ st => some st
  | .exhausted => none

/-! ## Calls and applications in parts -/

/-- The part of a call before the function is applied: the call becomes active. Gives the arguments to apply it to, and
the receiver if the function takes it. -/
def openCall (engine : Ref) (f args receiver name : Value) : Effect (List Value × Option Value) := do
  let label ← callLabel f name
  let s ← store
  let items ← ask (·.sizedElements args)
  trace (callEntry s label items.length)
  change (·.pushFrame engine label args)
  return (items, if (← store).acceptsReceiver f then some receiver else none)

/-- The part of a call after the function was applied: an error is recorded, and the call is no longer active. -/
def closeCall (engine : Ref) (outcome : Except Raised Value) : Effect Value := do
  let recorded ← recordOutcome engine outcome
  change (·.popFrame engine)
  ofExcept recorded

theorem call_eq (apply : Application) (engine : Ref) (f args receiver name : Value) :
    call apply engine f args receiver name =
      openCall engine f args receiver name >>= fun p => attempt (apply f p.1 p.2) >>= closeCall engine := by
  simp only [openCall, bind_assoc, pure_bind]
  rfl

/-- The part of the application of a script function in which its new scope gets the arguments. -/
def openParts (f : Closure) (args : List Value) (scope : Value) : Effect (Ref × Context) := do
  let names ← ask (·.traverse f.params)
  change (·.bindParameters scope names.items args)
  let _ ← ofExcept names.result
  let engine ← engineFor f.engine
  let ctx ← contextFrom f.context
  return (engine, { ctx with scope })

/-- The part of the application of a script function before its body runs, once the variables around it are known. -/
def openBelow (f : Closure) (args : List Value) (outer : Value) : Effect (Ref × Context) := do
  let scope ← extend (·.allocEmptyScope outer)
  openParts f args scope

/-- The part of the application of a script function before its body runs: the evaluator and the context for it. -/
def openClosure (f : Closure) (args : List Value) : Effect (Ref × Context) := do
  let outer ← ask (·.needAttribute f.context "variables")
  openBelow f args outer

theorem applyClosure_eq (run : Ref → Evaluation) (f : Closure) (args : List Value) :
    applyClosure run f args = openClosure f args >>= fun p => run p.1 f.body p.2 := by
  simp only [openClosure, openBelow, openParts, bind_assoc, pure_bind]
  rfl

theorem assignAt_eq (receiver v : Value) (ctx : Context) :
    (assignAt receiver v ctx >>= fun _ => pure v) = ask (·.pathOf receiver) >>= fun path => writeAt path v ctx := by
  funext st
  change Effect.bind (Effect.bind (ask _) _) _ st = Effect.bind (ask _) _ st
  unfold Effect.bind Effect.ask writeAt
  dsimp only
  cases st.store.pathOf receiver with
  | error e => rfl
  | ok path =>
    dsimp only
    cases st.store.assign path v ctx with
    | mk store error => cases error <;> rfl

/-! ## How runs begin -/

/-- A new context on an object, with a scope over variables and below a parent; null stands for a new dictionary. -/
def Store.contextFor (s : Store) (this vars parent : Value) : Context × Store :=
  let p := if this = .null then s.allocDict [] else (this, s)
  let q := if vars = .null then p.2.allocDict [] else (vars, p.2)
  let r := q.2.allocScope parent q.1
  (⟨p.1, r.1, .null⟩, r.2)

theorem newContext_eq (this vars parent : Value) (st : State) :
    newContext this vars parent st = .value (st.store.contextFor this vars parent).1
      { st with store := (st.store.contextFor this vars parent).2 } := by
  by_cases hthis : this = .null <;> by_cases hvars : vars = .null <;>
    simp only [newContext, Store.contextFor, hthis, hvars, if_true, if_false] <;> rfl

/-! ## Tasks and moments -/

/-- What the interpreter is asked to do in the course of a run. -/
inductive Task where
  /-- run a script -/
  | script (engine : Ref) (script : Value) (ctx : Context)
  /-- run one expression of a script -/
  | expression (engine : Ref) (expression : Value) (ctx : Context)
  /-- call what a call expression has found, with the values of its arguments -/
  | invoke (engine : Ref) (callee : Callee) (values : List Value)
  /-- call a function with a list of arguments -/
  | call (engine : Ref) (f args receiver name : Value)
  /-- apply a function, without its being called by a script -/
  | apply (f : Value) (args : List Value) (this : Option Value)
  | read (path : Path) (ctx : Context)
  | write (path : Path) (v : Value) (ctx : Context)

namespace Task

/-- Does a task. -/
def run (fuel : Nat) : Task → Effect Value
  | script engine v ctx => runScript fuel engine v ctx
  | expression engine v ctx => runExpression fuel engine v ctx
  | invoke engine callee values => do
    let list ← extend (·.allocList values)
    callBy (ListScript.apply fuel) engine callee.function list callee.receiver callee.name
  | call engine f args receiver name => ListScript.call (ListScript.apply fuel) engine f args receiver name
  | apply f args this => ListScript.apply fuel f args this
  | read path ctx => readAt path ctx
  | write path v ctx => writeAt path v ctx

/-- The context in which a task sees the variables. -/
def context? : Task → Option Context
  | script _ _ ctx | expression _ _ ctx | read _ ctx | write _ _ ctx => some ctx
  | invoke .. | call .. | apply .. => none

/-- The values that a task gets. -/
def values : Task → List Value
  | script engine v ctx | expression engine v ctx => [.ref engine, v, ctx.this, ctx.scope, ctx.last]
  | invoke engine callee values => .ref engine :: callee.function :: callee.receiver :: callee.name :: values
  | call engine f args receiver name => [.ref engine, f, args, receiver, name]
  | apply f args this => f :: this.toList ++ args
  | read _ ctx => [ctx.this, ctx.scope, ctx.last]
  | write _ v ctx => [v, ctx.this, ctx.scope, ctx.last]

/-- A measure that falls from a task to those it starts. -/
def weight (fuel : Nat) : Task → Nat
  | expression .. => 4 * fuel + 3
  | invoke .. => 4 * fuel + 2
  | call .. => 4 * fuel + 1
  | script .. | apply .. => 4 * fuel
  | read .. | write .. => 0

end Task

/-- A task of a run, with the fuel it gets and the state in which it starts. -/
structure Moment where
  fuel : Nat
  task : Task
  state : State

namespace Moment

/-- How the task ends. -/
def outcome (m : Moment) : Outcome Value := m.task.run m.fuel m.state

/-- The measure of the task. -/
def weight (m : Moment) : Nat := m.task.weight m.fuel

/-- The moment at which a run on an object and variables comes to its script. -/
def ofExecute (fuel : Nat) (engine : Ref) (script this vars : Value) (st : State) : Moment :=
  let p := st.store.contextFor this vars .null
  ⟨fuel, .script engine script p.1, { st with store := p.2 }⟩

theorem execute_eq (fuel : Nat) (engine : Ref) (script this vars : Value) (st : State) :
    execute fuel engine script this vars st = (ofExecute fuel engine script this vars st).outcome := by
  change Effect.bind (newContext this vars .null) _ st = _
  unfold Effect.bind
  rw [newContext_eq]
  rfl

end Moment

/-! ## Logged effects -/

/-- The start of a task, and whether its errors are caught. -/
structure Event where
  moment : Moment
  caught : Bool

/-- An effect with the tasks that it starts. An error of a task that is not caught is its own error. -/
structure Logged (α : Type) where
  run : Effect α
  log : State → List Event
  strict : ∀ {st ev e st'}, ev ∈ log st → ev.caught = false → ev.moment.outcome = .raised e st' →
    run st = .raised e st'

namespace Logged

variable {α β : Type}

/-- An effect that starts no task. -/
def lift (act : Effect α) : Logged α := ⟨act, fun _ => [], fun h => absurd h List.not_mem_nil⟩

/-- A task, with its error. -/
def start (fuel : Nat) (task : Task) : Logged Value where
  run := task.run fuel
  log st := [⟨⟨fuel, task, st⟩, false⟩]
  strict h _ hout := by
    cases List.mem_singleton.1 h
    exact hout

/-- A task whose error is caught. -/
def watch (fuel : Nat) (task : Task) : Logged (Except Raised Value) where
  run := attempt (task.run fuel)
  log st := [⟨⟨fuel, task, st⟩, true⟩]
  strict h hcaught _ := by
    cases List.mem_singleton.1 h
    cases hcaught

/-- The tasks of what comes after an effect. -/
def logAfter (f : α → Logged β) : Outcome α → List Event
  | .value a st => (f a).log st
  | .raised .. | .exhausted => []

/-- One effect after the other. -/
protected def bind (p : Logged α) (f : α → Logged β) : Logged β where
  run := p.run >>= fun a => (f a).run
  log st := p.log st ++ logAfter f (p.run st)
  strict := by
    intro st ev e st' hev hcaught hout
    change Effect.bind p.run _ st = _
    unfold Effect.bind
    rcases List.mem_append.1 hev with hev | hev
    · rw [p.strict hev hcaught hout]
    · cases hp : p.run st with
      | value a st₁ =>
        rw [hp] at hev
        exact (f a).strict hev hcaught hout
      | raised e₁ st₁ => rw [hp] at hev; cases hev
      | exhausted => rw [hp] at hev; cases hev

instance : Monad Logged where
  pure a := lift (pure a)
  bind := Logged.bind

@[simp] theorem run_pure (a : α) : (pure a : Logged α).run = pure a := rfl

@[simp] theorem run_lift (act : Effect α) : (lift act).run = act := rfl

@[simp] theorem run_start (fuel : Nat) (task : Task) : (start fuel task).run = task.run fuel := rfl

@[simp] theorem run_watch (fuel : Nat) (task : Task) : (watch fuel task).run = attempt (task.run fuel) := rfl

@[simp] theorem run_bind (p : Logged α) (f : α → Logged β) : (p >>= f).run = p.run >>= fun a => (f a).run := rfl

@[simp] theorem run_ite {c : Prop} [Decidable c] (p q : Logged α) :
    (if c then p else q).run = if c then p.run else q.run :=
  apply_ite Logged.run c p q

/-! ## Scripts -/

section Scripts

variable (fuel : Nat) (engine : Ref) (ctx : Context)

/-- The value of a value source. -/
def source (v : Value) : Logged Value := do
  let s ← lift store
  if s.isLiteral v then pure (s.unwrap v) else start fuel (.script engine v ctx)

/-- The path text that a target stands for. -/
def target (v : Value) : Logged Value := if v.isText then pure v else start fuel (.script engine v ctx)

/-- Reads the value at the path that a target gives. -/
def get (expression v : Value) : Logged Value := do
  let text ← target fuel engine ctx v
  if text.isText then
    let path ← lift (ask (·.pathOf text))
    start 0 (.read path ctx)
  else
    lift (ask fun s => do
      let shown ← s.print v
      .error (.about expression (.notAPathText (s.typeName text) shown)))

/-- Finds what a target asks to call. -/
def callee (expression v : Value) : Logged Callee := do
  let resolved ← target fuel engine ctx v
  if resolved.isText then
    let path ← lift (ask (·.pathOf resolved))
    let function ← start 0 (.read path ctx)
    match path.parent with
    | none => return ⟨function, ctx.this, resolved⟩
    | some parent =>
      let owner ← start 0 (.read parent ctx)
      return ⟨function, owner, resolved⟩
  else
    let s ← lift store
    if s.isCallable resolved then
      let shown ← lift (ask (·.print v))
      return ⟨resolved, ctx.this, .text shown⟩
    else
      lift (ask fun s => do
        let shown ← s.print v
        let result ← s.print resolved
        .error (.about expression (.badCallTarget shown result)))

/-- The values of the sources in a list from a position on. -/
def arguments : Nat → Nat → Value → Logged (List Value)
  | 0, _, _ => lift exhaust
  | fuel + 1, i, list => do
    match ← lift (element? list i) with
    | none => return []
    | some v =>
      let w ← source fuel engine ctx v
      let ws ← arguments fuel (i + 1) list
      return w :: ws

/-- The values of the arguments that a call gives. -/
def givenArguments : Option Value → Logged (List Value)
  | some list => arguments engine ctx fuel 0 list
  | none => pure []

/-- Runs one expression. -/
def expression (v : Value) : Logged Value := do
  let command ← lift (ask (·.command v))
  let s ← lift store
  lift (trace (evalEntry s v command))
  match command with
  | .call target args =>
    let found ← callee fuel engine ctx v target
    let values ← givenArguments fuel engine ctx args
    let s ← lift store
    if s.isCallable found.function then start fuel (.invoke engine found values)
    else
      lift (ask fun s => do
        let name ← s.plainText found.name
        let shown ← s.print found.function
        .error (.about v (.notAFunction name shown)))
  | .get target => get fuel engine ctx v target
  | .lambda params body => lift (extend (·.allocClosure params body ctx engine))
  | .set receiver w =>
    let w ← source fuel engine ctx w
    let path ← lift (ask (·.pathOf receiver))
    start 0 (.write path w ctx)
  | .value payload =>
    let s ← lift store
    return s.unwrap payload

/-- What a command of an expression does. -/
def command (v : Value) : Command → Logged Value
  | .call target args => do
    let found ← callee fuel engine ctx v target
    let values ← givenArguments fuel engine ctx args
    let s ← lift store
    if s.isCallable found.function then start fuel (.invoke engine found values)
    else
      lift (ask fun s => do
        let name ← s.plainText found.name
        let shown ← s.print found.function
        .error (.about v (.notAFunction name shown)))
  | .get target => get fuel engine ctx v target
  | .lambda params body => lift (extend (·.allocClosure params body ctx engine))
  | .set receiver w => do
    let w ← source fuel engine ctx w
    let path ← lift (ask (·.pathOf receiver))
    start 0 (.write path w ctx)
  | .value payload => do
    let s ← lift store
    return s.unwrap payload

/-- Runs the expressions of a list from a position on. -/
def sequel : Nat → Value → Nat → Context → Value → Logged Value
  | 0, _, _, _, _ => lift exhaust
  | fuel + 1, list, i, ctx, last => do
    match ← lift (element? list i) with
    | none => return last
    | some v =>
      let w ← start fuel (.expression engine v ctx)
      sequel fuel list (i + 1) { ctx with last := w } w

/-- Runs a script as the one expression or as the list of expressions that it is. -/
def form (v : Value) : Logged Value := do
  match ← lift (ask (·.script v)) with
  | .single w => start fuel (.expression engine w ctx)
  | .sequence list => sequel engine fuel list 0 ctx .null

/-- Runs a script. -/
def script : Nat → Value → Logged Value
  | 0, _ => lift exhaust
  | fuel + 1, v => do
    let evaluator ← lift (evaluatorOf engine)
    form fuel evaluator ctx v

/-- Calls what a call expression has found. -/
def invoke (found : Callee) (values : List Value) : Logged Value := do
  let list ← lift (extend (·.allocList values))
  let caller ← lift (callerOf engine)
  start fuel (.call caller found.function list found.receiver found.name)

/-- Calls a function, with an error recorded on its way out. -/
def call (f args receiver name : Value) : Logged Value := do
  let p ← lift (openCall engine f args receiver name)
  let outcome ← watch fuel (.apply f p.1 p.2)
  lift (closeCall engine outcome)

end Scripts

/-! ## Functions -/

section Functions

variable (fuel : Nat)

/-- Applies a function made by a script. -/
def closure (f : Closure) (args : List Value) : Logged Value := do
  let p ← lift (openClosure f args)
  start fuel (.script p.1 f.body p.2)

/-- Applies a function to the elements of a list from a position on. -/
def mapFrom (f list : Value) : Nat → Nat → List Value → Logged (List Value)
  | 0, _, _ => lift exhaust
  | n + 1, i, done => do
    match ← lift (element? list i) with
    | none => return done.reverse
    | some x =>
      let y ← start fuel (.apply f [x] none)
      mapFrom f list n (i + 1) (y :: done)

/-- Folds the elements of a list from a position on. -/
def foldFrom (f list : Value) : Nat → Nat → Value → Logged Value
  | 0, _, _ => lift exhaust
  | n + 1, i, acc => do
    match ← lift (element? list i) with
    | none => return acc
    | some x =>
      let acc ← start fuel (.apply f [acc, x] none)
      foldFrom f list n (i + 1) acc

/-- Applies a function to `n` numbers from `i` on. -/
def timesFrom (f : Value) : Nat → Int → List Value → Logged (List Value)
  | 0, _, done => return done.reverse
  | n + 1, i, done => do
    let y ← start fuel (.apply f [.int i] none)
    timesFrom f n (i + 1) (y :: done)

/-- Applies a value that has to be a function, and catches the error. -/
def guardedCall (name : String) (f : Value) (args : List Value) : Logged (Except Raised Value) := do
  match ← lift (attempt (Host.needCallable name f)) with
  | .ok _ => watch fuel (.apply f args none)
  | .error e => return .error e

/-- A task whose error is caught or not. -/
def tried (caught : Bool) (task : Task) : Logged (Except Raised Value) :=
  if caught then watch fuel task else do return .ok (← start fuel task)

/-- A step of a function that is given by its code. -/
def act (got : List Value) (caught : Bool) : Host.Act Host.Code → Logged (Except Raised (List Value))
  | .read v segments => do
    let ctx ← lift (Host.ownContext (v.value got))
    let found ← tried 0 caught (.read (Host.pathBelow segments) ctx)
    return found.map fun w => [w]
  | .write v segments w => do
    let ctx ← lift (Host.ownContext (v.value got))
    let found ← tried 0 caught (.write (Host.pathBelow segments) (w.value got) ctx)
    return found.map fun w => [w]
  | .call f args => do
    let found ← tried fuel caught (.apply (f.value got) (args.map (·.value got)) none)
    return found.map fun w => [w]
  | a => lift (Host.tried caught (a.perform (fun _ _ => exhaust) got))

/-- Goes on with what a function has got and learnt so far. -/
def playFrom (code : Host.Code) : Nat → Host.Memory → Logged Value
  | 0, _ => lift exhaust
  | n + 1, m =>
    match code.next m.seen with
    | .finish v => return v.value m.got
    | .fail kind text => lift (Host.failAs kind text)
    | .rethrow i => lift (m.rethrow i)
    | .act a caught => do
      match ← act fuel m.got caught a with
      | .ok values =>
        let m ← lift (m.add values)
        playFrom code n m
      | .error e => playFrom code n (m.addError e)

/-- What a function does that is given by its code. -/
def play (code : Host.Code) (own args : List Value) (this : Option Value) : Logged Value := do
  let m ← lift (Host.Memory.ofCall own args this)
  playFrom fuel code fuel m

/-- What a function of the host does; one that does not call back is given a callback that does nothing. -/
def function (f : Host.Function) (args : List Value) (this : Option Value) : Logged Value :=
  let first := Host.arg args 0
  let second := Host.arg args 1
  match f with
  | .choose => do
    let pick := if first = .bool true then second else Host.arg args 2
    let s ← lift store
    if s.isCallable pick then start fuel (.apply pick [] none) else return pick
  | .apply => do
    lift (Host.needCallable "apply" first)
    start fuel (.apply first (args.drop 1) none)
  | .mapList => do
    lift (Host.needCallable "map" first)
    lift (Host.needList "map" second)
    let ys ← mapFrom fuel first second fuel 0 []
    lift (Host.newList ys)
  | .fold => do
    lift (Host.needCallable "fold" first)
    lift (Host.needList "fold" (Host.arg args 2))
    foldFrom fuel first (Host.arg args 2) fuel 0 second
  | .times => do
    let n ← lift (Host.integerArg "repeat" first)
    lift (Host.needCallable "repeat" second)
    let ys ← timesFrom fuel second n.toNat 0 []
    lift (Host.newList ys)
  | .guarded => do
    match ← guardedCall fuel "catch" first (args.drop 1) with
    | .ok v => return v
    | .error e => lift (Host.report e)
  | .wrap => do
    match ← guardedCall fuel "wrap" first (args.drop 1) with
    | .ok v => return v
    | .error e => lift (Host.fault .runtime ("wrapped: " ++ e.message))
  | .other code => play fuel code [] args this
  | f => lift (f.perform (fun _ _ => exhaust) fuel args this)

/-- Applies functions one after the other to the same argument. -/
def notifyAll (self : Value) : List Value → Logged Unit
  | [] => pure ()
  | f :: rest => do
    let _ ← start fuel (.apply f [self] none)
    notifyAll self rest

/-- What a method of a future does. -/
def onFuture (self : Value) (m : Host.Method) (args : List Value) : Logged Value := do
  let state ← lift (Host.futureState self)
  match m, state.1 with
  | .addDoneCallback, some _ =>
    let _ ← start fuel (.apply (Host.arg args 0) [self] none)
    return .null
  | .addDoneCallback, none =>
    lift (Host.setFuture self none (state.2 ++ [Host.arg args 0]))
    return .null
  | .setResult, some _ => lift (Host.fault .runtime "already resolved")
  | .setResult, none =>
    lift (Host.setFuture self (some (Host.arg args 0)) state.2)
    notifyAll fuel self state.2
    return .null
  | .result, some v => return v
  | .result, none => lift (Host.fault .runtime "not resolved")
  | _, _ => return .null

/-- What a method of an evaluator does. -/
def onEngine (engine : Ref) (m : Host.Method) (args : List Value) : Logged Value :=
  match m, args with
  | .evaluate, [script, context] => do
    let ctx ← lift (contextFrom context)
    form fuel engine ctx script
  | .invoke, [f, list] => start fuel (.call engine f list .null .null)
  | .invoke, [f, list, receiver] => start fuel (.call engine f list receiver .null)
  | .invoke, [f, list, receiver, name] => start fuel (.call engine f list receiver name)
  | m, args => lift (refuseCount m args.length)

/-- What a method of an object that is no future does. -/
def onObject (self : Value) (cls : Host.Class) (m : Host.Method) (args : List Value) (this : Option Value) :
    Logged Value :=
  match cls.methodNamed? m.label with
  | some code => play fuel code [self] args this
  | none => lift (Host.performOnHero self m args this)

/-- What a method bound to any other value does. -/
def method (self : Value) (m : Host.Method) (args : List Value) (this : Option Value) : Logged Value := do
  let s ← lift store
  match self, s.cell? self with
  | .str text _, _ => lift (Host.performOnText self text m args)
  | _, some (.list ..) => lift (Host.performOnList self m args)
  | _, some (.object (.future ..) _) => onFuture fuel self m args
  | _, some (.object cls _) => onObject fuel self cls m args this
  | _, _ => lift (Host.performOnHero self m args this)

/-- What a callable object does. -/
def object (self : Value) (cls : Host.Class) (args : List Value) (this : Option Value) : Logged Value :=
  match cls with
  | .other _ (some code) _ => play fuel code [self] args this
  | cls => lift (cls.perform (fun _ _ => exhaust) fuel self args this)

end Functions

/-- Applies a value to arguments. -/
def apply (f : Value) (args : List Value) (this : Option Value) : Nat → Logged Value
  | 0 => lift exhaust
  | fuel + 1 => do
    let s ← lift store
    match s.cell? f with
    | some (.closure parts _) => closure fuel parts args
    | some (.function g _) => function fuel g args this
    | some (.method self m) =>
      match s.engine? self with
      | some engine => onEngine fuel engine m args
      | none => method fuel self m args this
    | some (.object cls _) => object fuel f cls args this
    | _ => lift (raise (.of (.notCallable (s.typeName f))))

end Logged

namespace Task

/-- A task as an effect with the tasks it starts. -/
def logged (fuel : Nat) : Task → Logged Value
  | script engine v ctx => Logged.script engine ctx fuel v
  | expression engine v ctx => Logged.expression fuel engine ctx v
  | invoke engine callee values => Logged.invoke fuel engine callee values
  | call engine f args receiver name => Logged.call fuel engine f args receiver name
  | apply f args this => Logged.apply f args this fuel
  | read path ctx => Logged.lift (readAt path ctx)
  | write path v ctx => Logged.lift (writeAt path v ctx)

end Task

/-! ## The two forms of a task agree -/

namespace Logged

section Agreement

variable (fuel : Nat) (engine : Ref) (ctx : Context)

theorem run_source (v : Value) : (source fuel engine ctx v).run = evalSource (runScript fuel engine) v ctx := by
  simp only [source, run_bind, run_lift, run_ite, run_start]
  rfl

theorem run_target (v : Value) : (target fuel engine ctx v).run = evalTarget (runScript fuel engine) v ctx := by
  simp only [target, run_ite, run_start]
  rfl

theorem run_get (expression v : Value) :
    (get fuel engine ctx expression v).run = evalGet (runScript fuel engine) expression v ctx := by
  simp only [get, run_bind, run_target, run_ite, run_lift, run_start]
  rfl

theorem run_callee (expression v : Value) :
    (callee fuel engine ctx expression v).run = evalCallee (runScript fuel engine) expression v ctx := by
  simp only [callee, run_bind, run_target, run_ite, run_lift, run_start]
  unfold evalCallee
  congr 1
  funext resolved
  split
  · congr 1
    funext path
    congr 1
    funext function
    cases path.parent <;> rfl
  · rfl

theorem run_arguments (i : Nat) (list : Value) :
    (arguments engine ctx fuel i list).run = runArguments fuel engine i list ctx := by
  induction fuel generalizing i with
  | zero => rw [runArguments]; rfl
  | succ fuel ih =>
    rw [runArguments]
    simp only [arguments, run_bind, run_lift]
    congr 1
    funext found
    cases found with
    | none => rfl
    | some v => simp only [run_bind, run_source, ih, run_pure]

theorem run_givenArguments (args : Option Value) :
    (givenArguments fuel engine ctx args).run = evalArguments (runArguments fuel engine 0) args ctx := by
  cases args with
  | none => rfl
  | some list => exact run_arguments fuel engine ctx 0 list

theorem run_expression (v : Value) :
    (expression fuel engine ctx v).run = runExpression fuel engine v ctx := by
  unfold runExpression evalExpression
  simp only [expression, run_bind, run_lift]
  congr 1
  funext command
  congr 1
  funext s
  congr 1
  funext _
  cases command with
  | call target args =>
    simp only [run_bind, run_callee, run_givenArguments, run_lift, run_ite, run_start]
    rfl
  | get target => exact run_get fuel engine ctx v target
  | lambda params body => rfl
  | set receiver w =>
    simp only [run_bind, run_source, run_lift, run_start, assignAt_eq]
    rfl
  | value payload => rfl

theorem run_sequel (list : Value) (i : Nat) (last : Value) :
    (sequel engine fuel list i ctx last).run = runFrom fuel engine list i ctx last := by
  induction fuel generalizing i ctx last with
  | zero => rw [runFrom]; rfl
  | succ fuel ih =>
    rw [runFrom]
    simp only [sequel, run_bind, run_lift]
    congr 1
    funext found
    cases found with
    | none => rfl
    | some v =>
      simp only [run_bind, run_start, ih]
      rfl

theorem run_form (v : Value) :
    (form fuel engine ctx v).run =
      runForm (runExpression fuel engine · ctx) (runFrom fuel engine · 0 ctx .null) v := by
  simp only [form, runForm, run_bind, run_lift]
  congr 1
  funext form
  cases form with
  | single w => rfl
  | sequence list => exact run_sequel fuel engine ctx list 0 .null

theorem run_script (v : Value) : (script engine ctx fuel v).run = runScript fuel engine v ctx := by
  cases fuel with
  | zero => rw [runScript]; rfl
  | succ fuel =>
    rw [runScript]
    simp only [script, run_bind, run_lift]
    congr 1
    funext evaluator
    exact run_form fuel evaluator ctx v

end Agreement

section Agreement

variable (fuel : Nat)

theorem run_mapFrom (f list : Value) (n i : Nat) (done : List Value) :
    (mapFrom fuel f list n i done).run =
      Host.mapFrom (fun g args => ListScript.apply fuel g args none) f list n i done := by
  induction n generalizing i done with
  | zero => rfl
  | succ n ih =>
    simp only [mapFrom, run_bind, run_lift, Host.mapFrom]
    congr 1
    funext found
    cases found with
    | none => rfl
    | some x =>
      simp only [run_bind, run_start, ih]
      rfl

theorem run_foldFrom (f list : Value) (n i : Nat) (acc : Value) :
    (foldFrom fuel f list n i acc).run =
      Host.foldFrom (fun g args => ListScript.apply fuel g args none) f list n i acc := by
  induction n generalizing i acc with
  | zero => rfl
  | succ n ih =>
    simp only [foldFrom, run_bind, run_lift, Host.foldFrom]
    congr 1
    funext found
    cases found with
    | none => rfl
    | some x =>
      simp only [run_bind, run_start, ih]
      rfl

theorem run_timesFrom (f : Value) (n : Nat) (i : Int) (done : List Value) :
    (timesFrom fuel f n i done).run =
      Host.timesFrom (fun g args => ListScript.apply fuel g args none) f n i done := by
  induction n generalizing i done with
  | zero => rfl
  | succ n ih =>
    simp only [timesFrom, run_bind, run_start, Host.timesFrom, ih]
    rfl

theorem run_notifyAll (self : Value) (waiting : List Value) :
    (notifyAll fuel self waiting).run =
      Host.notifyAll (fun g args => ListScript.apply fuel g args none) self waiting := by
  induction waiting with
  | nil => rfl
  | cons f rest ih =>
    simp only [notifyAll, run_bind, run_start, Host.notifyAll, ih]
    rfl

theorem run_guardedCall (name : String) (f : Value) (args : List Value) :
    (guardedCall fuel name f args).run =
      attempt (Host.callChecked (fun g args => ListScript.apply fuel g args none) name f args) := by
  simp only [guardedCall, run_bind, run_lift, Host.callChecked, attempt_bind]
  congr 1
  funext checked
  cases checked <;> rfl

theorem tried_map (caught : Bool) (act : Effect Value) :
    Host.tried caught (do return [← act]) = do return (← Host.tried caught act).map fun w => [w] := by
  funext st
  cases caught with
  | false =>
    change Effect.bind (Effect.bind act _) _ st = Effect.bind (Effect.bind act _) _ st
    unfold Effect.bind
    cases act st <;> rfl
  | true =>
    change attempt (Effect.bind act _) st = Effect.bind (attempt act) _ st
    unfold Effect.bind attempt
    dsimp only
    cases act st <;> rfl

theorem tried_ownContext (caught : Bool) (v : Value) (f : Context → Effect (List Value)) :
    Host.tried caught (Host.ownContext v >>= f) = Host.ownContext v >>= fun ctx => Host.tried caught (f ctx) := by
  cases caught <;> rfl

theorem run_tried (caught : Bool) (task : Task) :
    (tried fuel caught task).run = Host.tried caught (task.run fuel) := by
  simp only [tried, run_ite, run_watch]
  rfl

theorem run_act (got : List Value) (caught : Bool) (a : Host.Act Host.Code) :
    (act fuel got caught a).run =
      Host.tried caught (a.perform (fun g args => ListScript.apply fuel g args none) got) := by
  cases a with
  | read v segments =>
    simp only [act, run_bind, run_lift, run_tried, Host.Act.perform, tried_ownContext, tried_map]
    rfl
  | write v segments w =>
    simp only [act, run_bind, run_lift, run_tried, Host.Act.perform, tried_ownContext, tried_map]
    rfl
  | call f args =>
    simp only [act, run_bind, run_tried, Host.Act.perform, tried_map]
    rfl
  | _ => rfl

theorem run_playFrom (code : Host.Code) (n : Nat) (m : Host.Memory) :
    (playFrom fuel code n m).run =
      code.playFrom (fun g args => ListScript.apply fuel g args none) n m := by
  induction n generalizing m with
  | zero => rfl
  | succ n ih =>
    unfold playFrom Host.Code.playFrom
    cases code.next m.seen with
    | act a caught =>
      simp only [run_bind, run_act]
      congr 1
      funext outcome
      cases outcome with
      | ok values => simp only [run_bind, run_lift, ih]
      | error e => exact ih _
    | _ => rfl

theorem run_play (code : Host.Code) (own args : List Value) (this : Option Value) :
    (play fuel code own args this).run =
      code.play (fun g args => ListScript.apply fuel g args none) fuel own args this := by
  simp only [play, run_bind, run_lift, run_playFrom]
  rfl

theorem run_function (f : Host.Function) (args : List Value) (this : Option Value) :
    (function fuel f args this).run =
      f.perform (fun g args => ListScript.apply fuel g args none) fuel args this := by
  cases f with
  | choose =>
    simp only [function, run_bind, run_lift, run_ite, run_start]
    rfl
  | mapList =>
    simp only [function, run_bind, run_lift, run_mapFrom]
    rfl
  | fold =>
    simp only [function, run_bind, run_lift, run_foldFrom]
    rfl
  | times =>
    simp only [function, run_bind, run_lift, run_timesFrom]
    rfl
  | guarded | wrap =>
    simp only [function, run_bind, run_guardedCall]
    unfold Host.Function.perform
    dsimp only
    congr 1
    funext result
    cases result <;> rfl
  | other code => exact run_play fuel code [] args this
  | _ => rfl

theorem run_onFuture (self : Value) (m : Host.Method) (args : List Value) :
    (onFuture fuel self m args).run =
      Host.performOnFuture (fun g args => ListScript.apply fuel g args none) self m args := by
  simp only [onFuture, run_bind, run_lift, Host.performOnFuture]
  congr 1
  funext state
  obtain ⟨result, waiting⟩ := state
  cases m with
  | setResult =>
    cases result with
    | none =>
      simp only [run_bind, run_lift, run_notifyAll]
      rfl
    | some v => rfl
  | _ => cases result <;> rfl

theorem run_onObject (self : Value) (cls : Host.Class) (m : Host.Method) (args : List Value) (this : Option Value) :
    (onObject fuel self cls m args this).run =
      Host.performOnObject (fun g args => ListScript.apply fuel g args none) fuel self cls m args this := by
  unfold onObject Host.performOnObject
  cases cls.methodNamed? m.label with
  | none => rfl
  | some code => exact run_play fuel code [self] args this

theorem run_method (self : Value) (m : Host.Method) (args : List Value) (this : Option Value) :
    (method fuel self m args this).run =
      m.perform (fun g args => ListScript.apply fuel g args none) fuel self args this := by
  simp only [method, run_bind, run_lift, Host.Method.perform]
  congr 1
  funext s
  generalize s.cell? self = found
  cases self with
  | str => rfl
  | _ =>
    rcases found with _ | ⟨⟨⟩⟩
    case some.object cls attrs =>
      cases cls with
      | future => exact run_onFuture fuel _ m args
      | _ => exact run_onObject fuel _ _ m args this
    all_goals rfl

theorem run_object (self : Value) (cls : Host.Class) (args : List Value) (this : Option Value) :
    (object fuel self cls args this).run =
      cls.perform (fun g args => ListScript.apply fuel g args none) fuel self args this := by
  cases cls with
  | other label call methods =>
    cases call with
    | none => rfl
    | some code => exact run_play fuel code [self] args this
  | _ => cases this <;> rfl

theorem run_onEngine (engine : Ref) (m : Host.Method) (args : List Value) :
    (onEngine fuel engine m args).run =
      performOnEngine
        (fun script ctx => runForm (runExpression fuel engine · ctx) (runFrom fuel engine · 0 ctx .null) script)
        (ListScript.call (ListScript.apply fuel) engine) m args := by
  unfold onEngine
  split
  · simp only [run_bind, run_lift, run_form]
    rfl
  · rfl
  · rfl
  · rfl
  · rename_i heval htwo hthree hfour
    rw [performOnEngine.eq_5 _ _ _ _ heval htwo hthree hfour]
    rfl

theorem run_apply (f : Value) (args : List Value) (this : Option Value) :
    (apply f args this fuel).run = ListScript.apply fuel f args this := by
  cases fuel with
  | zero => rw [ListScript.apply]; rfl
  | succ fuel =>
    rw [ListScript.apply]
    simp only [apply, run_bind, run_lift]
    congr 1
    funext s
    rcases s.cell? f with _ | ⟨⟨⟩⟩
    case some.closure parts attrs => exact (applyClosure_eq _ parts args).symm
    case some.function g attrs => exact run_function fuel g args this
    case some.method self m =>
      dsimp only
      cases s.engine? self with
      | some engine => exact run_onEngine fuel engine m args
      | none => exact run_method fuel self m args this
    case some.object cls attrs => exact run_object fuel f cls args this
    all_goals rfl

end Agreement

end Logged

/-- The effect with the tasks it starts is the task as it runs. -/
theorem Task.run_logged (fuel : Nat) (t : Task) : (t.logged fuel).run = t.run fuel := by
  cases t with
  | script engine script ctx => exact Logged.run_script fuel engine ctx script
  | expression engine expression ctx => exact Logged.run_expression fuel engine ctx expression
  | invoke engine callee values => rfl
  | call engine f args receiver name => exact (call_eq _ engine f args receiver name).symm
  | apply f args this => exact Logged.run_apply fuel f args this
  | read path ctx => rfl
  | write path v ctx => rfl

/-! ## The moments of a run -/

namespace Moment

/-- The tasks that a task starts. -/
def events (m : Moment) : List Event := (m.task.logged m.fuel).log m.state

/-- One task starts another. -/
def Starts (m m' : Moment) : Prop := ∃ ev ∈ m.events, ev.moment = m'

/-- A task that a task comes to, itself or any that is started on the way. -/
def Reaches : Moment → Moment → Prop := Relation.ReflTransGen Starts

/-- Whether all that a run comes to passes a test, if it is nested less deep than a bound. -/
def always (test : Moment → Bool) : Nat → Moment → Bool
  | 0, _ => false
  | depth + 1, m => test m && m.events.all fun ev => always test depth ev.moment

theorem of_always {test : Moment → Bool} {depth : Nat} {m m' : Moment} (h : always test depth m = true)
    (hm' : m.Reaches m') : test m' = true := by
  induction depth generalizing m with
  | zero => cases h
  | succ depth ih =>
    rw [always, Bool.and_eq_true, List.all_eq_true] at h
    rcases Relation.ReflTransGen.cases_head hm' with rfl | ⟨m₁, ⟨ev, hev, rfl⟩, hreach⟩
    · exact h.1
    · exact ih (h.2 ev hev) hreach

theorem run_logged (m : Moment) : (m.task.logged m.fuel).run m.state = m.outcome := by
  rw [Task.run_logged]
  rfl

end Moment

end ListScript
