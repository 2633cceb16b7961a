import ListScript.Access.Write

/-!
# The functions of the host

What the functions of `Host.Function` do. All take any number of arguments, a missing one being null. Functions that
call back are given the way to call a value, so that a callback runs in the same evaluator and state; loops over a
list read the list anew at each step and so see what callbacks do to it.

A function that is given by its code takes one step after the other (`Code.play`). It reads and writes at paths as
scripts do, in a context of its own.
-/

namespace ListScript.Host

open Effect

/-- The way to call a value with some arguments. -/
abbrev Callback := Value → List Value → Effect Value

/-- An error that the host words itself. -/
def fault {α : Type} (kind : Kind) (text : String) : Effect α := raise (.of (.host kind text))

/-- The argument at a position. -/
def arg (args : List Value) (i : Nat) : Value := (args[i]?).getD .null

/-- A new list. -/
def newList (items : List Value) : Effect Value := extend (·.allocList items)

/-- A whole number, given to the function of a name. -/
def integerArg (name : String) : Value → Effect Int
  | .int n => pure n
  | _ => fault .badType (name ++ ": not an integer")

/-- Refuses what cannot be called. -/
def needCallable (name : String) (f : Value) : Effect Unit := do
  if (← store).isCallable f then pure () else fault .badType (name ++ ": not callable")

/-- Refuses what is not a list. -/
def needList (name : String) (v : Value) : Effect Unit := do
  if (← store).isList v then pure () else fault .badType (name ++ ": not a list")

/-- The sum of whole numbers. -/
def sum (name : String) : List Value → Effect Int
  | [] => pure 0
  | v :: rest => do
    let n ← integerArg name v
    let m ← sum name rest
    return n + m

/-- The texts one after the other. -/
def joined : List Value → Effect String
  | [] => pure ""
  | .str t _ :: rest => do return t ++ (← joined rest)
  | _ :: _ => fault .badType "concat: not a string"

/-- Alternating keys and values as entries; the last value may be missing. -/
def alternating : List Value → Entries
  | [] => []
  | [k] => [(k, .null)]
  | k :: v :: rest => (k, v) :: alternating rest

/-- Applies a function to the elements of a list from a position on. -/
def mapFrom (call : Callback) (f list : Value) : Nat → Nat → List Value → Effect (List Value)
  | 0, _, _ => exhaust
  | fuel + 1, i, done => do
    match ← element? list i with
    | none => return done.reverse
    | some x =>
      let y ← call f [x]
      mapFrom call f list fuel (i + 1) (y :: done)

/-- Folds the elements of a list from a position on. -/
def foldFrom (call : Callback) (f list : Value) : Nat → Nat → Value → Effect Value
  | 0, _, _ => exhaust
  | fuel + 1, i, acc => do
    match ← element? list i with
    | none => return acc
    | some x =>
      let acc ← call f [acc, x]
      foldFrom call f list fuel (i + 1) acc

/-- Applies a function to `n` numbers from `i` on. -/
def timesFrom (call : Callback) (f : Value) : Nat → Int → List Value → Effect (List Value)
  | 0, _, done => return done.reverse
  | n + 1, i, done => do
    let y ← call f [.int i]
    timesFrom call f n (i + 1) (y :: done)

/-- Appends values to a list, for the function of a name. -/
def pushAll (name : String) (list : Value) (items : List Value) : Effect Unit := do
  needList name list
  change fun s =>
    match list, s.cell? list with
    | .ref r, some (.list old flavor) => .ok (s.set r (.list (old ++ items) flavor))
    | _, _ => .ok s

/-- The class of errors that a value names, as a key of the table of classes. A value that does not count as true names
the most common one. -/
def kindOf (v : Value) : Effect Kind := do
  if !(← store).isTrue v then return .badValue
  ask (·.checkHashable v)
  match v.text?.bind fun name => Kind.raisable.find? fun k => k.label == name with
  | some k => return k
  | none => raise (.of (.missingEntry (← ask (·.inspect v))))

/-- The text of an error that a value asks for. -/
def errorText (v : Value) : Effect String :=
  match v with
  | .null => pure ""
  | .str t _ => pure t
  | v => ask (·.print v)

/-- The record of calls that errors of a class bring with them. -/
def ownStack : Kind → Effect (Option (List Frame))
  | .preset => do
    let inner ← newList [.int 1, .int 2]
    let args ← newList [.text "x", inner]
    return some [⟨.text "", .null⟩, ⟨.text "pre", args⟩]
  | .bare => return some []
  | _ => return none

/-- Raises an error of a class. -/
def failAs (kind : Kind) (text : String) : Effect Value := do
  let stack ← ownStack kind
  raise ⟨.host kind text, .nothing, stack⟩

/-- Raises an error of the class and with the text that are asked for. -/
def failWith (kind text : Value) : Effect Value := do
  let kind ← kindOf kind
  let text ← errorText text
  failAs kind text

/-- An error as a dictionary. -/
def report (e : Raised) : Effect Value := do
  let stack ← match e.stack with
    | none => pure .null
    | some frames => newList (frames.map Frame.name)
  extend (·.allocDict [(.text "kind", .text e.kind.label), (.text "message", .text e.message), (.text "stack", stack)])

/-- The receiver of a call to a function that needs one. -/
def needReceiver (name : String) : Option Value → Effect Value
  | some v => pure v
  | none => raise (.of (.missingReceiver name))

/-- Whether a value is the tuple without elements. -/
def isEmptyTuple (s : Store) (v : Value) : Bool :=
  match s.cell? v with
  | some (.tuple []) => true
  | _ => false

/-- Whether two values are one object; immediate values other than roots never are, and there is one empty tuple. -/
def identical (s : Store) : Value → Value → Bool
  | .ref r, .ref r' => r == r' || (isEmptyTuple s (.ref r) && isEmptyTuple s (.ref r'))
  | .root r, .root r' => r == r'
  | _, _ => false

/-- What the function that can do without a receiver takes in its place. -/
def receiverDefault : Value := .text "default"

/-- Calls a value for the function of a name, which refuses what cannot be called. -/
def callChecked (call : Callback) (name : String) (f : Value) (args : List Value) : Effect Value := do
  needCallable name f
  call f args

/-! ## Functions that are given by their code -/

/-- What a function has got since it was called, and what it has learnt by it. -/
structure Memory where
  got : List Value
  caught : List Raised
  seen : List Seen

namespace Memory

/-- What a function can tell of a value among those that it has got. -/
def view (s : Store) (got : List Value) (v : Value) : View := ⟨v.bare, got.idxOf v, s.typeName v, s.isCallable v⟩

/-- Some more values. -/
def add (m : Memory) (values : List Value) : Effect Memory := do
  let s ← store
  let got := m.got ++ values
  return { m with got, seen := m.seen ++ [.values (values.map (view s got))] }

/-- An error that was caught. -/
def addError (m : Memory) (e : Raised) : Memory :=
  { m with caught := m.caught ++ [e], seen := m.seen ++ [.error e.kind e.message] }

/-- Raises an error that was caught. -/
def rethrow (m : Memory) (i : Nat) : Effect Value :=
  match m.caught[i]? with
  | some e => raise e
  | none => fault .runtime "No active exception to reraise"

/-- What a function has at the start of a call: the object that it belongs to, if there is one, the receiver if it is
handed over, and the arguments. -/
def ofCall (own args : List Value) (this : Option Value) : Effect Memory := do
  let m ← add ⟨[], [], []⟩ own
  let m ← m.add this.toList
  m.add args

end Memory

/-- A context on a value, with variables of its own. -/
def ownContext (v : Value) : Effect Context := do
  let scope ← extend (·.allocEmptyScope .null)
  return ⟨v, scope, .null⟩

/-- A path from the object of a context. -/
def pathBelow (segments : List Segment) : Path := ⟨.this, segments, ""⟩

/-- A new object. -/
def newCell (c : Cell) : Effect Value := extend fun s => ((.ref (s.alloc c).1), (s.alloc c).2)

/-- What a step does, by a function that has got some values. -/
def Act.perform (callback : Callback) (got : List Value) : Act Code → Effect (List Value)
  | makeList items => do return [← newList (items.map (·.value got))]
  | makeDict items => do
    let entries ← ask (·.entriesOf [] (alternating (items.map (·.value got))))
    return [← extend (·.allocDict entries)]
  | makeFunction code => do return [← newCell (.function (.other code) [])]
  | makeObject label code methods => do return [← newCell (.object (.other label code methods) [])]
  | iterate v => ask (·.elements (v.value got))
  | entries v => do return (← ask (·.copiedEntries (v.value got))).parts
  | print v => do return [.text (← ask (·.print (v.value got)))]
  | read v segments => do
    let ctx ← ownContext (v.value got)
    return [← readAt (pathBelow segments) ctx]
  | write v segments w => do
    let ctx ← ownContext (v.value got)
    return [← writeAt (pathBelow segments) (w.value got) ctx]
  | call f args => do return [← callback (f.value got) (args.map (·.value got))]

/-- An effect whose error is caught or not. -/
def tried {α : Type} (caught : Bool) (act : Effect α) : Effect (Except Raised α) :=
  if caught then attempt act else do return .ok (← act)

namespace Code

/-- Goes on with what a function has got and learnt so far. -/
def playFrom (call : Callback) (code : Code) : Nat → Memory → Effect Value
  | 0, _ => exhaust
  | fuel + 1, m =>
    match code.next m.seen with
    | .finish v => return v.value m.got
    | .fail kind text => failAs kind text
    | .rethrow i => m.rethrow i
    | .act a caught => do
      match ← tried caught (a.perform call m.got) with
      | .ok values => playFrom call code fuel (← m.add values)
      | .error e => playFrom call code fuel (m.addError e)

/-- What a function does that is given by its code. -/
def play (call : Callback) (fuel : Nat) (code : Code) (own args : List Value) (this : Option Value) : Effect Value := do
  let m ← Memory.ofCall own args this
  code.playFrom call fuel m

end Code

/-- What a function of the host does. -/
def Function.perform (call : Callback) (fuel : Nat) (f : Function) (args : List Value) (this : Option Value) :
    Effect Value := do
  let first := arg args 0
  let second := arg args 1
  match f with
  | identity => return first
  | makeList => newList args
  | count => return .int args.length
  | add => return .int (← sum "add" args)
  | subtract => return .int ((← integerArg "sub" first) - (← integerArg "sub" second))
  | multiply => return .int ((← integerArg "mul" first) * (← integerArg "mul" second))
  | lessThan => return .bool ((← integerArg "lt" first) < (← integerArg "lt" second))
  | equals => return .bool ((← store).equal first second)
  | same => return .bool (identical (← store) first second)
  | concat => return .text (← joined args)
  | makeDict =>
    let entries ← ask (·.entriesOf [] (alternating args))
    extend (·.allocDict entries)
  | choose =>
    let pick := if first = .bool true then second else arg args 2
    if (← store).isCallable pick then call pick [] else return pick
  | apply => callChecked call "apply" first (args.drop 1)
  | mapList =>
    needCallable "map" first
    needList "map" second
    newList (← mapFrom call first second fuel 0 [])
  | fold =>
    needCallable "fold" first
    needList "fold" (arg args 2)
    foldFrom call first (arg args 2) fuel 0 second
  | times =>
    let n ← integerArg "repeat" first
    needCallable "repeat" second
    newList (← timesFrom call second n.toNat 0 [])
  | push =>
    pushAll "push" first (args.drop 1)
    return first
  | pushThenFail =>
    pushAll "push_fail" first (args.drop 1)
    fault .badValue "pushed"
  | fail => failWith first second
  | guarded =>
    match ← attempt (callChecked call "catch" first (args.drop 1)) with
    | .ok v => return v
    | .error e => report e
  | wrap =>
    match ← attempt (callChecked call "wrap" first (args.drop 1)) with
    | .ok v => return v
    | .error e => fault .runtime ("wrapped: " ++ e.message)
  | display => return .text (← ask (·.print first))
  | receiver => needReceiver f.label this
  | receiverAndArgs =>
    let owner ← needReceiver f.label this
    newList [owner, ← newList args]
  | optionalReceiver => return this.getD receiverDefault
  | firstParameter => return first
  | anyKeyword => newList []
  | receiverGet =>
    let owner ← needReceiver f.label this
    if ((← store).dict? owner).isSome then return (← ask (·.valueAt? owner first)).getD .null else return .null
  | receiverSet =>
    let owner ← needReceiver f.label this
    if ((← store).dict? owner).isSome then
      change (·.setEntry owner first second)
      return owner
    else fault .badType "this_set: not a dict"
  | increment => return .int ((← integerArg "api_inc" first) + 1)
  | unmarked => return .text "fake"
  | other code => code.play call fuel [] args this

end ListScript.Host
