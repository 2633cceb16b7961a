import ListScript.Access.Attribute
import ListScript.Host.Functions
import ListScript.Number.Sum
import ListScript.Text.LetterCase

/-!
# Methods

What the methods of lists, texts and host objects do when they are called on the value they are bound to.
-/

namespace ListScript.Host

open Effect

/-- Refuses a number of arguments other than the one expected, in the words of the method. -/
def needCount (wording : Nat → String) (args : List Value) (n : Nat) : Effect Unit :=
  if args.length = n then pure () else fault .badType (wording args.length)

/-- Whether an integer fits the 64 bits of a position. -/
def isPosition (n : Int) : Bool := -0x8000000000000000 ≤ n && n < 0x8000000000000000

/-- A position given to a method of a list. -/
def positionArg : Value → Effect Int
  | .int n => if isPosition n then pure n else raise (.of .indexTooLarge)
  | .bool b => pure b.toNat
  | v => do
    let type := (← store).typeName v
    fault .badType ("'" ++ type ++ "' object cannot be interpreted as an integer")

/-- Replaces the elements of a list. -/
def setItems (list : Value) (items : List Value) : Effect Unit :=
  change fun s =>
    match list, s.cell? list with
    | .ref r, some (.list _ flavor) => .ok (s.set r (.list items flavor))
    | _, _ => .ok s

/-- The position at which a list gives an element up: the last one, or the one that is given. -/
def popPosition (args : List Value) : Effect Int := if args.isEmpty then pure (-1) else positionArg (arg args 0)

/-- What a method of a list does. -/
def performOnList (self : Value) (m : Method) (args : List Value) : Effect Value := do
  let items := ((← store).list? self).getD []
  let name := (← store).methodName self m
  let one (given : Nat) : String := s!"{name}() takes exactly one argument ({given} given)"
  let zero (given : Nat) : String := s!"{name}() takes no arguments ({given} given)"
  match m with
  | .append =>
    needCount one args 1
    setItems self (items ++ [arg args 0])
    return .null
  | .pop =>
    if 1 < args.length then fault .badType s!"pop expected at most 1 argument, got {args.length}"
    else
      let i ← popPosition args
      let place := if i < 0 then i + items.length else i
      if items.isEmpty then raise (.of .popFromEmpty)
      else if place < 0 || (items.length : Int) ≤ place then fault .badIndex "pop index out of range"
      else
        setItems self (items.eraseIdx place.toNat)
        return arg items place.toNat
  | .insert =>
    needCount (fun given => s!"insert expected 2 arguments, got {given}") args 2
    let i ← positionArg (arg args 0)
    let place := (if i < 0 then i + items.length else i).toNat
    setItems self (items.take place ++ arg args 1 :: items.drop place)
    return .null
  | .extend =>
    needCount one args 1
    let more ← ask (·.traverse (arg args 0))
    setItems self (items ++ more.items)
    let _ ← ofExcept more.result
    return .null
  | .reverse =>
    needCount zero args 0
    setItems self items.reverse
    return .null
  | .clear =>
    needCount zero args 0
    setItems self []
    return .null
  | .copy =>
    needCount zero args 0
    newList items
  | _ => return .null

/-- The bound of a part of a text; null sets none. -/
def boundArg : Value → Effect (Option Int)
  | .null => pure none
  | .int n => pure (some n)
  | .bool b => pure (some b.toNat)
  | _ => fault .badType "slice indices must be integers or None or have an __index__ method"

/-- Whether a part of a text starts with another text. -/
def beginsWithin (piece : Option String) (t : String) : Bool := piece.any (Text.beginsWith · t)

/-- Whether a part of a text starts with one of some values, which have to be texts. -/
def startsWithOne (piece : Option String) : List Value → Effect Bool
  | [] => pure false
  | .str t _ :: rest => if beginsWithin piece t then pure true else startsWithOne piece rest
  | v :: _ => do
    let type := (← store).typeName v
    fault .badType ("tuple for startswith must only contain str, not " ++ type)

/-- What a method of a text does. -/
def performOnText (self : Value) (text : String) (m : Method) (args : List Value) : Effect Value := do
  let name := (← store).methodName self m
  let zero (given : Nat) : String := s!"{name}() takes no arguments ({given} given)"
  match m with
  | .upper =>
    needCount zero args 0
    return .text (String.ofList (Text.upper text.toList))
  | .lower =>
    needCount zero args 0
    return .text (String.ofList (Text.lower text.toList))
  | .startsWith =>
    if args.isEmpty then fault .badType "startswith() takes at least 1 argument (0 given)"
    else if 3 < args.length then fault .badType s!"startswith() takes at most 3 arguments ({args.length} given)"
    else
      let start ← boundArg (arg args 1)
      let stop ← boundArg (arg args 2)
      let piece := Text.part text start stop
      let v := arg args 0
      match v, (← store).cell? v with
      | .str t _, _ => return .bool (beginsWithin piece t)
      | _, some (.tuple items) => return .bool (← startsWithOne piece items)
      | _, _ =>
        let type := (← store).typeName v
        fault .badType ("startswith first arg must be str or a tuple of str, not " ++ type)
  | _ => return .null

/-- The state of a future: its result, if it has one, and who waits for it. -/
def futureState (self : Value) : Effect (Option Value × List Value) := do
  match (← store).cell? self with
  | some (.object (.future result waiting) _) => return (result, waiting)
  | _ => return (none, [])

/-- Changes the state of a future. -/
def setFuture (self : Value) (result : Option Value) (waiting : List Value) : Effect Unit :=
  change fun s =>
    match self, s.cell? self with
    | .ref r, some (.object (.future ..) attrs) => .ok (s.set r (.object (.future result waiting) attrs))
    | _, _ => .ok s

/-- Calls functions one after the other with the same argument. -/
def notifyAll (call : Callback) (self : Value) : List Value → Effect Unit
  | [] => pure ()
  | f :: rest => do
    let _ ← call f [self]
    notifyAll call self rest

/-- What a method of a future does. -/
def performOnFuture (call : Callback) (self : Value) (m : Method) (args : List Value) : Effect Value := do
  let (result, waiting) ← futureState self
  match m, result with
  | .addDoneCallback, some _ =>
    let _ ← call (arg args 0) [self]
    return .null
  | .addDoneCallback, none =>
    setFuture self none (waiting ++ [arg args 0])
    return .null
  | .setResult, some _ => fault .runtime "already resolved"
  | .setResult, none =>
    setFuture self (some (arg args 0)) waiting
    notifyAll call self waiting
    return .null
  | .result, some v => return v
  | .result, none => fault .runtime "not resolved"
  | _, _ => return .null

/-- The two ways to change a number in place. -/
inductive Change where
  | gain
  | loss
  deriving DecidableEq

namespace Change

/-- How messages write a change. -/
def symbol : Change → String
  | gain => "+="
  | loss => "-="

/-- Why a value cannot be changed by an integer. What can be strung together asks for its like. -/
def refusal (s : Store) (c : Change) (v : Value) : String :=
  let type := s.typeName v
  let sign := c.symbol
  match c, v, s.cell? v with
  | gain, .str .., _ => "can only concatenate str (not \"int\") to str"
  | gain, .bytes _, _ => "can't concat int to bytes"
  | gain, _, some (.tuple _) => "can only concatenate tuple (not \"int\") to tuple"
  | gain, _, some (.list ..) => "'int' object is not iterable"
  | _, _, _ => s!"unsupported operand type(s) for {sign}: '{type}' and 'int'"

/-- An integer changed by another. -/
def onInt (c : Change) (n amount : Int) : Int :=
  match c with
  | gain => n + amount
  | loss => n - amount

/-- A floating-point number changed by another, if the result is a number. -/
def onFloat? (c : Change) (d amount : Double) : Option Double :=
  match c with
  | gain => d.add? amount
  | loss => d.add? amount.neg

/-- A value changed by an integer. -/
def apply (c : Change) (v : Value) (amount : Int) : Effect Value := do
  match v with
  | .int n => return .int (c.onInt n amount)
  | .bool b => return .int (c.onInt b.toNat amount)
  | .float d =>
    match Double.ofInt? amount with
    | none => raise (.of .amountTooLarge)
    | some a =>
      match c.onFloat? d a with
      | some result => return .float result
      | none => return .float (← extend (·.allocNan))
  | _ => fault .badType (c.refusal (← store) v)

end Change

/-- Changes the hit points of a hero and gives the new number. Nothing else has hit points. -/
def changeHitPoints (self : Value) (c : Change) (amount : Int) : Effect Value := do
  let points := ((← store).hiddenAttribute? self "hp").getD .null
  let result ← c.apply points amount
  change fun s =>
    if s.isObject self then s.setAttribute self "hp" result else .error (.of (.noAttribute (s.typeName self) "hp"))
  return result

/-- What a method of a hero does. -/
def performOnHero (self : Value) (m : Method) (args : List Value) (this : Option Value) : Effect Value := do
  let name := (← store).methodName self m
  match m with
  | .takeDamage => do
    let n ← integerArg m.label (arg args 0)
    changeHitPoints self .loss n
  | .heal => do
    let n ← integerArg m.label (arg args 0)
    changeHitPoints self .gain n
  | .whoami => needReceiver name this
  | .me => return self
  | .boom => do
    let shown ← ask (·.print (arg args 0))
    fault .badValue ("boom " ++ shown)
  | .secret => return .text "secret"
  | .notExposed => return .text "hidden"
  | .whisper => do
    let owner ← needReceiver name this
    newList [.bool (self == owner), ← newList args]
  | _ => return .null

/-- What a method of an object that is no future does: its class gives the code, or it is a method of a hero. -/
def performOnObject (call : Callback) (fuel : Nat) (self : Value) (cls : Class) (m : Method) (args : List Value)
    (this : Option Value) : Effect Value :=
  match cls.methodNamed? m.label with
  | some code => code.play call fuel [self] args this
  | none => performOnHero self m args this

/-- What a method bound to a value does. -/
def Method.perform (call : Callback) (fuel : Nat) (self : Value) (m : Method) (args : List Value) (this : Option Value) :
    Effect Value := do
  match self, (← store).cell? self with
  | .str text _, _ => performOnText self text m args
  | _, some (.list ..) => performOnList self m args
  | _, some (.object (.future ..) _) => performOnFuture call self m args
  | _, some (.object cls _) => performOnObject call fuel self cls m args this
  | _, _ => performOnHero self m args this

/-- What a callable object does. -/
def Class.perform (call : Callback) (fuel : Nat) (self : Value) (cls : Class) (args : List Value) (this : Option Value) :
    Effect Value := do
  match cls, this with
  | callable, none => newList args
  | callable, some _ => raise (.of (.unexpectedKeyword "Callable.__call__" "this"))
  | callableThis, some owner => newList [owner, ← newList args]
  | callableThis, none => raise (.of (.missingReceiver "CallableThis.__call__"))
  | other _ (some code) _, this => code.play call fuel [self] args this
  | _, _ => raise (.of (.notCallable cls.label))

end ListScript.Host
