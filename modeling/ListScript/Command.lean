import ListScript.Store.Print

/-!
# Scripts and commands

A script is a list: either one expression or a sequence of expressions. An expression is a list whose first element
names a command:

    ["call", target, args?]     call a function or method
    ["get", target]             read the value at a path
    ["lambda", params, body]    make a function
    ["set", receiver, source]   write a value at a path
    ["value", payload]          the payload as it stands

`Store.script` tells the two forms of scripts apart, `Store.command` reads an expression.
-/

namespace ListScript

/-- One expression, read. -/
inductive Command where
  /-- the target is a path text or a script for one; no arguments given is an empty list -/
  | call (target : Value) (args : Option Value)
  | get (target : Value)
  | lambda (params body : Value)
  | set (receiver source : Value)
  | value (payload : Value)
  deriving DecidableEq

/-- The name of a command. -/
def Command.label : Command → String
  | call .. => "call"
  | get _ => "get"
  | lambda .. => "lambda"
  | set .. => "set"
  | value _ => "value"

/-- The two forms of a script. -/
inductive Script where
  /-- one expression -/
  | single (expression : Value)
  /-- a list of expressions -/
  | sequence (expressions : Value)
  deriving DecidableEq

namespace Store

/-- Whether a list is one expression: it is not empty and does not start with a list. -/
def isSingle (s : Store) (items : List Value) : Bool :=
  match items with
  | head :: _ => !s.isList head
  | [] => false

/-- The form of a script. -/
def script (s : Store) (v : Value) : Except Raised Script :=
  match s.list? v with
  | some items => .ok (if s.isSingle items then .single v else .sequence v)
  | none => do
    let shown ← s.print v
    .error (.about v (.notAScript shown))

/-- Refuses a number of parameters out of bounds. -/
def checkArity (s : Store) (expression : Value) (tag : String) (given least most : Nat) : Except Raised Unit :=
  if given < least then do
    let shown ← s.print expression
    .error (.about expression (.tooFewParameters tag least given shown))
  else if most < given then do
    let shown ← s.print expression
    .error (.about expression (.tooManyParameters tag most given shown))
  else .ok ()

/-- Refuses an expression with a cause that shows it. -/
def refuse {α : Type} (s : Store) (expression : Value) (cause : String → Cause) : Except Raised α := do
  let shown ← s.print expression
  .error (.about expression (cause shown))

/-- Whether a value is a list of texts. -/
def isNameList (s : Store) (v : Value) : Bool :=
  match s.list? v with
  | some items => items.all Value.isText
  | none => false

/-- The command that an expression with a given tag and parameters stands for. -/
def commandOf (s : Store) (expression tag : Value) (params : List Value) : Except Raised Command :=
  let param (i : Nat) : Value := (params[i]?).getD .null
  let arity (name : String) (least most : Nat) : Except Raised Unit :=
    s.checkArity expression name params.length least most
  match tag.text? with
  | some "call" => do
    arity "call" 1 2
    match params[1]? with
    | none => return .call (param 0) none
    | some args => if s.isList args then return .call (param 0) (some args) else s.refuse expression .argumentsNotAList
  | some "get" => do
    arity "get" 1 1
    return .get (param 0)
  | some "lambda" => do
    arity "lambda" 2 2
    if s.isNameList (param 0) then return .lambda (param 0) (param 1) else s.refuse expression .parametersNotNames
  | some "set" => do
    arity "set" 1 2
    if (param 0).isText then return .set (param 0) (param 1) else s.refuse expression .receiverNotAPath
  | some "value" => do
    arity "value" 0 1
    return .value (param 0)
  | _ => do
    let shown ← s.print tag
    s.refuse expression (.unknownCommand shown)

/-- Reads an expression. -/
def command (s : Store) (expression : Value) : Except Raised Command :=
  match s.list? expression with
  | some (tag :: params) => s.commandOf expression tag params
  | _ => s.refuse expression .notAnExpression

end Store

end ListScript
