import ListScript.Host.Code

/-!
# What a host offers to scripts

The functions, the classes of objects and the methods that a host can hand to a script. Here are their names and what
distinguishes them; what they do is in `Host.Functions` and `Host.Methods`. Some are given by name; all others are given
by their code.
-/

namespace ListScript.Host

/-- The functions of the host. -/
inductive Function where
  | identity
  | makeList
  | count
  | add
  | subtract
  | multiply
  | lessThan
  | equals
  | same
  | concat
  | makeDict
  | choose
  | apply
  | mapList
  | fold
  | times
  | push
  | pushThenFail
  | fail
  | guarded
  | wrap
  | display
  | receiver
  | receiverAndArgs
  | optionalReceiver
  | firstParameter
  | anyKeyword
  | receiverGet
  | receiverSet
  | increment
  | unmarked
  /-- any other function -/
  | other (code : Code)

namespace Function

/-- The name of a function. -/
def label : Function → String
  | identity => "id"
  | makeList => "list"
  | count => "count"
  | add => "add"
  | subtract => "sub"
  | multiply => "mul"
  | lessThan => "lt"
  | equals => "eq"
  | same => "same"
  | concat => "concat"
  | makeDict => "dict"
  | choose => "ite"
  | apply => "apply"
  | mapList => "map"
  | fold => "fold"
  | times => "repeat"
  | push => "push"
  | pushThenFail => "push_fail"
  | fail => "fail"
  | guarded => "catch"
  | wrap => "wrap"
  | display => "show"
  | receiver => "this"
  | receiverAndArgs => "this_args"
  | optionalReceiver => "opt_this"
  | firstParameter => "pos_this"
  | anyKeyword => "kw_any"
  | receiverGet => "this_get"
  | receiverSet => "this_set"
  | increment => "api_inc"
  | unmarked => "api_fake"
  | other code => code.name

/-- The functions of the host that are given by name. -/
def all : List Function :=
  [identity, makeList, count, add, subtract, multiply, lessThan, equals, same, concat, makeDict, choose, apply, mapList,
    fold, times, push, pushThenFail, fail, guarded, wrap, display, receiver, receiverAndArgs, optionalReceiver,
    firstParameter, anyKeyword, receiverGet, receiverSet, increment, unmarked]

/-- The function of a name. -/
def ofLabel? (name : String) : Option Function := all.find? fun f => f.label == name

/-- Whether a function is handed the receiver of the call. -/
def takesReceiver : Function → Bool
  | receiver | receiverAndArgs | optionalReceiver | receiverGet | receiverSet => true
  | other code => code.takesReceiver
  | _ => false

/-- Whether a function is marked as part of the programming interface of its host. -/
def isMarked : Function → Bool
  | increment => true
  | other code => code.isMarked
  | _ => false

end Function

/-- The classes of host objects, with the state that scripts cannot name. -/
inductive Class where
  /-- nothing but attributes -/
  | plain
  /-- attributes and numbered items -/
  | box (items : List (Int × Value))
  /-- two attributes that cannot be used -/
  | trap
  /-- can be called -/
  | callable
  /-- can be called and takes the receiver of the call -/
  | callableThis
  /-- a result that arrives later, and who waits for it -/
  | future (result : Option Value) (waiting : List Value)
  /-- the hero of a game, with methods -/
  | hero
  /-- any other class, which can be called if there is a function for that -/
  | other (label : String) (call : Option Code) (methods : List Code)

namespace Class

/-- The name of a class. -/
def label : Class → String
  | plain => "Obj"
  | box _ => "Box"
  | trap => "Trap"
  | callable => "Callable"
  | callableThis => "CallableThis"
  | future .. => "Future"
  | hero => "Host"
  | other label _ _ => label

/-- A new object's class and attributes, by the name of the class. -/
def ofLabel? : String → Option (Class × Attributes)
  | "Obj" => some (plain, [])
  | "Box" => some (box [], [])
  | "Trap" => some (trap, [])
  | "Callable" => some (callable, [])
  | "CallableThis" => some (callableThis, [])
  | "Future" => some (future none [], [])
  | "Host" => some (hero, [("hp", .int 100)])
  | _ => none

/-- Whether objects of a class can be called. -/
def isCallable : Class → Bool
  | callable | callableThis => true
  | other _ call _ => call.isSome
  | _ => false

/-- Whether objects of a class are handed the receiver of a call. -/
def takesReceiver : Class → Bool
  | callableThis => true
  | other _ (some code) _ => code.takesReceiver
  | _ => false

/-- The function behind a method that is given by its code. -/
def methodNamed? : Class → String → Option Code
  | other _ _ methods, name => methods.find? fun code => code.name == name
  | _, _ => none

end Class

/-- The methods of texts, lists, evaluators and host objects. -/
inductive Method where
  | append
  | pop
  | insert
  | extend
  | reverse
  | clear
  | copy
  | upper
  | lower
  | startsWith
  | evaluate
  | invoke
  | addDoneCallback
  | setResult
  | result
  | takeDamage
  | heal
  | whoami
  | me
  | boom
  | secret
  | notExposed
  | whisper
  /-- a method that its class gives by its code -/
  | other (name : String) (takesReceiver isMarked : Bool)
  deriving DecidableEq

namespace Method

/-- The name of a method. -/
def label : Method → String
  | append => "append"
  | pop => "pop"
  | insert => "insert"
  | extend => "extend"
  | reverse => "reverse"
  | clear => "clear"
  | copy => "copy"
  | upper => "upper"
  | lower => "lower"
  | startsWith => "startswith"
  | evaluate => "eval"
  | invoke => "call"
  | addDoneCallback => "add_done_callback"
  | setResult => "set_result"
  | result => "result"
  | takeDamage => "take_damage"
  | heal => "heal"
  | whoami => "whoami"
  | me => "me"
  | boom => "boom"
  | secret => "_secret"
  | notExposed => "not_exposed"
  | whisper => "whisper"
  | other name _ _ => name

/-- The methods of lists. -/
def ofLists : List Method := [append, pop, insert, extend, reverse, clear, copy]

/-- The methods of texts. -/
def ofTexts : List Method := [upper, lower, startsWith]

/-- The methods of evaluators: the one that runs scripts and the one that calls functions. -/
def ofEngines : List Method := [evaluate, invoke]

/-- The methods of host objects of a class. -/
def ofClass : Class → List Method
  | .future .. => [addDoneCallback, setResult, result]
  | .hero => [takeDamage, heal, whoami, me, boom, secret, notExposed, whisper]
  | .other _ _ methods => methods.map fun code => other code.name code.takesReceiver code.isMarked
  | _ => []

/-- Whether a method belongs to a built-in type. -/
def isBuiltIn (m : Method) : Bool := ofLists.contains m || ofTexts.contains m

/-- Whether a method is handed the receiver of the call. -/
def takesReceiver : Method → Bool
  | whoami | whisper => true
  | other _ takes _ => takes
  | _ => false

/-- Whether a method is marked as part of the programming interface of its host. -/
def isMarked : Method → Bool
  | takeDamage | heal | whoami | me | boom | secret => true
  | other _ _ marked => marked
  | _ => false

/-- The method of a name among some methods. -/
def named? (methods : List Method) (name : String) : Option Method := methods.find? fun m => m.label == name

end Method

end ListScript.Host
