import ListScript.Store.Types

/-!
# Attributes

The named parts of objects that paths can reach. Reading an attribute either finds a stored value or binds a method;
each read of a method makes a new object. Setting an attribute works on script functions, contexts, evaluators, host
functions and host objects, and on the payload of literal data.
-/

namespace ListScript

/-- What reading an attribute finds. -/
inductive Reading where
  | stored (v : Value)
  | method (m : Host.Method)

namespace Store

/-- The methods of a value. -/
def methodsOf (s : Store) (v : Value) : List Host.Method :=
  match v, s.cell? v with
  | .str .., _ => Host.Method.ofTexts
  | _, some (.list ..) => Host.Method.ofLists
  | _, some (.engine ..) => Host.Method.ofEngines
  | _, some (.object cls _) => Host.Method.ofClass cls
  | _, _ => []

/-- Whether an attribute of a trap cannot be used. -/
def isTrapped (c : Cell) (name : String) : Bool :=
  match c with
  | .object .trap _ => name == "bad" || name == "gone"
  | _ => false

/-- Reads an attribute of a value. -/
def attribute? (s : Store) (v : Value) (name : String) : Except Raised (Option Reading) :=
  match v with
  | .bool b => .ok (numberPart b.toNat)
  | .int n => .ok (numberPart n)
  | _ =>
    match s.cell? v with
    | some c =>
      if isTrapped c name then
        if name == "bad" then .error (.of (.host .badValue "bad attribute")) else .ok none
      else
        match storedAttribute? c name with
        | some w => .ok (some (.stored w))
        | none => .ok ((Host.Method.named? (s.methodsOf v) name).map .method)
    | none => .ok ((Host.Method.named? (s.methodsOf v) name).map .method)
where
  /-- The real and the imaginary part of a whole number. -/
  numberPart (n : Int) : Option Reading :=
    match name with
    | "real" => some (.stored (.int n))
    | "imag" => some (.stored (.int 0))
    | _ => none

/-- The value of a reading: a method is bound to its owner in a new object. -/
def materialize (s : Store) (owner : Value) : Reading → Value × Store
  | .stored v => (v, s)
  | .method m =>
    let (r, s) := s.alloc (.method owner m)
    (.ref r, s)

/-- The object with an attribute set, if it takes attributes of that name. -/
def withAttribute? (c : Cell) (name : String) (v : Value) : Option Cell :=
  match c with
  | .raw _ => if name == "payload" then some (.raw v) else none
  | .closure f attrs =>
    match name with
    | "params" => some (.closure { f with params := v } attrs)
    | "body" => some (.closure { f with body := v } attrs)
    | "closure" => some (.closure { f with context := v } attrs)
    | "evaluator" => some (.closure { f with engine := v } attrs)
    | _ => some (.closure f (attrs.put name v))
  | .context ctx attrs =>
    match name with
    | "this" => some (.context { ctx with this := v } attrs)
    | "variables" => some (.context { ctx with scope := v } attrs)
    | "last_value" => some (.context { ctx with last := v } attrs)
    | _ => some (.context ctx (attrs.put name v))
  | .engine stack attrs =>
    if name == "call_stack" then some (.engine v attrs) else some (.engine stack (attrs.put name v))
  | .function f attrs => some (.function f (attrs.put name v))
  | .object cls attrs => some (.object cls (attrs.put name v))
  | _ => none

/-- Sets an attribute of a value. -/
def setAttribute (s : Store) (owner : Value) (name : String) (v : Value) : Except Raised Store :=
  match owner, s.cell? owner with
  | .ref r, some c =>
    if isTrapped c name then .error (.of (.noSetter name c.typeName))
    else
      match withAttribute? c name v with
      | some c => .ok (s.set r c)
      | none => .error (.of (.noAttribute c.typeName name))
  | _, _ => .error (.of (.noAttribute (s.typeName owner) name))

end Store

end ListScript
