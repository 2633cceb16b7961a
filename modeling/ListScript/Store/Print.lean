import ListScript.Store.Traversal

/-!
# Printed values

Two texts of a value. The *printed* form is compact and JSON-like, with scripts of several expressions laid out as
indented blocks; scripts and values appear in it in messages and traces. The *inspected* form is the one that the
host's language gives its values; it stands in for values that have no printed form, and for keys. Either may fail: a
scope with a key that is not a text, an integer with too many digits and a cyclic value have no text.
-/

namespace ListScript

/-- The text of a path root. -/
def Root.shown : Root → String
  | this => "This<>"
  | lastValue => "Last-value<>"
  | scope => "Variables<>"

/-- The inspected form of a segment. -/
def Segment.inspected : Segment → String
  | name text => "Name<" ++ Text.literal text ++ ">"
  | index n => "Index(" ++ integerText n ++ ")"

/-- The printed form of a segment. -/
def Segment.printed : Segment → String
  | name text => text
  | index n => "[" ++ integerText n ++ "]"

/-- The inspected form of a path. -/
def Path.inspected (p : Path) : String :=
  "<Path root=" ++ p.root.shown ++ " segments=[" ++ ", ".intercalate (p.segments.map Segment.inspected) ++ "]>"

namespace Store

/-! ## Parts of the two forms -/

/-- The decimal form of an integer. -/
def printInteger (n : Int) : Except Raised String :=
  if hasIntegerText n then .ok (integerText n) else .error (.of .integerTooLong)

/-- The text of a floating-point number. -/
def printFloat (d : Double) : String := String.ofList d.text

/-- The full name of a method, with the type of what it is bound to. -/
def methodName (s : Store) (self : Value) (m : Host.Method) : String := s.typeName self ++ "." ++ m.label

/-- The contents of texts, refusing other values; `position` counts those before. -/
def textsFrom (s : Store) (position : Nat) : List Value → Except Raised (List String)
  | [] => .ok []
  | .str t _ :: rest => (textsFrom s (position + 1) rest).map (t :: ·)
  | v :: _ => .error (.of (.joinNeedsText position (s.typeName v)))

/-- The names bound in a scope with the given bindings, separated by commas. -/
def joinedKeys (s : Store) (bindings : Value) : Except Raised String :=
  (s.textsFrom 0 (Entries.keys ((s.mapping? bindings).getD []))).map (", ".intercalate ·)

/-- The inspected form of a scope. That it has a parent is shown, not which one. -/
def inspectScope (s : Store) (bindings parent : Value) : Except Raised String :=
  (s.joinedKeys bindings).map fun keys =>
    "<Scope bindings=[" ++ keys ++ "]" ++ (if s.isTrue parent then ", parent=#ID" else "") ++ ">"

/-- The printed form of a scope. -/
def printScope (s : Store) (bindings : Value) : Except Raised String :=
  (s.joinedKeys bindings).map fun keys => if keys.isEmpty then "<scope>" else "<scope " ++ keys ++ ">"

/-- The printed form of a callable object: by its name if it has one, else by its class. -/
def printCallable (s : Store) (cls : Host.Class) (attrs : Attributes) : String :=
  let attr (name : String) : Value := (attrs.lookup name).getD .null
  let full := attr "__qualname__"
  match if s.isTrue full then full else attr "__name__" with
  | .str name _ => if name.isEmpty then "<callable " ++ cls.label ++ ">" else "<function " ++ name ++ ">"
  | _ => "<callable " ++ cls.label ++ ">"

/-- Whether a list is laid out as a block: several lists, each starting with a text. -/
def isBlock (s : Store) (items : List Value) : Bool :=
  1 < items.length && items.all fun item =>
    match s.list? item with
    | some (head :: _) => head.isText
    | _ => false

/-- The indentation at a level. -/
def indentation (width level : Int) : String := String.ofList (List.replicate (width.toNat * level.toNat) ' ')

/-- Lays out a list, given how its elements are printed at a level. -/
def printList (s : Store) (width level : Int) (shown : Int → Value → Except Raised String) (items : List Value) :
    Except Raised String :=
  if s.isBlock items then do
    let lines ← items.mapM (shown (level + 1))
    let inner := indentation width (level + 1)
    return "[\n" ++ ",\n".intercalate (lines.map (inner ++ ·)) ++ "\n" ++ indentation width level ++ "]"
  else do
    let texts ← items.mapM (shown level)
    return "[" ++ ", ".intercalate texts ++ "]"

/-- Lays out a script function as the expression that makes it. -/
def printClosure (s : Store) (width level : Int) (shown : Int → Value → Except Raised String) (f : Closure) :
    Except Raised String := do
  let params ← s.elements f.params
  let names ← s.printList width level shown params
  let body ← shown level f.body
  return "[\"lambda\", " ++ names ++ ", " ++ body ++ "]"

/-- The inspected forms of values, separated by commas. -/
def inspectItems (inspected : Value → Except Raised String) (items : List Value) : Except Raised String :=
  (items.mapM inspected).map (", ".intercalate ·)

/-- The inspected form of the entries of a dictionary. -/
def inspectEntries (inspected : Value → Except Raised String) (entries : Entries) : Except Raised String := do
  let texts ← entries.mapM fun (k, v) => do
    let key ← inspected k
    let value ← inspected v
    return key ++ ": " ++ value
  return "\x7b" ++ ", ".intercalate texts ++ "\x7d"

/-- The inspected form of a context. -/
def inspectContext (inspected : Value → Except Raised String) (ctx : Context) : Except Raised String := do
  let this ← inspected ctx.this
  let vars ← inspected ctx.scope
  let last ← inspected ctx.last
  return "ExecutionContext(this=" ++ this ++ ", variables=" ++ vars ++ ", last_value=" ++ last ++ ")"

/-- A value as plain text: a text or a path is its own, any other value is inspected. -/
def textWith (s : Store) (inspected : Value → Except Raised String) (v : Value) : Except Raised String :=
  match v, s.cell? v with
  | .str t _, _ => .ok t
  | _, some (.path p) => .ok p.text
  | _, _ => inspected v

/-- The printed form of the entries of a dictionary, the keys as texts. -/
def printEntries (s : Store) (inspected shown : Value → Except Raised String) (entries : Entries) :
    Except Raised String := do
  let texts ← entries.mapM fun (k, v) => do
    let key ← s.textWith inspected k
    let value ← shown v
    return Text.jsonString key ++ ": " ++ value
  return "\x7b" ++ ", ".intercalate texts ++ "\x7d"

/-- The indentation that messages use. -/
def defaultWidth : Int := 2

/-! ## The two forms -/

mutual

/-- The inspected form of a value nested at most `fuel` deep. -/
def inspectWithin (s : Store) : Nat → Value → Except Raised String
  | 0, _ => .error (.of .tooDeep)
  | fuel + 1, v =>
    match v with
    | .null => .ok "None"
    | .bool b => .ok (if b then "True" else "False")
    | .int n => printInteger n
    | .float d => .ok (printFloat d)
    | .str t _ => .ok (Text.literal t)
    | .bytes bs => .ok (String.ofList (Text.quoteBytes bs))
    | .root r => .ok r.shown
    | .ref r =>
      match s.get? r with
      | none => .ok "<object>"
      | some (.list items _) => (inspectItems (inspectWithin s fuel) items).map fun t => "[" ++ t ++ "]"
      | some (.tuple items) =>
        (inspectItems (inspectWithin s fuel) items).map fun t => "(" ++ t ++ (if items.length = 1 then ",)" else ")")
      | some (.dict entries) => inspectEntries (inspectWithin s fuel) entries
      | some (.frozen entries) =>
        (inspectEntries (inspectWithin s fuel) entries).map fun t => "mappingproxy(" ++ t ++ ")"
      | some (.raw payload) => (inspectWithin s fuel payload).map fun t => "RawValue(" ++ t ++ ")"
      | some (.scope bindings parent) => s.inspectScope bindings parent
      | some (.closure f _) => s.printClosure defaultWidth 0 (printWithin s fuel defaultWidth) f
      | some (.context ctx _) => inspectContext (inspectWithin s fuel) ctx
      | some (.engine ..) => .ok "<Evaluator>"
      | some (.function f _) => .ok ("<function " ++ f.label ++ ">")
      | some (.object cls _) => .ok ("<" ++ cls.label ++ ">")
      | some (.method self m) =>
        if m.isBuiltIn then .ok ("<built-in method " ++ m.label ++ " of " ++ s.typeName self ++ " object>")
        else (inspectWithin s fuel self).map fun t => "<bound method " ++ s.methodName self m ++ " of " ++ t ++ ">"
      | some (.path p) => .ok p.inspected
      | some (.nameSegment t) => .ok (Segment.inspected (.name t))
      | some (.indexSegment n) => .ok ("Index(" ++ integerText n ++ ")")

/-- The printed form of a value nested at most `fuel` deep. -/
def printWithin (s : Store) : Nat → Int → Int → Value → Except Raised String
  | 0, _, _, _ => .error (.of .tooDeep)
  | fuel + 1, width, level, v =>
    match v with
    | .null => .ok "null"
    | .bool b => .ok (if b then "true" else "false")
    | .int n => printInteger n
    | .float d => .ok (printFloat d)
    | .str t _ => .ok (Text.jsonString t)
    | .bytes bs => .ok (String.ofList (Text.quoteBytes bs))
    | .root r => .ok r.shown
    | .ref r =>
      match s.get? r with
      | none => .ok "<object>"
      | some (.list items _) => s.printList width level (printWithin s fuel width) items
      | some (.tuple items) => s.printList width level (printWithin s fuel width) items
      | some (.dict entries) => printEntries s (inspectWithin s fuel) (printWithin s fuel width level) entries
      | some (.frozen entries) => printEntries s (inspectWithin s fuel) (printWithin s fuel width level) entries
      | some (.raw payload) => (printWithin s fuel width level payload).map fun t => "raw " ++ t
      | some (.scope bindings _) => s.printScope bindings
      | some (.closure f _) => s.printClosure width level (printWithin s fuel width) f
      | some (.context ctx _) => inspectContext (inspectWithin s fuel) ctx
      | some (.engine ..) => .ok "<Evaluator>"
      | some (.function f _) => .ok ("<function " ++ f.label ++ ">")
      | some (.object cls attrs) =>
        .ok (if cls.isCallable then s.printCallable cls attrs else "<" ++ cls.label ++ ">")
      | some (.method self m) => .ok ("<function " ++ s.methodName self m ++ ">")
      | some (.path p) => .ok p.text
      | some (.nameSegment t) => .ok t
      | some (.indexSegment n) => .ok ("[" ++ integerText n ++ "]")

end

/-- A value without cycles is nested less deep than this. -/
def depthBound (s : Store) (v : Value) : Nat := s.extent v + 2

/-- The inspected form of a value. -/
def inspect (s : Store) (v : Value) : Except Raised String := s.inspectWithin (s.depthBound v) v

/-- The printed form of a value, with the given width of indentation and starting at a level. -/
def printAt (s : Store) (width level : Int) (v : Value) : Except Raised String :=
  s.printWithin (s.depthBound v) width level v

/-- The printed form of a value. -/
def print (s : Store) (v : Value) : Except Raised String := s.printAt defaultWidth 0 v

/-- A value as plain text: a text or a path is its own, any other value is inspected. -/
def plainText (s : Store) (v : Value) : Except Raised String := s.textWith s.inspect v

end Store

end ListScript
