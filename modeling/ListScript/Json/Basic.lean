import ListScript.Number.Decimal
import ListScript.Text.Quoted

/-!
# JSON documents

JSON data with integers as its only numbers, and members of an object in the order of the text. `Json.write` gives the
compact text of a document.
-/

namespace ListScript

/-- A JSON document whose numbers are integers. -/
inductive Json where
  | null
  | bool (b : Bool)
  | int (n : Int)
  | str (text : String)
  | arr (items : List Json)
  | obj (members : List (String × Json))

namespace Json

mutual

/-- The text of a document. -/
def write : Json → String
  | null => "null"
  | bool b => if b then "true" else "false"
  | int n => integerText n
  | str text => Text.jsonString text
  | arr items => "[" ++ ",".intercalate (writeItems items) ++ "]"
  | obj members => "\x7b" ++ ",".intercalate (writeMembers members) ++ "\x7d"

/-- The texts of the elements of an array. -/
def writeItems : List Json → List String
  | [] => []
  | item :: rest => item.write :: writeItems rest

/-- The texts of the members of an object. -/
def writeMembers : List (String × Json) → List String
  | [] => []
  | (key, value) :: rest => (Text.jsonString key ++ ":" ++ value.write) :: writeMembers rest

end

/-- The value of a member of an object. -/
def get? (name : String) : Json → Option Json
  | obj members => members.lookup name
  | _ => none

end Json

end ListScript
