import ListScript.Path.Basic
import ListScript.Number.Decimal
import ListScript.Text.Blank
import ListScript.Text.Digit

/-!
# Reading paths

The grammar of a path is

    path    := first rest*
    first   := name | bracket
    rest    := '.' name | bracket
    name    := one or more characters other than '.', '[', ']'
    bracket := '[' quoted ']' | '[' bare ']'

An unquoted piece made of digits is an index. A first name `this` or `$` outside brackets selects the root. Inside a
quoted bracket a backslash may stand before any character but a line break. Where the text allows several readings of
a quoted bracket, the reader takes a backslash together with the character after it if it can, a single character if
not, and the closing quote last.
-/

namespace ListScript.Path

/-- Why a text is not a path. -/
inductive Fault where
  /-- it is empty, or no text at all -/
  | empty
  /-- a dot with no name after it -/
  | emptyName (offset : Nat)
  /-- a bracket that does not close properly -/
  | badBracket (offset : Nat)
  /-- a character that can start no segment -/
  | unexpected (c : Char) (offset : Nat)
  /-- a piece made of digits that denote no number -/
  | badDigits (piece : String)
  /-- a piece with more digits than a number may have -/
  | tooManyDigits (count : Nat)
  deriving DecidableEq

/-- Whether a character can be part of an unquoted name. -/
def inName (c : Char) : Bool := !(c == '.' || c == '[' || c == ']')

/-- Whether a character can be part of an unquoted bracket. -/
def inBare (c : Char) : Bool := !(c == ']' || c == '"' || c == '\x27')

/-- The segment that an unquoted piece stands for: an index if it is made of digits, else a name. -/
def segmentOf (piece : List Char) : Except Fault Segment :=
  if Text.allDigits piece then
    let run := piece.takeWhile fun c => (Text.decimal? c).isSome
    if maxIntegerDigits < run.length then .error (.tooManyDigits run.length)
    else
      match Text.readDecimal 0 piece with
      | some n => .ok (.index n)
      | none => .error (.badDigits (String.ofList piece))
  else .ok (.name (String.ofList piece))

/-- The text between quotes `q` up to a quote with a closing bracket after it, and what follows the bracket. -/
def quotedPart (q : Char) : List Char → Option (List Char × List Char)
  | [] => none
  | [_] => none
  | c :: d :: rest =>
    match if c == '\\' && d != '\n' then quotedPart q rest else none with
    | some (part, after) => some (c :: d :: part, after)
    | none =>
      if c == q then (if d == ']' then some ([], rest) else none)
      else if c == '\n' then none
      else (quotedPart q (d :: rest)).map fun (part, after) => (c :: part, after)

/-- A quoted text with each backslash dropped that stands before another character. -/
def unescape : List Char → List Char
  | [] => []
  | [c] => [c]
  | c :: d :: rest => if c == '\\' && d != '\n' then d :: unescape rest else c :: unescape (d :: rest)

/-- What stands in a bracket. -/
inductive Bracket where
  | quoted (part : List Char)
  | bare (part : List Char)

/-- The segment that a bracket stands for. -/
def Bracket.segment : Bracket → Except Fault Segment
  | quoted part => .ok (.name (String.ofList (unescape part)))
  | bare part => segmentOf (Text.trim part)

/-- Reads a bracket after its opening character, and what follows it. -/
def bracket (cs : List Char) : Option (Bracket × List Char) :=
  match cs with
  | [] => none
  | c :: rest =>
    if c == '"' || c == '\x27' then (quotedPart c rest).map fun (part, after) => (.quoted part, after)
    else
      match cs.dropWhile inBare with
      | ']' :: after => if (cs.takeWhile inBare).isEmpty then none else some (.bare (cs.takeWhile inBare), after)
      | _ => none

theorem length_quotedPart {q : Char} {cs part after : List Char} (h : quotedPart q cs = some (part, after)) :
    after.length < cs.length := by
  fun_induction quotedPart q cs generalizing part after <;> grind [Option.map_eq_some_iff]

theorem length_dropWhile_le (p : Char → Bool) (cs : List Char) : (cs.dropWhile p).length ≤ cs.length :=
  (List.dropWhile_suffix p).length_le

theorem length_bracket {cs after : List Char} {b : Bracket} (h : bracket cs = some (b, after)) :
    after.length < cs.length := by
  cases cs with
  | nil => cases h
  | cons c rest =>
    rw [bracket] at h
    split at h
    · obtain ⟨⟨part, _⟩, hp, he⟩ := Option.map_eq_some_iff.1 h
      cases he
      exact Nat.lt_succ_of_lt (length_quotedPart hp)
    · have hle := length_dropWhile_le inBare (c :: rest)
      grind

/-- The segments that the rest of a text spells, `offset` characters after its start. -/
def scan (offset : Nat) : List Char → Except Fault (List Segment)
  | [] => .ok []
  | (c : Char) :: rest =>
    if c = '.' then
      let piece := rest.takeWhile inName
      if offset = 0 || piece.isEmpty then .error (.emptyName offset)
      else do
        let segment ← segmentOf piece
        let more ← scan (offset + 1 + piece.length) (rest.dropWhile inName)
        return segment :: more
    else if c = '[' then
      match h : bracket rest with
      | none => .error (.badBracket offset)
      | some (b, after) => do
        let segment ← b.segment
        let more ← scan (offset + 1 + (rest.length - after.length)) after
        return segment :: more
    else if offset ≠ 0 || c = ']' then .error (.unexpected c offset)
    else do
      let segment ← segmentOf (c :: rest.takeWhile inName)
      let more ← scan (offset + 1 + (rest.takeWhile inName).length) (rest.dropWhile inName)
      return segment :: more
  termination_by cs => cs.length
  decreasing_by
    · exact Nat.lt_succ_of_le (length_dropWhile_le inName rest)
    · exact Nat.lt_succ_of_lt (length_bracket h)
    · exact Nat.lt_succ_of_le (length_dropWhile_le inName rest)

/-- The root that a list of segments selects, and the segments below it. -/
def rooted (bracketed : Bool) : List Segment → Root × List Segment
  | .name "this" :: rest => if bracketed then (.scope, .name "this" :: rest) else (.this, rest)
  | .name "$" :: rest => if bracketed then (.scope, .name "$" :: rest) else (.lastValue, rest)
  | segments => (.scope, segments)

/-- Reads a path. -/
def parse (text : String) : Except Fault Path := do
  if text.isEmpty then throw .empty
  let segments ← scan 0 text.toList
  let (root, below) := rooted (text.toList.head? == some '[') segments
  return ⟨root, below, text⟩

end ListScript.Path
