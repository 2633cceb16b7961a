/-!
# Text

Texts are handled as lists of characters. The character classes of the following modules are sets of code points,
written as closed ranges in increasing order; `inRanges` looks a code point up and stops at the first range that starts
above it.
-/

namespace ListScript.Text

/-- Whether a code point lies in one of the closed ranges of an increasing table. -/
def inRanges : List (Nat × Nat) → Nat → Bool
  | [], _ => false
  | (low, high) :: rest, n => if n < low then false else n ≤ high || inRanges rest n

/-- Whether a text begins with another. -/
def beginsWith (text start : String) : Bool := start.toList.isPrefixOf text.toList

/-- Whether a text is a part of another. -/
def occursIn (part text : String) : Bool := go part.toList text.toList
where
  /-- Looks for the part from each character on, and after the last. -/
  go (part : List Char) : List Char → Bool
    | [] => part.isEmpty
    | c :: rest => part.isPrefixOf (c :: rest) || go part rest

/-- The part of a text from one bound up to another, negative bounds counting from the end; there is none if the bounds
cross. -/
def part (text : String) (start stop : Option Int) : Option String :=
  let cs := text.toList
  let length : Int := cs.length
  let place (i : Int) : Int := if i < 0 then max 0 (i + length) else i
  let first := place (start.getD 0)
  let last := min length (place (stop.getD length))
  if last < first then none else some (String.ofList ((cs.take last.toNat).drop first.toNat))

end ListScript.Text
