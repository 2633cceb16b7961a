import ListScript.Text.Basic

/-!
# White space

The white space that is dropped from both ends of an unquoted bracket segment of a path.
-/

namespace ListScript.Text

/-- The code points of white space: the control separators, the space and the wider spaces, the line separators. -/
def blankRanges : List (Nat × Nat) :=
  [
    (0x9, 0xd), (0x1c, 0x20), (0x85, 0x85), (0xa0, 0xa0), (0x1680, 0x1680), (0x2000, 0x200a),
    (0x2028, 0x2029), (0x202f, 0x202f), (0x205f, 0x205f), (0x3000, 0x3000)]

/-- Whether a character is white space. -/
def isBlank (c : Char) : Bool := inRanges blankRanges c.toNat

/-- The text without the white space at its two ends. -/
def trim (cs : List Char) : List Char :=
  ((cs.dropWhile isBlank).reverse.dropWhile isBlank).reverse

end ListScript.Text
