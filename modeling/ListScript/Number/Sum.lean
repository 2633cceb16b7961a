import ListScript.Number.Rounding

/-!
# Sums of floating-point numbers

The sum of two floating-point numbers is their exact sum, rounded once: both are brought to the smaller of their units
and added as integers. A zero sum is negative only if both summands are, and infinities of opposite signs have no sum.
-/

namespace ListScript.Double

/-- The floating-point number nearest to an integer; there is none if the integer is too large. -/
def ofInt? (n : Int) : Option Double :=
  let d := ofRatio (n < 0) n.natAbs 1
  match d.decode with
  | .infinite _ => none
  | _ => some d

/-- The number with the opposite sign. -/
def neg (d : Double) : Double := { d with bits := d.bits ^^^ 0x8000000000000000 }

/-- The sum of two numbers; there is none if it is not a number. -/
def add? (a b : Double) : Option Double :=
  match a.decode, b.decode with
  | .nan, _ => none
  | _, .nan => none
  | .infinite x, .infinite y => if x = y then some a else none
  | .infinite _, .finite .. => some a
  | .finite .., .infinite _ => some b
  | .finite x m q, .finite y n r =>
    let unit := min q r
    let sum := signed x (m * Nat.pow 2 (q - unit).toNat) + signed y (n * Nat.pow 2 (r - unit).toNat)
    let negative := if sum = 0 then x && y else sum < 0
    some (ofRatio negative (sum.natAbs * Nat.pow 2 unit.toNat) (Nat.pow 2 (-unit).toNat))

end ListScript.Double
