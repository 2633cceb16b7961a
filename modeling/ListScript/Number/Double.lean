/-!
# Binary floating-point numbers

A `Double` is a 64-bit pattern: a sign, an exponent of eleven bits and a fraction of 52. A finite one stands for
`± m · 2 ^ q` (`Double.decode`), so comparison with integers is exact integer arithmetic. What is not a number has one
pattern; a tag beside the pattern tells two occurrences of it apart and is never shown.
-/

namespace ListScript

/-- `n` with the given sign. -/
def signed (negative : Bool) (n : Nat) : Int := if negative then -(n : Int) else n

/-- A binary floating-point number, as its bit pattern. -/
structure Double where
  bits : UInt64
  /-- which occurrence it is, of what is not a number -/
  tag : Nat
  deriving DecidableEq

namespace Double

/-- What a bit pattern stands for. -/
inductive Decoded where
  /-- not a number -/
  | nan
  /-- an infinity, with its sign -/
  | infinite (negative : Bool)
  /-- the number `± m · 2 ^ q` -/
  | finite (negative : Bool) (m : Nat) (q : Int)
  deriving DecidableEq

/-- The number that a bit pattern stands for. -/
def decode (d : Double) : Decoded :=
  let n := d.bits.toNat
  let negative := n / Nat.pow 2 63 == 1
  let exponent : Nat := n / Nat.pow 2 52 % Nat.pow 2 11
  let fraction : Nat := n % Nat.pow 2 52
  if exponent = 2047 then
    if fraction = 0 then .infinite negative else .nan
  else if exponent = 0 then .finite negative fraction (-1074)
  else .finite negative (Nat.pow 2 52 + fraction) ((exponent : Int) - 1075)

/-- The pattern with the given fields. -/
def ofFields (negative : Bool) (exponent fraction : Nat) : Double :=
  ⟨((if negative then Nat.pow 2 63 else 0) + exponent * Nat.pow 2 52 + fraction).toUInt64, 0⟩

/-- The infinity of a sign. -/
def infinity (negative : Bool) : Double := ofFields negative 2047 0

/-- The `k`-th occurrence of what is not a number. -/
def nan (k : Nat) : Double := { ofFields false 2047 (Nat.pow 2 51) with tag := k }

/-- Numeric equality with an integer, exact for integers of any size. -/
def eqInt (d : Double) (n : Int) : Bool :=
  match d.decode with
  | .finite negative m q => signed negative (m * Nat.pow 2 q.toNat) == n * (Nat.pow 2 (-q).toNat : Nat)
  | _ => false

/-- Numeric equality: the two zeros are equal, and what is not a number equals nothing. -/
def eq (a b : Double) : Bool :=
  match a.decode, b.decode with
  | .nan, _ => false
  | _, .nan => false
  | .finite _ 0 _, .finite _ 0 _ => true
  | _, _ => a.bits == b.bits

/-- Whether the number is a zero of either sign. -/
def isZero (d : Double) : Bool :=
  match d.decode with
  | .finite _ 0 _ => true
  | _ => false

/-- Whether the pattern is not a number. -/
def isNan (d : Double) : Bool := d.decode == .nan

end Double

end ListScript
