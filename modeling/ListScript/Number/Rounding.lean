import ListScript.Number.Double

/-!
# Rounding to a floating-point number

`Double.ofRatio` rounds a ratio of natural numbers to the nearest floating-point number, a tie going to the one with an
even fraction. It scales the ratio so that its integer part has 53 bits, or fewer where the format has no smaller unit,
and rounds that part (`Double.roundDiv`).
-/

namespace ListScript.Double

/-- The largest integer `e` with `2 ^ e ≤ num / den`, for positive `num` and `den`. -/
def binaryExponent (num den : Nat) : Int :=
  let e : Int := (num.log2 : Int) - den.log2
  if den * Nat.pow 2 e.toNat ≤ num * Nat.pow 2 (-e).toNat then e else e - 1

/-- The nearest integer to `num / den`, a tie going to the even one. -/
def roundDiv (num den : Nat) : Nat :=
  let floor := num / den
  let rest := num % den
  if den < 2 * rest || (den == 2 * rest && floor % 2 == 1) then floor + 1 else floor

/-- The pattern of `± m · 2 ^ q` for `m` up to `2 ^ 53`, an infinity if it is too large. -/
def assemble (negative : Bool) (m : Nat) (q : Int) : Double :=
  let (m, q) := if m = Nat.pow 2 53 then (Nat.pow 2 52, q + 1) else (m, q)
  if m < Nat.pow 2 52 then ofFields negative 0 m
  else if 972 ≤ q then infinity negative
  else ofFields negative (q + 1075).toNat (m - Nat.pow 2 52)

/-- The floating-point number nearest to `± num / den`, for a positive `den`. -/
def ofRatio (negative : Bool) (num den : Nat) : Double :=
  if num = 0 then ofFields negative 0 0
  else
    let q := max (binaryExponent num den - 52) (-1074)
    assemble negative (roundDiv (num * Nat.pow 2 (-q).toNat) (den * Nat.pow 2 q.toNat)) q

end ListScript.Double
