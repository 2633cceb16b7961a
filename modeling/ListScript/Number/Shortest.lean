import ListScript.Number.Double

/-!
# The shortest decimal of a floating-point number

`shortest m q` is the decimal `c · 10 ^ k` with the fewest digits among those that are nearer to `m · 2 ^ q` than to
any other number of the format, and the nearest of those, a tie going to the even one. It tries grids of 1, 2, … 17
digits; on each only the two neighbours of the number can be a hit. `Double.text` lays the digits out: positionally
while the leading digit's exponent is from -4 to 15, and with an exponent of at least two digits otherwise.
-/

namespace ListScript

/-- The decimal digits of a number. -/
def decimalDigits (n : Nat) : List Char := Nat.toDigits 10 n

namespace Double

/-- The exponent of the leading decimal digit of `m · 2 ^ q`, for a positive `m` and `q ≥ -1074`. -/
def leadingExponent (m : Nat) (q : Int) : Int :=
  let scaled := m * Nat.pow 2 q.toNat * Nat.pow 10 350 / Nat.pow 2 (-q).toNat
  (decimalDigits scaled).length - 351

/-- Whether the number below `m · 2 ^ q` is only half as far away as the one above. -/
def atBinade (m : Nat) (q : Int) : Bool := m == Nat.pow 2 52 && q != -1074

/-- The nearest multiple of `10 ^ k` that rounds to `m · 2 ^ q`, if there is one, as a multiple of `10 ^ k`. -/
def hit? (m : Nat) (q k : Int) : Option Nat :=
  let up := Nat.pow 2 (q - 2).toNat * Nat.pow 10 (-k).toNat
  let unit := Nat.pow 2 (2 - q).toNat * Nat.pow 10 k.toNat
  let value := 4 * m * up
  let low := (4 * m - if atBinade m q then 1 else 2) * up
  let high := (4 * m + 2) * up
  let inside (c : Nat) : Bool :=
    if m % 2 == 0 then low ≤ c * unit && c * unit ≤ high else low < c * unit && c * unit < high
  let below := value / unit
  let above := below + 1
  match inside below, inside above with
  | true, true =>
    let excess := 2 * (value - below * unit)
    some (if excess < unit || (excess == unit && below % 2 == 0) then below else above)
  | true, false => some below
  | false, true => some above
  | false, false => none

/-- The first hit on grids of `n`, `n + 1`, … digits, `fuel` of them. -/
def firstHit (m : Nat) (q lead : Int) : Nat → Nat → Option (Nat × Int)
  | 0, _ => none
  | fuel + 1, n =>
    let k := lead - n + 1
    match hit? m q k with
    | some c => some (c, k)
    | none => firstHit m q lead fuel (n + 1)

/-- The shortest decimal `c · 10 ^ k` that rounds to `m · 2 ^ q`, for a positive `m`. -/
def shortest (m : Nat) (q : Int) : Nat × Int :=
  (firstHit m q (leadingExponent m q) 17 1).getD (m, q)

/-- The least and the first too large exponent of the leading digit that is written positionally. -/
def positionalExponents : Int × Int := (-4, 16)

/-- Digits and the exponent of the first of them, as text. -/
def layout (digits : List Char) (exponent : Int) : List Char :=
  if positionalExponents.1 ≤ exponent && exponent < positionalExponents.2 then
    if exponent < 0 then
      ['0', '.'] ++ List.replicate (-exponent - 1).toNat '0' ++ digits
    else
      let whole := exponent.toNat + 1
      let rest := digits.drop whole
      digits.take whole ++ List.replicate (whole - digits.length) '0' ++ ['.'] ++ (if rest.isEmpty then ['0'] else rest)
  else
    let mantissa :=
      match digits with
      | first :: second :: rest => first :: '.' :: second :: rest
      | short => short
    let power := decimalDigits exponent.natAbs
    mantissa ++ ['e', if exponent < 0 then '-' else '+'] ++ List.replicate (2 - power.length) '0' ++ power

/-- The text of a floating-point number. -/
def text (d : Double) : List Char :=
  match d.decode with
  | .nan => "nan".toList
  | .infinite negative => (if negative then "-inf" else "inf").toList
  | .finite negative m q =>
    let body :=
      if m = 0 then "0.0".toList
      else
        let (c, k) := shortest m q
        let digits := decimalDigits c
        let significant := (digits.reverse.dropWhile (· == '0')).reverse
        layout significant (digits.length - 1 + k)
    if negative then '-' :: body else body

end Double

end ListScript
