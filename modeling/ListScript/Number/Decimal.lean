import ListScript.Number.Rounding
import ListScript.Number.Shortest

/-!
# Decimals and integers as text

`Double.ofDecimal` rounds `± c · 10 ^ k` to the nearest floating-point number, a tie going to the even one;
`Double.read` takes the decimal from a text. `integerText` is the decimal form of an integer, which exists only up to
a limit on the number of digits.
-/

namespace ListScript

/-- The value of a text of ASCII digits. -/
def digitsValue (cs : List Char) : Nat := cs.foldl (fun acc c => 10 * acc + (c.toNat - 0x30)) 0

namespace Double

/-- The floating-point number nearest to `± c · 10 ^ k`. -/
def ofDecimal (negative : Bool) (c : Nat) (k : Int) : Double :=
  let lead : Int := (decimalDigits c).length + k
  if c = 0 || lead < -400 then ofFields negative 0 0
  else if 400 < lead then infinity negative
  else ofRatio negative (c * Nat.pow 10 k.toNat) (Nat.pow 10 (-k).toNat)

/-- A decimal exponent: a sign and digits. -/
def readExponent (cs : List Char) : Option Int :=
  let (negative, digits) :=
    match cs with
    | '-' :: rest => (true, rest)
    | '+' :: rest => (false, rest)
    | rest => (false, rest)
  if digits.isEmpty || !digits.all Char.isDigit then none else some (signed negative (digitsValue digits))

/-- Reads an unsigned decimal: digits, an optional fraction and an optional exponent. -/
def readUnsigned (negative : Bool) (cs : List Char) : Option Double :=
  let whole := cs.takeWhile Char.isDigit
  let rest := cs.dropWhile Char.isDigit
  let (fraction, rest) :=
    match rest with
    | '.' :: rest => (rest.takeWhile Char.isDigit, rest.dropWhile Char.isDigit)
    | rest => ([], rest)
  let exponent :=
    match rest with
    | [] => some 0
    | 'e' :: rest => readExponent rest
    | 'E' :: rest => readExponent rest
    | _ => none
  if whole.isEmpty && fraction.isEmpty then none
  else exponent.map fun e => ofDecimal negative (digitsValue (whole ++ fraction)) (e - fraction.length)

/-- Reads a floating-point number. -/
def read (text : String) : Option Double :=
  let (negative, body) :=
    match text.toList with
    | '-' :: rest => (true, rest)
    | '+' :: rest => (false, rest)
    | rest => (false, rest)
  let word := String.ofList (body.map Char.toLower)
  if word == "nan" then some (nan 0)
  else if word == "inf" || word == "infinity" then some (infinity negative)
  else readUnsigned negative body

end Double

/-- The most decimal digits an integer can have and still be turned to or from text. -/
def maxIntegerDigits : Nat := 4300

/-- The decimal form of an integer. -/
def integerText (n : Int) : String :=
  if n < 0 then "-" ++ String.ofList (decimalDigits n.natAbs) else String.ofList (decimalDigits n.natAbs)

/-- Whether an integer has a decimal form. -/
def hasIntegerText (n : Int) : Bool := n.natAbs < Nat.pow 10 maxIntegerDigits

end ListScript
