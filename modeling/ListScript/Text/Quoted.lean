import ListScript.Text.Printable

/-!
# Quoted text

Two ways to write a text between quotes. `quoteJson` is a string of a JSON document: only the quote, the backslash
and the control characters are escaped. `quoteLiteral` is the form used where a message shows a value: it picks the
quote that needs no escape if there is one, and escapes whatever is not printable by the number of its code point.
`quoteBytes` does the same for a sequence of bytes.
-/

namespace ListScript.Text

/-- The lower-case hexadecimal digit of a number below sixteen. -/
def hexDigit (n : Nat) : Char := Char.ofNat (if n < 10 then 0x30 + n else 0x57 + n)

/-- The last `width` hexadecimal digits of a number. -/
def hexDigits : Nat → Nat → List Char
  | 0, _ => []
  | width + 1, n => hexDigits width (n / 16) ++ [hexDigit (n % 16)]

/-! ## Strings of a JSON document -/

/-- How one character is written inside a JSON string. -/
def escapeJson (c : Char) : List Char :=
  if c = '"' then ['\\', '"']
  else if c = '\\' then ['\\', '\\']
  else if c = '\n' then ['\\', 'n']
  else if c = '\r' then ['\\', 'r']
  else if c = '\t' then ['\\', 't']
  else if c = '\x08' then ['\\', 'b']
  else if c = '\x0c' then ['\\', 'f']
  else if c.toNat < 0x20 then '\\' :: 'u' :: hexDigits 4 c.toNat
  else [c]

/-- A text as a JSON string, with its quotes. -/
def quoteJson (cs : List Char) : List Char :=
  '"' :: cs.flatMap escapeJson ++ ['"']

/-! ## Texts inside messages -/

/-- The quote around a literal: a single quote, unless only that one would have to be escaped. -/
def literalQuote (cs : List Char) : Char :=
  if cs.contains '\'' && !cs.contains '"' then '"' else '\''

/-- How one character is written inside a literal between quotes `q`. -/
def escapeLiteral (q c : Char) : List Char :=
  if c = q || c = '\\' then ['\\', c]
  else if c = '\n' then ['\\', 'n']
  else if c = '\r' then ['\\', 'r']
  else if c = '\t' then ['\\', 't']
  else if isPrintable c then [c]
  else if c.toNat < 0x100 then '\\' :: 'x' :: hexDigits 2 c.toNat
  else if c.toNat < 0x10000 then '\\' :: 'u' :: hexDigits 4 c.toNat
  else '\\' :: 'U' :: hexDigits 8 c.toNat

/-- A text as a literal, with its quotes. -/
def quoteLiteral (cs : List Char) : List Char :=
  let q := literalQuote cs
  q :: cs.flatMap (escapeLiteral q) ++ [q]

/-- How one byte is written inside a byte literal between quotes `q`. -/
def escapeByte (q : Char) (b : UInt8) : List Char :=
  let c := Char.ofNat b.toNat
  if c = q || c = '\\' then ['\\', c]
  else if c = '\n' then ['\\', 'n']
  else if c = '\r' then ['\\', 'r']
  else if c = '\t' then ['\\', 't']
  else if 0x20 ≤ b.toNat && b.toNat < 0x7f then [c]
  else '\\' :: 'x' :: hexDigits 2 b.toNat

/-- A sequence of bytes as a literal. -/
def quoteBytes (bs : List UInt8) : List Char :=
  let q := literalQuote (bs.map fun b => Char.ofNat b.toNat)
  'b' :: q :: bs.flatMap (escapeByte q) ++ [q]

/-! ## Strings -/

/-- `quoteJson` on strings. -/
def jsonString (s : String) : String := String.ofList (quoteJson s.toList)

/-- `quoteLiteral` on strings. -/
def literal (s : String) : String := String.ofList (quoteLiteral s.toList)

end ListScript.Text
