import ApiPage.Text.Str
import ApiPage.Text.Unprintable

/-!
# Quoted text

`quoted` writes a text between quotes so that one glance shows where it ends: the quote in use and
the backslash are escaped, and every character without a glyph is shown by its number, as is a surrogate.
`quotedBytes` does the same for bytes, of which only those of ASCII have a glyph. `shown` is a text as it
stands, but for its surrogates.
-/

namespace ApiPage.Text

/-- A hexadecimal digit below sixteen, in lower case. -/
def hexDigit (n : Nat) : Char :=
  if n < 10 then Char.ofNat (0x30 + n) else Char.ofNat (0x57 + n)

/-- The last `width` hexadecimal digits of a number. -/
def hexDigits : Nat → Nat → List Char
  | 0, _ => []
  | width + 1, n => hexDigits width (n / 16) ++ [hexDigit (n % 16)]

/-- A code point by its number: two digits, four or eight, the fewest that hold it. -/
def numbered (c : CodePoint) : List Char :=
  let n := c.toNat
  if n < 0x100 then '\\' :: 'x' :: hexDigits 2 n
  else if n < 0x10000 then '\\' :: 'u' :: hexDigits 4 n
  else '\\' :: 'U' :: hexDigits 8 n

/-- How a character stands between two `mark`s. -/
def quotedChar (mark c : Char) : List Char :=
  if c = mark ∨ c = '\\' then ['\\', c]
  else if c = '\n' then ['\\', 'n']
  else if c = '\r' then ['\\', 'r']
  else if c = '\t' then ['\\', 't']
  else if isUnprintable c then numbered c
  else [c]

/-- How a code point stands between two `mark`s. -/
def quotedPoint (mark : Char) : CodePoint → List Char
  | .char c => quotedChar mark c
  | .surrogate n => numbered (.surrogate n)

/-- The quote for a text: the double one only where the text holds single ones and no double one. -/
def markFor (cs : List Char) : Char :=
  if cs.contains '\'' && !cs.contains '"' then '"' else '\''

/-- A text between quotes. -/
def quoted (s : Str) : String :=
  let mark := markFor (s.toList.filterMap CodePoint.char?)
  String.ofList (mark :: (s.toList.flatMap (quotedPoint mark) ++ [mark]))

/-- A code point as it stands, a surrogate by its number. -/
def shownPoint : CodePoint → List Char
  | .char c => [c]
  | .surrogate n => numbered (.surrogate n)

/-- A text as it stands, its surrogates by their numbers. -/
def shown : Str → String
  | .whole s => s
  | .broken cs _ => String.ofList (cs.flatMap shownPoint)

/-- How a byte stands between two `mark`s. -/
def quotedByte (mark c : Char) : List Char :=
  if c.toNat < 0x80 then quotedChar mark c else numbered c

/-- Bytes between quotes. -/
def quotedBytes (bytes : List UInt8) : String :=
  let cs := bytes.map fun b => Char.ofNat b.toNat
  let mark := markFor cs
  String.ofList ('b' :: mark :: (cs.flatMap (quotedByte mark) ++ [mark]))

end ApiPage.Text
