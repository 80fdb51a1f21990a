import ApiPage.Text.Blank

/-!
# Whole numbers written in any script

`NumeralForm.read?` reads a whole number as a person may type it: space around it, a sign, the decimal
digits of any script, and single underscores between digits. A number of too many digits is neither
read nor written; which space counts and how many digits are too many is the `NumeralForm`.
-/

namespace ApiPage.Text

/-- The zeros of the scripts that have decimal digits; the other nine digits follow each. -/
def scriptZeros : List Nat :=
  [0x30, 0x660, 0x6F0, 0x7C0, 0x966, 0x9E6, 0xA66, 0xAE6, 0xB66, 0xBE6, 0xC66, 0xCE6, 0xD66, 0xDE6,
   0xE50, 0xED0, 0xF20, 0x1040, 0x1090, 0x17E0, 0x1810, 0x1946, 0x19D0, 0x1A80, 0x1A90, 0x1B50,
   0x1BB0, 0x1C40, 0x1C50, 0xA620, 0xA8D0, 0xA900, 0xA9D0, 0xA9F0, 0xAA50, 0xABF0, 0xFF10, 0x104A0,
   0x10D30, 0x11066, 0x110F0, 0x11136, 0x111D0, 0x112F0, 0x11450, 0x114D0, 0x11650, 0x116C0,
   0x11730, 0x118E0, 0x11950, 0x11C50, 0x11D50, 0x11DA0, 0x16A60, 0x16AC0, 0x16B50, 0x1D7CE,
   0x1D7D8, 0x1D7E2, 0x1D7EC, 0x1D7F6, 0x1E140, 0x1E2F0, 0x1E950, 0x1FBF0]

/-- The value of a decimal digit. -/
def digitValue? (c : Char) : Option Nat :=
  (scriptZeros.find? fun z => z ≤ c.toNat && c.toNat < z + 10).map (c.toNat - ·)

/-- The digits of a number after those that make `acc`: underscores stand singly and between two
digits. `fresh` tells that a digit must come next. -/
def readDigits (acc : Nat) (fresh : Bool) : List Char → Option Nat
  | [] => if fresh then none else some acc
  | c :: cs =>
    if c = '_' then (if fresh then none else readDigits acc true cs)
    else match digitValue? c with
      | none => none
      | some d => readDigits (acc * 10 + d) false cs

/-- A whole number behind its sign, if it has one. -/
def readSigned : List Char → Option Int
  | '-' :: cs => (readDigits 0 true cs).map fun n : Nat => -(n : Int)
  | '+' :: cs => (readDigits 0 true cs).map Int.ofNat
  | cs => (readDigits 0 true cs).map Int.ofNat

/-- The number of digits in a text. -/
def digitCount (cs : List Char) : Nat :=
  cs.countP fun c => (digitValue? c).isSome

/-- The space that may stand around a number: every blank character but the separators U+001C to
U+001F. -/
def isMargin (c : Char) : Bool :=
  let n := c.toNat
  (0x09 ≤ n && n ≤ 0x0D) || n == 0x20 || n == 0x85 || n == 0xA0 || n == 0x1680 ||
    (0x2000 ≤ n && n ≤ 0x200A) || n == 0x2028 || n == 0x2029 || n == 0x202F || n == 0x205F ||
    n == 0x3000

/-- A margin is blank. -/
theorem isBlank_of_isMargin {c : Char} (h : isMargin c = true) : isBlank c = true := by
  simp only [isMargin, isBlank, Bool.or_eq_true, Bool.and_eq_true, decide_eq_true_eq,
    beq_iff_eq] at *
  omega

/-- The most digits that a number may have, the zeros at its front counted. -/
def digitLimit : Nat := 4300

/-- How whole numbers stand in texts: the blank characters that may surround one, and the most digits
that one may have, if there is a most. -/
structure NumeralForm where
  isMargin : Char → Bool
  limit : Option Nat
  isBlank_of_isMargin : ∀ c, isMargin c = true → isBlank c = true

namespace NumeralForm

/-- The form that settings are read in. -/
def usual : NumeralForm :=
  ⟨Text.isMargin, some digitLimit, fun _ => Text.isBlank_of_isMargin⟩

/-- May a number have so many digits? -/
def admits (form : NumeralForm) (digits : Nat) : Bool :=
  form.limit.all (digits ≤ ·)

/-- A text without the margins on its two sides. -/
def dropMargins (form : NumeralForm) (cs : List Char) : List Char :=
  ((cs.dropWhile form.isMargin).reverse.dropWhile form.isMargin).reverse

/-- The whole number that a text spells, if it spells one with no more digits than are allowed. -/
def read? (form : NumeralForm) (s : String) : Option Int :=
  if form.admits (digitCount s.toList) then readSigned (form.dropMargins s.toList) else none

/-- A whole number in decimal digits, if it has no more of them than are allowed. -/
def write? (form : NumeralForm) (n : Int) : Option String :=
  if form.admits (Nat.toDigits 10 n.natAbs).length then some (toString n) else none

end NumeralForm

end ApiPage.Text
