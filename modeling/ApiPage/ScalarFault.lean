import ApiPage.Calendar
import ApiPage.Text.Numeral

/-!
# Scalars that stand for nothing

What is written in a document may have the form of a number, a day or a character and yet be none, or
be a number for which no text can be made. `ScalarFault.message` is the wording of the reason.
-/

namespace ApiPage

/-- Why something that has the form of a scalar stands for none, or has no text. -/
inductive ScalarFault
  | calendar (fault : CalendarFault)
  /-- A number of a base has a mark for the base and no digit. -/
  | noDigits (base : Nat)
  /-- A whole number has more digits than are allowed. -/
  | tooManyDigits (count : Nat)
  /-- A place of sixty is too high to be counted in floating point. -/
  | tooManyPlaces
  /-- No character has a number. -/
  | noCharacter (code : Nat)
  /-- A whole number has more digits than may be written. -/
  | unwritable
  /-- A text would be longer than can be counted. -/
  | uncountable
  /-- A reader of documents fails in a way of its own. -/
  | foreign (message : String)
  deriving DecidableEq, Repr

namespace ScalarFault

/-- Is a number at fault because it is beyond what can be counted, rather than because of its form? -/
def isOverflow : ScalarFault → Bool
  | .tooManyPlaces => true
  | .noCharacter code => 0x80000000 ≤ code
  | .uncountable => true
  | _ => false

/-- The wording of a fault. -/
def message : ScalarFault → String
  | .calendar fault => fault.message
  | .noDigits base => "invalid literal for int() with base " ++ toString base ++ ": ''"
  | .tooManyDigits count =>
    "Exceeds the limit (" ++ toString Text.digitLimit ++
      " digits) for integer string conversion: value has " ++ toString count ++
        " digits; use sys.set_int_max_str_digits() to increase the limit"
  | .tooManyPlaces => "int too large to convert to float"
  | .noCharacter code =>
    if code < 0x80000000 then "chr() arg not in range(0x110000)"
    else "Python int too large to convert to C int"
  | .unwritable =>
    "Exceeds the limit (" ++ toString Text.digitLimit ++
      " digits) for integer string conversion; use sys.set_int_max_str_digits() to increase the limit"
  | .uncountable => "cannot fit 'int' into an index-sized integer"
  | .foreign message => message

end ScalarFault

end ApiPage
