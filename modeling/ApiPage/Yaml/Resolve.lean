import ApiPage.Json
import ApiPage.ScalarFault
import ApiPage.Text.Pieces

/-!
# What plain scalars stand for

A plain scalar is null, a truth value, a number, a day or a moment if it has the form of one, and else
a text. The forms of numbers allow underscores between digits, other bases by their marks, and places
of sixty between colons. A scalar that has such a form and is none of its kind stands for nothing.
-/

namespace ApiPage.Yaml

/-! ### Words -/

/-- The words for null; the empty scalar is null too. -/
def nullWords : List String := ["", "~", "null", "Null", "NULL"]

/-- The words for truth values. -/
def boolWords : List (String × Bool) :=
  [("yes", true), ("Yes", true), ("YES", true), ("no", false), ("No", false), ("NO", false),
   ("true", true), ("True", true), ("TRUE", true), ("false", false), ("False", false),
   ("FALSE", false), ("on", true), ("On", true), ("ON", true), ("off", false), ("Off", false),
   ("OFF", false)]

/-- The words for numbers that no digits spell, without a sign. -/
def infinityWords : List String := [".inf", ".Inf", ".INF"]

/-- The words for the number that is none. -/
def nanWords : List String := [".nan", ".NaN", ".NAN"]

/-! ### Numbers -/

/-- A sign at the front of a scalar: is it a minus? -/
def sign (cs : List Char) : Bool × List Char :=
  match cs with
  | '-' :: rest => (true, rest)
  | '+' :: rest => (false, rest)
  | _ => (false, cs)

/-- A digit or an underscore. -/
def isDigitOrBar (c : Char) : Bool := c.isDigit || c == '_'

/-- The characters without their underscores. -/
def dropBars (cs : List Char) : List Char := cs.filter (· != '_')

/-- The number that digits of a base spell. -/
def ofDigits (base : Nat) (cs : List Char) : Nat :=
  cs.foldl (fun n c => n * base + (Json.hexValue? c).getD 0) 0

/-- The number that digits of a base spell; there has to be one. -/
def inBase (base : Nat) (cs : List Char) : Except ScalarFault Nat :=
  match dropBars cs with
  | [] => .error (.noDigits base)
  | ds => .ok (ofDigits base ds)

/-- The number that decimal digits spell; there may not be too many. -/
def decimal (cs : List Char) : Except ScalarFault Nat :=
  let ds := dropBars cs
  if Text.digitLimit < ds.length then .error (.tooManyDigits ds.length) else .ok (ofDigits 10 ds)

/-- A place of sixty: one digit, or two below sixty. -/
def isSixtieth (cs : List Char) : Bool :=
  match cs with
  | [d] => d.isDigit
  | [t, d] => '0' ≤ t && t ≤ '5' && d.isDigit
  | _ => false

/-- Digits and underscores that begin with a digit. -/
def isDigits (cs : List Char) : Bool :=
  match cs with
  | [] => false
  | c :: rest => c.isDigit && rest.all isDigitOrBar

/-- The number of places of sixty, the greatest first. -/
def sixtieths (first : Nat) (parts : List (List Char)) : Nat :=
  parts.foldl (fun n p => n * 60 + ofDigits 10 p) first

/-- A whole number without its sign, if the text has the form of one. -/
def wholeNumber? (cs : List Char) : Option (Except ScalarFault Nat) :=
  match cs with
  | ['0'] => some (.ok 0)
  | '0' :: 'b' :: ds =>
    if ds.isEmpty || !ds.all (fun c => c == '0' || c == '1' || c == '_') then none
    else some (inBase 2 ds)
  | '0' :: 'x' :: ds =>
    if ds.isEmpty || !ds.all (fun c => (Json.hexValue? c).isSome || c == '_') then none
    else some (inBase 16 ds)
  | '0' :: ds =>
    if ds.all fun c => ('0' ≤ c && c ≤ '7') || c == '_' then some (.ok (ofDigits 8 (dropBars ds)))
    else none
  | _ =>
    match cs.splitOn ':' with
    | [ds] => if isDigits ds then some (decimal ds) else none
    | first :: rest =>
      if isDigits first && rest.all isSixtieth then
        some ((decimal first).map fun n => sixtieths n rest)
      else none
    | [] => none

/-- An exponent: nothing, or a mark, a sign and digits. -/
def exponent? (cs : List Char) : Option Int :=
  match cs with
  | [] => some 0
  | e :: s :: ds =>
    if (e == 'e' || e == 'E') && (s == '+' || s == '-') && !ds.isEmpty && ds.all Char.isDigit then
      let n : Int := ofDigits 10 ds
      some (if s == '-' then -n else n)
    else none
  | _ => none

/-- A number from the digits before and after its point and its exponent. -/
def ofParts (negative : Bool) (whole frac : List Char) (power : Int) : Binary64 :=
  let frac := dropBars frac
  .ofDecimal negative (ofDigits 10 (dropBars whole ++ frac)) (power - frac.length)

/-- A number of places of sixty, the least first; the power, the product and the sum of every place
are rounded. -/
def sixtiethsWithPoint (last : Binary64) (places : List (List Char)) : Except ScalarFault Binary64 :=
  match Binary64.sixtyTo places.length with
  | .infinite _ => .error .tooManyPlaces
  | _ =>
    .ok ((places.zipIdx 1).foldl
      (fun sum e => sum.plus ((ofParts false e.1 [] 0).times (Binary64.sixtyTo e.2))) last)

/-- A number with a point, without its sign; `signed` tells that it had one. -/
def pointNumber? (signed : Bool) (negative : Bool) (cs : List Char) :
    Option (Except ScalarFault Binary64) :=
  let whole := cs.takeWhile (· != '.')
  match cs.dropWhile (· != '.') with
  | [] => none
  | _ :: rest =>
    let frac := rest.takeWhile isDigitOrBar
    let tail := rest.dropWhile isDigitOrBar
    match whole with
    | [] =>
      if signed || !isDigits frac then none
      else (exponent? tail).map fun e => .ok (ofParts negative [] frac e)
    | _ =>
      if isDigits whole then (exponent? tail).map fun e => .ok (ofParts negative whole frac e)
      else
        match whole.splitOn ':' with
        | first :: p :: ps =>
          if isDigits first && (p :: ps).all isSixtieth && tail.isEmpty then
            let places := (first :: p :: ps).reverse
            let last := ofParts false (places.headD []) frac 0
            some ((sixtiethsWithPoint last (places.drop 1)).map fun x =>
              if negative then x.neg else x)
          else none
        | _ => none

/-! ### Days and moments -/

/-- The number at the front of a text, of no fewer digits than `least` and no more than `most`, and
the text after it. -/
def number? (least most : Nat) (cs : List Char) : Option (Nat × List Char) :=
  let ds := cs.takeWhile Char.isDigit
  if least ≤ ds.length ∧ ds.length ≤ most then some (ofDigits 10 ds, cs.drop ds.length) else none

/-- The text after a character at its front. -/
def after? (c : Char) : List Char → Option (List Char)
  | [] => none
  | x :: xs => if x = c then some xs else none

/-- Three numbers with a character between, each of no fewer digits than it has to have and no more
than it may have, and the text after them. -/
def three? (c : Char) (first second third : Nat × Nat) (cs : List Char) :
    Option ((Nat × Nat × Nat) × List Char) := do
  let (x, cs) ← number? first.1 first.2 cs
  let (y, cs) ← number? second.1 second.2 (← after? c cs)
  let (z, cs) ← number? third.1 third.2 (← after? c cs)
  some ((x, y, z), cs)

/-- Is a character a blank within a line? -/
def isGap (c : Char) : Bool := c == ' ' || c == '\t'

/-- A zone at the end of a text: nothing, the mark of universal time, or hours and perhaps minutes
behind a sign. -/
def zone? (cs : List Char) : Option (Option Int) :=
  match cs, cs.dropWhile isGap with
  | [], _ => some none
  | _, ['Z'] => some (some 0)
  | _, s :: rest =>
    if s = '+' ∨ s = '-' then do
      let (hours, rest) ← number? 1 2 rest
      let minutes ← match rest with
        | [] => some 0
        | _ => do
          let (minutes, rest) ← number? 2 2 (← after? ':' rest)
          if rest.isEmpty then some minutes else none
      let ahead : Int := hours * 60 + minutes
      some (some (if s = '-' then -ahead else ahead))
    else none
  | _, [] => none

/-- The microseconds of a fraction of a second; further digits do not count. -/
def micros (ds : List Char) : Nat :=
  ofDigits 10 ((ds ++ List.replicate 6 '0').take 6)

/-- A time of day with its zone, the day being known. -/
def timeOf? (day : Day) (cs : List Char) : Option Moment := do
  let ((hour, minute, second), cs) ← three? ':' (1, 2) (2, 2) (2, 2) cs
  let (fraction, cs) := match cs with
    | '.' :: rest => (rest.takeWhile Char.isDigit, rest.dropWhile Char.isDigit)
    | _ => ([], cs)
  let zone ← zone? cs
  some ⟨day, hour, minute, second, micros fraction, zone⟩

/-- The form of a day: four digits, two and two. -/
def day? (cs : List Char) : Option Day :=
  match three? '-' (4, 4) (2, 2) (2, 2) cs with
  | some ((y, m, d), []) => some ⟨y, m, d⟩
  | _ => none

/-- The form of a moment: a day whose month and day may have one digit, a `T` or blanks, and a time. -/
def moment? (cs : List Char) : Option Moment :=
  match three? '-' (4, 4) (1, 2) (1, 2) cs with
  | some ((y, m, d), c :: rest) =>
    if c = 'T' ∨ c = 't' then timeOf? ⟨y, m, d⟩ rest
    else if isGap c then timeOf? ⟨y, m, d⟩ (rest.dropWhile isGap)
    else none
  | _ => none

/-- What the form of a day or a moment stands for, if it has no fault. -/
def faultless (fault : Option CalendarFault) (s : Scalar) : Except ScalarFault Scalar :=
  match fault with
  | some f => .error (.calendar f)
  | none => .ok s

/-- The day or the moment of which a text has the form. -/
def calendar? (cs : List Char) : Option (Except ScalarFault Scalar) :=
  match day? cs with
  | some d => some (faultless d.fault? (.date d))
  | none => (moment? cs).map fun m => faultless m.fault? (.moment m)

/-! ### All forms -/

/-- What a plain scalar stands for. -/
def resolveWhole (s : String) : Except ScalarFault Scalar :=
  let cs := s.toList
  let (negative, digits) := sign cs
  let signed := digits.length != cs.length
  if nullWords.contains s then .ok .null
  else match boolWords.lookup s with
    | some b => .ok (.bool b)
    | none =>
      if infinityWords.contains (String.ofList digits) then .ok (.float (.infinite negative))
      else if nanWords.contains s then .ok (.float .nan)
      else match wholeNumber? digits with
        | some n => n.map fun n => .int (if negative then -(n : Int) else n)
        | none =>
          match pointNumber? signed negative digits with
          | some x => x.map .float
          | none => (calendar? cs).getD (.ok (.text s))

/-- What a plain scalar stands for; no other data is written with a surrogate. -/
def resolve : Str → Except ScalarFault Scalar
  | .whole s => resolveWhole s
  | s => .ok (.text s)

end ApiPage.Yaml
