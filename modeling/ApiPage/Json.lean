import ApiPage.ScalarFault
import ApiPage.Value

/-!
# JSON text

`Json.read` reads a text that is one JSON value. The names `NaN`, `Infinity` and `-Infinity` are
numbers, a number with a fraction or an exponent is of floating point and any other a whole number, a
repeated key keeps its first place and its last value, and a string holds no raw control character. A
text that is no JSON is refused at its first fault; `Complaint.message` tells the line and the column.
-/

namespace ApiPage.Json

/-- What is wrong with a text that is no JSON. -/
inductive Flaw
  | expectingValue
  | expectingName
  | expectingColon
  | expectingComma
  | unterminated
  | controlCharacter
  | invalidEscape
  | invalidCode
  | extraData
  | byteOrderMark
  deriving DecidableEq, Repr

/-- The wording of a flaw. -/
def Flaw.message : Flaw → String
  | .expectingValue => "Expecting value"
  | .expectingName => "Expecting property name enclosed in double quotes"
  | .expectingColon => "Expecting ':' delimiter"
  | .expectingComma => "Expecting ',' delimiter"
  | .unterminated => "Unterminated string starting at"
  | .controlCharacter => "Invalid control character at"
  | .invalidEscape => "Invalid \\escape"
  | .invalidCode => "Invalid \\uXXXX escape"
  | .extraData => "Extra data"
  | .byteOrderMark => "Unexpected UTF-8 BOM (decode using utf-8-sig)"

/-- A flaw, and how many characters there are from its place to the end of the text. -/
structure Complaint where
  flaw : Flaw
  left : Nat
  deriving DecidableEq, Repr

/-- The wording of a complaint about a text, with the line, the column and the number of characters before
the place. -/
def Complaint.message (e : Complaint) (text : String) : String :=
  let before := text.toList.take (text.toList.length - e.left)
  let line := before.count '\n' + 1
  let column := (before.reverse.takeWhile (· != '\n')).length + 1
  e.flaw.message ++ ": line " ++ toString line ++ " column " ++ toString column ++
    " (char " ++ toString before.length ++ ")"

/-- Why a text holds no value: it is no JSON, or a number in it is none. -/
inductive Fault
  | notJson (e : Complaint)
  | scalar (fault : ScalarFault)
  deriving DecidableEq, Repr

/-- The refusal of a text for a flaw at the front of what is left of it. -/
def refuse {α : Type} (flaw : Flaw) (cs : List Char) : Except Fault α :=
  .error (.notJson ⟨flaw, cs.length⟩)

/-- The four characters that may stand between tokens. -/
def isSpace (c : Char) : Bool :=
  c == ' ' || c == '\t' || c == '\n' || c == '\r'

/-- A text without the space at its front. -/
def skipSpace (cs : List Char) : List Char :=
  cs.dropWhile isSpace

/-! ### Strings -/

/-- The value of a hexadecimal digit. -/
def hexValue? (c : Char) : Option Nat :=
  if c.isDigit then some (c.toNat - 0x30)
  else if 'a' ≤ c ∧ c ≤ 'f' then some (c.toNat - 0x57)
  else if 'A' ≤ c ∧ c ≤ 'F' then some (c.toNat - 0x37)
  else none

/-- The number that hexadecimal digits spell. -/
def hexNumber? (cs : List Char) : Option Nat :=
  cs.foldl (fun acc c => acc.bind fun n => (hexValue? c).map (n * 16 + ·)) (some 0)

/-- The character that a letter stands for after a backslash. -/
def escaped? (c : Char) : Option Char :=
  match c with
  | '"' => some '"'
  | '\\' => some '\\'
  | '/' => some '/'
  | 'b' => some '\x08'
  | 'f' => some '\x0c'
  | 'n' => some '\n'
  | 'r' => some '\r'
  | 't' => some '\t'
  | _ => none

/-- The first half of a pair of code units. -/
def isHighHalf (n : Nat) : Bool := 0xD800 ≤ n && n ≤ 0xDBFF

/-- The second half of a pair of code units. -/
def isLowHalf (n : Nat) : Bool := 0xDC00 ≤ n && n ≤ 0xDFFF

/-- The code points of code units: two halves side by side are one character. -/
def joinHalves : List Nat → List CodePoint
  | [] => []
  | [n] => [.ofNat n]
  | n :: m :: rest =>
    if isHighHalf n && isLowHalf m then
      .ofNat (0x10000 + (n - 0xD800) * 0x400 + (m - 0xDC00)) :: joinHalves rest
    else .ofNat n :: joinHalves (m :: rest)

/-- The code units of a string up to its closing quote, and the text after it; `opening` is the text from
the opening quote on, and `done` are the units already read, last first. -/
def unitsFrom (opening : List Char) (done : List Nat) :
    List Char → Except Fault (List Nat × List Char)
  | [] => refuse .unterminated opening
  | ['\\'] => refuse .unterminated opening
  | '"' :: cs => .ok (done.reverse, cs)
  | '\\' :: 'u' :: a :: b :: c :: d :: e :: cs =>
    match hexNumber? [a, b, c, d] with
    | none => refuse .invalidCode ('u' :: a :: b :: c :: d :: e :: cs)
    | some n => unitsFrom opening (n :: done) (e :: cs)
  | '\\' :: 'u' :: code => refuse .invalidCode ('u' :: code)
  | '\\' :: c :: cs =>
    match escaped? c with
    | none => refuse .invalidEscape ('\\' :: c :: cs)
    | some e => unitsFrom opening (e.toNat :: done) cs
  | c :: cs =>
    if c.toNat < 0x20 then refuse .controlCharacter (c :: cs) else unitsFrom opening (c.toNat :: done) cs

/-- A string after its opening quote, and the text after it. -/
def string (cs : List Char) : Except Fault (Str × List Char) :=
  (unitsFrom ('"' :: cs) [] cs).map fun (units, rest) => (.ofList (joinHalves units), rest)

/-! ### Numbers -/

/-- The digits at the front of a text, and the text after them. -/
def digits (cs : List Char) : List Char × List Char :=
  (cs.takeWhile Char.isDigit, cs.dropWhile Char.isDigit)

/-- The whole part of a number: a zero alone, or digits that begin with another one. -/
def wholePart : List Char → Option (List Char × List Char)
  | '0' :: cs => some (['0'], cs)
  | cs =>
    match digits cs with
    | ([], _) => none
    | ds => some ds

/-- A fraction, if one follows: a point and at least one digit. -/
def fraction (cs : List Char) : List Char × List Char :=
  match cs with
  | '.' :: rest =>
    match digits rest with
    | ([], _) => ([], cs)
    | ds => ds
  | _ => ([], cs)

/-- The digits of an exponent with its sign, if there are any. -/
def exponentDigits (negative : Bool) (cs : List Char) : Option (Int × List Char) :=
  match digits cs with
  | ([], _) => none
  | (ds, rest) =>
    let n : Int := (Nat.ofDigitChars 10 ds 0 : Nat)
    some (if negative then -n else n, rest)

/-- An exponent, if one follows. -/
def exponent (cs : List Char) : Option (Int × List Char) :=
  match cs with
  | e :: rest =>
    if e == 'e' || e == 'E' then
      match rest with
      | '-' :: more => exponentDigits true more
      | '+' :: more => exponentDigits false more
      | more => exponentDigits false more
    else none
  | [] => none

/-- A whole number of digits, of which there may not be too many. -/
def wholeNumber (negative : Bool) (ds : List Char) : Except Fault Scalar :=
  let n : Int := (Nat.ofDigitChars 10 ds 0 : Nat)
  if Text.digitLimit < ds.length then .error (.scalar (.tooManyDigits ds.length))
  else .ok (.int (if negative then -n else n))

/-- A number, in a text that begins with it, behind its sign. -/
def unsigned (text : List Char) (negative : Bool) (cs : List Char) : Except Fault (Scalar × List Char) :=
  match wholePart cs with
  | none => refuse .expectingValue text
  | some (whole, rest) =>
    let (frac, rest) := fraction rest
    match frac, exponent rest with
    | [], none => (wholeNumber negative whole).map fun n => (n, rest)
    | _, power =>
      let (e, rest) := power.getD (0, rest)
      .ok (.float (.ofDecimal negative (Nat.ofDigitChars 10 (whole ++ frac) 0) (e - frac.length)), rest)

/-- A name that stands for a scalar. -/
def names : List (List Char × Scalar) :=
  [("null".toList, .null), ("true".toList, .bool true), ("false".toList, .bool false),
   ("NaN".toList, .float .nan), ("Infinity".toList, .float (.infinite false)),
   ("-Infinity".toList, .float (.infinite true))]

/-- A scalar that is no string. -/
def bare (cs : List Char) : Except Fault (Scalar × List Char) :=
  match names.find? fun e => e.1.isPrefixOf cs with
  | some (name, s) => .ok (s, cs.drop name.length)
  | none =>
    match cs with
    | '-' :: rest => unsigned cs true rest
    | _ => unsigned cs false cs

/-! ### Values -/

mutual

/-- A value at the front of a text, and the text after it. The fuel is more than twice the length. -/
def value : Nat → List Char → Except Fault (Value × List Char)
  | 0, cs => refuse .expectingValue cs
  | fuel + 1, cs =>
    match cs with
    | '"' :: rest => do
      let (s, after) ← string rest
      .ok (.text s, after)
    | '[' :: rest =>
      match skipSpace rest with
      | ']' :: after => .ok (.list [], after)
      | more => do
        let (vs, after) ← elements fuel more
        .ok (.list vs, after)
    | '\x7b' :: rest =>
      match skipSpace rest with
      | '\x7d' :: after => .ok (.map [], after)
      | more => do
        let (es, after) ← pairs fuel more
        .ok (.map (mergeEntries es), after)
    | _ => do
      let (s, after) ← bare cs
      .ok (.scalar s, after)

/-- The elements of an array that is not empty, up to its closing bracket. -/
def elements : Nat → List Char → Except Fault (List Value × List Char)
  | 0, cs => refuse .expectingValue cs
  | fuel + 1, cs => do
    let (v, rest) ← value fuel cs
    match skipSpace rest with
    | ',' :: more => do
      let (vs, after) ← elements fuel (skipSpace more)
      .ok (v :: vs, after)
    | ']' :: after => .ok ([v], after)
    | more => refuse .expectingComma more

/-- The pairs of an object that is not empty, up to its closing brace. -/
def pairs : Nat → List Char → Except Fault (List (Scalar × Value) × List Char)
  | 0, cs => refuse .expectingName cs
  | fuel + 1, cs =>
    match cs with
    | '"' :: rest => do
      let (key, rest) ← string rest
      match skipSpace rest with
      | ':' :: rest => do
        let (v, rest) ← value fuel (skipSpace rest)
        match skipSpace rest with
        | ',' :: more => do
          let (es, after) ← pairs fuel (skipSpace more)
          .ok ((.text key, v) :: es, after)
        | '\x7d' :: after => .ok ([(.text key, v)], after)
        | more => refuse .expectingComma more
      | more => refuse .expectingColon more
    | more => refuse .expectingName more

end

/-- The value that a text spells, with space on its two sides. -/
def read (s : String) : Except Fault Value := do
  let cs := s.toList
  if cs.head? = some '\ufeff' then refuse .byteOrderMark cs
  else
    let (v, rest) ← value (2 * cs.length + 2) (skipSpace cs)
    if (skipSpace rest).isEmpty then .ok v else refuse .extraData (skipSpace rest)

end ApiPage.Json
