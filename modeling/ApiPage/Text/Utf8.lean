import ApiPage.Text.Quoted

/-!
# Texts and bytes in UTF-8

A machine over the bytes: `Expected` says which continuation bytes are still owed and in which range
the next one must lie, so that overlong forms, surrogates and numbers above U+10FFFF are refused at
the first byte that rules them out. A text is refused with the cause at its first fault. In the other
direction a text has bytes unless a surrogate stands in it.
-/

namespace ApiPage.Text

/-- Why bytes are no UTF-8 text. -/
inductive Utf8Fault
  /-- A byte that begins no character. -/
  | invalidStart
  /-- A byte that cannot go on with the character begun. -/
  | invalidContinuation
  /-- The bytes end within a character. -/
  | unexpectedEnd
  deriving DecidableEq, Repr

/-- The wording of a fault. -/
def Utf8Fault.reason : Utf8Fault → String
  | .invalidStart => "invalid start byte"
  | .invalidContinuation => "invalid continuation byte"
  | .unexpectedEnd => "unexpected end of data"

/-- Where the machine stands within a character: the bits read, the number of bytes owed after the
next one, and the least and greatest value of the next one. -/
structure Expected where
  value : Nat
  owed : Nat
  least : Nat
  greatest : Nat
  deriving DecidableEq, Repr

/-- What the first byte of a character announces; a character of one byte is complete at once. -/
def firstByte (b : Nat) : Except Utf8Fault (Char ⊕ Expected) :=
  if b < 0x80 then .ok (.inl (Char.ofNat b))
  else if b < 0xC2 then .error .invalidStart
  else if b < 0xE0 then .ok (.inr ⟨b - 0xC0, 0, 0x80, 0xBF⟩)
  else if b = 0xE0 then .ok (.inr ⟨0, 1, 0xA0, 0xBF⟩)
  else if b = 0xED then .ok (.inr ⟨0xD, 1, 0x80, 0x9F⟩)
  else if b < 0xF0 then .ok (.inr ⟨b - 0xE0, 1, 0x80, 0xBF⟩)
  else if b = 0xF0 then .ok (.inr ⟨0, 2, 0x90, 0xBF⟩)
  else if b < 0xF4 then .ok (.inr ⟨b - 0xF0, 2, 0x80, 0xBF⟩)
  else if b = 0xF4 then .ok (.inr ⟨4, 2, 0x80, 0x8F⟩)
  else .error .invalidStart

/-- One more byte of a character begun. -/
def nextByte (e : Expected) (b : Nat) : Except Utf8Fault (Char ⊕ Expected) :=
  if e.least ≤ b ∧ b ≤ e.greatest then
    let value := e.value * 64 + (b - 0x80)
    match e.owed with
    | 0 => .ok (.inl (Char.ofNat value))
    | owed + 1 => .ok (.inr ⟨value, owed, 0x80, 0xBF⟩)
  else .error .invalidContinuation

/-- The machine's run: `state` is the character begun, `done` the characters read, last first. -/
def decodeFrom (state : Option Expected) (done : List Char) : List UInt8 → Except Utf8Fault (List Char)
  | [] => match state with
    | none => .ok done.reverse
    | some _ => .error .unexpectedEnd
  | b :: bs =>
    match (match state with
      | none => firstByte b.toNat
      | some e => nextByte e b.toNat) with
    | .error fault => .error fault
    | .ok (.inl c) => decodeFrom none (c :: done) bs
    | .ok (.inr e) => decodeFrom (some e) done bs

/-- The characters that the bytes encode, or the first fault. -/
def decodeUtf8 (bytes : List UInt8) : Except Utf8Fault (List Char) :=
  decodeFrom none [] bytes

/-- The bytes of a whole text. -/
def encodeUtf8 (s : String) : List UInt8 :=
  s.toUTF8.toList

/-- Why code points with a surrogate among them have no bytes; the first surrogates that stand together are
told. -/
def surrogateReason (cs : List CodePoint) : String :=
  let before := cs.takeWhile (!·.isSurrogate)
  let found := (cs.drop before.length).takeWhile CodePoint.isSurrogate
  let first := toString before.length
  match found with
  | [c] =>
    "'utf-8' codec can't encode character '" ++ String.ofList (shownPoint c) ++ "' in position " ++ first ++
      ": surrogates not allowed"
  | _ =>
    "'utf-8' codec can't encode characters in position " ++ first ++ "-" ++
      toString (before.length + found.length - 1) ++ ": surrogates not allowed"

/-- The bytes of a text, or why it has none. -/
def encode : Str → Except String (List UInt8)
  | .whole s => .ok (encodeUtf8 s)
  | .broken cs _ => .error (surrogateReason cs)

end ApiPage.Text
