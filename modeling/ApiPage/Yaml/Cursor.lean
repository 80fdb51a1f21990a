/-!
# A place in YAML text

A cursor is the text that is left and the line and column at which it begins. Line endings are single
characters; a byte order mark takes no column.
-/

namespace ApiPage.Yaml

/-- The characters that end a line. -/
def isBreak (c : Char) : Bool :=
  c == '\n' || c == '\x85' || c == '\u2028' || c == '\u2029'

/-- The characters that may stand in a document. -/
def isPrintable (c : Char) : Bool :=
  let n := c.toNat
  n == 0x09 || n == 0x0A || n == 0x0D || (0x20 ≤ n && n ≤ 0x7E) || n == 0x85 ||
    (0xA0 ≤ n && n ≤ 0xD7FF) || (0xE000 ≤ n && n ≤ 0xFFFD) || (0x10000 ≤ n && n ≤ 0x10FFFF)

/-- The text that is left, and where it begins. -/
structure Cursor where
  rest : List Char
  index : Nat := 0
  line : Nat := 0
  column : Nat := 0

namespace Cursor

/-- The character `k` places ahead. -/
def peek? (c : Cursor) (k : Nat) : Option Char := c.rest[k]?

/-- The cursor behind the next character. -/
def next (c : Cursor) : Cursor :=
  match c.rest with
  | [] => c
  | x :: xs =>
    if isBreak x then ⟨xs, c.index + 1, c.line + 1, 0⟩
    else if x == '\ufeff' then ⟨xs, c.index + 1, c.line, c.column⟩
    else ⟨xs, c.index + 1, c.line, c.column + 1⟩

/-- The cursor behind the next `n` characters. -/
def skip (c : Cursor) : Nat → Cursor
  | 0 => c
  | n + 1 => c.next.skip n

/-- The characters ahead that have a property, and the cursor behind them. -/
def run (c : Cursor) (p : Char → Bool) : List Char × Cursor :=
  let taken := c.rest.takeWhile p
  (taken, c.skip taken.length)

/-- The cursor behind the characters ahead that have a property. -/
def skipWhile (c : Cursor) (p : Char → Bool) : Cursor := (c.run p).2

/-- Is the next character `x`? -/
def sees (c : Cursor) (x : Char) : Bool := c.peek? 0 == some x

/-- Has the next character a property? At the end it has none. -/
def seesSome (c : Cursor) (p : Char → Bool) : Bool :=
  match c.peek? 0 with
  | none => false
  | some x => p x

/-- Does a word end `k` places ahead, by a blank, a line ending or the end of the text? -/
def gapAt (c : Cursor) (k : Nat) : Bool :=
  match c.peek? k with
  | none => true
  | some x => x == ' ' || x == '\t' || isBreak x

/-- Does a line end here, or the text? -/
def atLineEnd (c : Cursor) : Bool :=
  match c.peek? 0 with
  | none => true
  | some x => isBreak x

/-- Do three characters and a gap stand here? -/
def seesMark (c : Cursor) (mark : Char) : Bool :=
  c.peek? 0 == some mark && c.peek? 1 == some mark && c.peek? 2 == some mark && c.gapAt 3

/-- Does the mark of a document's begin or end stand here? -/
def seesDocumentMark (c : Cursor) : Bool := c.seesMark '-' || c.seesMark '.'

/-- The line ending ahead as it counts in a scalar, and the cursor behind it; nothing where no line
ends. -/
def lineBreak (c : Cursor) : List Char × Cursor :=
  match c.peek? 0 with
  | none => ([], c)
  | some x =>
    if x == '\u2028' || x == '\u2029' then ([x], c.next)
    else if isBreak x then (['\n'], c.next)
    else ([], c)

end Cursor

end ApiPage.Yaml
