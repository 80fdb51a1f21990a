import ApiPage.Json
import ApiPage.Yaml.Cursor
import ApiPage.Yaml.Fault

/-!
# Scalars in YAML text

The four ways to write a scalar: plain, between single quotes, between double quotes and as a block.
Each reader takes the cursor at the scalar and gives its text and the cursor behind it. The fuel of a
loop is the length of the text ahead, which every turn shortens.
-/

namespace ApiPage.Yaml

/-- The length of the text ahead, and one more. -/
def Cursor.fuel (c : Cursor) : Nat := c.rest.length + 1

/-! ### Folding -/

/-- What stands for the end of a line between two words of one scalar: a space for a single newline,
else the line endings after the first. -/
def fold (first : List Char) (more : List Char) : List Char :=
  if first = ['\n'] then (if more.isEmpty then [' '] else more) else first ++ more

/-! ### Plain scalars -/

/-- The characters that end a plain scalar within brackets and braces. -/
def isFlowMark (c : Char) : Bool :=
  c == ',' || c == '[' || c == ']' || c == '\x7b' || c == '\x7d'

/-- The characters of one word of a plain scalar. -/
def plainWord (inFlow : Bool) : List Char → List Char
  | [] => []
  | x :: xs =>
    if x == ' ' || x == '\t' || isBreak x then []
    else if inFlow && (isFlowMark x || x == '?') then []
    else if x == ':' then
      match xs with
      | [] => []
      | y :: _ =>
        if y == ' ' || y == '\t' || isBreak y || (inFlow && isFlowMark y) then []
        else x :: plainWord inFlow xs
    else x :: plainWord inFlow xs

/-- The empty lines between two lines of a plain scalar, unless a document mark ends them. -/
def plainBreaks : Nat → List Char → Cursor → Option (List Char) × Cursor
  | 0, done, c => (some done, c)
  | fuel + 1, done, c =>
    if c.sees ' ' then plainBreaks fuel done c.next
    else if c.seesSome isBreak then
      let (b, after) := c.lineBreak
      if after.seesDocumentMark then (none, after) else plainBreaks fuel (done ++ b) after
    else (some done, c)

/-- What stands between two words of a plain scalar, nothing where no word can follow; and whether a
line ended. -/
def plainGap (c : Cursor) : List Char × Bool × Cursor :=
  let (spaces, c) := c.run (· == ' ')
  if c.seesSome isBreak then
    let (first, c) := c.lineBreak
    if c.seesDocumentMark then ([], true, c)
    else
      match plainBreaks c.fuel [] c with
      | (none, c) => ([], true, c)
      | (some more, c) => (fold first more, true, c)
  else (spaces, false, c)

/-- The words of a plain scalar from `gap` on; `ended` tells that a line has ended within it or
after it. -/
def plainWords (inFlow : Bool) (indent : Int) : Nat → List Char → List Char → Bool → Cursor →
    List Char × Bool × Cursor
  | 0, done, _, ended, c => (done, ended, c)
  | fuel + 1, done, gap, ended, c =>
    if c.sees '#' then (done, ended, c)
    else
      match plainWord inFlow c.rest with
      | [] => (done, ended, c)
      | word =>
        let done := done ++ gap ++ word
        let (gap, broke, after) := plainGap (c.skip word.length)
        if gap.isEmpty || after.sees '#' || (!inFlow && (after.column : Int) < indent) then
          (done, broke, after)
        else plainWords inFlow indent fuel done gap broke after

/-- A plain scalar, and whether a line ended after its last word. -/
def plainScalar (inFlow : Bool) (indent : Int) (c : Cursor) : List Char × Bool × Cursor :=
  plainWords inFlow indent c.fuel [] [] false c

/-! ### Quoted scalars -/

/-- The character that a letter stands for after a backslash. -/
def escaped? (c : Char) : Option Char :=
  match c with
  | '0' => some '\x00'
  | 'a' => some '\x07'
  | 'b' => some '\x08'
  | 't' => some '\t'
  | '\t' => some '\t'
  | 'n' => some '\n'
  | 'v' => some '\x0b'
  | 'f' => some '\x0c'
  | 'r' => some '\r'
  | 'e' => some '\x1b'
  | ' ' => some ' '
  | '"' => some '"'
  | '\\' => some '\\'
  | '/' => some '/'
  | 'N' => some '\x85'
  | '_' => some '\xa0'
  | 'L' => some '\u2028'
  | 'P' => some '\u2029'
  | _ => none

/-- How many hexadecimal digits follow a letter after a backslash. -/
def codeLength? (c : Char) : Option Nat :=
  match c with
  | 'x' => some 2
  | 'u' => some 4
  | 'U' => some 8
  | _ => none

/-- The line endings ahead with the blanks around them; a document mark may not stand among them. -/
def quotedBreaks : Nat → List Char → Cursor → Option (List Char × Cursor)
  | 0, done, c => some (done, c)
  | fuel + 1, done, c =>
    if c.seesDocumentMark then none
    else
      let c := c.skipWhile fun x => x == ' ' || x == '\t'
      if c.seesSome isBreak then
        let (b, c) := c.lineBreak
        quotedBreaks fuel (done ++ b) c
      else some (done, c)

/-- The blanks and line endings ahead as they count in a quoted scalar. -/
def quotedGap (c : Cursor) : Option (List Char × Cursor) :=
  let (blanks, c) := c.run fun x => x == ' ' || x == '\t'
  match c.peek? 0 with
  | none => none
  | some x =>
    if isBreak x then
      let (first, c) := c.lineBreak
      (quotedBreaks c.fuel [] c).map fun (more, c) => (fold first more, c)
    else some (blanks, c)

/-- The code point of a number that an escape spells. -/
def codePointOf (code : Nat) : Except Fault CodePoint :=
  if code < 0x110000 then .ok (.ofNat code) else .error (.scalar (.noCharacter code))

/-- Characters as a part of a text that may hold surrogates. -/
def withPoints (p : List Char × Cursor) : List CodePoint × Cursor :=
  (p.1.map .char, p.2)

/-- What an escape stands for, the cursor behind its backslash. -/
def escape (c : Cursor) : Except Fault (List CodePoint × Cursor) :=
  match c.peek? 0 with
  | none => .error .notYaml
  | some x =>
    match escaped? x, codeLength? x with
    | some e, _ => .ok ([.char e], c.next)
    | none, some n =>
      let digits := c.next.rest.take n
      if digits.length < n then .error .notYaml
      else do
        let code ← expected (Json.hexNumber? digits)
        let e ← codePointOf code
        .ok ([e], c.next.skip n)
    | none, none =>
      if isBreak x then
        let c := c.lineBreak.2
        expected ((quotedBreaks c.fuel [] c).map withPoints)
      else .error .notYaml

/-- The text of a quoted scalar up to its closing quote. -/
def quotedFrom (mark : Char) : Nat → List CodePoint → Cursor → Except Fault (List CodePoint × Cursor)
  | 0, _, _ => .error .notYaml
  | fuel + 1, done, c =>
    match c.peek? 0 with
    | none => .error .notYaml
    | some x =>
      if x == mark then
        if mark == '\'' && c.peek? 1 == some '\'' then quotedFrom mark fuel (done ++ [.char '\'']) (c.skip 2)
        else .ok (done, c.next)
      else if x == '\\' && mark == '"' then do
        let (text, c) ← escape c.next
        quotedFrom mark fuel (done ++ text) c
      else if x == ' ' || x == '\t' || isBreak x then do
        let (text, c) ← expected ((quotedGap c).map withPoints)
        quotedFrom mark fuel (done ++ text) c
      else quotedFrom mark fuel (done ++ [.char x]) c.next

/-- A scalar between quotes, the cursor at the opening one. -/
def quotedScalar (mark : Char) (c : Cursor) : Except Fault (List CodePoint × Cursor) :=
  quotedFrom mark c.fuel [] c.next

/-! ### Block scalars -/

/-- What becomes of the line endings at the end of a block. -/
inductive Chomping
  /-- One newline stays. -/
  | clip
  /-- None stays. -/
  | strip
  /-- All stay. -/
  | keep
  deriving DecidableEq

/-- The chomping that a sign asks for. -/
def chomping? (c : Char) : Option Chomping :=
  if c == '+' then some .keep else if c == '-' then some .strip else none

/-- The indentation that a digit asks for; zero is none. -/
def increment? (c : Char) : Option Nat :=
  if '1' ≤ c ∧ c ≤ '9' then some (c.toNat - 0x30) else none

/-- The sign and the digit after the mark of a block, in either order. -/
def blockHeader (c : Cursor) : Chomping × Option Nat × Cursor :=
  match (c.peek? 0).bind chomping? with
  | some chomping =>
    match (c.peek? 1).bind increment? with
    | some n => (chomping, some n, c.skip 2)
    | none => (chomping, none, c.next)
  | none =>
    match (c.peek? 0).bind increment? with
    | some n =>
      match (c.peek? 1).bind chomping? with
      | some chomping => (chomping, some n, c.skip 2)
      | none => (.clip, some n, c.next)
    | none => (.clip, none, c)

/-- The rest of a header's line: blanks and a comment. -/
def headerEnd (c : Cursor) : Option Cursor :=
  if !c.gapAt 0 || c.sees '\t' then none
  else
    let c := c.skipWhile (· == ' ')
    let c := if c.sees '#' then c.skipWhile (!isBreak ·) else c
    if c.atLineEnd then some c.lineBreak.2 else none

/-- The empty lines before a block's first line, and the deepest indentation among them and it. -/
def blockLead : Nat → List Char → Nat → Cursor → List Char × Nat × Cursor
  | 0, done, deepest, c => (done, deepest, c)
  | fuel + 1, done, deepest, c =>
    if c.sees ' ' then
      let c := c.next
      blockLead fuel done (max deepest c.column) c
    else if c.seesSome isBreak then
      let (b, c) := c.lineBreak
      blockLead fuel (done ++ b) deepest c
    else (done, deepest, c)

/-- The cursor behind the spaces of an indentation. -/
def skipIndent (indent : Nat) : Nat → Cursor → Cursor
  | 0, c => c
  | fuel + 1, c => if c.column < indent && c.sees ' ' then skipIndent indent fuel c.next else c

/-- The empty lines ahead, and the cursor behind the indentation of the line after them. -/
def blockBreaks (indent : Nat) : Nat → List Char → Cursor → List Char × Cursor
  | 0, done, c => (done, c)
  | fuel + 1, done, c =>
    let c := skipIndent indent c.fuel c
    if c.seesSome isBreak then
      let (b, c) := c.lineBreak
      blockBreaks indent fuel (done ++ b) c
    else (done, c)

/-- The lines of a block: `done` is its text so far, `first` the ending of the last line and `more`
the empty lines after it. -/
def blockLines (folded : Bool) (indent : Nat) :
    Nat → List Char → List Char → List Char → Cursor → List Char × List Char × List Char × Cursor
  | 0, done, first, more, c => (done, first, more, c)
  | fuel + 1, done, first, more, c =>
    if c.column == indent && !c.rest.isEmpty then
      let flush := !(c.sees ' ' || c.sees '\t')
      let done := done ++ more
      let (line, c) := c.run (!isBreak ·)
      let done := done ++ line
      let (first, c) := c.lineBreak
      let (more, c) := blockBreaks indent c.fuel [] c
      if c.column == indent && !c.rest.isEmpty then
        let joined :=
          if folded && first == ['\n'] && flush && !(c.sees ' ' || c.sees '\t') then
            (if more.isEmpty then [' '] else [])
          else first
        blockLines folded indent fuel (done ++ joined) first more c
      else (done, first, more, c)
    else (done, first, more, c)

/-- A scalar written as a block under `parent`'s indentation, the cursor at its mark. -/
def blockScalar (folded : Bool) (parent : Int) (c : Cursor) : Option (List Char × Cursor) :=
  let (chomping, increment, c) := blockHeader c.next
  match headerEnd c with
  | none => none
  | some c =>
    let least := (max (parent + 1) 1).toNat
    let (lead, indent, c) : List Char × Nat × Cursor :=
      match increment with
      | none =>
        let (lead, deepest, c) := blockLead c.fuel [] 0 c
        (lead, max least deepest, c)
      | some n =>
        let indent := least + n - 1
        let (lead, c) := blockBreaks indent c.fuel [] c
        (lead, indent, c)
    let (done, first, more, c) := blockLines folded indent c.fuel [] [] lead c
    let text := match chomping with
      | .strip => done
      | .clip => done ++ first
      | .keep => done ++ first ++ more
    some (text, c)

end ApiPage.Yaml
