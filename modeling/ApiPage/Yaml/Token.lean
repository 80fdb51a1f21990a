import ApiPage.Yaml.Scalar

/-!
# Tokens of YAML text

Layout becomes tokens: a deeper column opens a block and a shallower one closes blocks. A mapping's key
shows itself only by the colon after it, so the place of every token that may turn out to be a key is
kept in `pending` until its line ends, and the key token is put there afterwards.
-/

namespace ApiPage.Yaml

/-- A token of YAML text. -/
inductive Token
  | documentStart
  | documentEnd
  | sequenceOpen
  | mappingOpen
  | blockClose
  | bracketOpen
  | bracketClose
  | braceOpen
  | braceClose
  | comma
  | dash
  | key
  | value
  /-- A scalar; a plain one may stand for other data than its text. -/
  | scalar (plain : Bool) (text : Str)
  deriving DecidableEq, Repr

/-- A token that may turn out to be a key: its place among the tokens and in the text. -/
structure Pending where
  place : Nat
  index : Nat
  line : Nat
  column : Nat
  /-- A key has to stand here, as nothing else may at this column. -/
  required : Bool
  deriving DecidableEq, Repr

/-- The state between two tokens. -/
structure Layout where
  cursor : Cursor
  tokens : Array Token := #[]
  /-- The column of the innermost block, and of the blocks around it. -/
  indent : Int := -1
  outer : List Int := []
  /-- How many brackets and braces are open. -/
  depth : Nat := 0
  /-- A key may begin here. -/
  keyAllowed : Bool := true
  /-- The pending key of each depth. -/
  pending : List (Nat × Pending) := []

namespace Layout

/-- Is the text within brackets or braces? -/
def inFlow (s : Layout) : Bool := s.depth != 0

/-- The state with one token more. -/
def push (s : Layout) (t : Token) : Layout := { s with tokens := s.tokens.push t }

/-- The state behind `n` characters. -/
def skip (s : Layout) (n : Nat) : Layout := { s with cursor := s.cursor.skip n }

/-! ### Blocks -/

/-- Closes the blocks that are deeper than a column, except within brackets. -/
def closeBlocks (column : Int) (s : Layout) : Layout :=
  if s.inFlow then s else go s.outer s
where
  /-- Closes blocks while they are deeper. -/
  go : List Int → Layout → Layout
  | [], s => s
  | i :: outer, s =>
    if column < s.indent then go outer ({ s with indent := i, outer := outer }.push .blockClose) else s

/-- Opens a block at a column deeper than the innermost one; its token goes to a place. -/
def openBlock (s : Layout) (column : Nat) (place : Nat) (t : Token) : Layout :=
  if s.indent < column then
    { s with
      indent := column, outer := s.indent :: s.outer, tokens := s.tokens.insertIdxIfInBounds place t }
  else s

/-! ### Pending keys -/

/-- The pending key of the present depth. -/
def pendingHere? (s : Layout) : Option Pending :=
  (s.pending.find? (·.1 == s.depth)).map (·.2)

/-- The state without a pending key at the present depth. -/
def clearPending (s : Layout) : Layout :=
  { s with pending := s.pending.filter (·.1 != s.depth) }

/-- Gives up the pending key of the present depth; one that is required may not be given up. -/
def dropPending (s : Layout) : Option Layout :=
  match s.pendingHere? with
  | some k => if k.required then none else some s.clearPending
  | none => some s

/-- Is a pending key out of reach: on another line, or too far behind? -/
def isStale (s : Layout) (k : Pending) : Bool :=
  k.line != s.cursor.line || 1024 < s.cursor.index - k.index

/-- Gives up the pending keys that are out of reach. -/
def dropStale (s : Layout) : Option Layout :=
  if s.pending.any fun k => s.isStale k.2 && k.2.required then none
  else some { s with pending := s.pending.filter fun k => !s.isStale k.2 }

/-- Notes that the next token may turn out to be a key. -/
def notePending (s : Layout) : Option Layout :=
  if s.keyAllowed then
    match s.dropPending with
    | none => none
    | some s =>
      let c := s.cursor
      let k : Pending :=
        ⟨s.tokens.size, c.index, c.line, c.column, !s.inFlow && s.indent == (c.column : Int)⟩
      some { s with pending := (s.depth, k) :: s.pending }
  else some s

/-! ### Between tokens -/

/-- Skips blanks, comments and line endings; after a line ending a key may begin, except within
brackets. -/
def skipGaps : Nat → Layout → Layout
  | 0, s => s
  | fuel + 1, s =>
    let c := s.cursor.skipWhile (· == ' ')
    let c := if c.sees '#' then c.skipWhile (!isBreak ·) else c
    if c.seesSome isBreak then
      skipGaps fuel { s with cursor := c.lineBreak.2, keyAllowed := s.keyAllowed || !s.inFlow }
    else { s with cursor := c }

/-- Skips a byte order mark at the beginning of the text. -/
def skipMark (s : Layout) : Layout :=
  if s.cursor.index == 0 && s.cursor.sees '\ufeff' then s.skip 1 else s

/-! ### Tokens -/

/-- The mark of a document's begin or end. -/
def documentMark (s : Layout) (t : Token) : Option Layout := do
  let s ← (s.closeBlocks (-1)).dropPending
  some (({ s with keyAllowed := false }.skip 3).push t)

/-- An opening bracket or brace. -/
def flowOpen (s : Layout) (t : Token) : Option Layout := do
  let s ← s.notePending
  some (({ s with depth := s.depth + 1, keyAllowed := true }.skip 1).push t)

/-- A closing bracket or brace. -/
def flowClose (s : Layout) (t : Token) : Option Layout := do
  let s ← s.dropPending
  some (({ s with depth := s.depth - 1, keyAllowed := false }.skip 1).push t)

/-- A comma. -/
def flowComma (s : Layout) : Option Layout := do
  let s ← { s with keyAllowed := true }.dropPending
  some ((s.skip 1).push .comma)

/-- A dash that begins a member of a block sequence. -/
def blockDash (s : Layout) : Option Layout := do
  if !s.inFlow && !s.keyAllowed then none
  let s := if s.inFlow then s else s.openBlock s.cursor.column s.tokens.size .sequenceOpen
  let s ← { s with keyAllowed := true }.dropPending
  some ((s.skip 1).push .dash)

/-- A question mark that announces a key. -/
def explicitKey (s : Layout) : Option Layout := do
  if !s.inFlow && !s.keyAllowed then none
  let s := if s.inFlow then s else s.openBlock s.cursor.column s.tokens.size .mappingOpen
  let s ← { s with keyAllowed := !s.inFlow }.dropPending
  some ((s.skip 1).push .key)

/-- A colon: what is pending was a key, or else the value has no key or an announced one. -/
def colon (s : Layout) : Option Layout :=
  match s.pendingHere? with
  | some k =>
    let s := { s.clearPending with tokens := s.tokens.insertIdxIfInBounds k.place .key }
    let s := if s.inFlow then s else s.openBlock k.column k.place .mappingOpen
    some (({ s with keyAllowed := false }.skip 1).push .value)
  | none => do
    if !s.inFlow && !s.keyAllowed then none
    let s := if s.inFlow then s else s.openBlock s.cursor.column s.tokens.size .mappingOpen
    let s ← { s with keyAllowed := !s.inFlow }.dropPending
    some ((s.skip 1).push .value)

/-- The state behind a scalar that may turn out to be a key and has been noted as such. -/
def withScalar (s : Layout) (plain : Bool) (keyAllowed : Bool) (text : Str) (after : Cursor) : Layout :=
  { s with cursor := after, keyAllowed := keyAllowed }.push (.scalar plain text)

/-- A scalar between quotes. -/
def quoted (s : Layout) (mark : Char) : Except Fault Layout := do
  let s ← expected s.notePending
  let (text, after) ← quotedScalar mark s.cursor
  .ok (s.withScalar false false (.ofList text) after)

/-- A plain scalar. -/
def plain (s : Layout) : Option Layout := do
  let s ← s.notePending
  let (text, ended, after) := plainScalar s.inFlow (s.indent + 1) s.cursor
  some (s.withScalar true ended (String.ofList text) after)

/-- A scalar written as a block. -/
def block (s : Layout) (folded : Bool) : Option Layout := do
  let s ← { s with keyAllowed := true }.dropPending
  let (text, after) ← blockScalar folded s.indent s.cursor
  some ({ s with cursor := after }.push (.scalar false (String.ofList text)))

/-- The characters that begin no plain scalar. -/
def isIndicator (c : Char) : Bool :=
  "-?:,[]\x7b\x7d#&*!|>'\"%@\x60".toList.contains c

/-- May a plain scalar begin with the character ahead? -/
def plainAhead (s : Layout) (x : Char) : Bool :=
  !(x == '\t') && (!isIndicator x || (!s.cursor.gapAt 1 && (x == '-' || (!s.inFlow && (x == '?' || x == ':')))))

/-- The state behind the mark that begins with the character ahead, or behind a scalar that is not
quoted, if there is one. -/
def unquoted (s : Layout) (x : Char) : Option Layout :=
  let c := s.cursor
  if x == '%' && c.column == 0 then none
  else if c.column == 0 && c.seesMark '-' then s.documentMark .documentStart
  else if c.column == 0 && c.seesMark '.' then s.documentMark .documentEnd
  else if x == '[' then s.flowOpen .bracketOpen
  else if x == '\x7b' then s.flowOpen .braceOpen
  else if x == ']' then s.flowClose .bracketClose
  else if x == '\x7d' then s.flowClose .braceClose
  else if x == ',' then s.flowComma
  else if x == '-' && c.gapAt 1 then s.blockDash
  else if x == '?' && (s.inFlow || c.gapAt 1) then s.explicitKey
  else if x == ':' && (s.inFlow || c.gapAt 1) then s.colon
  else if x == '|' && !s.inFlow then s.block false
  else if x == '>' && !s.inFlow then s.block true
  else if s.plainAhead x then s.plain
  else none

/-- The state behind the token that begins with the character ahead. -/
def token (s : Layout) (x : Char) : Except Fault Layout :=
  if x == '\'' || x == '"' then s.quoted x else expected (s.unquoted x)

/-- All tokens from a state on. -/
def run : Nat → Layout → Except Fault (Array Token)
  | 0, _ => .error .notYaml
  | fuel + 1, s => do
    let s ← expected (skipGaps s.cursor.fuel s.skipMark).dropStale
    let s := s.closeBlocks s.cursor.column
    match s.cursor.peek? 0 with
    | none => (expected (s.closeBlocks (-1)).dropPending).map (·.tokens)
    | some x => do
      let s ← s.token x
      run fuel s

end Layout

/-- The tokens of a text, if all of it is tokens. -/
def tokens (cs : List Char) : Except Fault (List Token) :=
  if cs.all isPrintable then
    (Layout.run (cs.length + 1) { cursor := ⟨cs, 0, 0, 0⟩ }).map (·.toList)
  else .error .notYaml

end ApiPage.Yaml
