import ApiPage.Ty.Expr
import ApiPage.Text.Quoted

/-!
# Reading type text

`parseUnion` reads one union from the front of a token list; `Ty.read` reads a whole text, blank text
being `Any`. Every refusal has a cause, a `Fault`, and its wording is `ReadError.message`.
-/

namespace ApiPage.Ty

/-- Why a text is no type. -/
inductive Fault
  | invalidCharacter (c : CodePoint)
  | unexpectedEnd
  /-- A bracket is not closed where it should be. -/
  | notClosed (found : Token)
  | notAName (found : Token)
  /-- The text goes on after a whole type. -/
  | trailing (found : Token)
  /-- An ellipsis follows more than one element type. -/
  | variadicArity
  deriving DecidableEq, Repr

/-- A text that is no type, with the cause. -/
structure ReadError where
  text : Str
  fault : Fault
  deriving DecidableEq, Repr

/-- The wording of a refusal. -/
def ReadError.message (e : ReadError) : String :=
  let text := Text.quoted e.text
  match e.fault with
  | .invalidCharacter c => "Invalid character " ++ Text.quoted (.singleton c) ++ " in type " ++ text
  | .unexpectedEnd => "Unexpected end of type " ++ text
  | .notClosed found =>
    "Expected " ++ Text.quoted Token.closing.text ++ " but found " ++ Text.quoted found.text ++
      " in type " ++ text
  | .notAName found =>
    "Expected a type name but found " ++ Text.quoted found.text ++ " in type " ++ text
  | .trailing found => "Unexpected " ++ Text.quoted found.text ++ " in type " ++ text
  | .variadicArity => "Variadic tuple takes one element type in " ++ text

/-- A closing bracket, and what follows it. -/
def closeBracket {α : Type} (a : α) : List Token → Except Fault (α × List Token)
  | [] => .error .unexpectedEnd
  | .closing :: rest => .ok (a, rest)
  | t :: _ => .error (.notClosed t)

/-! Each reader below takes fuel, one unit a call; `readFuel` is more than any token list needs. -/

mutual

/-- One alternative. -/
def parseAlt : Nat → List Token → Except Fault (Expr × List Token)
  | 0, _ => .error .unexpectedEnd
  | _ + 1, [] => .error .unexpectedEnd
  | fuel + 1, .word s :: rest =>
    if isNeverWord s then .ok (.word s, rest)
    else match rest with
      | .opening :: inner =>
        match parseBracketed fuel s inner with
        | .error f => .error f
        | .ok (e, after) => closeBracket e after
      | _ => .ok (.word s, rest)
  | _ + 1, t :: _ => .error (.notAName t)

/-- What stands in brackets after a word. -/
def parseBracketed : Nat → Str → List Token → Except Fault (Expr × List Token)
  | 0, _, _ => .error .unexpectedEnd
  | fuel + 1, head, ts =>
    match head == "tuple", ts with
    | true, .unit :: rest => .ok (.emptyTuple, rest)
    | inTuple, _ =>
      match parseUnion fuel ts with
      | .error f => .error f
      | .ok (u, rest) =>
        match inTuple, rest with
        | true, .comma :: .ellipsis :: after => .ok (.manyTuple u, after)
        | _, _ =>
          match parseArgs fuel inTuple rest with
          | .error f => .error f
          | .ok (us, after) => .ok (.generic head (u :: us), after)

/-- Further arguments, a comma before each. -/
def parseArgs : Nat → Bool → List Token → Except Fault (List UnionExpr × List Token)
  | 0, _, _ => .error .unexpectedEnd
  | _ + 1, true, .comma :: .ellipsis :: _ => .error .variadicArity
  | fuel + 1, inTuple, .comma :: ts =>
    match parseUnion fuel ts with
    | .error f => .error f
    | .ok (u, rest) =>
      match parseArgs fuel inTuple rest with
      | .error f => .error f
      | .ok (us, after) => .ok (u :: us, after)
  | _ + 1, _, ts => .ok ([], ts)

/-- A union. -/
def parseUnion : Nat → List Token → Except Fault (UnionExpr × List Token)
  | 0, _ => .error .unexpectedEnd
  | fuel + 1, ts =>
    match parseAlt fuel ts with
    | .error f => .error f
    | .ok (e, rest) =>
      match parseAlts fuel rest with
      | .error f => .error f
      | .ok (es, after) => .ok (e :: es, after)

/-- Further alternatives, a bar before each. -/
def parseAlts : Nat → List Token → Except Fault (UnionExpr × List Token)
  | 0, _ => .error .unexpectedEnd
  | fuel + 1, .bar :: ts =>
    match parseAlt fuel ts with
    | .error f => .error f
    | .ok (e, rest) =>
      match parseAlts fuel rest with
      | .error f => .error f
      | .ok (es, after) => .ok (e :: es, after)
  | _ + 1, ts => .ok ([], ts)

end

/-- Fuel for a token list: no call chain is longer. -/
def readFuel (ts : List Token) : Nat :=
  4 * ts.length + 4

/-- The union that a whole token list spells. -/
def parse (ts : List Token) : Except Fault UnionExpr :=
  match parseUnion (readFuel ts) ts with
  | .error f => .error f
  | .ok (u, []) => .ok u
  | .ok (_, t :: _) => .error (.trailing t)

/-- The syntax tree of a text that is not blank. -/
def parseText (s : Str) : Except Fault UnionExpr :=
  match scan s.toList with
  | .error c => .error (.invalidCharacter c)
  | .ok ts => parse ts

/-- The type that a text spells; blank text says nothing and is `Any`. -/
def read (s : Str) : Except ReadError Ty :=
  if Text.allBlank s then .ok any
  else match parseText s with
    | .error f => .error ⟨s, f⟩
    | .ok u => .ok u.ty

end ApiPage.Ty
