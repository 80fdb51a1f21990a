import ApiPage.Text.Blank

/-!
# Tokens of type text

`scan` cuts type text into tokens; blank characters stand between tokens and never within one. Where
no token begins, the text is refused at the character after the last token.
-/

namespace ApiPage.Ty

/-- A token of type text. -/
inductive Token
  | word (s : Str)
  | ellipsis
  | unit
  | opening
  | closing
  | comma
  | bar
  deriving DecidableEq, Repr

/-- A token as it stands in type text. -/
def Token.text : Token → Str
  | .word s => s
  | .ellipsis => "..."
  | .unit => "()"
  | .opening => "["
  | .closing => "]"
  | .comma => ","
  | .bar => "|"

/-- A character that may begin a word: an ASCII letter or an underscore. -/
def isWordStart : CodePoint → Bool
  | .char c => c.isAlpha || c == '_'
  | .surrogate _ => false

/-- A character that may go on with a word: also an ASCII digit or a dot. -/
def isWordPart : CodePoint → Bool
  | .char c => c.isAlphanum || c == '_' || c == '.'
  | .surrogate _ => false

/-- The token at the front of a text and the text after it. -/
def nextToken? : List CodePoint → Option (Token × List CodePoint)
  | .char '.' :: .char '.' :: .char '.' :: cs => some (.ellipsis, cs)
  | .char '(' :: .char ')' :: cs => some (.unit, cs)
  | .char '[' :: cs => some (.opening, cs)
  | .char ']' :: cs => some (.closing, cs)
  | .char ',' :: cs => some (.comma, cs)
  | .char '|' :: cs => some (.bar, cs)
  | c :: cs =>
    if isWordStart c then
      some (.word (Str.ofList (c :: cs.takeWhile isWordPart)), cs.dropWhile isWordPart)
    else none
  | [] => none

theorem length_dropWhile_le {α : Type} (p : α → Bool) (l : List α) :
    (l.dropWhile p).length ≤ l.length :=
  (List.dropWhile_sublist p).length_le

/-- A token takes up at least one character. -/
theorem length_lt_of_nextToken? {cs rest : List CodePoint} {t : Token}
    (h : nextToken? cs = some (t, rest)) : rest.length < cs.length := by
  unfold nextToken? at h
  split at h
  case h_7 =>
    split at h
    · simp only [Option.some.injEq, Prod.mk.injEq] at h
      obtain ⟨-, rfl⟩ := h
      exact Nat.lt_succ_of_le (length_dropWhile_le _ _)
    · simp at h
  case h_8 => simp at h
  all_goals
    simp only [Option.some.injEq, Prod.mk.injEq] at h
    obtain ⟨-, rfl⟩ := h
    simp only [List.length_cons]
    omega

/-- The tokens of a text, or the character at which it is refused. -/
def scan (cs : List CodePoint) : Except CodePoint (List Token) :=
  match h : nextToken? (cs.dropWhile CodePoint.isBlank) with
  | some (t, rest) =>
    have : rest.length < cs.length :=
      Nat.lt_of_lt_of_le (length_lt_of_nextToken? h) (length_dropWhile_le _ _)
    match scan rest with
    | .error c => .error c
    | .ok ts => .ok (t :: ts)
  | none =>
    match cs.dropWhile CodePoint.isBlank with
    | [] => .ok []
    | c :: _ => .error (cs.headD c)
termination_by cs.length

end ApiPage.Ty
