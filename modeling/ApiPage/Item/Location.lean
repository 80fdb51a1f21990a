import ApiPage.Value

/-!
# Places in a document

A place is a root text and the steps that lead from the root into the document. Its text is what a
refusal shows; `innermost?` finds in it the name under which an item was listed.
-/

namespace ApiPage

/-- One step into a document. -/
inductive Step
  | key (k : Scalar)
  | index (i : Nat)
  deriving DecidableEq, Repr

/-- A step as it is written. -/
def Step.text : Step → Str
  | .key k => "." ++ k.plain
  | .index i => "[" ++ toString i ++ "]"

/-- A place in a document, its steps from the root inward. -/
structure Location where
  root : Str := "$"
  steps : List Step := []
  deriving DecidableEq, Repr

namespace Location

/-- A place as it is written. -/
def text (l : Location) : Str :=
  l.root ++ Text.concat (l.steps.map Step.text)

/-- The place under a key. -/
def under (l : Location) (k : Scalar) : Location :=
  { l with steps := l.steps ++ [.key k] }

/-- The place of a named field. -/
def field (l : Location) (name : Str) : Location :=
  l.under (.text name)

/-- The place of a member of a list. -/
def nth (l : Location) (i : Nat) : Location :=
  { l with steps := l.steps ++ [.index i] }

/-- The place of a member of an item. -/
def member (l : Location) (k : Scalar) : Location :=
  (l.field "members").under k

@[simp] theorem root_under (l : Location) (k : Scalar) : (l.under k).root = l.root := rfl

@[simp] theorem steps_under (l : Location) (k : Scalar) :
    (l.under k).steps = l.steps ++ [.key k] := rfl

@[simp] theorem text_under (l : Location) (k : Scalar) :
    (l.under k).text = l.text ++ ("." ++ k.plain) := by
  simp [text, under, Text.concat, Step.text, Str.append_assoc]

/-- What follows the last occurrence of a mark. -/
def afterLast? (mark : List CodePoint) : List CodePoint → Option (List CodePoint)
  | [] => none
  | c :: cs =>
    match afterLast? mark cs with
    | some rest => some rest
    | none => if mark.isPrefixOf (c :: cs) then some ((c :: cs).drop mark.length) else none

/-- What stands behind the last mark of membership in the text of a place, unless it is empty. -/
def innermost? (l : Location) : Option Str :=
  match afterLast? (Str.whole ".members.").toList l.text.toList with
  | none => none
  | some [] => none
  | some cs => some (Str.ofList cs)

end Location

end ApiPage
