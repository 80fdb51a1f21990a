import ApiPage.Item.Params

/-!
# The list of documented parameters

Each documented parameter is a bullet with its name in a code span; further lines of its prose are
indented under the bullet. Parameters without prose are left out.
-/

namespace ApiPage.ParamList

/-- The lines of one bullet: the name, then the prose. -/
def bullet (name : Str) (d : Docs) : List Str :=
  match Text.proseLines d.combined with
  | [] => ["* `" ++ name ++ "`"]
  | line :: lines => ("* `" ++ name ++ "`: " ++ line) :: lines.map fun l => "  " ++ l

/-- The lines of a parameter under a name, none where it has no prose. -/
def entryLines (e : Str × Param) : List Str :=
  match e.2.docs with
  | none => []
  | some d => bullet e.1 d

/-- The lines of a list of parameters. -/
def lines (es : List (Str × Param)) : List Str :=
  es.flatMap entryLines

/-- Lines as text, each with its newline. -/
def linesText (ls : List Str) : Str :=
  Text.concat (ls.map (· ++ "\n"))

/-- The text of a list of parameters, if one of them has prose. -/
def text? (es : List (Str × Param)) : Option Str :=
  match lines es with
  | [] => none
  | ls => some (linesText ls)

/-- The entry of one parameter, empty where it has no prose. -/
def entryText (name : Str) (p : Param) : Str :=
  (text? [(name, p)]).getD ""

/-- The text of a function's parameters under their starred names. -/
def ofFunction? (f : Function) : Option Str :=
  text? (f.params.map fun p => (p.starredName, p))

end ApiPage.ParamList
