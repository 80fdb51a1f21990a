import ApiPage.Item.Basic

/-!
# Parameter lists as they are declared

`Param.text` is the text of one parameter between the parentheses. `entries` adds the two markers of
a declaration: a slash after the parameters that are bound by position only, and a lone star before
those that are bound by name only.
-/

namespace ApiPage

namespace Param

/-- The name with the stars of its kind. -/
def starredName (p : Param) : Str :=
  match p.kind with
  | .args => "*" ++ p.name
  | .kwargs => "**" ++ p.name
  | _ => p.name

/-- A type after its mark, nothing for the type that says nothing. -/
def typeSuffix (mark : Str) (t : Ty) : Str :=
  if t.isAny then "" else mark ++ Ty.text t

/-- A parameter as it is declared. -/
def text (p : Param) : Str :=
  p.starredName ++ typeSuffix ": " p.ty ++
    match p.default with
    | none => ""
    | some d => " = " ++ d

end Param

/-- One place of a declaration's parameter list. -/
inductive Entry
  | param (p : Param)
  /-- All parameters before it are bound by position only. -/
  | slash
  /-- All parameters after it are bound by name only. -/
  | star
  deriving DecidableEq, Repr

/-- A place as it is written. -/
def Entry.text : Entry → Str
  | .param p => p.text
  | .slash => "/"
  | .star => "*"

namespace Params

/-- Is the first of the parameters bound by position only? -/
def startsPositional (ps : List Param) : Bool :=
  match ps with
  | [] => false
  | p :: _ => p.kind = .positional

/-- The places of a parameter list; `announced` tells that the parameters bound by name only have
already been announced. -/
def entriesFrom (announced : Bool) : List Param → List Entry
  | [] => []
  | p :: ps =>
    (if p.kind = .keyword ∧ announced = false then [Entry.star] else []) ++ Entry.param p ::
      ((if p.kind = .positional ∧ startsPositional ps = false then [Entry.slash] else []) ++
        entriesFrom (announced || p.kind = .keyword || p.kind = .args) ps)

/-- The places of a parameter list. -/
def entries (ps : List Param) : List Entry :=
  entriesFrom false ps

/-- The parameter at a place, none at a marker. -/
def param? : Entry → Option Param
  | .param p => some p
  | _ => none

/-- Without the markers, the places are the parameters in order. -/
theorem filterMap_entriesFrom (announced : Bool) (ps : List Param) :
    (entriesFrom announced ps).filterMap param? = ps := by
  induction ps generalizing announced with
  | nil => rfl
  | cons p ps ih =>
    unfold entriesFrom
    split <;> split <;> simp [List.filterMap_cons, param?, ih]

/-- A place holds a marker or one of the parameters. -/
theorem mem_of_param? {announced : Bool} {ps : List Param} {e : Entry} {p : Param}
    (he : e ∈ entriesFrom announced ps) (hp : param? e = some p) : p ∈ ps := by
  rw [← filterMap_entriesFrom announced ps]
  exact List.mem_filterMap.mpr ⟨e, he, hp⟩

/-- The parameter list on one line. -/
def inlineText (ps : List Param) : Str :=
  Text.joinWith ", " ((entries ps).map Entry.text)

/-- The parameter list with every place on a line of its own. -/
def linesText (indent : Str) (ps : List Param) : Str :=
  Text.concat ((entries ps).map fun e => indent ++ e.text ++ ",\n")

/-- The parameters that carry documentation. -/
def documented (ps : List Param) : List Param :=
  ps.filter (·.docs.isSome)

/-- The first parameter with a name, its stars written or not. -/
def find? (ps : List Param) (name : Str) : Option Param :=
  List.find? (fun p => name = p.name ∨ name = p.starredName) ps

end Params

end ApiPage
