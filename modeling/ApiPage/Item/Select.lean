import ApiPage.Item.Basic
import ApiPage.Item.Params

/-!
# Selecting members and parameters

A dotted path names a member below an item. A selected member is shown under the name that it has on
the page of the item: with the item's name before it if the item is a type.
-/

namespace ApiPage

/-- Why nothing is selected. -/
inductive SelectFault
  | noMember (name path : Str)
  | notAFunction (path : Str)
  | noParam (path param : Str)
  deriving DecidableEq, Repr

/-- The wording of a fault. -/
def SelectFault.message : SelectFault → Str
  | .noMember name path => name ++ " has no member " ++ path
  | .notAFunction path => path ++ " is not a function"
  | .noParam path param => path ++ " has no parameter " ++ param

namespace Item

/-- What stands before the name of a member below an item. -/
def memberLead (name : Str) : Item → Str
  | .type _ _ _ _ => name ++ "."
  | _ => ""

/-- The member at a dotted path below an item, under the name that it is shown with. -/
def select (name : Str) (item : Item) (path : Str) : Except SelectFault (Str × Member) :=
  match (item.follow? (Text.splitAt '.' path)).bind asMember with
  | none => .error (.noMember name path)
  | some m => .ok (item.memberLead name ++ path, m)

/-- The function at a dotted path below an item; a single dot is the item itself. -/
def selectFunction (name : Str) (item : Item) (path : Str) : Except SelectFault Function :=
  if path = "." then
    match item with
    | .function f => .ok f
    | _ => .error (.notAFunction path)
  else
    match item.select name path with
    | .error fault => .error fault
    | .ok (_, .function f) => .ok f
    | .ok (_, .property _) => .error (.notAFunction path)

/-- A parameter of the function at a dotted path. -/
def selectParam (name : Str) (item : Item) (path param : Str) : Except SelectFault Param :=
  match item.selectFunction name path with
  | .error fault => .error fault
  | .ok f =>
    match Params.find? f.params param with
    | none => .error (.noParam path param)
    | some p => .ok p

end Item

end ApiPage
