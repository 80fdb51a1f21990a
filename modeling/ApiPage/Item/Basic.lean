import ApiPage.Ty.Basic
import ApiPage.Value

/-!
# Documented items

What a page documents: modules, types, functions and properties. `Item.asMember` is the form in which
an item stands on the page of the item that holds it.
-/

namespace ApiPage

/-- Prose: a summary and, if there is more to say, details. -/
structure Docs where
  summary : Str
  details : Option Str
  deriving DecidableEq, Repr

/-- Summary and details in one text, a blank line between them. -/
def Docs.combined (d : Docs) : Str :=
  match d.details with
  | none => d.summary
  | some details => d.summary ++ "\n\n" ++ details

/-- How a call binds a parameter. -/
inductive ParamKind
  /-- By position only. -/
  | positional
  /-- By position or by name. -/
  | flexible
  /-- By name only. -/
  | keyword
  /-- All further positions. -/
  | args
  /-- All further names. -/
  | kwargs
  deriving DecidableEq, Repr

namespace ParamKind

/-- The kinds in the order of a signature. -/
def all : List ParamKind := [.positional, .flexible, .keyword, .args, .kwargs]

/-- The word for a kind in a document. -/
def word : ParamKind → Str
  | .positional => "positional"
  | .flexible => "positional_or_keyword"
  | .keyword => "keyword"
  | .args => "args"
  | .kwargs => "kwargs"

/-- The kind that a word names. -/
def ofWord? (s : Str) : Option ParamKind :=
  all.find? fun k => k.word = s

@[simp] theorem ofWord?_word (k : ParamKind) : ofWord? k.word = some k := by
  cases k <;> rfl

end ParamKind

/-- A parameter of a function; the default value is source text. -/
structure Param where
  name : Str
  kind : ParamKind := .flexible
  ty : Ty := Ty.any
  docs : Option Docs := none
  default : Option Str := none
  deriving DecidableEq, Repr

/-- What a function gives back. -/
structure Returns where
  ty : Ty := Ty.any
  docs : Option Docs := none
  deriving DecidableEq, Repr

/-- A documented function, its parameters in the order of its signature. -/
structure Function where
  params : List Param := []
  returns : Returns := {}
  docs : Option Docs := none
  deriving DecidableEq, Repr

/-- A documented attribute or constant. -/
structure Property where
  ty : Ty := Ty.any
  docs : Option Docs := none
  deriving DecidableEq, Repr

/-- Have the types of parameters a text? -/
def Params.hasText (ps : List Param) : Bool := ps.all fun p => Ty.hasText p.ty

/-- Have all types of a function a text? -/
def Function.hasText (f : Function) : Bool := Params.hasText f.params && Ty.hasText f.returns.ty

/-- A documented item. The members of modules and types are in document order. -/
inductive Item
  | module (docs : Option Docs) (members : List (Scalar × Item))
  | type (docs : Option Docs) (constructor : Option Function) (members : List (Scalar × Item))
      (ty : Ty)
  | function (f : Function)
  | property (p : Property)
  deriving Repr

/-- What can stand on the page of the item that holds it. -/
inductive Member
  | function (f : Function)
  | property (p : Property)
  deriving DecidableEq, Repr

/-- Have all types of a member a text? -/
def Member.hasText : Member → Bool
  | .function f => f.hasText
  | .property p => Ty.hasText p.ty

namespace Item

/-- The members of a module or type. -/
def members : Item → List (Scalar × Item)
  | .module _ members => members
  | .type _ _ members _ => members
  | _ => []

/-- A type among a module's members is shown as a property of that type; a module has no such form. -/
def asMember : Item → Option Member
  | .function f => some (.function f)
  | .property p => some (.property p)
  | .type docs _ _ ty => some (.property ⟨ty, docs⟩)
  | .module _ _ => none

/-- The member under a name. -/
def child? (item : Item) (name : Str) : Option Item :=
  (item.members.find? fun e => e.1.sameKey (.text name)).map (·.2)

/-- The item reached from an item by a path of member names. -/
def follow? : Item → List Str → Option Item
  | item, [] => some item
  | item, name :: names => (item.child? name).bind (follow? · names)

end Item

end ApiPage
