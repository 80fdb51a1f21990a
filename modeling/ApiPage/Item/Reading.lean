import ApiPage.Item.Basic
import ApiPage.Item.Flaw

/-!
# Reading an item from document data

`readItem` builds the item that a mapping describes, or refuses it at the first flaw in reading
order: the members of an item before its other parts, and its prose last. A part that is absent, null
or vacant is left out. The key of a member, a default and a kind that is none are written out on the way,
and reading ends where one of them holds a number of too many digits.
-/

namespace ApiPage

/-- What reading gives: a thing, or the fault for which there is none. -/
abbrev Reading := Except ItemFault

namespace Reading

/-- The refusal for a flaw at a place. -/
def refuse {α : Type} (loc : Location) (flaw : Flaw) : Reading α :=
  .error (.refused ⟨loc, flaw⟩)

/-- A reading that has to write a value out first. -/
def writing {α : Type} (v : Value) (r : Reading α) : Reading α :=
  if v.writable then r else .error .unwritable

@[simp] theorem writing_eq_ok {α : Type} {v : Value} {r : Reading α} {a : α} :
    writing v r = .ok a ↔ v.writable = true ∧ r = .ok a := by
  unfold writing
  split <;> simp_all

@[simp] theorem refuse_ne_ok {α : Type} {loc : Location} {flaw : Flaw} {a : α} :
    refuse loc flaw ≠ .ok a := by
  simp [refuse]

/-- The entries of a value that has to be a mapping. -/
def mapping (loc : Location) : Value → Reading Entries
  | .map entries => .ok entries
  | _ => refuse loc .notAMapping

/-! ### Leaves -/

/-- Details of prose; an empty text is no details. -/
def details (loc : Location) : Value → Reading (Option Str)
  | .scalar .null => .ok none
  | .scalar (.text s) => .ok (if s = "" then none else some s)
  | _ => refuse loc .notText

/-- A summary. -/
def summary (loc : Location) : Value → Reading Str
  | .scalar (.text s) => .ok s
  | _ => refuse loc .notText

/-- Prose: a summary alone, or a mapping with a summary and details. -/
def docs (loc : Location) : Value → Reading (Option Docs)
  | .scalar .null => .ok none
  | .scalar (.text s) => .ok (some ⟨s, none⟩)
  | .map entries => do
    let s ← summary (loc.field "summary") (Entries.field entries "summary")
    let d ← details (loc.field "details") (Entries.field entries "details")
    .ok (some ⟨s, d⟩)
  | _ => refuse loc .notAMapping

/-- A type from its text; null says nothing. -/
def ty (loc : Location) : Value → Reading Ty
  | .scalar .null => .ok Ty.any
  | .scalar (.text s) =>
    match Ty.read s with
    | .ok t => .ok t
    | .error e => refuse loc (.badType e)
  | _ => refuse loc .notTypeText

/-- A name, which is not empty. -/
def name (loc : Location) : Value → Reading Str
  | .scalar (.text s) => if s = "" then refuse loc .emptyOrNotText else .ok s
  | _ => refuse loc .emptyOrNotText

/-! ### Parameters -/

/-- The kind of a parameter; a parameter without one is bound by position or name. -/
def paramKind (loc : Location) : Option Value → Reading ParamKind
  | none => .ok .flexible
  | some (.scalar (.text s)) =>
    match ParamKind.ofWord? s with
    | some k => .ok k
    | none => refuse loc (.unknownParamKind (.text s))
  | some v => writing v (refuse loc (.unknownParamKind v))

/-- A default value as source text; null is none. -/
def default : Value → Reading (Option Str)
  | .scalar .null => .ok none
  | v => writing v (.ok (some v.plain))

/-- A parameter. -/
def param (loc : Location) (entries : Entries) : Reading Param := do
  let name ← name (loc.field "name") (entries.field "name")
  let kind ← paramKind (loc.field "kind") (entries.field? "kind")
  let ty ← ty (loc.field "type") (entries.field "type")
  let docs ← docs (loc.field "docs") (entries.field "docs")
  let default ← default (entries.field "default")
  .ok ⟨name, kind, ty, docs, default⟩

/-- The parameters of a list from its place `i` on. -/
def paramsFrom (loc : Location) : Nat → List Value → Reading (List Param)
  | _, [] => .ok []
  | i, v :: vs => do
    let entries ← mapping (loc.nth i) v
    let p ← param (loc.nth i) entries
    let ps ← paramsFrom loc (i + 1) vs
    .ok (p :: ps)

/-- The first name that an earlier parameter has already. -/
def repeated? (seen : List Str) : List Param → Option Str
  | [] => none
  | p :: ps => if p.name ∈ seen then some p.name else repeated? (p.name :: seen) ps

/-- A parameter list, in which every name occurs once. -/
def params (loc : Location) (v : Value) : Reading (List Param) :=
  if v.isVacant then .ok []
  else match v with
    | .list vs => do
      let ps ← paramsFrom loc 0 vs
      match repeated? [] ps with
      | none => .ok ps
      | some name => refuse loc (.duplicateParam name)
    | _ => refuse loc .notAList

/-! ### Functions and properties -/

/-- What a function gives back. -/
def returns (loc : Location) (v : Value) : Reading Returns := do
  let entries : Entries ← if v.isVacant then .ok [] else mapping loc v
  let t ← ty (loc.field "type") (entries.field "type")
  let d ← docs (loc.field "docs") (entries.field "docs")
  .ok ⟨t, d⟩

/-- A function. -/
def function (loc : Location) (entries : Entries) : Reading Function := do
  let ps ← params (loc.field "params") (entries.field "params")
  let r ← returns (loc.field "returns") (entries.field "returns")
  let d ← docs (loc.field "docs") (entries.field "docs")
  .ok ⟨ps, r, d⟩

/-- A property. -/
def property (loc : Location) (entries : Entries) : Reading Property := do
  let t ← ty (loc.field "type") (entries.field "type")
  let d ← docs (loc.field "docs") (entries.field "docs")
  .ok ⟨t, d⟩

/-! ### Types and modules -/

/-- The constructor of a type. -/
def constructor (loc : Location) : Value → Reading (Option Function)
  | .scalar .null => .ok none
  | .map entries => do
    let f ← function loc entries
    .ok (some f)
  | _ => refuse loc .notAMapping

/-- The text that says which type a type item is: its own type text, or else its name. -/
def ownTypeText (entries : Entries) : Value :=
  match entries.field? "ty" with
  | some v => v
  | none => entries.field "name"

/-- The type of a type item that says nothing about it: the name under which it is listed. -/
def listedTy (loc : Location) : Ty :=
  match loc.innermost? with
  | none => Ty.any
  | some name => Ty.named name

/-- The type that a type item is. -/
def ownTy (loc : Location) (entries : Entries) : Reading Ty :=
  match ownTypeText entries with
  | .scalar .null => .ok (listedTy loc)
  | v => ty (loc.field "ty") v

/-- The four kinds of items. -/
inductive ItemKind
  | module
  | type
  | function
  | property
  deriving DecidableEq, Repr

/-- The word for a kind in a document. -/
def ItemKind.word : ItemKind → Str
  | .module => "module"
  | .type => "type"
  | .function => "function"
  | .property => "property"

/-- The kind that a word names. -/
def ItemKind.ofWord? (s : Str) : Option ItemKind :=
  [ItemKind.module, .type, .function, .property].find? fun k => k.word = s

@[simp] theorem ItemKind.ofWord?_word (k : ItemKind) : ItemKind.ofWord? k.word = some k := by
  cases k <;> rfl

/-- The kind of an item. -/
def itemKind (loc : Location) : Value → Reading ItemKind
  | .scalar (.text s) =>
    match ItemKind.ofWord? s with
    | some k => .ok k
    | none => refuse loc (.unknownKind (.text s))
  | v => writing v (refuse loc (.unknownKind v))

/-- A member of a type has to be a function or a property. -/
def fitsTypes : Item → Bool
  | .function _ => true
  | .property _ => true
  | _ => false

mutual

/-- The item that a value describes. -/
def item (loc : Location) : Value → Reading Item
  | .map entries => do
    match ← itemKind loc (Entries.field entries "kind") with
    | .module =>
      let ms ← membersIn loc false entries
      let d ← docs (loc.field "docs") (Entries.field entries "docs")
      .ok (.module d ms)
    | .type =>
      let ms ← membersIn loc true entries
      let c ← constructor (loc.field "constructor") (Entries.field entries "constructor")
      let t ← ownTy loc entries
      let d ← docs (loc.field "docs") (Entries.field entries "docs")
      .ok (.type d c ms t)
    | .function =>
      let f ← function loc entries
      .ok (.function f)
    | .property =>
      let p ← property loc entries
      .ok (.property p)
  | _ => refuse loc .notAMapping

/-- The members listed in the entries of an item. -/
def membersIn (loc : Location) (inType : Bool) : List (Scalar × Value) → Reading (List (Scalar × Item))
  | [] => .ok []
  | (k, v) :: rest =>
    if k.sameKey (.text "members") then membersOf loc inType v else membersIn loc inType rest

/-- The members listed in a value; a vacant one lists none. -/
def membersOf (loc : Location) (inType : Bool) : Value → Reading (List (Scalar × Item))
  | .map entries => members loc inType entries
  | .scalar s => if (Value.scalar s).isVacant then .ok [] else refuse (loc.field "members") .notAMapping
  | .list vs => if vs.isEmpty then .ok [] else refuse (loc.field "members") .notAMapping
  | .foreign f => if f.empty then .ok [] else refuse (loc.field "members") .notAMapping

/-- The members that a list of entries describes, in order. -/
def members (loc : Location) (inType : Bool) : List (Scalar × Value) → Reading (List (Scalar × Item))
  | [] => .ok []
  | (k, v) :: rest => do
    let i ← writing (.scalar k) (item (loc.member k) v)
    if inType && !fitsTypes i then refuse (loc.member k) .notForTypes
    else
      let is ← members loc inType rest
      .ok ((k, i) :: is)

end

end Reading

/-- The item that document data describes. -/
def readItem (loc : Location) (entries : Entries) : Reading Item :=
  Reading.item loc (.map entries)

end ApiPage
