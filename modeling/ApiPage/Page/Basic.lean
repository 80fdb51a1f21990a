import ApiPage.Page.Order
import ApiPage.Page.Section

/-!
# Pages

The page of an item. A module and a type have a title, an introduction and a list of blocks with a
rule between neighbours; a function or property is its own section. An item may have no page: the names
of its members may have no order, and in a model that no document describes a type may hold items that
have no section, and a tuple may have no text.
-/

namespace ApiPage

/-- Why an item has no page. -/
inductive PageFault
  /-- A type where only functions and properties have a section. -/
  | typeAsMember
  /-- A module where only functions and properties have a section. -/
  | moduleAsMember
  /-- A tuple of any length without a type of its elements, which has no text. -/
  | elementlessTuple
  /-- Two names without an order between them. -/
  | unorderedNames (cause : Disorder)
  deriving DecidableEq, Repr

/-- The wording of a refusal. -/
def PageFault.message : PageFault → String
  | .typeAsMember => "Cannot render DocType as a member"
  | .moduleAsMember => "Cannot render DocModule as a member"
  | .elementlessTuple => "tuple index out of range"
  | .unorderedNames cause => cause.message

/-- A title, an introduction and blocks. -/
structure Page where
  title : Str
  introduction : Option Str
  blocks : List Str
  deriving DecidableEq, Repr

namespace Page

/-- What stands between two blocks. -/
def rule : Str := "\n\n---\n\n"

/-- The title, and the introduction a blank line below it. -/
def head (p : Page) : Str :=
  match p.introduction with
  | none => "# " ++ p.title
  | some text => "# " ++ p.title ++ "\n\n" ++ text

/-- A page as text. -/
def text (p : Page) : Str :=
  p.head ++ "\n\n" ++ Text.joinWith rule p.blocks

end Page

/-- A member, if its types have a text. -/
def Member.writable (m : Member) : Except PageFault Member :=
  if m.hasText then .ok m else .error .elementlessTuple

/-- The member that an item is, as it stands. -/
def Item.toMember : Item → Except PageFault Member
  | .function f => (Member.function f).writable
  | .property p => (Member.property p).writable
  | .type _ _ _ _ => .error .typeAsMember
  | .module _ _ => .error .moduleAsMember

/-- Named things in the order of their names, if the names have one. -/
def orderByName {α : Type} (es : List (Scalar × α)) : Except PageFault (List (Scalar × α)) :=
  (sortByName es).mapError .unorderedNames

/-- The sections of members under `lead` and their names. -/
def memberBlocks (style : Style) (lead : Str) (ms : List (Scalar × Member)) : List Str :=
  ms.map fun m => m.2.section style (lead ++ m.1.plain)

/-- The members that items are, as they stand. -/
def toMembers : List (Scalar × Item) → Except PageFault (List (Scalar × Member))
  | [] => .ok []
  | (k, i) :: rest => do
    let m ← i.toMember
    let ms ← toMembers rest
    .ok ((k, m) :: ms)

/-- The page of a container: its own blocks first, then its members in the order of their names. -/
def containerPage (style : Style) (title : Str) (docs : Option Docs) (lead : Str)
    (own : Option Str) (items : List (Scalar × Item)) : Except PageFault Page := do
  let sorted ← orderByName items
  let ms ← toMembers sorted
  .ok ⟨title, docs.map Docs.combined, own.toList ++ memberBlocks style lead ms⟩

/-- The members of a module that have a form on its page. -/
def pageMembers (items : List (Scalar × Item)) : List (Scalar × Member) :=
  items.filterMap fun e => e.2.asMember.map fun m => (e.1, m)

/-- The page of a module. -/
def modulePage (style : Style) (name : Str) (docs : Option Docs) (items : List (Scalar × Item)) :
    Except PageFault Page := do
  let ms ← orderByName (pageMembers items)
  if ms.all fun m => m.2.hasText then
    .ok ⟨name, docs.map Docs.combined, memberBlocks style "" ms⟩
  else .error .elementlessTuple

/-- The page of a type; its constructor stands before its members. -/
def typePage (style : Style) (name : Str) (docs : Option Docs) (constructor : Option Function)
    (items : List (Scalar × Item)) : Except PageFault Page :=
  if constructor.all Function.hasText then
    containerPage style ("`" ++ name ++ "` type") docs (name ++ ".")
      (constructor.map (·.bareSection style name)) items
  else .error .elementlessTuple

/-- The section of an item that has to be a member. -/
def memberSection (style : Style) (name : Str) (i : Item) : Except PageFault Str := do
  let m ← i.toMember
  .ok (m.section style name)

/-- The page of an item as text. -/
def itemPage (style : Style) (name : Str) : Item → Except PageFault Str
  | .module docs members => (modulePage style name docs members).map Page.text
  | .type docs constructor members _ => (typePage style name docs constructor members).map Page.text
  | item => memberSection style name item

end ApiPage
