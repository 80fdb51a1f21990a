import ApiPage.Proofs.Item.Naming
import ApiPage.Proofs.Page.Arrangement

/-!
# Types that are listed in a module

A module shows a type that it lists as a property of that type. Where the document does not say which type
it is, it is named after the key under which it is listed: at whatever depth the module stands, and exactly
if the key has no mark of membership in it.
-/

namespace ApiPage

open Location (KeyNames memberMark)

variable {loc : Location} {es listed sub : Entries} {i c : Item} {ms : List (Scalar × Item)}
  {k : Scalar} {n : Nat}

/-- `i.Stands es j fs`: where the mapping `fs` stands in the document `es`, which describes `i`, there `j`
stands in `i`. Members stand in the order of the entries that list them. -/
inductive Item.Stands (i : Item) (es : Entries) : Item → Entries → Prop
  | root : Stands i es i es
  | member {fs listed sub : Entries} {j c : Item} {n : Nat} {k l : Scalar} (above : Stands i es j fs)
      (lists : fs.field "members" = .map listed) (entry : listed[n]? = some (k, .map sub))
      (found : j.members[n]? = some (l, c)) : Stands i es c sub

/-! ### Members are read where they are listed -/

theorem Item.RepresentMembers.getElem? : {loc : Location} → {listed : Entries} →
    {ms : List (Scalar × Item)} → {n : Nat} → Item.RepresentMembers loc listed ms →
    listed[n]? = some (k, .map sub) → ∃ c, ms[n]? = some (k, c) ∧ c.Represents (loc.member k) sub
  | _, _, _, _, .nil, h => by cases h
  | _, _, _, 0, .cons first _, h => by
    cases h
    exact ⟨_, rfl, first⟩
  | _, _, _, _ + 1, .cons _ others, h => others.getElem? h

/-- A member represents the mapping that is listed at its place. -/
theorem Item.RepresentMembers.of_getElem? {l : Scalar} (h : Item.RepresentMembers loc listed ms)
    (hn : listed[n]? = some (k, .map sub)) (hc : ms[n]? = some (l, c)) :
    c.Represents (loc.member k) sub := by
  obtain ⟨c', hc', hrep⟩ := h.getElem? hn
  obtain ⟨-, rfl⟩ := Prod.mk.inj (Option.some.inj (hc'.symm.trans hc))
  exact hrep

/-- What a mapping lists is itself, if it lists anything. -/
theorem eq_of_lists {ls : Entries} {e : Scalar × Value} (h : Schema.Lists (.map listed) ls)
    (hn : listed[n]? = some e) : ls = listed := by
  rcases h with ⟨hvacant, -⟩ | hmap
  · obtain rfl : listed = [] := by simpa [Value.isVacant] using hvacant
    cases hn
  · exact (Value.map.inj hmap).symm

theorem Item.Represents.representMembers {e : Scalar × Value} {m : Scalar × Item}
    (h : i.Represents loc es) (hl : es.field "members" = .map listed) (hn : listed[n]? = some e)
    (hm : i.members[n]? = some m) : Item.RepresentMembers loc listed i.members := by
  obtain ⟨ls, members, lists⟩ := h.exists_representMembers
  have hls := lists (List.ne_nil_of_mem (List.mem_of_getElem? hm))
  rw [hl] at hls
  rwa [eq_of_lists hls hn] at members

/-- What stands in an item that was read was read itself. -/
theorem Item.Stands.represents {j : Item} {fs : Entries} (h : i.Stands es j fs)
    (hi : i.Represents loc es) : ∃ place, j.Represents place fs := by
  induction h with
  | root => exact ⟨loc, hi⟩
  | member _ lists entry found ih =>
    obtain ⟨place, hj⟩ := ih
    exact ⟨_, (hj.representMembers lists entry found).of_getElem? entry found⟩

/-! ### The names of types -/

/-- The type of a name; an empty name says nothing. -/
def Ty.ofName (name : Str) : Ty :=
  if name = "" then Ty.any else Ty.named name

/-- A type that does not say which type it is has the name that its key says. -/
theorem Item.Represents.type_of_unsaid {name : Str} (h : c.Represents (loc.member k) sub)
    (hk : sub.field "kind" = .text "type") (hunsaid : Schema.ownType sub = .null)
    (hname : KeyNames k.plain name) : ∃ d f below, c = .type d f below (Ty.ofName name) := by
  cases h with
  | module hk' => exact absurd (hk.symm.trans hk') (by simp)
  | function hk' => exact absurd (hk.symm.trans hk') (by simp)
  | property hk' => exact absurd (hk.symm.trans hk') (by simp)
  | @type _ _ _ d f below t _ _ _ _ _ own =>
    have hinner := Location.innermost?_member loc hname
    refine ⟨d, f, below, ?_⟩
    congr 1
    cases own with
    | said hsaid => exact absurd (hunsaid.symm.trans hsaid) (by simp)
    | listed _ ht =>
      cases ht with
      | unnamed hnone =>
        rw [hinner] at hnone
        exact (if_pos (by simpa using hnone)).symm
      | named hsome =>
        rw [hinner] at hsome
        obtain ⟨hne, rfl⟩ : name ≠ "" ∧ name = _ := by simpa using hsome
        exact (if_neg hne).symm

theorem ownType_of_unsaid (hty : sub.field? "ty" = none) (hname : sub.field? "name" = none) :
    Schema.ownType sub = .null := by
  rw [Schema.ownType, hty, Option.getD_none, Entries.field_of_none hname]

/-- A key names the type that is called like it exactly if it has no mark in it. -/
theorem ofName_eq_named_iff {key name : Str} (hname : KeyNames key name) (hkey : key ≠ "") :
    Ty.ofName name = Ty.named key ↔ ¬ memberMark <:+: .char '.' :: key.toList := by
  rw [← hname.eq_iff, Ty.ofName]
  split
  · next hempty =>
    refine iff_of_false (by simp [Ty.any, Ty.named]) ?_
    rintro rfl
    exact hkey hempty
  · simp [Ty.named]

/-- The section of a property opens with its name and the text of its type. -/
theorem Property.section_eq (style : Style) (name : Str) (p : Property) : ∃ prose, p.section style name =
    joinParts (sectionHeading name :: codeBlock style.codeLanguage (name ++ ": " ++ Ty.text p.ty) :: prose) :=
  ⟨_, rfl⟩

/-- **A type that is listed in a module, and does not say which type it is, is named after its key** if the
key has no mark of membership in it, counting the dot before the key in, and only then; else it has the name
that stands behind the last mark, or says nothing if none does. It is listed at its key's place, and the
page of the module shows it as a property of the type that it is. -/
theorem exists_listedType {fs : Entries} {docs : Option Docs} {key : Str}
    (h : readItem loc es = .ok i) (hs : i.Stands es (.module docs ms) fs)
    (hl : fs.field "members" = .map listed) (hn : listed[n]? = some (.text key, .map sub))
    (hkey : key ≠ "") (hk : sub.field "kind" = .text "type") (hty : sub.field? "ty" = none)
    (hname : sub.field? "name" = none) :
    ∃ d f below name, ms[n]? = some (.text key, .type d f below (Ty.ofName name)) ∧ KeyNames key name ∧
      (Ty.ofName name = Ty.named key ↔ ¬ memberMark <:+: .char '.' :: key.toList) ∧
      (.text key, .property ⟨Ty.ofName name, d⟩) ∈ pageMembers ms ∧
      ∀ style, ∃ prose, (Member.property ⟨Ty.ofName name, d⟩).section style key =
        joinParts (sectionHeading key ::
          codeBlock style.codeLanguage (key ++ ": " ++ Ty.text (Ty.ofName name)) :: prose) := by
  obtain ⟨place, hmodule⟩ := hs.represents (readItem_represents h)
  obtain ⟨c, hc, hrep⟩ : ∃ c, ms[n]? = some (.text key, c) ∧ c.Represents (place.member (.text key)) sub := by
    cases hmodule with
    | module _ lists members =>
      rw [hl] at lists
      rw [eq_of_lists lists hn] at members
      exact members.getElem? hn
  obtain ⟨name, hnames⟩ := Location.exists_keyNames key
  obtain ⟨d, f, below, rfl⟩ := hrep.type_of_unsaid hk (ownType_of_unsaid hty hname) hnames
  refine ⟨d, f, below, name, hc, hnames, ofName_eq_named_iff hnames hkey, ?_, fun style => ?_⟩
  · exact mem_pageMembers.mpr ⟨_, List.mem_of_getElem? hc, .type ..⟩
  · exact Property.section_eq style key _

namespace PlaneDocument

/-- A type that says nothing but its kind. -/
def unsaid : Entries := [(.text "kind", .text "type")]

def shapes : Entries := [(.text "Shape.flat", .map unsaid)]

def plane : Entries := [(.text "members", .map shapes), (.text "kind", .text "module")]

def doc : Entries := [(.text "kind", .text "module"), (.text "members", .map [(.int 2, .map plane)])]

def shapeItems : List (Scalar × Item) :=
  [(.text "Shape.flat", .type none none [] (Ty.named "Shape.flat"))]

def item : Item := .module none [(.int 2, .module none shapeItems)]

theorem stands_plane : item.Stands doc (.module none shapeItems) plane :=
  .member (n := 0) .root rfl rfl rfl

end PlaneDocument

open PlaneDocument in
/-- A type in a module in a module, under a key with a dot in it. -/
theorem exists_listedType_plane : readItem {} doc = .ok item ∧
    item.Stands doc (.module none shapeItems) plane ∧
    (¬ memberMark <:+: .char '.' :: (Str.whole "Shape.flat").toList) ∧
    ∃ d, (.text "Shape.flat", .property ⟨Ty.named "Shape.flat", d⟩) ∈ pageMembers shapeItems := by
  have hread : readItem {} doc = .ok item := rfl
  have hmark : ¬ memberMark <:+: .char '.' :: (Str.whole "Shape.flat").toList := by decide +kernel
  obtain ⟨d, f, below, name, -, -, hiff, hpage, -⟩ :=
    exists_listedType (n := 0) hread stands_plane rfl rfl (by decide) rfl rfl rfl
  rw [hiff.mpr hmark] at hpage
  exact ⟨hread, stands_plane, hmark, d, hpage⟩

namespace MarkedKey

/-- A module of a type under a key with a mark of membership in it. -/
def doc : Entries :=
  [(.text "kind", .text "module"),
    (.text "members", .map [(.text "a.members.b", .map [(.text "kind", .text "type")])])]

def item : Item := .module none [(.text "a.members.b", .type none none [] (Ty.named "b"))]

end MarkedKey

open MarkedKey in
/-- A type that is named after the end of its key. -/
theorem not_named_markedKey : readItem {} doc = .ok item ∧ Ty.named "b" ≠ Ty.named "a.members.b" :=
  ⟨rfl, by simp [Ty.named]⟩

end ApiPage
