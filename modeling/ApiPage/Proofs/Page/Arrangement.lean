import ApiPage.Proofs.Page.Blocks

/-!
# What stands on the page of a container

Below the title and the introduction, the page of a module or a type has one block for every member that is
no module, in rising order of the names; the constructor of a type stands before them and is never sorted
in. A list of members in which names are repeated is arranged in the same way, and members of one name stay
in the order in which they were given.
-/

namespace ApiPage

variable {style : Style} {name text : Str} {ms : List (Scalar × Item)}

/-! ### Members as they are listed -/

/-- The members that a page lists, each under its name and in the form that it has there: all but modules,
none of them twice, the names rising. -/
structure Listing (ms : List (Scalar × Item)) (listed : List (Str × Member)) : Prop where
  mem_iff : ∀ k m, (k, m) ∈ listed ↔ ∃ i, (Scalar.text k, i) ∈ ms ∧ i.ShownAs m
  rising : listed.Pairwise fun a b => a.1 < b.1

theorem mem_pageMembers {k : Scalar} {m : Member} :
    (k, m) ∈ pageMembers ms ↔ ∃ i, (k, i) ∈ ms ∧ i.ShownAs m := by
  simp only [pageMembers, List.mem_filterMap, ← Item.asMember_eq_some]
  constructor
  · rintro ⟨⟨l, i⟩, hi, h⟩
    obtain ⟨m', hm', heq⟩ := Option.map_eq_some_iff.mp h
    obtain ⟨rfl, rfl⟩ := Prod.mk.inj heq
    exact ⟨i, hi, hm'⟩
  · rintro ⟨i, hi, hm⟩
    exact ⟨(k, i), hi, by rw [hm]; rfl⟩

/-- Members under their names as texts. -/
def named (sorted : List (Scalar × Member)) : List (Str × Member) :=
  sorted.map fun e => (e.1.textOf, e.2)

theorem text_textOf {k : Scalar} (h : k.isText = true) : Scalar.text k.textOf = k := by
  cases k <;> first | rfl | cases h

/-- The members of a page in the order of their names are its listing. -/
theorem listing_named {sorted : List (Scalar × Member)} (hk : TextKeys ms)
    (hperm : sorted.Perm (pageMembers ms)) (horder : InOrder sorted) : Listing ms (named sorted) := by
  have htext : ∀ e ∈ sorted, e.1.isText = true := fun e he =>
    (textKeys_iff.mp (textKeys_pageMembers hk)).2 e (hperm.mem_iff.mp he)
  refine ⟨fun k m => ?_, List.pairwise_map.mpr horder⟩
  rw [← mem_pageMembers, ← hperm.mem_iff, named, List.mem_map]
  constructor
  · rintro ⟨e, he, heq⟩
    obtain ⟨rfl, rfl⟩ := Prod.mk.inj heq
    have hkey := text_textOf (htext e he)
    rw [hkey]
    exact he
  · intro hmem
    exact ⟨_, hmem, rfl⟩

/-- A block is the section of a member under what leads its name. -/
theorem memberBlocks_eq_map {sorted : List (Scalar × Member)} (lead : Str)
    (htext : ∀ e ∈ sorted, e.1.isText = true) : memberBlocks style lead sorted =
      (named sorted).map fun e => e.2.section style (lead ++ e.1) := by
  rw [memberBlocks, named, List.map_map]
  refine List.map_congr_left fun e he => ?_
  have hplain : e.1.plain = e.1.textOf := by
    rw [← text_textOf (htext e he)]
    rfl
  rw [hplain]
  rfl

/-! ### Pages -/

/-- What stands above the blocks of a page. -/
def Page.opening (title : Str) (docs : Option Docs) : Str :=
  match docs with
  | none => "# " ++ title
  | some d => "# " ++ title ++ "\n\n" ++ d.combined

theorem Page.text_eq (title : Str) (docs : Option Docs) (blocks : List Str) :
    (Page.mk title (docs.map Docs.combined) blocks).text =
      opening title docs ++ "\n\n" ++ Text.joinWith "\n\n---\n\n" blocks := by
  cases docs with
  | none => rfl
  | some d => rfl

variable {docs : Option Docs}

theorem itemPage_module_iff {sorted : List (Scalar × Member)}
    (hs : orderByName (pageMembers ms) = .ok sorted) :
    itemPage style name (.module docs ms) = .ok text ↔ HaveText ms ∧
      text = (Page.mk name (docs.map Docs.combined) (memberBlocks style "" sorted)).text := by
  constructor
  · intro hpage
    have ht : HaveText ms := Item.writable_of_itemPage hpage
    rw [itemPage_module ht, hs] at hpage
    exact ⟨ht, (Except.ok.inj hpage).symm⟩
  · rintro ⟨ht, rfl⟩
    rw [itemPage_module ht, hs]
    rfl

theorem itemPage_type_iff {c : Option Function} {t : Ty} {sorted : List (Scalar × Item)}
    (hs : orderByName ms = .ok sorted) :
    itemPage style name (.type docs c ms t) = .ok text ↔ (Item.type docs c ms t).Writable ∧
      text = (Page.mk ("`" ++ name ++ "` type") (docs.map Docs.combined)
        ((c.map (·.bareSection style name)).toList ++
          memberBlocks style (name ++ ".") (pageMembers sorted))).text := by
  constructor
  · intro hpage
    obtain ⟨hc, hin, ht⟩ := Item.writable_of_itemPage hpage
    rw [itemPage_type hc hin ht, hs] at hpage
    exact ⟨⟨hc, hin, ht⟩, (Except.ok.inj hpage).symm⟩
  · rintro ⟨⟨hc, hin, ht⟩, rfl⟩
    rw [itemPage_type hc hin ht, hs]
    rfl

/-- A list of members that has a page is made of functions and properties that have a text. -/
theorem containerPage_iff {title lead : Str} {own : Option Str} {sorted : List (Scalar × Item)}
    {page : Page} (hs : orderByName ms = .ok sorted) :
    containerPage style title docs lead own ms = .ok page ↔
      ((∀ m ∈ ms, m.2.IsTypeMember) ∧ HaveText ms) ∧
        page = ⟨title, docs.map Docs.combined,
          own.toList ++ memberBlocks style lead (pageMembers sorted)⟩ := by
  have hperm := orderByName_perm hs
  constructor
  · intro h
    obtain ⟨sorted', hs', h⟩ := bind_eq_ok.mp h
    obtain rfl : sorted = sorted' := Except.ok.inj (hs.symm.trans hs')
    obtain ⟨shown, hto, h⟩ := bind_eq_ok.mp h
    obtain ⟨hin, ht⟩ := haveText_of_toMembers hto
    rw [toMembers_eq_ok hin ht] at hto
    obtain rfl := Except.ok.inj hto
    refine ⟨⟨fun m hm => ?_, fun m hm => ?_⟩, (Except.ok.inj h).symm⟩
    · exact hin m (hperm.mem_iff.mpr hm)
    · exact ht m (hperm.mem_iff.mpr hm)
  · rintro ⟨⟨hin, ht⟩, rfl⟩
    have hto : toMembers sorted = .ok (pageMembers sorted) :=
      toMembers_eq_ok (fun m hm => hin m (hperm.mem_iff.mp hm)) fun m hm => ht m (hperm.mem_iff.mp hm)
    exact bind_eq_ok.mpr ⟨sorted, hs, bind_eq_ok.mpr ⟨_, hto, rfl⟩⟩

/-- **A page loses no member, doubles none and puts each in its place.** If the names of the members are
different texts, a module and a type have one listing, and their pages, where they have one, are the
opening and then the blocks of the listing, those of a type behind that of its constructor. Members whose
names are repeated are arranged too, and those of one name keep their order. -/
theorem itemPage_arranged (hk : TextKeys ms) (style : Style) (name : Str) (docs : Option Docs) :
    (∃ listed, Listing ms listed ∧
      (∀ text, itemPage style name (.module docs ms) = .ok text ↔ HaveText ms ∧
        text = Page.opening name docs ++ "\n\n" ++ Text.joinWith "\n\n---\n\n"
          (listed.map fun e => e.2.section style e.1)) ∧
      ∀ c t text, itemPage style name (.type docs c ms t) = .ok text ↔
        (Item.type docs c ms t).Writable ∧
          text = Page.opening ("`" ++ name ++ "` type") docs ++ "\n\n" ++ Text.joinWith "\n\n---\n\n"
            ((c.map (·.bareSection style name)).toList ++
              listed.map fun e => e.2.section style (name ++ "." ++ e.1))) ∧
      ∀ es : List (Scalar × Item), (∀ e ∈ es, e.1.isText = true) → ∃ sorted, Arranged es sorted ∧
        ∀ title lead own page, containerPage style title docs lead own es = .ok page ↔
          ((∀ e ∈ es, e.2.IsTypeMember) ∧ HaveText es) ∧
            page = ⟨title, docs.map Docs.combined,
              own.toList ++ memberBlocks style lead (pageMembers sorted)⟩ := by
  refine ⟨?_, fun es htext => ?_⟩
  · obtain ⟨sorted, hs, hperm, horder⟩ := exists_orderByName (textKeys_pageMembers hk)
    obtain ⟨items, hitems, hitemsPerm, hitemsOrder⟩ := exists_orderByName hk
    -- the members that stand on a page have one order, sorted before they are shown or after
    have hsame : pageMembers items = sorted :=
      (pageMembers_inOrder hitemsOrder).eq_of_perm horder ((hitemsPerm.filterMap _).trans hperm.symm)
    have htext : ∀ e ∈ sorted, e.1.isText = true := fun e he =>
      (textKeys_iff.mp (textKeys_pageMembers hk)).2 e (hperm.mem_iff.mp he)
    refine ⟨named sorted, listing_named hk hperm horder, fun text => ?_, fun c t text => ?_⟩
    · rw [itemPage_module_iff hs, Page.text_eq, memberBlocks_eq_map "" htext]
      simp only [Str.empty_append]
    · rw [itemPage_type_iff hitems, Page.text_eq, hsame, memberBlocks_eq_map (name ++ ".") htext]
  · obtain ⟨sorted, hs, harranged⟩ := exists_arranged htext
    exact ⟨sorted, harranged, fun title lead own page => containerPage_iff hs⟩

namespace Drawings

def prose : Option Docs := some ⟨"Shapes.", some (.whole "Flat ones.")⟩

/-- A module in a module has no block, and a type in it is shown as a property. -/
def members : List (Scalar × Item) :=
  [(.text "zoom", .function {}), (.text "plane", .module none []),
    (.text "Box", .type none (some {}) [(.text "side", .property {})] (Ty.named "Box"))]

/-- Two members of one name. -/
def repeated : List (Scalar × Item) :=
  [(.text "side", .function {}), (.text "area", .property {}), (.text "side", .property {})]

theorem textKeys : TextKeys members :=
  ⟨["zoom", "plane", "Box"], by decide, rfl⟩

theorem haveText : HaveText members := by
  have hmembers : ∀ e ∈ members, ∀ m ∈ e.2.asMember, m.hasText = true := by decide
  exact haveText_iff.mpr hmembers

theorem isTypeMember_repeated : ∀ e ∈ repeated, e.2.IsTypeMember := by
  simp [repeated, Item.IsTypeMember]

theorem haveText_repeated : HaveText repeated := by
  have hmembers : ∀ e ∈ repeated, ∀ m ∈ e.2.asMember, m.hasText = true := by decide
  exact haveText_iff.mpr hmembers

end Drawings

open Drawings in
/-- A module that holds a module, a type and a function, and a list that holds two members of one name. -/
theorem itemPage_arranged_drawings : TextKeys members ∧
    (∃ listed, Listing members listed ∧ itemPage {} "geo" (.module prose members) =
      .ok (Page.opening "geo" prose ++ "\n\n" ++ Text.joinWith "\n\n---\n\n"
        (listed.map fun e => e.2.section {} e.1))) ∧
    ∃ sorted, Arranged repeated sorted ∧ containerPage {} "list" prose "" (some (.whole "")) repeated =
      .ok ⟨"list", prose.map Docs.combined, "" :: memberBlocks {} "" (pageMembers sorted)⟩ := by
  obtain ⟨⟨listed, hlisting, hmodule, -⟩, hrepeated⟩ := itemPage_arranged textKeys {} "geo" prose
  obtain ⟨sorted, harranged, hpage⟩ := hrepeated repeated (by decide)
  refine ⟨textKeys, ⟨listed, hlisting, (hmodule _).mpr ⟨haveText, rfl⟩⟩, sorted, harranged, ?_⟩
  exact (hpage "list" "" (some (.whole "")) _).mpr ⟨⟨isTypeMember_repeated, haveText_repeated⟩, rfl⟩

end ApiPage
