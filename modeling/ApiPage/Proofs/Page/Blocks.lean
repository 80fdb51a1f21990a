import ApiPage.Proofs.Page.KeyOrder

/-!
# A member alone and on its page

The page of a module or type has a block for each member, in the order of their names. A member can also
be selected and shown alone, by a path of names that is followed through the items themselves and not
through the forms that they have on a page. Both ways give the same text.
-/

namespace ApiPage

variable {style : Style} {name text : Str} {i : Item} {m : Member}

/-! ### Items that have a page -/

/-- What stands on the page of an item has a text, and a type holds functions and properties. -/
def Item.Writable : Item → Prop
  | .module _ ms => HaveText ms
  | .type _ c ms _ => c.all Function.hasText = true ∧ (∀ m ∈ ms, m.2.IsTypeMember) ∧ HaveText ms
  | .function f => f.hasText = true
  | .property p => Ty.hasText p.ty = true

theorem haveText_of_toMembers {es : List (Scalar × Item)} {ms : List (Scalar × Member)}
    (h : toMembers es = .ok ms) : (∀ e ∈ es, e.2.IsTypeMember) ∧ HaveText es := by
  induction es generalizing ms with
  | nil => exact ⟨by simp, by simp [HaveText]⟩
  | cons e es ih =>
    obtain ⟨m, hm, h⟩ := bind_eq_ok.mp h
    obtain ⟨others, hothers, -⟩ := bind_eq_ok.mp h
    obtain ⟨hfirst, hsome, htext⟩ := toMember_eq_ok.mp hm
    obtain ⟨hin, ht⟩ := ih hothers
    refine ⟨List.forall_mem_cons.mpr ⟨hfirst, hin⟩, List.forall_mem_cons.mpr ⟨fun m' hm' => ?_, ht⟩⟩
    obtain rfl : m = m' := Option.some.inj (hsome.symm.trans (Item.asMember_eq_some.mpr hm'))
    exact htext

theorem haveText_of_modulePage {docs : Option Docs} {ms : List (Scalar × Item)} {page : Page}
    (h : modulePage style name docs ms = .ok page) : HaveText ms := by
  obtain ⟨sorted, hs, h⟩ := bind_eq_ok.mp h
  split at h
  · next hall =>
    intro e he m hm
    have hmem : (e.1, m) ∈ pageMembers ms :=
      List.mem_filterMap.mpr ⟨e, he, by rw [Item.asMember_eq_some.mpr hm]; rfl⟩
    exact List.all_eq_true.mp hall _ ((orderByName_perm hs).mem_iff.mpr hmem)
  · cases h

theorem writable_of_typePage {docs : Option Docs} {c : Option Function} {ms : List (Scalar × Item)}
    {t : Ty} {page : Page} (h : typePage style name docs c ms = .ok page) :
    (Item.type docs c ms t).Writable := by
  unfold typePage at h
  split at h
  · next hc =>
    obtain ⟨sorted, hs, h⟩ := bind_eq_ok.mp h
    obtain ⟨_, hto, -⟩ := bind_eq_ok.mp h
    have hperm := orderByName_perm hs
    obtain ⟨hin, ht⟩ := haveText_of_toMembers hto
    exact ⟨hc, fun m hm => hin m (hperm.mem_iff.mpr hm), fun e he => ht e (hperm.mem_iff.mpr he)⟩
  · cases h

theorem Item.writable_of_itemPage (h : itemPage style name i = .ok text) : i.Writable := by
  cases i with
  | module docs ms =>
    cases hpage : modulePage style name docs ms with
    | error => simp [itemPage, hpage, Except.map] at h
    | ok page => exact haveText_of_modulePage hpage
  | type docs c ms t =>
    cases hpage : typePage style name docs c ms with
    | error => simp [itemPage, hpage, Except.map] at h
    | ok page => exact writable_of_typePage hpage
  | function f =>
    obtain ⟨m, hm, -⟩ := bind_eq_ok.mp h
    obtain ⟨-, hsome, ht⟩ := toMember_eq_ok.mp hm
    obtain rfl : Member.function f = m := Option.some.inj hsome
    exact ht
  | property p =>
    obtain ⟨m, hm, -⟩ := bind_eq_ok.mp h
    obtain ⟨-, hsome, ht⟩ := toMember_eq_ok.mp hm
    obtain rfl : Member.property p = m := Option.some.inj hsome
    exact ht

/-! ### The blocks of a page -/

/-- The page of an item without the blocks of its members. -/
def Item.ownPage (style : Style) (name : Str) : Item → Page
  | .type docs c _ _ =>
    ⟨"`" ++ name ++ "` type", docs.map Docs.combined, (c.map (·.bareSection style name)).toList⟩
  | .module docs _ => ⟨name, docs.map Docs.combined, []⟩
  | _ => ⟨name, none, []⟩

/-- A page with more blocks at its end. -/
def Page.add (p : Page) (blocks : List Str) : Page :=
  { p with blocks := p.blocks ++ blocks }

/-- `i.BlockOf style name k block text`: in `text`, the page of an item, the member under `k` has
`block`. The members in the order of their names are those before it, itself and those after it, and so
are their blocks. -/
inductive Item.BlockOf (style : Style) (name : Str) (i : Item) (k block : Str) : Str → Prop
  | intro {before after : List (Scalar × Member)} {m : Member}
      (members : (before ++ (.text k, m) :: after).Perm (pageMembers i.members))
      (order : InOrder (before ++ (.text k, m) :: after)) :
      BlockOf style name i k block ((i.ownPage style name).add
        (memberBlocks style (i.memberLead name) before ++
          block :: memberBlocks style (i.memberLead name) after)).text

theorem pageMembers_inOrder {ms : List (Scalar × Item)} (h : InOrder ms) : InOrder (pageMembers ms) := by
  have hnames : (ms.map Prod.fst).Pairwise fun k l => k.textOf < l.textOf :=
    List.pairwise_map.mpr h
  have hshown := hnames.sublist (sublist_pageMembers ms)
  rwa [List.pairwise_map] at hshown

/-- The page of a module or type has the blocks of its members in the order of their names. -/
theorem Item.Writable.exists_itemPage (hw : i.Writable) (hk : TextKeys i.members)
    (hi : ¬ i.IsTypeMember) (style : Style) (name : Str) :
    ∃ sorted, sorted.Perm (pageMembers i.members) ∧ InOrder sorted ∧ itemPage style name i =
      .ok ((i.ownPage style name).add (memberBlocks style (i.memberLead name) sorted)).text := by
  cases i with
  | module docs ms =>
    obtain ⟨sorted, hs, hperm, horder⟩ := exists_orderByName (textKeys_pageMembers hk)
    refine ⟨sorted, hperm, horder, ?_⟩
    rw [Item.members] at hs
    rw [itemPage_module hw, hs]
    rfl
  | type docs c ms t =>
    obtain ⟨hc, hin, ht⟩ := hw
    obtain ⟨sorted, hs, hperm, horder⟩ := exists_orderByName hk
    refine ⟨pageMembers sorted, hperm.filterMap _, pageMembers_inOrder horder, ?_⟩
    rw [Item.members] at hs
    rw [itemPage_type hc hin ht, hs]
    rfl
  | function f => exact absurd (.inl ⟨f, rfl⟩) hi
  | property p => exact absurd (.inr ⟨p, rfl⟩) hi

theorem Item.Writable.exists_itemPage_of_isTypeMember (hw : i.Writable) (hi : i.IsTypeMember)
    (style : Style) (name : Str) : ∃ text, itemPage style name i = .ok text := by
  rcases hi with ⟨f, rfl⟩ | ⟨p, rfl⟩
  · have hto := toMember_eq_ok.mpr ⟨.inl ⟨f, rfl⟩, rfl, hw⟩
    exact ⟨_, itemPage_of_toMember hto⟩
  · have hto := toMember_eq_ok.mpr ⟨.inr ⟨p, rfl⟩, rfl, hw⟩
    exact ⟨_, itemPage_of_toMember hto⟩

/-- The block of a member is its section under the name that a path of it is shown with. -/
theorem Item.blockOf_itemPage (hk : TextKeys i.members) (hpage : itemPage style name i = .ok text)
    {k : Str} {c : Item} (hc : i.child? k = some c) (hm : c.asMember = some m) :
    i.BlockOf style name k (m.section style (i.memberLead name ++ k)) text := by
  have hmem : (.text k, c) ∈ i.members := mem_of_find?_text hc
  have hshown : (.text k, m) ∈ pageMembers i.members :=
    List.mem_filterMap.mpr ⟨_, hmem, by rw [hm]; rfl⟩
  have hi : ¬ i.IsTypeMember := by
    rintro (⟨f, rfl⟩ | ⟨p, rfl⟩)
    · cases hmem
    · cases hmem
  obtain ⟨sorted, hperm, horder, htext⟩ :=
    (writable_of_itemPage hpage).exists_itemPage hk hi style name
  obtain ⟨before, after, rfl⟩ := List.append_of_mem (hperm.mem_iff.mpr hshown)
  have hblocks : memberBlocks style (i.memberLead name) (before ++ (.text k, m) :: after) =
      memberBlocks style (i.memberLead name) before ++
        m.section style (i.memberLead name ++ k) :: memberBlocks style (i.memberLead name) after := by
    rw [memberBlocks, List.map_append, List.map_cons]
    rfl
  rw [hblocks, hpage] at htext
  rw [Except.ok.inj htext]
  exact .intro hperm horder

/-- A page has one block for each member. -/
theorem Item.BlockOf.eq {k block other : Str} (h : i.BlockOf style name k block text)
    (h' : i.BlockOf style name k other text) : block = other := by
  cases h with
  | @intro before after m members order =>
    generalize htext : ((i.ownPage style name).add _).text = page at h'
    cases h' with
    | @intro before' after' m' members' order' =>
      have hsame := order.eq_of_perm order' (members.trans members'.symm)
      obtain ⟨rfl, rfl⟩ := order.split_eq hsame
      -- both texts have the same around the block
      obtain ⟨front, back, hjoin⟩ := Text.exists_joinWith_eq Page.rule
        ((i.ownPage style name).blocks ++ memberBlocks style (i.memberLead name) before)
        (memberBlocks style (i.memberLead name) after)
      have hpage : ∀ b, ((i.ownPage style name).add
          (memberBlocks style (i.memberLead name) before ++
            b :: memberBlocks style (i.memberLead name) after)).text =
          (i.ownPage style name).head ++ "\n\n" ++ (front ++ b ++ back) := by
        intro b
        rw [← hjoin, List.append_assoc]
        rfl
      rw [hpage, hpage] at htext
      have hblocks := (Str.append_right_inj _).mp htext
      exact (Str.append_right_inj _).mp ((Str.append_left_inj _).mp hblocks)

/-! ### Members that are selected -/

/-- An item has a page just if it is writable. -/
theorem Item.exists_itemPage_iff (hk : TextKeys i.members) (style : Style) (name : Str) :
    (∃ text, itemPage style name i = .ok text) ↔ i.Writable := by
  constructor
  · rintro ⟨text, hpage⟩
    exact writable_of_itemPage hpage
  · intro hw
    by_cases hi : i.IsTypeMember
    · exact hw.exists_itemPage_of_isTypeMember hi style name
    · obtain ⟨sorted, -, -, hpage⟩ := hw.exists_itemPage hk hi style name
      exact ⟨_, hpage⟩

namespace Cli

variable {output : Option String} {shown : Str → List Record × Except ShowFault Str}

/-- `shown` gives, for every member of an item that is no module, the section of the form in which it stands
on the item's page, and that is its one block there. Names with a dot are left out: a path cannot say them. -/
def ShowsBlocks (style : Style) (name : Str) (i : Item)
    (shown : Str → List Record × Except ShowFault Str) : Prop :=
  ∀ text, itemPage style name i = .ok text → ∀ k c, .char '.' ∉ k.toList → i.child? k = some c →
    (∀ docs ms, c ≠ .module docs ms) → ∃ m, c.ShownAs m ∧
      shown k = ([], .ok (m.section style (i.memberLead name ++ k))) ∧
      ∀ block, i.BlockOf style name k block text ↔ block = m.section style (i.memberLead name ++ k)

/-- Every item but a module has a form on the page of the item that holds it. -/
theorem exists_shownAs {c : Item} (h : ∀ docs ms, c ≠ .module docs ms) : ∃ m, c.ShownAs m := by
  cases c with
  | module docs ms => exact absurd rfl (h docs ms)
  | type docs f ms t => exact ⟨_, .type docs f ms t⟩
  | function f => exact ⟨_, .function f⟩
  | property p => exact ⟨_, .property p⟩

theorem showsBlocks_of_sections (hk : TextKeys i.members)
    (h : ∀ k c m, .char '.' ∉ k.toList → i.child? k = some c → c.asMember = some m →
      shown k = ([], .ok (m.section style (i.memberLead name ++ k)))) :
    ShowsBlocks style name i shown := by
  intro text hpage k c hdot hc hmember
  obtain ⟨m, hshown⟩ := exists_shownAs hmember
  have hm := Item.asMember_eq_some.mpr hshown
  have hblock := Item.blockOf_itemPage hk hpage hc hm
  refine ⟨m, hshown, h k c m hdot hc hm, fun block => ⟨fun hother => hother.eq hblock, ?_⟩⟩
  rintro rfl
  exact hblock

theorem show?_of_follow? {path : Str} {c : Item}
    (hc : i.follow? (Text.splitAt '.' path) = some c) (hm : c.asMember = some m) :
    show? ⟨style, name, i⟩ (.render (some (.text path)) output) =
      ([], .ok (m.section style (i.memberLead name ++ path))) := by
  have hselect : i.select name path = .ok (i.memberLead name ++ path, m) := by
    rw [Item.select, hc, Option.bind_some, hm]
  rw [show?, hselect]

theorem follow?_child {k : Str} (hdot : .char '.' ∉ k.toList) :
    i.follow? (Text.splitAt '.' k) = i.child? k := by
  rw [Text.splitAt_of_not_mem hdot, Item.follow?]
  cases i.child? k with
  | none => rfl
  | some c => rfl

theorem follow?_grandchild {k l : Str} (hk : .char '.' ∉ k.toList) (hl : .char '.' ∉ l.toList) :
    i.follow? (Text.splitAt '.' (k ++ "." ++ l)) = (i.child? k).bind (·.child? l) := by
  have hnames : Text.splitAt '.' (k ++ "." ++ l) = k :: Text.splitAt '.' l := Text.splitAt_append hk l
  rw [hnames, Item.follow?]
  congr 1
  funext c
  exact follow?_child hl

/-- **A member that is selected is shown as its block of the page**: below an item whose member names
are texts, as its block of the item's page; below a module, through a type that is a member of it, as its
block of the type's page, which has the type's name. The item has a page just if it is writable. -/
theorem selected_eq_block (hk : TextKeys i.members) (style : Style) (name : Str)
    (output : Option String) :
    ((∃ text, itemPage style name i = .ok text) ↔ i.Writable) ∧
      ShowsBlocks style name i
        (fun k => show? ⟨style, name, i⟩ (.render (some (.text k)) output)) ∧
      ∀ docs f ms t, i = .type docs f ms t → ∀ docs' ms' T, .char '.' ∉ T.toList →
        (Item.module docs' ms').child? T = some i →
          ShowsBlocks style T i fun k =>
            show? ⟨style, name, .module docs' ms'⟩ (.render (some (.text (T ++ "." ++ k))) output) := by
  refine ⟨Item.exists_itemPage_iff hk style name, ?_, ?_⟩
  · refine showsBlocks_of_sections hk fun k c m hdot hc hm => ?_
    have hfollow : i.follow? (Text.splitAt '.' k) = some c := by rw [follow?_child hdot, hc]
    exact show?_of_follow? hfollow hm
  · rintro docs f ms t rfl docs' ms' T hT htype
    refine showsBlocks_of_sections hk fun k c m hdot hc hm => ?_
    have hfollow : (Item.module docs' ms').follow? (Text.splitAt '.' (T ++ "." ++ k)) = some c := by
      rw [follow?_grandchild hT hdot, htype, Option.bind_some, hc]
    -- a module puts nothing before a path, and a type its name and a dot
    have hlead : (Item.module docs' ms').memberLead name ++ (T ++ "." ++ k) =
        (Item.type docs f ms t).memberLead T ++ k := Str.empty_append
    rw [← hlead]
    exact show?_of_follow? hfollow hm

namespace Shapes

def scale : Item := .function { params := [{ name := "factor" }] }

def box : Item := .type none none [(.text "scale", scale), (.text "area", .property {})] Ty.any

def module : Item := .module none [(.text "box", box), (.text "area", .function {})]

theorem textKeys_module : TextKeys module.members :=
  ⟨["box", "area"], by decide, rfl⟩

theorem textKeys_box : TextKeys box.members :=
  ⟨["scale", "area"], by decide, rfl⟩

theorem writable_module : module.Writable := by
  have hmembers : ∀ e ∈ module.members, ∀ m ∈ e.2.asMember, m.hasText = true := by decide
  exact haveText_iff.mpr hmembers

theorem writable_box : box.Writable := by
  have hmembers : ∀ e ∈ box.members, ∀ m ∈ e.2.asMember, m.hasText = true := by decide
  have hin : ∀ e ∈ box.members, e.2.IsTypeMember := by
    simp [box, scale, Item.members, Item.IsTypeMember]
  exact ⟨rfl, hin, haveText_iff.mpr hmembers⟩

end Shapes

open Shapes in
/-- A function of a module and a function of a type in the module. -/
theorem selected_eq_block_shapes : TextKeys module.members ∧ TextKeys box.members ∧
    (∃ text block, itemPage {} "shapes" module = .ok text ∧
      show? ⟨{}, "shapes", module⟩ (.render (some (.text "area")) none) = ([], .ok block) ∧
        ∀ other, module.BlockOf {} "shapes" "area" other text ↔ other = block) ∧
    ∃ text block, itemPage {} "box" box = .ok text ∧
      show? ⟨{}, "shapes", module⟩ (.render (some (.text "box.scale")) none) = ([], .ok block) ∧
        ∀ other, box.BlockOf {} "box" "scale" other text ↔ other = block := by
  refine ⟨textKeys_module, textKeys_box, ?_, ?_⟩
  · obtain ⟨hpage, hblock, -⟩ := selected_eq_block textKeys_module {} "shapes" none
    obtain ⟨text, ht⟩ := hpage.mpr writable_module
    obtain ⟨m, -, hb⟩ := hblock text ht "area" (.function {}) (by decide) rfl (by simp)
    exact ⟨text, _, ht, hb⟩
  · obtain ⟨hpage, -, -⟩ := selected_eq_block textKeys_box {} "box" none
    obtain ⟨-, -, hbelow⟩ := selected_eq_block textKeys_box {} "shapes" none
    obtain ⟨text, ht⟩ := hpage.mpr writable_box
    have hchild : module.child? "box" = some box := rfl
    have hblock := hbelow _ _ _ _ rfl _ _ "box" (by decide) hchild
    obtain ⟨m, -, hb⟩ := hblock text ht "scale" scale (by decide) rfl (by simp [scale])
    exact ⟨text, _, ht, hb⟩

end Cli

end ApiPage
