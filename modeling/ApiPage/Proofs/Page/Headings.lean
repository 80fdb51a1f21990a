import ApiPage.Proofs.Page.Blocks
import ApiPage.Proofs.Text.Lines

/-!
# Headings identify members

Escaping puts a backslash right before every underscore of a name and changes nothing else, so a name is read
back from its escaped form by dropping those backslashes, whatever backslashes it has of its own. The first
line of a member's block is its name escaped, so no two blocks of a page have one first line, and each gives
back the key of its member.
-/

namespace ApiPage

/-! ### Escaped names -/

/-- Characters without the backslash right before each underscore. -/
def dropEscapes : List CodePoint → List CodePoint
  | [] => []
  | .char '\\' :: .char '_' :: cs => .char '_' :: dropEscapes cs
  | c :: cs => c :: dropEscapes cs

/-- The name of which a text is the escaped form. -/
def unescapeName (s : Str) : Str :=
  Str.ofList (dropEscapes s.toList)

theorem escapeName_append (a b : Str) : escapeName (a ++ b) = escapeName a ++ escapeName b := by
  apply Str.toList_inj.mp
  simp only [toList_escapeName, Str.toList_append, List.flatMap_append]

theorem dropEscapes_cons {c : CodePoint} {cs : List CodePoint} (h : ∀ ds, c = '\\' → cs ≠ .char '_' :: ds) :
    dropEscapes (c :: cs) = c :: dropEscapes cs := by
  conv_lhs => unfold dropEscapes
  split
  · next heq => cases heq
  · next ds heq =>
    obtain ⟨rfl, rfl⟩ := List.cons.inj heq
    exact absurd rfl (h ds rfl)
  · next heq =>
    obtain ⟨rfl, rfl⟩ := List.cons.inj heq
    rfl

/-- No escaped form begins with an underscore. -/
theorem flatMap_escapeChar_ne (cs ds : List CodePoint) : cs.flatMap escapeChar ≠ .char '_' :: ds := by
  cases cs with
  | nil => simp
  | cons c cs =>
    rw [List.flatMap_cons, escapeChar]
    split
    · simp
    · next hc => simp [hc]

theorem dropEscapes_flatMap (cs : List CodePoint) : dropEscapes (cs.flatMap escapeChar) = cs := by
  induction cs with
  | nil => rfl
  | cons c cs ih =>
    rw [List.flatMap_cons, escapeChar]
    split
    · next hc => rw [hc, List.cons_append, List.singleton_append, dropEscapes, ih]
    · rw [List.singleton_append, dropEscapes_cons fun ds _ => flatMap_escapeChar_ne cs ds, ih]

/-- A name is read back from its escaped form. -/
theorem unescapeName_escapeName (a : Str) : unescapeName (escapeName a) = a := by
  rw [unescapeName, toList_escapeName, dropEscapes_flatMap, Str.ofList_toList]

/-- Before an underscore of an escaped form stands the backslash that the underscore got, and around the two
stand the escaped forms of what is around the underscore in the name. -/
theorem split_of_escaped {cs front back : List CodePoint} (h : cs.flatMap escapeChar = front ++ .char '_' :: back) :
    ∃ x y, cs = x ++ .char '_' :: y ∧
      front = x.flatMap escapeChar ++ [.char '\\'] ∧ back = y.flatMap escapeChar := by
  induction cs generalizing front with
  | nil => simp at h
  | cons c cs ih =>
    rw [List.flatMap_cons, escapeChar] at h
    by_cases hc : c = '_'
    · rw [if_pos hc, List.cons_append, List.singleton_append] at h
      rcases front with _ | ⟨d, _ | ⟨e, front⟩⟩
      · simp at h
      · obtain ⟨rfl, hback⟩ := List.cons.inj h
        exact ⟨[], cs, by rw [hc]; rfl, rfl, ((List.cons.inj hback).2).symm⟩
      · simp only [List.cons_append, List.cons.injEq] at h
        obtain ⟨rfl, rfl, hrest⟩ := h
        obtain ⟨x, y, rfl, rfl, rfl⟩ := ih hrest
        exact ⟨c :: x, y, rfl, by simp [hc, escapeChar], rfl⟩
    · rw [if_neg hc, List.singleton_append] at h
      rcases front with _ | ⟨d, front⟩
      · exact absurd (List.cons.inj h).1 hc
      · obtain ⟨rfl, hrest⟩ := List.cons.inj h
        obtain ⟨x, y, rfl, rfl, rfl⟩ := ih hrest
        exact ⟨c :: x, y, rfl, by simp [hc, escapeChar], rfl⟩

/-! ### First lines -/

/-- The first line of a text. -/
def Text.firstLine (s : Str) : Str :=
  (splitAt '\n' s).headD ""

/-- What stands above a blank line is the first line, if it is one line. -/
theorem firstLine_joinParts {first : Str} (h : .char '\n' ∉ first.toList) (parts : List Str) :
    Text.firstLine (joinParts (first :: parts)) = first := by
  cases parts with
  | nil => rw [joinParts, Text.joinWith, Text.firstLine, Text.splitAt_of_not_mem h, List.headD_cons]
  | cons part parts =>
    have hsplit : joinParts (first :: part :: parts) =
        first ++ Str.singleton '\n' ++ ("\n" ++ joinParts (part :: parts)) := by
      have hblank : Str.whole "\n\n" = Str.singleton '\n' ++ "\n" := rfl
      rw [joinParts, Text.joinWith_cons_cons, hblank, Str.append_assoc, Str.append_assoc, Str.append_assoc]
      rfl
    rw [hsplit, Text.firstLine, Text.splitAt_append h, List.headD_cons]

/-- A name in one line has its heading in one line. -/
theorem newline_not_mem_sectionHeading {name : Str} (h : .char '\n' ∉ name.toList) :
    .char '\n' ∉ (sectionHeading name).toList := by
  have hname : .char '\n' ∉ (escapeName name).toList := by
    rw [toList_escapeName, List.mem_flatMap]
    rintro ⟨c, hc, hmem⟩
    unfold escapeChar at hmem
    split at hmem
    · simp at hmem
    · obtain rfl := List.mem_singleton.mp hmem
      exact h hc
  simp [sectionHeading, Str.toList_append, hname]

theorem Member.firstLine_section {style : Style} {name : Str} (h : .char '\n' ∉ name.toList) (m : Member) :
    Text.firstLine (m.section style name) = sectionHeading name := by
  cases m with
  | function f => exact firstLine_joinParts (newline_not_mem_sectionHeading h) _
  | property p => exact firstLine_joinParts (newline_not_mem_sectionHeading h) _

/-- The name that a heading of the second rank gives, behind what leads all names of a page. -/
def headingName? (lead line : Str) : Option Str :=
  (Text.behind? "## " line).bind fun s => Text.behind? lead (unescapeName s)

@[simp] theorem headingName?_sectionHeading (lead name : Str) :
    headingName? lead (sectionHeading (lead ++ name)) = some name := by
  simp [headingName?, sectionHeading, unescapeName_escapeName]

/-! ### Pages -/

variable {style : Style} {name text : Str} {i : Item}

/-- Names that differ, each of them in one line. -/
structure OneLineNames (names : List Str) : Prop where
  distinct : names.Nodup
  oneLine : ∀ n ∈ names, .char '\n' ∉ n.toList

/-- The names of the members that a page shows are names of members. -/
theorem OneLineNames.shown {ms : List (Scalar × Item)} {shown : List (Scalar × Member)}
    (h : OneLineNames (ms.map (·.1.plain))) (hperm : shown.Perm (pageMembers ms)) :
    OneLineNames (shown.map (·.1.plain)) := by
  have hsub : ((pageMembers ms).map (·.1.plain)).Sublist (ms.map (·.1.plain)) := by
    have hkeys := (sublist_pageMembers ms).map Scalar.plain
    rwa [List.map_map, List.map_map] at hkeys
  have hnames := hperm.map (·.1.plain)
  refine ⟨hnames.nodup_iff.mpr (h.distinct.sublist hsub), fun n hn => h.oneLine n ?_⟩
  exact hsub.subset (hnames.mem_iff.mp hn)

/-- Behind its own blocks the page of a module or type has one block for each member that it shows. -/
theorem Item.exists_blocks_of_itemPage (h : itemPage style name i = .ok text) (hi : ¬ i.IsTypeMember) :
    ∃ shown, shown.Perm (pageMembers i.members) ∧
      text = ((i.ownPage style name).add (memberBlocks style (i.memberLead name) shown)).text := by
  have hw := writable_of_itemPage h
  cases i with
  | module docs ms =>
    rw [itemPage_module hw] at h
    rcases orderByName_cases (pageMembers ms) with ⟨sorted, hs, hperm⟩ | ⟨cause, hs, -⟩
    · rw [hs] at h
      exact ⟨sorted, hperm, (Except.ok.inj h).symm⟩
    · rw [hs] at h
      cases h
  | type docs c ms t =>
    obtain ⟨hc, hin, ht⟩ := hw
    rw [itemPage_type hc hin ht] at h
    rcases orderByName_cases ms with ⟨sorted, hs, hperm⟩ | ⟨cause, hs, -⟩
    · rw [hs] at h
      exact ⟨pageMembers sorted, hperm.filterMap _, (Except.ok.inj h).symm⟩
    · rw [hs] at h
      cases h
  | function f => exact absurd (.inl ⟨f, rfl⟩) hi
  | property p => exact absurd (.inr ⟨p, rfl⟩) hi

/-- The first line of a member's block is its heading, and the heading gives back its key. -/
theorem firstLines_memberBlocks (style : Style) {lead : Str} {shown : List (Scalar × Member)}
    (hlead : .char '\n' ∉ lead.toList) (h : OneLineNames (shown.map (·.1.plain))) :
    (memberBlocks style lead shown).map Text.firstLine =
        (shown.map (·.1.plain)).map (fun key => sectionHeading (lead ++ key)) ∧
      ((memberBlocks style lead shown).map Text.firstLine).map (headingName? lead) =
        (shown.map (·.1.plain)).map some := by
  have hfirst : (memberBlocks style lead shown).map Text.firstLine =
      (shown.map (·.1.plain)).map fun key => sectionHeading (lead ++ key) := by
    rw [memberBlocks, List.map_map, List.map_map]
    refine List.map_congr_left fun e he => e.2.firstLine_section ?_
    have hkey : .char '\n' ∉ e.1.plain.toList := h.oneLine _ (List.mem_map_of_mem he)
    simp [Str.toList_append, hlead, hkey]
  refine ⟨hfirst, ?_⟩
  rw [hfirst, List.map_map]
  refine List.map_congr_left fun key _ => ?_
  rw [Function.comp_apply, headingName?_sectionHeading]

/-- **Headings identify members.** Escaping goes through the parts of a name one by one; before each underscore
of an escaped form stands the backslash that was added for it, and without these the name is back. So on the
page of a module or type, if the keys of the members differ and each is written in one line, as the name of a
type is, the first lines of the members' blocks are their headings, no two of them are the same, and each gives
back the key of its member. -/
theorem escapeName_identifies :
    (∀ a b, escapeName (a ++ b) = escapeName a ++ escapeName b) ∧
    (∀ a front back, (escapeName a).toList = front ++ .char '_' :: back → ∃ x y, a.toList = x ++ .char '_' :: y ∧
      front = x.flatMap escapeChar ++ [.char '\\'] ∧ back = y.flatMap escapeChar) ∧
    (∀ a, unescapeName (escapeName a) = a) ∧
    ∀ (style : Style) (name : Str) (i : Item) (text : Str), ¬ i.IsTypeMember →
      itemPage style name i = .ok text → OneLineNames (i.members.map (·.1.plain)) →
        .char '\n' ∉ (i.memberLead name).toList → ∃ shown lines, shown.Perm (pageMembers i.members) ∧
          text = ((i.ownPage style name).add (memberBlocks style (i.memberLead name) shown)).text ∧
          lines = (memberBlocks style (i.memberLead name) shown).map Text.firstLine ∧ lines.Nodup ∧
          lines = (shown.map (·.1.plain)).map (fun key => sectionHeading (i.memberLead name ++ key)) ∧
          lines.map (headingName? (i.memberLead name)) = (shown.map (·.1.plain)).map some := by
  refine ⟨escapeName_append, fun a front back h => split_of_escaped (toList_escapeName a ▸ h),
    unescapeName_escapeName, fun style name i text hi hpage hkeys hlead => ?_⟩
  obtain ⟨shown, hperm, htext⟩ := Item.exists_blocks_of_itemPage hpage hi
  have hshown := hkeys.shown hperm
  obtain ⟨hlines, hnames⟩ := firstLines_memberBlocks style hlead hshown
  refine ⟨shown, _, hperm, htext, rfl, ?_, hlines, hnames⟩
  -- lines that are the same would give back the same key
  refine List.Nodup.of_map (headingName? (i.memberLead name)) ?_
  rw [hnames]
  exact hshown.distinct.map fun _ _ => Option.some.inj

namespace Escapes

/-- A type of which two keys differ by a backslash before an underscore alone. -/
def item : Item :=
  .type none none [(.text "a_b", .property {}), (.text "a\\_b", .function {})] Ty.any

theorem writable_item : item.Writable := by
  have hmembers : ∀ e ∈ item.members, ∀ m ∈ e.2.asMember, m.hasText = true := by decide
  have hin : ∀ e ∈ item.members, e.2.IsTypeMember := by
    simp [item, Item.members, Item.IsTypeMember]
  exact ⟨rfl, hin, haveText_iff.mpr hmembers⟩

end Escapes

open Escapes in
/-- Two keys of which one looks like the other escaped. -/
theorem escapeName_identifies_escapes : ¬ item.IsTypeMember ∧
    OneLineNames (item.members.map (·.1.plain)) ∧ .char '\n' ∉ (item.memberLead "T_").toList ∧
    ∃ text shown, itemPage {} "T_" item = .ok text ∧ shown.Perm (pageMembers item.members) ∧
      ((memberBlocks {} "T_." shown).map Text.firstLine).Nodup ∧
      (memberBlocks {} "T_." shown).map Text.firstLine =
        (shown.map (·.1.plain)).map (fun key => sectionHeading ("T_." ++ key)) := by
  have hi : ¬ item.IsTypeMember := by simp [item, Item.IsTypeMember]
  have hkeys : OneLineNames (item.members.map (·.1.plain)) := ⟨by decide, by decide⟩
  have hlead : .char '\n' ∉ (item.memberLead "T_").toList := by decide
  have htexts : TextKeys item.members := ⟨["a_b", "a\\_b"], by decide, rfl⟩
  obtain ⟨text, hpage⟩ := (Item.exists_itemPage_iff htexts {} "T_").mpr writable_item
  obtain ⟨-, -, -, hpages⟩ := escapeName_identifies
  obtain ⟨shown, lines, hperm, -, rfl, hnodup, hlines, -⟩ := hpages {} "T_" item text hi hpage hkeys hlead
  exact ⟨hi, hkeys, hlead, text, shown, hpage, hperm, hnodup, hlines⟩

end ApiPage
