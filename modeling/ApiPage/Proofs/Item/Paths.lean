import ApiPage.Item.Select
import ApiPage.Proofs.Item.Document
import ApiPage.Proofs.Item.Reordering
import ApiPage.Proofs.Text.Paragraphs

/-!
# Where dotted paths lead

The names of a dotted path are followed one by one, from an item through the members of modules and types.
Something is selected exactly if the walk does not break off and does not end at a module, and the two
failures are reported alike, at whatever depth they occur.
-/

namespace ApiPage.Item

variable {i c d : Item} {k path : Str} {ks : List Str}

/-! ### Walks -/

/-- The members of every module and type in an item have different texts for names. -/
inductive Named : Item → Prop
  | module {docs : Option Docs} {ms : List (Scalar × Item)} (keys : TextKeys ms)
      (below : ∀ e ∈ ms, Named e.2) : Named (.module docs ms)
  | type {docs : Option Docs} {f : Option Function} {ms : List (Scalar × Item)} {t : Ty}
      (keys : TextKeys ms) (below : ∀ e ∈ ms, Named e.2) : Named (.type docs f ms t)
  | function (f : Function) : Named (.function f)
  | property (p : Property) : Named (.property p)

/-- `i.Leads ks c`: from `i`, the names `ks` lead to `c`. A name leads on from a module or a type that has a
member of that name, and from nothing else. -/
inductive Leads : Item → List Str → Item → Prop
  | here (i : Item) : Leads i [] i
  | module {docs : Option Docs} {ms : List (Scalar × Item)} {k : Str} {ks : List Str}
      {child c : Item} (member : (.text k, child) ∈ ms) (rest : Leads child ks c) :
      Leads (.module docs ms) (k :: ks) c
  | type {docs : Option Docs} {f : Option Function} {ms : List (Scalar × Item)} {t : Ty} {k : Str}
      {ks : List Str} {child c : Item} (member : (.text k, child) ∈ ms) (rest : Leads child ks c) :
      Leads (.type docs f ms t) (k :: ks) c

def isModule : Item → Bool
  | .module _ _ => true
  | _ => false

def isType : Item → Bool
  | .type _ _ _ _ => true
  | _ => false

/-- A path reaches what its names lead to, unless that is a module. -/
structure Reaches (i : Item) (path : Str) (c : Item) : Prop where
  leads : i.Leads (Text.splitAt '.' path) c
  shown : c.isModule = false

theorem Named.keys (h : i.Named) : TextKeys i.members := by
  cases h with
  | module keys _ => exact keys
  | type keys _ => exact keys
  | function f => exact ⟨[], List.nodup_nil, rfl⟩
  | property p => exact ⟨[], List.nodup_nil, rfl⟩

theorem Named.of_mem (h : i.Named) (hc : (.text k, c) ∈ i.members) : c.Named := by
  cases h with
  | module _ below => exact below _ hc
  | type _ below => exact below _ hc
  | function f => cases hc
  | property p => cases hc

theorem leads_nil_iff : i.Leads [] c ↔ i = c := by
  constructor
  · rintro ⟨⟩
    rfl
  · rintro rfl
    exact .here i

theorem leads_cons_iff :
    i.Leads (k :: ks) c ↔ ∃ child, (.text k, child) ∈ i.members ∧ child.Leads ks c := by
  constructor
  · intro h
    cases h with
    | module member rest => exact ⟨_, member, rest⟩
    | type member rest => exact ⟨_, member, rest⟩
  · rintro ⟨child, member, rest⟩
    cases i with
    | module docs ms => exact .module member rest
    | type docs f ms t => exact .type member rest
    | function f => cases member
    | property p => cases member

/-- Different names are found where they are listed. -/
theorem child?_eq_some (hk : TextKeys i.members) :
    i.child? k = some c ↔ (.text k, c) ∈ i.members := by
  refine ⟨mem_of_find?_text, fun hmem => ?_⟩
  cases hfound : i.child? k with
  | none =>
    have hnone := List.find?_eq_none.mp (Option.map_eq_none_iff.mp hfound) _ hmem
    exact absurd (Scalar.sameKey_text_iff.mpr rfl) hnone
  | some other =>
    have hother : (.text k, other) ∈ i.members := mem_of_find?_text hfound
    have hsame := List.inj_on_of_nodup_map (nodup_of_textKeys hk) hother hmem rfl
    rw [(Prod.mk.inj hsame).2]

/-- The walk through the members goes where the names lead. -/
theorem follow?_eq_some (h : i.Named) : i.follow? ks = some c ↔ i.Leads ks c := by
  induction ks generalizing i with
  | nil => rw [follow?, leads_nil_iff, Option.some.injEq]
  | cons k ks ih =>
    rw [follow?, leads_cons_iff, Option.bind_eq_some_iff]
    refine exists_congr fun child => ?_
    rw [child?_eq_some h.keys]
    refine and_congr_right fun hmem => ?_
    exact ih (h.of_mem hmem)

/-! ### Selecting -/

/-- All but modules have a form as a member. -/
theorem exists_asMember_iff : (∃ m, c.asMember = some m) ↔ c.isModule = false := by
  cases c with
  | module docs ms => simp [asMember, isModule]
  | type docs f ms t => simp [asMember, isModule]
  | function f => simp [asMember, isModule]
  | property p => simp [asMember, isModule]

theorem memberLead_append (name path : Str) :
    i.memberLead name ++ path = if i.isType then name ++ "." ++ path else path := by
  cases i with
  | type docs f ms t => rfl
  | module docs ms => exact Str.empty_append
  | function f => exact Str.empty_append
  | property p => exact Str.empty_append

/-- A path reaches one thing. -/
theorem Reaches.eq {d : Item} (h : i.Named) (hc : i.Reaches path c) (hd : i.Reaches path d) : c = d := by
  have hfollow := (follow?_eq_some h).mpr hc.leads
  rw [(follow?_eq_some h).mpr hd.leads] at hfollow
  exact (Option.some.inj hfollow).symm

/-- A selection succeeds under the name that a path is shown with, or fails because the path reaches
nothing. -/
theorem select_cases (h : i.Named) (name path : Str) :
    (∃ c m, i.Reaches path c ∧ c.asMember = some m ∧
      i.select name path = .ok (if i.isType then name ++ "." ++ path else path, m)) ∨
      (¬ ∃ c, i.Reaches path c) ∧ i.select name path = .error (.noMember name path) := by
  rw [select]
  cases hbind : (i.follow? (Text.splitAt '.' path)).bind asMember with
  | none =>
    refine .inr ⟨?_, rfl⟩
    rintro ⟨c, hleads, hc⟩
    obtain ⟨m, hm⟩ := exists_asMember_iff.mpr hc
    rw [(follow?_eq_some h).mpr hleads, Option.bind_some, hm] at hbind
    cases hbind
  | some m =>
    obtain ⟨c, hfollow, hm⟩ := Option.bind_eq_some_iff.mp hbind
    have hc : i.Reaches path c := ⟨(follow?_eq_some h).mp hfollow, exists_asMember_iff.mp ⟨m, hm⟩⟩
    rw [← memberLead_append]
    exact .inl ⟨c, m, hc, hm, rfl⟩

/-- What a path reaches is selected. -/
theorem Reaches.select_eq {m : Member} (hc : i.Reaches path c) (h : i.Named) (hm : c.asMember = some m)
    (name : Str) :
    i.select name path = .ok (if i.isType then name ++ "." ++ path else path, m) := by
  rcases select_cases h name path with ⟨d, m', hd, hm', hfound⟩ | ⟨hnone, -⟩
  · obtain rfl := hc.eq h hd
    obtain rfl : m = m' := Option.some.inj (hm.symm.trans hm')
    exact hfound
  · exact absurd ⟨c, hc⟩ hnone

theorem exists_of_select (h : i.Named) {name shown : Str} {m : Member}
    (hok : i.select name path = .ok (shown, m)) : ∃ c, i.Reaches path c ∧ c.asMember = some m ∧
      shown = if i.isType then name ++ "." ++ path else path := by
  rcases select_cases h name path with ⟨c, m', hc, hm, hfound⟩ | ⟨-, hfault⟩
  · rw [hfound] at hok
    obtain ⟨rfl, rfl⟩ := Prod.mk.inj (Except.ok.inj hok)
    exact ⟨c, hc, hm, rfl⟩
  · rw [hfault] at hok
    cases hok

theorem select_eq_error_iff (h : i.Named) {name : Str} {fault : SelectFault} :
    i.select name path = .error fault ↔ (¬ ∃ c, i.Reaches path c) ∧ fault = .noMember name path := by
  rcases select_cases h name path with ⟨c, m, hc, -, hfound⟩ | ⟨hnone, hfault⟩
  · rw [hfound]
    refine iff_of_false (fun hok => by cases hok) ?_
    rintro ⟨hnone, -⟩
    exact hnone ⟨c, hc⟩
  · rw [hfault, Except.error.injEq, eq_comm]
    exact (and_iff_right hnone).symm

/-- The names on the way to an item that is no module, none of them with a dot in it, are a path to it. -/
theorem Leads.reaches (hleads : i.Leads ks c) (hne : ks ≠ []) (hdot : ∀ k ∈ ks, .char '.' ∉ k.toList)
    (hc : c.isModule = false) : i.Reaches (Text.joinWith "." ks) c := by
  have hsplit : Text.splitAt '.' (Text.joinWith "." ks) = ks := Text.splitAt_joinWith hne hdot
  exact ⟨by rw [hsplit]; exact hleads, hc⟩

/-- **A dotted path selects exactly what its names lead to**, if that is no module, as a member and under
the path, which has the name of the item before it if the item is a type. If the path reaches nothing, the
item has no such member, wherever the walk broke off. What names without dots lead to is selected by the
path of them. -/
theorem select_iff_reaches (h : i.Named) (name path : Str) :
    (∀ shown m, i.select name path = .ok (shown, m) ↔ ∃ c, i.Reaches path c ∧ c.asMember = some m ∧
      shown = if i.isType then name ++ "." ++ path else path) ∧
      (∀ c, i.Reaches path c → ∃ found, i.select name path = .ok found) ∧
      (∀ fault, i.select name path = .error fault ↔
        (¬ ∃ c, i.Reaches path c) ∧ fault = .noMember name path) ∧
      SelectFault.message (.noMember name path) = name ++ " has no member " ++ path ∧
      ∀ ks c, i.Leads ks c → ks ≠ [] → (∀ k ∈ ks, .char '.' ∉ k.toList) → c.isModule = false →
        ∃ m, c.asMember = some m ∧ i.select name (Text.joinWith "." ks) =
          .ok (if i.isType then name ++ "." ++ Text.joinWith "." ks else Text.joinWith "." ks, m) := by
  refine ⟨fun shown m => ⟨exists_of_select h, ?_⟩, fun c hc => ?_, fun fault => select_eq_error_iff h,
    rfl, fun ks c hleads hne hdot hc => ?_⟩
  · rintro ⟨c, hc, hm, rfl⟩
    exact hc.select_eq h hm name
  · obtain ⟨m, hm⟩ := exists_asMember_iff.mpr hc.shown
    exact ⟨_, hc.select_eq h hm name⟩
  · obtain ⟨m, hm⟩ := exists_asMember_iff.mpr hc
    exact ⟨m, hm, (hleads.reaches hne hdot hc).select_eq h hm name⟩

namespace Atlas

def side : Item := .property { ty := Ty.named "float" }

def box : Item := .type (some ⟨"A box.", none⟩) none [(.text "side", side)] (Ty.named "Box")

def plane : Item := .module none [(.text "", side), (.text "Box", box)]

def atlas : Item := .module none [(.text "plane", plane)]

theorem named_box : box.Named :=
  .type ⟨["side"], by decide, rfl⟩ (List.forall_mem_singleton.mpr (.property _))

theorem named_plane : plane.Named :=
  .module ⟨["", "Box"], by decide, rfl⟩
    (List.forall_mem_cons.mpr ⟨.property _, List.forall_mem_singleton.mpr named_box⟩)

theorem named_atlas : atlas.Named :=
  .module ⟨["plane"], by decide, rfl⟩ (List.forall_mem_singleton.mpr named_plane)

theorem leads_side : atlas.Leads ["plane", "Box", "side"] side :=
  .module (.head _) (.module (.tail _ (.head _)) (.type (.head _) (.here side)))

theorem leads_unnamed : atlas.Leads ["plane", ""] side :=
  .module (.head _) (.module (.head _) (.here side))

/-- The walk ends at a module. -/
theorem not_reaches_plane : ¬ ∃ c, atlas.Reaches "plane" c := by
  rintro ⟨c, hleads, hc⟩
  rw [← follow?_eq_some named_atlas] at hleads
  obtain rfl : plane = c := Option.some.inj hleads
  cases hc

end Atlas

open Atlas in
/-- A property of a type in a module in a module, by its path, from the type alone, and under the empty
name; and a path that ends at a module. -/
theorem select_iff_reaches_atlas : atlas.Named ∧ box.Named ∧
    atlas.select "atlas" "plane.Box.side" = .ok ("plane.Box.side", .property ⟨Ty.named "float", none⟩) ∧
    atlas.select "atlas" "plane." = .ok ("plane.", .property ⟨Ty.named "float", none⟩) ∧
    atlas.select "atlas" "plane" = .error (.noMember "atlas" "plane") ∧
    box.select "Box" "side" = .ok ("Box.side", .property ⟨Ty.named "float", none⟩) := by
  refine ⟨named_atlas, named_box, ?_, ?_, ?_, ?_⟩
  · obtain ⟨-, -, -, -, hjoined⟩ := select_iff_reaches named_atlas "atlas" ""
    obtain ⟨m, hm, hselect⟩ := hjoined _ _ leads_side (by decide) (by decide) rfl
    obtain rfl := Option.some.inj hm
    exact hselect
  · refine ((select_iff_reaches named_atlas "atlas" "plane.").1 _ _).mpr ⟨side, ⟨?_, rfl⟩, rfl, rfl⟩
    exact leads_unnamed
  · exact ((select_iff_reaches named_atlas "atlas" "plane").2.2.1 _).mpr ⟨not_reaches_plane, rfl⟩
  · refine ((select_iff_reaches named_box "Box" "side").1 _ _).mpr ⟨side, ⟨?_, rfl⟩, rfl, rfl⟩
    exact .type (.head _) (.here side)

end ApiPage.Item
