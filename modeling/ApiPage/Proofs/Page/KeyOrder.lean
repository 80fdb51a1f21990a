import ApiPage.Proofs.Item.Reordering
import ApiPage.Proofs.Page.Rendering

/-!
# The order of keys is not on the page

A page puts members in the order of their names, and texts that are all different have one order only.
So two documents that differ in the order of their keys have the same page.
-/

namespace ApiPage

/-! ### Texts have one order -/

section

variable {α : Type} {es fs : List (Scalar × α)}

theorem textKeys_iff : TextKeys es ↔ (es.map Prod.fst).Nodup ∧ ∀ e ∈ es, e.1.isText = true := by
  constructor
  · intro h
    refine ⟨nodup_of_textKeys h, fun e he => ?_⟩
    obtain ⟨names, -, hes⟩ := h
    have hmem : e.1 ∈ names.map Scalar.text := by
      rw [← hes]
      exact List.mem_map_of_mem he
    obtain ⟨s, -, hs⟩ := List.mem_map.mp hmem
    rw [← hs]
    rfl
  · rintro ⟨hn, htext⟩
    have hback : (es.map fun e => Scalar.text e.1.textOf) = es.map Prod.fst := by
      refine List.map_congr_left fun e he => ?_
      have hk := htext e he
      generalize e.1 = k at hk
      cases k <;> first | rfl | cases hk
    refine ⟨es.map fun e => e.1.textOf, ?_, ?_⟩
    · have hn' : ((es.map fun e => e.1.textOf).map Scalar.text).Nodup := by
        rw [List.map_map]
        exact hback ▸ hn
      exact hn'.of_map
    · rw [List.map_map]
      exact hback.symm

theorem Scalar.eq_of_textOf_eq {k l : Scalar} (hk : k.isText = true) (hl : l.isText = true)
    (h : k.textOf = l.textOf) : k = l := by
  cases k <;> cases hk
  cases l <;> cases hl
  exact congrArg Scalar.text h

/-- Named things in strictly rising order of their names. -/
def InOrder (es : List (Scalar × α)) : Prop :=
  es.Pairwise fun a b => a.1.textOf < b.1.textOf

/-- Named things have one strictly rising order. -/
theorem InOrder.eq_of_perm (hes : InOrder es) (hfs : InOrder fs) (h : es.Perm fs) : es = fs :=
  List.Perm.eq_of_pairwise
    (fun _ _ _ _ hab hba => absurd (Str.lt_trans hab hba) (Str.lt_irrefl _)) hes hfs h

/-- What stands before a name and what stands behind it are determined by the name. -/
theorem InOrder.split_eq {before after before' after' : List (Scalar × α)} {k : Str} {a b : α}
    (h : InOrder (before ++ (.text k, a) :: after))
    (heq : before ++ (.text k, a) :: after = before' ++ (.text k, b) :: after') :
    before = before' ∧ after = after' := by
  let smaller (e : Scalar × α) : Bool := e.1.textOf < k
  have hsplit : ∀ {front back : List (Scalar × α)} {c : α}, InOrder (front ++ (.text k, c) :: back) →
      (front ++ (.text k, c) :: back).takeWhile smaller = front := by
    intro front back c hc
    have hfront : ∀ e ∈ front, smaller e = true := fun e he =>
      decide_eq_true ((List.pairwise_append.mp hc).2.2 e he _ List.mem_cons_self)
    have hk : ¬ smaller (.text k, c) = true := fun hless =>
      Str.lt_irrefl k (of_decide_eq_true hless)
    rw [List.takeWhile_append_of_pos hfront, List.takeWhile_cons_of_neg hk, List.append_nil]
  have hbefore : before = before' := by
    rw [← hsplit h, heq]
    exact hsplit (heq ▸ h)
  subst hbefore
  have hrest := List.append_cancel_left heq
  exact ⟨rfl, (List.cons.inj hrest).2⟩

/-- `Arranged es sorted`: `sorted` holds the things of `es`, their names do not fall, and things of one
name are in the order that they have in `es`. -/
structure Arranged (es sorted : List (Scalar × α)) : Prop where
  perm : sorted.Perm es
  rising : sorted.Pairwise fun a b => a.1.textOf ≤ b.1.textOf
  stable : ∀ k, (sorted.filter fun e => e.1 = k) = es.filter fun e => e.1 = k

/-- Things whose names are texts are arranged by their names, also if some share a name. -/
theorem exists_arranged (htext : ∀ e ∈ es, e.1.isText = true) :
    ∃ sorted, orderByName es = .ok sorted ∧ Arranged es sorted := by
  let le : Scalar × α → Scalar × α → Bool := fun a b => a.1.textOf ≤ b.1.textOf
  have htrans : ∀ a b c, le a b = true → le b c = true → le a c = true := by
    intro a b c hab hbc
    simp only [le, decide_eq_true_eq] at hab hbc ⊢
    exact Str.le_trans hab hbc
  have htotal : ∀ a b, (le a b || le b a) = true := by
    intro a b
    simpa [le] using Str.le_total a.1.textOf b.1.textOf
  have hperm : (es.mergeSort le).Perm es := List.mergeSort_perm es le
  refine ⟨es.mergeSort le, by rw [orderByName, sortByName_of_texts htext]; rfl, hperm, ?_, ?_⟩
  · have hsorted := List.pairwise_mergeSort htrans htotal es
    exact hsorted.imp fun hab => by simpa [le] using hab
  · intro k
    -- things of one name are in order as they stand, so the sort has them as they stand
    have hequal : (es.filter fun e => e.1 = k).Pairwise fun a b => le a b = true := by
      refine List.pairwise_of_forall_mem_list fun a ha b hb => ?_
      have hak : a.1 = k := by simpa using (List.mem_filter.mp ha).2
      have hbk : b.1 = k := by simpa using (List.mem_filter.mp hb).2
      simp [le, hak, hbk]
    have hkept := (List.sublist_mergeSort htrans htotal hequal List.filter_sublist).filter
      fun e => e.1 = k
    rw [List.filter_filter] at hkept
    simp only [Bool.and_self] at hkept
    exact (hkept.eq_of_length (hperm.filter _).length_eq.symm).symm

/-- Different names that do not fall rise. -/
theorem Arranged.inOrder {sorted : List (Scalar × α)} (h : Arranged es sorted) (hk : TextKeys es) :
    InOrder sorted := by
  obtain ⟨hn, htext⟩ := textKeys_iff.mp hk
  have hdifferent : sorted.Pairwise fun a b => a.1 ≠ b.1 :=
    List.pairwise_map.mp ((h.perm.map Prod.fst).nodup_iff.mpr hn)
  refine (h.rising.and hdifferent).imp_of_mem fun {a b} ha hb hab => ?_
  have hne : a.1.textOf ≠ b.1.textOf := fun heq => hab.2
    (Scalar.eq_of_textOf_eq (htext a (h.perm.mem_iff.mp ha)) (htext b (h.perm.mem_iff.mp hb)) heq)
  exact Str.not_le.mp fun hge => hne (Str.le_antisymm hab.1 hge)

/-- Named things whose names are different texts are put in strictly rising order. -/
theorem exists_orderByName (hk : TextKeys es) :
    ∃ sorted, orderByName es = .ok sorted ∧ sorted.Perm es ∧ InOrder sorted := by
  obtain ⟨sorted, hs, harranged⟩ := exists_arranged (textKeys_iff.mp hk).2
  exact ⟨sorted, hs, harranged.perm, harranged.inOrder hk⟩

/-- Named things that are the same but for their order are put in the same order by their names. -/
theorem orderByName_of_perm (h : es.Perm fs) (hk : TextKeys es) :
    ∃ sorted, orderByName es = .ok sorted ∧ orderByName fs = .ok sorted := by
  obtain ⟨hn, htext⟩ := textKeys_iff.mp hk
  have hk' : TextKeys fs := textKeys_iff.mpr
    ⟨(h.map Prod.fst).nodup_iff.mp hn, fun e he => htext e (h.mem_iff.mpr he)⟩
  obtain ⟨sorted, hs, hperm, hlt⟩ := exists_orderByName hk
  obtain ⟨sorted', hs', hperm', hlt'⟩ := exists_orderByName hk'
  have hsame : sorted = sorted' := hlt.eq_of_perm hlt' (hperm.trans (h.trans hperm'.symm))
  exact ⟨sorted, hs, hsame ▸ hs'⟩

/-- Lists with the same keys, no key twice, and the same under each key are the same but for order. -/
theorem perm_of_keys (hn : (es.map Prod.fst).Nodup) (keys : (es.map Prod.fst).Perm (fs.map Prod.fst))
    (h : ∀ e ∈ es, ∀ f ∈ fs, e.1 = f.1 → e.2 = f.2) : es.Perm fs := by
  have hn' : (fs.map Prod.fst).Nodup := keys.nodup_iff.mp hn
  refine (List.perm_ext_iff_of_nodup hn.of_map hn'.of_map).mpr fun a => ⟨fun ha => ?_, fun ha => ?_⟩
  · have hkey := keys.mem_iff.mp (List.mem_map_of_mem ha)
    obtain ⟨f, hf, hfa⟩ := List.mem_map.mp hkey
    have heq : a = f := Prod.ext hfa.symm (h a ha f hf hfa.symm)
    rwa [heq]
  · have hkey := keys.mem_iff.mpr (List.mem_map_of_mem ha)
    obtain ⟨e, he, hea⟩ := List.mem_map.mp hkey
    have heq : e = a := Prod.ext hea (h e he a ha hea)
    rwa [← heq]

end

/-! ### Pages of reordered items -/

variable {ms ns : List (Scalar × Item)}

theorem Item.Reordered.asMember_eq {i j : Item} (h : i.Reordered j) : i.asMember = j.asMember := by
  cases h with
  | module => rfl
  | type => rfl
  | function => rfl
  | property => rfl

theorem Item.Reordered.eq_of_isTypeMember {i j : Item} (h : i.Reordered j) (hi : i.IsTypeMember) :
    i = j := by
  rcases hi with ⟨f, rfl⟩ | ⟨p, rfl⟩
  · cases h
    rfl
  · cases h
    rfl

/-- Inside a module, items are shown in forms that do not show the order of their own members. -/
theorem pageMembers_perm (hn : (ms.map Prod.fst).Nodup)
    (keys : (ms.map Prod.fst).Perm (ns.map Prod.fst))
    (h : ∀ m ∈ ms, ∀ n ∈ ns, m.1 = n.1 → m.2.Reordered n.2) :
    (pageMembers ms).Perm (pageMembers ns) := by
  let forms (es : List (Scalar × Item)) := es.map fun e => (e.1, e.2.asMember)
  have hforms : ∀ es, pageMembers es = (forms es).filterMap fun e => e.2.map fun m => (e.1, m) := by
    intro es
    rw [List.filterMap_map]
    rfl
  have hkeys : ∀ es, (forms es).map Prod.fst = es.map Prod.fst := by
    intro es
    rw [List.map_map]
    rfl
  have hperm : (forms ms).Perm (forms ns) := by
    refine perm_of_keys (by rwa [hkeys]) (by rwa [hkeys, hkeys]) ?_
    simp only [forms, List.forall_mem_map]
    exact fun m hm n hn' hmn => (h m hm n hn' hmn).asMember_eq
  rw [hforms, hforms]
  exact hperm.filterMap _

/-- The names on a page are names of members, in the same order. -/
theorem sublist_pageMembers (ms : List (Scalar × Item)) :
    List.Sublist ((pageMembers ms).map Prod.fst) (ms.map Prod.fst) := by
  induction ms with
  | nil => exact .slnil
  | cons m ms ih =>
    rw [pageMembers, List.filterMap_cons]
    cases m.2.asMember with
    | none => exact ih.cons _
    | some _ => exact ih.cons_cons _

theorem textKeys_pageMembers (hk : TextKeys ms) : TextKeys (pageMembers ms) := by
  obtain ⟨hn, htext⟩ := textKeys_iff.mp hk
  have hkeys := sublist_pageMembers ms
  refine textKeys_iff.mpr ⟨hn.sublist hkeys, fun e he => ?_⟩
  obtain ⟨m, hm, hme⟩ := List.mem_map.mp (hkeys.subset (List.mem_map_of_mem he))
  rw [← hme]
  exact htext m hm

variable {loc loc' : Location} {es fs : Entries} {i j : Item}

/-- A page does not show in which order the members of an item are listed. -/
theorem Item.Reordered.exists_itemPage (h : i.Reordered j) (hi : i.Represents loc es)
    (hj : j.Represents loc' fs) (hk : TextKeys i.members) (style : Style) (name : Str) :
    ∃ text, itemPage style name i = .ok text ∧ itemPage style name j = .ok text := by
  have hown : i.IsTypeMember → ∃ text, itemPage style name i = .ok text := hi.itemPage_of_isTypeMember
  cases h with
  | @module d ms ns keys same =>
    have hn : (ms.map Prod.fst).Nodup := nodup_of_textKeys hk
    cases hi with | module _ _ members _ =>
    cases hj with | module _ _ members' _ =>
    obtain ⟨sorted, hs, hs'⟩ :=
      orderByName_of_perm (pageMembers_perm hn keys same) (textKeys_pageMembers hk)
    rw [itemPage_module members.haveText, itemPage_module members'.haveText, hs, hs']
    exact ⟨_, rfl, rfl⟩
  | @type d c ms ns t keys same =>
    have hn : (ms.map Prod.fst).Nodup := nodup_of_textKeys hk
    cases hi with | type _ _ members fit constructor _ _ =>
    cases hj with | type _ _ members' fit' _ _ _ =>
    have hperm : ms.Perm ns := perm_of_keys hn keys fun m hm n hn' hmn =>
      (same m hm n hn' hmn).eq_of_isTypeMember (fit m hm)
    obtain ⟨sorted, hs, hs'⟩ := orderByName_of_perm hperm hk
    rw [itemPage_type constructor.hasText fit members.haveText,
      itemPage_type constructor.hasText fit' members'.haveText, hs, hs']
    exact ⟨_, rfl, rfl⟩
  | function f =>
    obtain ⟨text, htext⟩ := hown (.inl ⟨f, rfl⟩)
    exact ⟨text, htext, htext⟩
  | property p =>
    obtain ⟨text, htext⟩ := hown (.inr ⟨p, rfl⟩)
    exact ⟨text, htext, htext⟩

/-! ### Documents with texts as keys -/

/-- Data in which all keys are texts, and no mapping has a key twice. -/
inductive Value.TextKeyed : Value → Prop
  | scalar (s : Scalar) : TextKeyed (.scalar s)
  | list {vs : List Value} (h : ∀ v ∈ vs, TextKeyed v) : TextKeyed (.list vs)
  | map {es : Entries} (keys : TextKeys es) (h : ∀ e ∈ es, TextKeyed e.2) : TextKeyed (.map es)

/-- The entries of a mapping in any order make the same data but for the order of keys. -/
theorem Value.Reordered.of_perm {role : Role} (free : role ≠ .default) (keys : TextKeys es)
    (hself : ∀ e ∈ es, ∀ role, Value.Reordered role e.2 e.2) (h : es.Perm fs) :
    Value.Reordered role (.map es) (.map fs) := by
  refine .map free (h.map _) fun e he f hf hef => ?_
  have hn := nodup_of_textKeys keys
  obtain rfl : e = f := List.inj_on_of_nodup_map hn he (h.mem_iff.mpr hf) hef
  exact hself e he _

theorem Value.TextKeyed.reordered_self {v : Value} (h : v.TextKeyed) (role : Role) :
    Value.Reordered role v v := by
  induction h generalizing role with
  | scalar s => exact .scalar role s
  | @list vs _ ih =>
    by_cases hr : role = .default
    · rw [hr]
      exact .kept _
    · refine .list hr rfl fun i v w hv hw => ?_
      obtain rfl : v = w := Option.some.inj (hv.symm.trans hw)
      exact ih v (List.mem_of_getElem? hv) _
  | @map es keys _ ih =>
    by_cases hr : role = .default
    · rw [hr]
      exact .kept _
    · exact .of_perm hr keys ih (.refl _)

theorem Value.TextKeyed.field (h : (Value.map es).TextKeyed) (key : Str) :
    (es.field key).TextKeyed := by
  unfold Entries.field
  cases hv : es.field? key with
  | none => exact .scalar _
  | some v =>
    cases h with
    | map _ h => exact h _ (Entries.mem_of_field? hv)

theorem Item.RepresentMembers.keys_eq : {loc : Location} → {es : Entries} →
    {ms : List (Scalar × Item)} → Item.RepresentMembers loc es ms → ms.map Prod.fst = es.map Prod.fst
  | _, _, _, .nil => rfl
  | _, _, _, .cons _ others => by rw [List.map_cons, List.map_cons, others.keys_eq]

theorem Item.RepresentMembers.textKeys {v : Value} {listed : Entries} {ms : List (Scalar × Item)}
    (h : Item.RepresentMembers loc listed ms) (hv : v.TextKeyed) (hl : Schema.Lists v listed) :
    TextKeys ms := by
  have hkeys : TextKeys listed := by
    rcases hl with ⟨-, rfl⟩ | rfl
    · exact ⟨[], List.nodup_nil, rfl⟩
    · cases hv with
      | map keys _ => exact keys
  obtain ⟨names, hn, hnames⟩ := hkeys
  exact ⟨names, hn, h.keys_eq.trans hnames⟩

/-- The names of an item's members are those that its document gives them, different texts here. -/
theorem Item.Represents.textKeys (h : i.Represents loc es) (hk : (Value.map es).TextKeyed) :
    TextKeys i.members := by
  cases h with
  | module _ lists members => exact members.textKeys (hk.field "members") lists
  | type _ lists members => exact members.textKeys (hk.field "members") lists
  | function => exact ⟨[], List.nodup_nil, rfl⟩
  | property => exact ⟨[], List.nodup_nil, rfl⟩

/-- **The order of keys is not on the page**: of a document whose keys are texts and one in which the
keys of any mappings are in another order, both describe an item or none does, and the two items have
a page, the same one under every name and every style. -/
theorem itemPage_reordered (h : Value.Reordered .item (.map es) (.map fs))
    (hk : (Value.map es).TextKeyed) (loc : Location) :
    ((∃ i, readItem loc es = .ok i) ↔ ∃ j, readItem loc fs = .ok j) ∧
      ∀ i j, readItem loc es = .ok i → readItem loc fs = .ok j → ∀ style name,
        ∃ text, itemPage style name i = .ok text ∧ itemPage style name j = .ok text := by
  have hforth := (Reading.agree_of_reordered h).1 rfl loc
  have hback := (Reading.agree_of_reordered h.symm).1 rfl loc
  refine ⟨⟨?_, ?_⟩, ?_⟩
  · rintro ⟨i, hi⟩
    obtain ⟨j, hj, -⟩ := hforth i hi
    exact ⟨j, hj⟩
  · rintro ⟨j, hj⟩
    obtain ⟨i, hi, -⟩ := hback j hj
    exact ⟨i, hi⟩
  · intro i j hi hj style name
    obtain ⟨j', hj', hij⟩ := hforth i hi
    obtain rfl : j' = j := Except.ok.inj (hj'.symm.trans hj)
    obtain ⟨es', hes, hrep⟩ := Reading.represents_of_item _ loc hi
    obtain ⟨fs', hfs, hrep'⟩ := Reading.represents_of_item _ loc hj
    obtain rfl : es = es' := by simpa using hes
    exact hij.exists_itemPage hrep hrep' (hrep.textKeys hk) style name

namespace SwappedDocument

def property : Value :=
  .map [(.text "kind", .text "property")]

def doc : Entries :=
  propertiesDoc [.text "b", .text "a"]

/-- The same document with the keys of the module and those of its members the other way round. -/
def swapped : Entries :=
  [(.text "members", .map [(.text "a", property), (.text "b", property)]),
    (.text "kind", .text "module")]

theorem textKeyed_property : property.TextKeyed := by
  refine .map ⟨["kind"], by decide, rfl⟩ ?_
  simp [Value.TextKeyed.scalar]

theorem textKeys_members : TextKeys [(Scalar.text "b", property), (.text "a", property)] :=
  ⟨["b", "a"], by decide, rfl⟩

theorem textKeyed : (Value.map doc).TextKeyed := by
  have hmembers : (Value.map [(.text "b", property), (.text "a", property)]).TextKeyed :=
    .map textKeys_members (by simp [textKeyed_property])
  refine .map ⟨["kind", "members"], by decide, rfl⟩ ?_
  simpa [doc, propertiesDoc, property, Value.TextKeyed.scalar] using hmembers

theorem reordered : Value.Reordered .item (.map doc) (.map swapped) := by
  have hmembers : Value.Reordered .members (.map [(.text "b", property), (.text "a", property)])
      (.map [(.text "a", property), (.text "b", property)]) :=
    .of_perm (by decide) textKeys_members (by simp [textKeyed_property.reordered_self]) (.swap _ _ _)
  have hkind : doc.kindText? = some (.whole "module") := rfl
  refine .map (by decide) (.swap _ _ _) ?_
  rw [hkind]
  simpa [doc, propertiesDoc, swapped, property, Role.under, Value.Reordered.scalar] using hmembers

end SwappedDocument

open SwappedDocument in
/-- A module whose keys and whose members' keys stand in either order. -/
theorem itemPage_reordered_swapped :
    Value.Reordered .item (.map doc) (.map swapped) ∧ (Value.map doc).TextKeyed ∧
      ∃ i j, readItem {} doc = .ok i ∧ readItem {} swapped = .ok j ∧
        ∃ text, itemPage {} "m" i = .ok text ∧ itemPage {} "m" j = .ok text := by
  have h := itemPage_reordered reordered textKeyed {}
  have hi := @readItem_propertiesDoc [.text "b", .text "a"] (by decide +kernel) {}
  obtain ⟨j, hj⟩ := h.1.mp ⟨_, hi⟩
  exact ⟨reordered, textKeyed, _, j, hi, hj, h.2 _ j hi hj {} "m"⟩

end ApiPage
