import ApiPage.Proofs.Item.Schema
import Mathlib.Data.List.Forall2

/-!
# What an accepted item is made of

For each kind of item, the parts from which an accepted one was read; and for the members of an item,
the entries from which they were read, one by one.
-/

namespace ApiPage.Reading

variable {loc : Location} {v : Value} {es : Entries}

/-! ### Items by kind -/

/-- The members listed in the entries of an item are those of the value under their key. -/
theorem membersIn_eq (inType : Bool) : (es : Entries) →
    membersIn loc inType es = membersOf loc inType (es.field "members")
  | [] => by rw [membersIn]; rfl
  | (k, v) :: rest => by
    rw [membersIn, field_cons, membersIn_eq inType rest]
    split
    · rfl
    · rfl

theorem item_module_eq_ok {i : Item} (hk : es.field "kind" = .text "module") :
    item loc (.map es) = .ok i ↔ ∃ ms d, membersOf loc false (es.field "members") = .ok ms ∧
      docs (loc.field "docs") (es.field "docs") = .ok d ∧ i = .module d ms := by
  have hkind : itemKind loc (es.field "kind") = .ok .module := itemKind_eq_ok.mpr hk
  unfold item
  rw [← membersIn_eq]
  constructor
  · intro h
    obtain ⟨k, hk', h⟩ := bind_eq_ok.mp h
    obtain rfl : .module = k := Except.ok.inj (hkind.symm.trans hk')
    obtain ⟨ms, hms, h⟩ := bind_eq_ok.mp h
    obtain ⟨d, hd, h⟩ := bind_eq_ok.mp h
    exact ⟨ms, d, hms, hd, (Except.ok.inj h).symm⟩
  · rintro ⟨ms, d, hms, hd, rfl⟩
    exact bind_eq_ok.mpr ⟨.module, hkind, bind_eq_ok.mpr ⟨ms, hms, bind_eq_ok.mpr ⟨d, hd, rfl⟩⟩⟩

theorem item_type_eq_ok {i : Item} (hk : es.field "kind" = .text "type") :
    item loc (.map es) = .ok i ↔ ∃ ms c t d, membersOf loc true (es.field "members") = .ok ms ∧
      constructor (loc.field "constructor") (es.field "constructor") = .ok c ∧ ownTy loc es = .ok t ∧
      docs (loc.field "docs") (es.field "docs") = .ok d ∧ i = .type d c ms t := by
  have hkind : itemKind loc (es.field "kind") = .ok .type := itemKind_eq_ok.mpr hk
  unfold item
  rw [← membersIn_eq]
  constructor
  · intro h
    obtain ⟨k, hk', h⟩ := bind_eq_ok.mp h
    obtain rfl : .type = k := Except.ok.inj (hkind.symm.trans hk')
    obtain ⟨ms, hms, h⟩ := bind_eq_ok.mp h
    obtain ⟨c, hc, h⟩ := bind_eq_ok.mp h
    obtain ⟨t, ht, h⟩ := bind_eq_ok.mp h
    obtain ⟨d, hd, h⟩ := bind_eq_ok.mp h
    exact ⟨ms, c, t, d, hms, hc, ht, hd, (Except.ok.inj h).symm⟩
  · rintro ⟨ms, c, t, d, hms, hc, ht, hd, rfl⟩
    refine bind_eq_ok.mpr ⟨.type, hkind, bind_eq_ok.mpr ⟨ms, hms, ?_⟩⟩
    exact bind_eq_ok.mpr ⟨c, hc, bind_eq_ok.mpr ⟨t, ht, bind_eq_ok.mpr ⟨d, hd, rfl⟩⟩⟩

theorem item_function_eq_ok {i : Item} (hk : es.field "kind" = .text "function") :
    item loc (.map es) = .ok i ↔ ∃ f, function loc es = .ok f ∧ i = .function f := by
  have hkind : itemKind loc (es.field "kind") = .ok .function := itemKind_eq_ok.mpr hk
  unfold item
  constructor
  · intro h
    obtain ⟨k, hk', h⟩ := bind_eq_ok.mp h
    obtain rfl : .function = k := Except.ok.inj (hkind.symm.trans hk')
    obtain ⟨f, hf, h⟩ := bind_eq_ok.mp h
    exact ⟨f, hf, (Except.ok.inj h).symm⟩
  · rintro ⟨f, hf, rfl⟩
    exact bind_eq_ok.mpr ⟨.function, hkind, bind_eq_ok.mpr ⟨f, hf, rfl⟩⟩

theorem item_property_eq_ok {i : Item} (hk : es.field "kind" = .text "property") :
    item loc (.map es) = .ok i ↔ ∃ p, property loc es = .ok p ∧ i = .property p := by
  have hkind : itemKind loc (es.field "kind") = .ok .property := itemKind_eq_ok.mpr hk
  unfold item
  constructor
  · intro h
    obtain ⟨k, hk', h⟩ := bind_eq_ok.mp h
    obtain rfl : .property = k := Except.ok.inj (hkind.symm.trans hk')
    obtain ⟨p, hp, h⟩ := bind_eq_ok.mp h
    exact ⟨p, hp, (Except.ok.inj h).symm⟩
  · rintro ⟨p, hp, rfl⟩
    exact bind_eq_ok.mpr ⟨.property, hkind, bind_eq_ok.mpr ⟨p, hp, rfl⟩⟩

/-! ### Members -/

/-- A value that is no mapping lists no members, or is refused. -/
theorem membersOf_eq {inType : Bool} (h : ∀ es, v ≠ .map es) :
    membersOf loc inType v =
      if v.isVacant then .ok [] else refuse (loc.field "members") .notAMapping := by
  cases v with
  | scalar s => rw [membersOf]
  | list vs => rw [membersOf]; rfl
  | map es => exact absurd rfl (h es)
  | foreign f => rw [membersOf]; rfl

/-- An entry, whose key has a text, and the member that was read from it. -/
def EntryRead (loc : Location) (inType : Bool) (e : Scalar × Value) (m : Scalar × Item) : Prop :=
  m.1 = e.1 ∧ (e.1.writable = true ∧ item (loc.member e.1) e.2 = .ok m.2) ∧
    (inType = true → fitsTypes m.2 = true)

theorem members_eq_ok {inType : Bool} {ms : List (Scalar × Item)} :
    members loc inType es = .ok ms ↔ List.Forall₂ (EntryRead loc inType) es ms := by
  induction es generalizing ms with
  | nil => simp [members, @eq_comm _ _ ms]
  | cons e es ih =>
    obtain ⟨k, v⟩ := e
    rw [members]
    constructor
    · intro h
      obtain ⟨i, hi, h⟩ := bind_eq_ok.mp h
      split at h
      · simp at h
      · next hfits =>
        obtain ⟨is, his, h⟩ := bind_eq_ok.mp h
        obtain rfl := Except.ok.inj h
        exact .cons ⟨rfl, by simpa using hi, fun ht => by simpa [ht] using hfits⟩ (ih.mp his)
    · rintro (_ | @⟨_, ⟨k', i⟩, _, ms, ⟨rfl, hi, hfits⟩, hrest⟩)
      have hfit : ¬ (inType && !fitsTypes i) = true := by simpa using hfits
      refine bind_eq_ok.mpr ⟨i, by simpa using hi, ?_⟩
      rw [if_neg hfit]
      exact bind_eq_ok.mpr ⟨ms, ih.mpr hrest, rfl⟩

theorem exists_forall₂ {α β : Type} {R : α → β → Prop} {as : List α} (h : ∀ a ∈ as, ∃ b, R a b) :
    ∃ bs, List.Forall₂ R as bs := by
  induction as with
  | nil => exact ⟨[], .nil⟩
  | cons a as ih =>
    obtain ⟨⟨b, hb⟩, has⟩ := List.forall_mem_cons.mp h
    obtain ⟨bs, hbs⟩ := ih has
    exact ⟨b :: bs, .cons hb hbs⟩

theorem exists_of_forall₂ {α β : Type} {R : α → β → Prop} {as : List α} {bs : List β}
    (h : List.Forall₂ R as bs) : (∀ a ∈ as, ∃ b ∈ bs, R a b) ∧ ∀ b ∈ bs, ∃ a ∈ as, R a b := by
  induction h with
  | nil => simp
  | @cons a b as bs hab _ ih =>
    refine ⟨List.forall_mem_cons.mpr ⟨⟨b, List.mem_cons_self, hab⟩, fun a' ha' => ?_⟩,
      List.forall_mem_cons.mpr ⟨⟨a, List.mem_cons_self, hab⟩, fun b' hb' => ?_⟩⟩
    · obtain ⟨b', hb', h⟩ := ih.1 a' ha'
      exact ⟨b', List.mem_cons_of_mem _ hb', h⟩
    · obtain ⟨a', ha', h⟩ := ih.2 b' hb'
      exact ⟨a', List.mem_cons_of_mem _ ha', h⟩

theorem keys_of_entryRead {inType : Bool} {ms : List (Scalar × Item)}
    (h : List.Forall₂ (EntryRead loc inType) es ms) : ms.map Prod.fst = es.map Prod.fst := by
  induction h with
  | nil => rfl
  | cons hem _ ih => rw [List.map_cons, List.map_cons, ih, hem.1]

end ApiPage.Reading
