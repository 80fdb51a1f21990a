import ApiPage.Proofs.Item.Document
import ApiPage.Proofs.Item.Reading

/-!
# What was read represents its document

`Item.Represents` relates an item to the mapping at a place of a document, at every depth: the members
of the item are those of the mapping, under the same keys and in the same order, each of the kind that
its own mapping declares; a function has a parameter for each entry of its list; and all types are
canonical but that of a type item whose document does not say which type it is. `Reading.item` gives
only items that represent what was read.
-/

namespace ApiPage

/-! ### Canonical types -/

/-- A type in canonical form: at no level a variant occurs twice, a tuple of any length has exactly one
element type, and the type is read back from its text. -/
structure Ty.Canonical (t : Ty) : Prop where
  wellFormed : Ty.WellFormed t
  hasText : Ty.hasText t = true
  read_text : Ty.read (Ty.text t) = .ok t

theorem Ty.WellFormed.hasText {t : Ty} (h : Ty.WellFormed t) : Ty.hasText t = true := by
  rw [Ty.hasText_iff]
  intro v hv
  exact (h.2 v hv).hasText

theorem Ty.WellFormed.canonical {t : Ty} (h : Ty.WellFormed t) : t.Canonical :=
  ⟨h, h.hasText, Ty.read_text h⟩

/-- A type that type text says nothing of is named after the innermost member key of its place, or
says nothing if there is none. -/
inductive Ty.Listed (loc : Location) : Ty → Prop
  | unnamed (h : loc.innermost? = none) : Listed loc Ty.any
  | named {key : Str} (h : loc.innermost? = some key) : Listed loc (Ty.named key)

/-! ### Representation -/

/-- The entries of a parameter list; a vacant value has none. -/
def Schema.ListsParams (v : Value) (vs : List Value) : Prop :=
  v.isVacant = true ∧ vs = [] ∨ v = .list vs

/-- A parameter represents an entry of a parameter list: a mapping that gives its name. -/
structure Param.Represents (v : Value) (p : Param) : Prop where
  entry : ∃ es : Entries, v = .map es ∧ es.field "name" = .text p.name
  named : p.name ≠ ""
  ty : p.ty.Canonical
  docs : ∀ d ∈ p.docs, d.WellFormed

structure Returns.Canonical (r : Returns) : Prop where
  ty : r.ty.Canonical
  docs : ∀ d ∈ r.docs, d.WellFormed

structure Property.Canonical (p : Property) : Prop where
  ty : p.ty.Canonical
  docs : ∀ d ∈ p.docs, d.WellFormed

/-- A function represents a mapping: it has one parameter for each entry of the list, in order, and no
two of them have one name. -/
structure Function.Represents (es : Entries) (f : Function) : Prop where
  params : ∃ vs, Schema.ListsParams (es.field "params") vs ∧
    List.Forall₂ Param.Represents vs f.params
  distinct : (f.params.map Param.name).Nodup
  returns : f.returns.Canonical
  docs : ∀ d ∈ f.docs, d.WellFormed

/-- A constructor represents the value under its key: null is none. -/
inductive Function.RepresentsConstructor : Value → Option Function → Prop
  | absent : RepresentsConstructor .null none
  | given {es : Entries} {f : Function} (h : f.Represents es) : RepresentsConstructor (.map es) (some f)

/-- The type of a type item: the canonical type that its type text says, or else, where there is no
such text, the one under whose name it is listed. -/
inductive Ty.RepresentsOwn (loc : Location) (es : Entries) (t : Ty) : Prop
  | listed (h : Schema.ownType es = .null) (ht : t.Listed loc)
  | said {s : Str} (h : Schema.ownType es = .text s) (hr : Ty.read s = .ok t) (hc : t.Canonical)

mutual

/-- An item represents the mapping at a place. -/
inductive Item.Represents : Location → Entries → Item → Prop
  | module {loc : Location} {es listed : Entries} {d : Option Docs} {ms : List (Scalar × Item)}
      (kind : es.field "kind" = .text "module") (lists : Schema.Lists (es.field "members") listed)
      (members : Item.RepresentMembers loc listed ms) (docs : ∀ p ∈ d, p.WellFormed) :
      Item.Represents loc es (.module d ms)
  | type {loc : Location} {es listed : Entries} {d : Option Docs} {c : Option Function}
      {ms : List (Scalar × Item)} {t : Ty} (kind : es.field "kind" = .text "type")
      (lists : Schema.Lists (es.field "members") listed)
      (members : Item.RepresentMembers loc listed ms) (fit : ∀ m ∈ ms, m.2.IsTypeMember)
      (constructor : Function.RepresentsConstructor (es.field "constructor") c)
      (own : t.RepresentsOwn loc es) (docs : ∀ p ∈ d, p.WellFormed) :
      Item.Represents loc es (.type d c ms t)
  | function {loc : Location} {es : Entries} {f : Function}
      (kind : es.field "kind" = .text "function") (h : f.Represents es) :
      Item.Represents loc es (.function f)
  | property {loc : Location} {es : Entries} {p : Property}
      (kind : es.field "kind" = .text "property") (h : p.Canonical) :
      Item.Represents loc es (.property p)

/-- Members represent the entries of a mapping one by one, each under the key of its entry. -/
inductive Item.RepresentMembers : Location → Entries → List (Scalar × Item) → Prop
  | nil {loc : Location} : Item.RepresentMembers loc [] []
  | cons {loc : Location} {k : Scalar} {sub rest : Entries} {i : Item} {ms : List (Scalar × Item)}
      (first : Item.Represents (loc.member k) sub i) (others : Item.RepresentMembers loc rest ms) :
      Item.RepresentMembers loc ((k, .map sub) :: rest) ((k, i) :: ms)

end

/-- The members of an item represent what its mapping lists, if it has any. -/
theorem Item.Represents.exists_representMembers {loc : Location} {es : Entries} {i : Item}
    (h : i.Represents loc es) : ∃ listed, Item.RepresentMembers loc listed i.members ∧
      (i.members ≠ [] → Schema.Lists (es.field "members") listed) := by
  cases h with
  | module _ lists members => exact ⟨_, members, fun _ => lists⟩
  | type _ lists members => exact ⟨_, members, fun _ => lists⟩
  | function => exact ⟨[], .nil, fun hne => absurd rfl hne⟩
  | property => exact ⟨[], .nil, fun hne => absurd rfl hne⟩

namespace Reading

variable {loc : Location} {v : Value} {es : Entries}

/-! ### Leaves -/

theorem wellFormed_of_docs {d : Option Docs} (h : docs loc v = .ok d) : ∀ p ∈ d, p.WellFormed := by
  unfold docs at h
  split at h
  · obtain rfl := Except.ok.inj h
    simp
  · obtain rfl := Except.ok.inj h
    simp [Docs.WellFormed]
  · obtain ⟨s, -, h⟩ := bind_eq_ok.mp h
    obtain ⟨o, ho, h⟩ := bind_eq_ok.mp h
    obtain rfl := Except.ok.inj h
    have hne : o ≠ some (.whole "") := by
      unfold details at ho
      split at ho
      · obtain rfl := Except.ok.inj ho
        simp
      · obtain rfl := Except.ok.inj ho
        split <;> simp_all
      · simp [refuse] at ho
    simpa [Docs.WellFormed] using hne
  · simp [refuse] at h

theorem canonical_of_ty {t : Ty} (h : ty loc v = .ok t) : t.Canonical := by
  unfold ty at h
  split at h
  · obtain rfl := Except.ok.inj h
    exact Ty.wellFormed_any.canonical
  · split at h
    · next s t' hs =>
      obtain rfl := Except.ok.inj h
      exact (Ty.wellFormed_of_read hs).canonical
    · simp [refuse] at h
  · simp [refuse] at h

theorem ne_empty_of_name {s : Str} (h : name loc v = .ok s) : s ≠ "" := by
  unfold name at h
  split at h
  · split at h
    · simp [refuse] at h
    · next hs =>
      obtain rfl := Except.ok.inj h
      exact hs
  · simp [refuse] at h

theorem listed_listedTy (loc : Location) : (listedTy loc).Listed loc := by
  unfold listedTy
  split
  · next h => exact .unnamed h
  · next key h => exact .named h

theorem representsOwn_of_ownTy {t : Ty} (h : ownTy loc es = .ok t) : t.RepresentsOwn loc es := by
  unfold ownTy at h
  rw [ownTypeText_eq] at h
  split at h
  · next hnull =>
    obtain rfl := Except.ok.inj h
    exact .listed hnull (listed_listedTy loc)
  · next hnull =>
    have hc := canonical_of_ty h
    unfold ty at h
    split at h
    · next hv => exact absurd hv hnull
    · next s hv =>
      split at h
      · next t' hs =>
        obtain rfl := Except.ok.inj h
        exact .said hv hs hc
      · simp [refuse] at h
    · simp [refuse] at h

/-! ### Parameters -/

theorem mapping_eq_ok (h : mapping loc v = .ok es) : v = .map es := by
  cases v with
  | map es' =>
    obtain rfl := Except.ok.inj h
    rfl
  | _ => exact absurd h (by simp [mapping, refuse])

theorem represents_of_param {p : Param} (h : param loc es = .ok p) : p.Represents (.map es) := by
  have hname : es.field "name" = .text p.name := name_of_param h
  unfold param at h
  obtain ⟨n, hn, h⟩ := bind_eq_ok.mp h
  obtain ⟨k, -, h⟩ := bind_eq_ok.mp h
  obtain ⟨t, ht, h⟩ := bind_eq_ok.mp h
  obtain ⟨d, hd, h⟩ := bind_eq_ok.mp h
  obtain ⟨w, -, h⟩ := bind_eq_ok.mp h
  obtain rfl := Except.ok.inj h
  exact ⟨⟨es, rfl, hname⟩, ne_empty_of_name hn, canonical_of_ty ht, wellFormed_of_docs hd⟩

/-- The parameters of a list represent its entries in order, from whatever place they are read. -/
theorem forall₂_of_paramsFrom {vs : List Value} {i : Nat} {ps : List Param}
    (h : paramsFrom loc i vs = .ok ps) : List.Forall₂ Param.Represents vs ps := by
  induction vs generalizing i ps with
  | nil =>
    obtain rfl := Except.ok.inj h
    exact .nil
  | cons v vs ih =>
    unfold paramsFrom at h
    obtain ⟨es, hm, h⟩ := bind_eq_ok.mp h
    obtain ⟨p, hp, h⟩ := bind_eq_ok.mp h
    obtain ⟨qs, hqs, h⟩ := bind_eq_ok.mp h
    obtain rfl := Except.ok.inj h
    have hfirst := represents_of_param hp
    rw [← mapping_eq_ok hm] at hfirst
    exact .cons hfirst (ih hqs)

theorem represents_of_params {ps : List Param} (h : params loc v = .ok ps) :
    (∃ vs, Schema.ListsParams v vs ∧ List.Forall₂ Param.Represents vs ps) ∧
      (ps.map Param.name).Nodup := by
  unfold params at h
  split at h
  · next hv =>
    obtain rfl := Except.ok.inj h
    exact ⟨⟨[], .inl ⟨hv, rfl⟩, .nil⟩, List.nodup_nil⟩
  · split at h
    · next vs _ =>
      obtain ⟨qs, hqs, h⟩ := bind_eq_ok.mp h
      split at h
      · next hrep =>
        obtain rfl := Except.ok.inj h
        exact ⟨⟨vs, .inr rfl, forall₂_of_paramsFrom hqs⟩, (repeated?_eq_none.mp hrep).1⟩
      · simp [refuse] at h
    · simp [refuse] at h

/-! ### Functions and properties -/

theorem canonical_of_property {p : Property} (h : property loc es = .ok p) : p.Canonical := by
  unfold property at h
  obtain ⟨t, ht, h⟩ := bind_eq_ok.mp h
  obtain ⟨d, hd, h⟩ := bind_eq_ok.mp h
  obtain rfl := Except.ok.inj h
  exact ⟨canonical_of_ty ht, wellFormed_of_docs hd⟩

/-- What a function gives back is read from entries, wherever they come from, as a property is. -/
theorem canonical_of_returns {r : Returns} (h : returns loc v = .ok r) : r.Canonical := by
  have hread : ∃ es : Entries, (do
      let t ← ty (loc.field "type") (es.field "type")
      let d ← docs (loc.field "docs") (es.field "docs")
      .ok (⟨t, d⟩ : Returns) : Reading Returns) = .ok r := by
    unfold returns at h
    split at h
    · exact ⟨[], h⟩
    · obtain ⟨es, -, h⟩ := bind_eq_ok.mp h
      exact ⟨es, h⟩
  obtain ⟨es, h⟩ := hread
  obtain ⟨t, ht, h⟩ := bind_eq_ok.mp h
  obtain ⟨d, hd, h⟩ := bind_eq_ok.mp h
  obtain rfl := Except.ok.inj h
  exact ⟨canonical_of_ty ht, wellFormed_of_docs hd⟩

theorem represents_of_function {f : Function} (h : function loc es = .ok f) : f.Represents es := by
  unfold function at h
  obtain ⟨ps, hps, h⟩ := bind_eq_ok.mp h
  obtain ⟨r, hr, h⟩ := bind_eq_ok.mp h
  obtain ⟨d, hd, h⟩ := bind_eq_ok.mp h
  obtain rfl := Except.ok.inj h
  obtain ⟨hparams, hdistinct⟩ := represents_of_params hps
  exact ⟨hparams, hdistinct, canonical_of_returns hr, wellFormed_of_docs hd⟩

theorem represents_of_constructor {c : Option Function} (h : constructor loc v = .ok c) :
    Function.RepresentsConstructor v c := by
  unfold constructor at h
  split at h
  · obtain rfl := Except.ok.inj h
    exact .absent
  · obtain ⟨f, hf, h⟩ := bind_eq_ok.mp h
    obtain rfl := Except.ok.inj h
    exact .given (represents_of_function hf)
  · simp [refuse] at h

/-! ### Items -/

theorem isTypeMember_of_fitsTypes {i : Item} (h : fitsTypes i = true) : i.IsTypeMember := by
  cases i with
  | function f => exact .inl ⟨f, rfl⟩
  | property p => exact .inr ⟨p, rfl⟩
  | _ => exact absurd h (by simp [fitsTypes])

/-- A vacant value lists no members, and neither does it give any. -/
theorem represent_of_vacant {ms : List (Scalar × Item)}
    (h : (if v.isVacant then .ok [] else refuse (loc.field "members") .notAMapping) = .ok ms) :
    ms = [] ∧ Schema.Lists v [] := by
  split at h
  · next hv =>
    obtain rfl := Except.ok.inj h
    exact ⟨rfl, .inl ⟨hv, rfl⟩⟩
  · simp [refuse] at h

/-- Members represent the value that lists them, and those of a type are fit for one. -/
def MembersRepresent (loc : Location) (inType : Bool) (v : Value) (ms : List (Scalar × Item)) : Prop :=
  (∃ listed, Schema.Lists v listed ∧ Item.RepresentMembers loc listed ms) ∧
    (inType = true → ∀ m ∈ ms, m.2.IsTypeMember)

mutual

theorem represents_of_item : ∀ (v : Value) (loc : Location) {i : Item}, item loc v = .ok i →
    ∃ es, v = .map es ∧ Item.Represents loc es i
  | .scalar s, loc, i, h => by simp [item, refuse] at h
  | .list vs, loc, i, h => by simp [item, refuse] at h
  | .foreign f, loc, i, h => by simp [item, refuse] at h
  | .map es, loc, i, h => by
    refine ⟨es, rfl, ?_⟩
    have hkind := kind_of_item h
    cases hi : kindOf i with
    | module =>
      rw [hi] at hkind
      obtain ⟨ms, d, hms, hd, rfl⟩ := (item_module_eq_ok hkind).mp h
      rw [← membersIn_eq] at hms
      obtain ⟨⟨listed, hl, hm⟩, -⟩ := represent_of_membersIn es loc false hms
      exact .module hkind hl hm (wellFormed_of_docs hd)
    | type =>
      rw [hi] at hkind
      obtain ⟨ms, c, t, d, hms, hc, ht, hd, rfl⟩ := (item_type_eq_ok hkind).mp h
      rw [← membersIn_eq] at hms
      obtain ⟨⟨listed, hl, hm⟩, hfit⟩ := represent_of_membersIn es loc true hms
      exact .type hkind hl hm (hfit rfl) (represents_of_constructor hc) (representsOwn_of_ownTy ht)
        (wellFormed_of_docs hd)
    | function =>
      rw [hi] at hkind
      obtain ⟨f, hf, rfl⟩ := (item_function_eq_ok hkind).mp h
      exact .function hkind (represents_of_function hf)
    | property =>
      rw [hi] at hkind
      obtain ⟨p, hp, rfl⟩ := (item_property_eq_ok hkind).mp h
      exact .property hkind (canonical_of_property hp)

theorem represent_of_membersIn : ∀ (es : List (Scalar × Value)) (loc : Location) (inType : Bool)
    {ms : List (Scalar × Item)}, membersIn loc inType es = .ok ms →
    MembersRepresent loc inType (Entries.field es "members") ms
  | [], loc, inType, ms, h => by
    rw [membersIn] at h
    obtain rfl := Except.ok.inj h
    exact ⟨⟨[], .inl ⟨rfl, rfl⟩, .nil⟩, by simp⟩
  | (k, v) :: rest, loc, inType, ms, h => by
    rw [membersIn] at h
    rw [field_cons]
    by_cases hk : k.sameKey (.text "members") = true
    · rw [if_pos hk] at h ⊢
      exact represent_of_membersOf v loc inType h
    · rw [if_neg hk] at h ⊢
      exact represent_of_membersIn rest loc inType h

theorem represent_of_membersOf : ∀ (v : Value) (loc : Location) (inType : Bool)
    {ms : List (Scalar × Item)}, membersOf loc inType v = .ok ms → MembersRepresent loc inType v ms
  | .scalar s, loc, inType, ms, h => by
    rw [membersOf] at h
    obtain ⟨rfl, hl⟩ := represent_of_vacant h
    exact ⟨⟨[], hl, .nil⟩, by simp⟩
  | .list vs, loc, inType, ms, h => by
    rw [membersOf] at h
    obtain ⟨rfl, hl⟩ := represent_of_vacant (v := .list vs) h
    exact ⟨⟨[], hl, .nil⟩, by simp⟩
  | .foreign f, loc, inType, ms, h => by
    rw [membersOf] at h
    obtain ⟨rfl, hl⟩ := represent_of_vacant (v := .foreign f) h
    exact ⟨⟨[], hl, .nil⟩, by simp⟩
  | .map es, loc, inType, ms, h => by
    rw [membersOf] at h
    obtain ⟨hm, hfit⟩ := represent_of_members es loc inType h
    exact ⟨⟨es, .inr rfl, hm⟩, hfit⟩

theorem represent_of_members : ∀ (es : List (Scalar × Value)) (loc : Location) (inType : Bool)
    {ms : List (Scalar × Item)}, members loc inType es = .ok ms →
    Item.RepresentMembers loc es ms ∧ (inType = true → ∀ m ∈ ms, m.2.IsTypeMember)
  | [], loc, inType, ms, h => by
    rw [members] at h
    obtain rfl := Except.ok.inj h
    exact ⟨.nil, by simp⟩
  | (k, v) :: rest, loc, inType, ms, h => by
    rw [members] at h
    obtain ⟨i, hi, h⟩ := bind_eq_ok.mp h
    obtain ⟨-, hi⟩ := writing_eq_ok.mp hi
    split at h
    · simp [refuse] at h
    · next hfits =>
      obtain ⟨is, his, h⟩ := bind_eq_ok.mp h
      obtain rfl := Except.ok.inj h
      obtain ⟨sub, rfl, hrep⟩ := represents_of_item v (loc.member k) hi
      obtain ⟨hothers, hfit⟩ := represent_of_members rest loc inType his
      refine ⟨.cons hrep hothers, fun ht => List.forall_mem_cons.mpr ⟨?_, hfit ht⟩⟩
      have hfirst : fitsTypes i = true := by simpa [ht] using hfits
      exact isTypeMember_of_fitsTypes hfirst

end

end Reading

/-- **An item that was read represents its document at every depth.** -/
theorem readItem_represents {loc : Location} {es : Entries} {i : Item} (h : readItem loc es = .ok i) :
    i.Represents loc es := by
  obtain ⟨es', hes, hrep⟩ := Reading.represents_of_item (.map es) loc h
  obtain rfl : es = es' := by simpa using hes
  exact hrep

namespace ShapeDocument

/-- A property whose type says one alternative twice. -/
def area : Entries :=
  [(.text "type", .text "float|int | float"), (.text "kind", .text "property")]

/-- A type that does not say which type it is, its one member under a key that is no text. -/
def shape : Entries :=
  [(.text "members", .map [(.int 7, .map area)]), (.text "kind", .text "type")]

def doc : Entries :=
  [(.text "kind", .text "module"), (.text "members", .map [(.text "Shape", .map shape)])]

/-- The place of the type in the document. -/
def shapePlace : Location :=
  ({} : Location).member (.text "Shape")

def areaItem : Item :=
  .property ⟨[.name "float", .name "int"], none⟩

def shapeItem : Item :=
  .type none none [(.int 7, areaItem)] (Ty.named "Shape")

theorem item_area (loc : Location) : Reading.item loc (.map area) = .ok areaItem := by
  have hread : Ty.read "float|int | float" = .ok [.name "float", .name "int"] := by decide +kernel
  have hty : Reading.ty (loc.field "type") (area.field "type") = .ok [.name "float", .name "int"] := by
    show Reading.ty (loc.field "type") (.text "float|int | float") = _
    rw [Reading.ty, hread]
  have hp : Reading.property loc area = .ok ⟨[.name "float", .name "int"], none⟩ :=
    bind_eq_ok.mpr ⟨_, hty, rfl⟩
  unfold Reading.item
  exact bind_eq_ok.mpr ⟨.property, rfl, bind_eq_ok.mpr ⟨_, hp, rfl⟩⟩

theorem item_shape : Reading.item shapePlace (.map shape) = .ok shapeItem := by
  have hlisted : shapePlace.innermost? = some (.whole "Shape") := by decide +kernel
  have hms : Reading.membersIn shapePlace true shape = .ok [(.int 7, areaItem)] :=
    bind_eq_ok.mpr ⟨_, Reading.writing_eq_ok.mpr ⟨rfl, item_area _⟩, rfl⟩
  have hown : Reading.ownTy shapePlace shape = .ok (Ty.named "Shape") := by
    show Except.ok (Reading.listedTy shapePlace) = _
    rw [Reading.listedTy, hlisted]
  unfold Reading.item
  refine bind_eq_ok.mpr ⟨.type, rfl, bind_eq_ok.mpr ⟨_, hms, ?_⟩⟩
  exact bind_eq_ok.mpr ⟨none, rfl, bind_eq_ok.mpr ⟨_, hown, rfl⟩⟩

theorem readItem_doc : readItem {} doc = .ok (.module none [(.text "Shape", shapeItem)]) := by
  have hms : Reading.membersIn {} false doc = .ok [(.text "Shape", shapeItem)] :=
    bind_eq_ok.mpr ⟨_, Reading.writing_eq_ok.mpr ⟨rfl, item_shape⟩, rfl⟩
  unfold readItem Reading.item
  exact bind_eq_ok.mpr ⟨.module, rfl, bind_eq_ok.mpr ⟨_, hms, rfl⟩⟩

end ShapeDocument

/-- A module of a type that is named after its key. -/
theorem readItem_represents_shape :
    readItem {} ShapeDocument.doc = .ok (.module none [(.text "Shape", ShapeDocument.shapeItem)]) ∧
      (Item.module none [(.text "Shape", ShapeDocument.shapeItem)]).Represents {} ShapeDocument.doc :=
  ⟨ShapeDocument.readItem_doc, readItem_represents ShapeDocument.readItem_doc⟩

end ApiPage
