import ApiPage.Proofs.Item.Schema
import ApiPage.Proofs.Ty.Canonical

/-!
# The document of an item

`Document.item` spells an item out: every field under its key, null where there is nothing to say, and
every type as its canonical text. For a well-formed item this is document data, and `readItem` gives
the item back.
-/

namespace ApiPage

/-! ### Well-formed items -/

/-- Details are absent or not empty. -/
def Docs.WellFormed (d : Docs) : Prop :=
  d.details ≠ some (.whole "")

structure Param.WellFormed (p : Param) : Prop where
  name : p.name ≠ ""
  ty : Ty.WellFormed p.ty
  docs : ∀ d ∈ p.docs, d.WellFormed

structure Returns.WellFormed (r : Returns) : Prop where
  ty : Ty.WellFormed r.ty
  docs : ∀ d ∈ r.docs, d.WellFormed

structure Function.WellFormed (f : Function) : Prop where
  params : ∀ p ∈ f.params, p.WellFormed
  names : (f.params.map Param.name).Nodup
  returns : f.returns.WellFormed
  docs : ∀ d ∈ f.docs, d.WellFormed

structure Property.WellFormed (p : Property) : Prop where
  ty : Ty.WellFormed p.ty
  docs : ∀ d ∈ p.docs, d.WellFormed

/-- The keys are texts, and no two of them are the same. -/
def TextKeys {α : Type} (es : List (Scalar × α)) : Prop :=
  ∃ names : List Str, names.Nodup ∧ es.map Prod.fst = names.map Scalar.text

theorem nodup_of_textKeys {α : Type} {es : List (Scalar × α)} (h : TextKeys es) :
    (es.map Prod.fst).Nodup := by
  obtain ⟨names, hn, hes⟩ := h
  rw [hes]
  exact hn.map fun _ _ h => Scalar.text.inj h

theorem writable_of_textKeys {α : Type} {es : List (Scalar × α)} (h : TextKeys es) :
    ∀ e ∈ es, e.1.writable = true := by
  obtain ⟨names, -, hes⟩ := h
  intro e he
  obtain ⟨s, -, hs⟩ := List.mem_map.mp (hes ▸ List.mem_map_of_mem he)
  rw [← hs, Scalar.writable_text]

/-- A function or a property: what a type may hold. -/
def Item.IsTypeMember (i : Item) : Prop :=
  (∃ f, i = .function f) ∨ ∃ p, i = .property p

/-- The items that a document can express. -/
inductive Item.WellFormed : Item → Prop
  | module {d : Option Docs} {ms : List (Scalar × Item)} (hd : ∀ p ∈ d, p.WellFormed)
      (hk : TextKeys ms) (hm : ∀ m ∈ ms, WellFormed m.2) : WellFormed (.module d ms)
  | type {d : Option Docs} {c : Option Function} {ms : List (Scalar × Item)} {t : Ty}
      (hd : ∀ p ∈ d, p.WellFormed) (hc : ∀ f ∈ c, f.WellFormed) (hk : TextKeys ms)
      (hm : ∀ m ∈ ms, WellFormed m.2) (hin : ∀ m ∈ ms, m.2.IsTypeMember) (ht : Ty.WellFormed t) :
      WellFormed (.type d c ms t)
  | function {f : Function} (hf : f.WellFormed) : WellFormed (.function f)
  | property {p : Property} (hp : p.WellFormed) : WellFormed (.property p)

/-- Data in which no mapping has a key twice. -/
inductive Value.Keyed : Value → Prop
  | scalar (s : Scalar) : Keyed (.scalar s)
  | list {vs : List Value} (h : ∀ v ∈ vs, Keyed v) : Keyed (.list vs)
  | map {es : Entries} (hk : es.Pairwise fun e f => e.1.sameKey f.1 = false)
      (h : ∀ e ∈ es, Keyed e.2) : Keyed (.map es)

/-! ### Spelling items out -/

namespace Document

/-- A text, or null for none. -/
def optional : Option Str → Value
  | none => .null
  | some s => .text s

def docs : Option Docs → Value
  | none => .null
  | some d => .map [(.text "summary", .text d.summary), (.text "details", optional d.details)]

def ty (t : Ty) : Value :=
  .text (Ty.text t)

def param (p : Param) : Entries :=
  [(.text "name", .text p.name), (.text "kind", .text p.kind.word), (.text "type", ty p.ty),
    (.text "docs", docs p.docs), (.text "default", optional p.default)]

def returns (r : Returns) : Entries :=
  [(.text "type", ty r.ty), (.text "docs", docs r.docs)]

def function (f : Function) : Entries :=
  [(.text "kind", .text "function"), (.text "docs", docs f.docs),
    (.text "params", .list (f.params.map fun p => .map (param p))),
    (.text "returns", .map (returns f.returns))]

def property (p : Property) : Entries :=
  [(.text "kind", .text "property"), (.text "docs", docs p.docs), (.text "type", ty p.ty)]

def constructor : Option Function → Value
  | none => .null
  | some f => .map (function f)

mutual

def item : Item → Entries
  | .module d ms =>
    [(.text "kind", .text "module"), (.text "docs", docs d), (.text "members", .map (members ms))]
  | .type d c ms t =>
    [(.text "kind", .text "type"), (.text "docs", docs d), (.text "ty", ty t),
      (.text "constructor", constructor c), (.text "members", .map (members ms))]
  | .function f => function f
  | .property p => property p

/-- The documents of members, in order. -/
def members : List (Scalar × Item) → Entries
  | [] => []
  | (k, i) :: rest => (k, .map (item i)) :: members rest

end

theorem members_eq_map : (ms : List (Scalar × Item)) →
    members ms = ms.map fun m => (m.1, .map (item m.2))
  | [] => rfl
  | (k, i) :: rest => by rw [members, List.map_cons, members_eq_map rest]

/-! ### The document is document data -/

theorem pairwise_of_textKeys {α : Type} {es : List (Scalar × α)} (h : TextKeys es) :
    es.Pairwise fun e f => e.1.sameKey f.1 = false := by
  obtain ⟨names, hn, hes⟩ := h
  have hkeys : (es.map Prod.fst).Pairwise fun k l => k.sameKey l = false := by
    rw [hes, List.pairwise_map]
    refine hn.imp fun {a b} hab => ?_
    rw [Scalar.sameKey_text, decide_eq_false hab]
  exact List.pairwise_map.mp hkeys

theorem keyed_map {es : Entries} (hk : TextKeys es) (h : ∀ e ∈ es, e.2.Keyed) :
    (Value.map es).Keyed :=
  .map (pairwise_of_textKeys hk) h

theorem keyed_optional (o : Option Str) : (optional o).Keyed := by
  cases o <;> exact .scalar _

theorem keyed_docs (d : Option Docs) : (docs d).Keyed := by
  cases d with
  | none => exact .scalar _
  | some d =>
    refine keyed_map ⟨["summary", "details"], by decide, rfl⟩ ?_
    simp [Value.Keyed.scalar, keyed_optional]

theorem keyed_param (p : Param) : (Value.map (param p)).Keyed := by
  refine keyed_map ⟨["name", "kind", "type", "docs", "default"], by decide, rfl⟩ ?_
  simp [param, ty, Value.Keyed.scalar, keyed_docs, keyed_optional]

theorem keyed_returns (r : Returns) : (Value.map (returns r)).Keyed := by
  refine keyed_map ⟨["type", "docs"], by decide, rfl⟩ ?_
  simp [returns, ty, Value.Keyed.scalar, keyed_docs]

theorem keyed_function (f : Function) : (Value.map (function f)).Keyed := by
  have hparams : (Value.list (f.params.map fun p => .map (param p))).Keyed := by
    refine .list fun v hv => ?_
    obtain ⟨p, -, rfl⟩ := List.mem_map.mp hv
    exact keyed_param p
  refine keyed_map ⟨["kind", "docs", "params", "returns"], by decide, rfl⟩ ?_
  simp [function, Value.Keyed.scalar, keyed_docs, hparams, keyed_returns]

theorem keyed_property (p : Property) : (Value.map (property p)).Keyed := by
  refine keyed_map ⟨["kind", "docs", "type"], by decide, rfl⟩ ?_
  simp [property, ty, Value.Keyed.scalar, keyed_docs]

theorem keyed_constructor (c : Option Function) : (constructor c).Keyed := by
  cases c with
  | none => exact .scalar _
  | some f => exact keyed_function f

theorem keyed_members {ms : List (Scalar × Item)} (hk : TextKeys ms)
    (h : ∀ m ∈ ms, (Value.map (item m.2)).Keyed) : (Value.map (members ms)).Keyed := by
  obtain ⟨names, hn, hms⟩ := hk
  rw [members_eq_map]
  refine keyed_map ⟨names, hn, ?_⟩ fun e he => ?_
  · rw [List.map_map, ← hms]
    rfl
  · obtain ⟨m, hm, rfl⟩ := List.mem_map.mp he
    exact h m hm

theorem keyed_item {i : Item} (h : i.WellFormed) : (Value.map (item i)).Keyed := by
  induction h with
  | module _ hk _ ih =>
    refine keyed_map ⟨["kind", "docs", "members"], by decide, rfl⟩ ?_
    simp [item, Value.Keyed.scalar, keyed_docs, keyed_members hk ih]
  | type _ _ hk _ _ _ ih =>
    refine keyed_map ⟨["kind", "docs", "ty", "constructor", "members"], by decide, rfl⟩ ?_
    simp [item, ty, Value.Keyed.scalar, keyed_docs, keyed_constructor, keyed_members hk ih]
  | @function f _ => exact keyed_function f
  | @property p _ => exact keyed_property p

/-! ### The document is read back -/

variable {loc : Location}

theorem read_docs {d : Option Docs} (h : ∀ p ∈ d, p.WellFormed) :
    Reading.docs loc (docs d) = .ok d := by
  cases d with
  | none => rfl
  | some d =>
    obtain ⟨summary, details⟩ := d
    have hd : Reading.details (loc.field "details") (optional details) = .ok details := by
      have hne : details ≠ some (.whole "") := h _ rfl
      cases details with
      | none => rfl
      | some s =>
        have hs : s ≠ "" := by simpa using hne
        simp [optional, Reading.details, hs]
    exact bind_eq_ok.mpr ⟨summary, rfl, bind_eq_ok.mpr ⟨details, hd, rfl⟩⟩

theorem read_ty {t : Ty} (h : Ty.WellFormed t) : Reading.ty loc (ty t) = .ok t := by
  rw [ty, Reading.ty, Ty.read_text h]

theorem read_name {s : Str} (h : s ≠ "") : Reading.name loc (.text s) = .ok s := by
  rw [Reading.name, if_neg h]

theorem read_paramKind (k : ParamKind) :
    Reading.paramKind loc (some (.text k.word)) = .ok k := by
  rw [Reading.paramKind, ParamKind.ofWord?_word]

theorem read_default (o : Option Str) : Reading.default (optional o) = .ok o := by
  cases o with
  | none => rfl
  | some s => simp [optional, Reading.default, Value.plain]

theorem read_param {p : Param} (h : p.WellFormed) : Reading.param loc (param p) = .ok p := by
  refine bind_eq_ok.mpr ⟨p.name, read_name h.name, ?_⟩
  refine bind_eq_ok.mpr ⟨p.kind, read_paramKind p.kind, ?_⟩
  refine bind_eq_ok.mpr ⟨p.ty, read_ty h.ty, ?_⟩
  refine bind_eq_ok.mpr ⟨p.docs, read_docs h.docs, ?_⟩
  exact bind_eq_ok.mpr ⟨p.default, read_default p.default, rfl⟩

/-- Parameters are read back in order, from whatever place of the list. -/
theorem read_paramsFrom {ps : List Param} (h : ∀ p ∈ ps, p.WellFormed) (i : Nat) :
    Reading.paramsFrom loc i (ps.map fun p => .map (param p)) = .ok ps := by
  induction ps generalizing i with
  | nil => rfl
  | cons p ps ih =>
    have hp : Reading.param (loc.nth i) (param p) = .ok p := read_param (h p List.mem_cons_self)
    have hps := ih (fun q hq => h q (List.mem_cons_of_mem _ hq)) (i + 1)
    exact bind_eq_ok.mpr ⟨param p, rfl, bind_eq_ok.mpr ⟨p, hp, bind_eq_ok.mpr ⟨ps, hps, rfl⟩⟩⟩

theorem read_params {ps : List Param} (h : ∀ p ∈ ps, p.WellFormed) (hn : (ps.map Param.name).Nodup) :
    Reading.params loc (.list (ps.map fun p => .map (param p))) = .ok ps := by
  unfold Reading.params
  split
  · next hv =>
    have hps : ps = [] := by simpa [Value.isVacant] using hv
    rw [hps]
  · refine bind_eq_ok.mpr ⟨ps, read_paramsFrom h 0, ?_⟩
    have hrep : Reading.repeated? [] ps = none :=
      Reading.repeated?_eq_none.mpr ⟨hn, fun p _ => List.not_mem_nil⟩
    rw [hrep]

theorem read_returns {r : Returns} (h : r.WellFormed) :
    Reading.returns loc (.map (returns r)) = .ok r := by
  refine bind_eq_ok.mpr ⟨returns r, rfl, ?_⟩
  exact bind_eq_ok.mpr ⟨r.ty, read_ty h.ty, bind_eq_ok.mpr ⟨r.docs, read_docs h.docs, rfl⟩⟩

theorem read_function {f : Function} (h : f.WellFormed) :
    Reading.function loc (function f) = .ok f := by
  refine bind_eq_ok.mpr ⟨f.params, read_params h.params h.names, ?_⟩
  refine bind_eq_ok.mpr ⟨f.returns, read_returns h.returns, ?_⟩
  exact bind_eq_ok.mpr ⟨f.docs, read_docs h.docs, rfl⟩

theorem read_property {p : Property} (h : p.WellFormed) :
    Reading.property loc (property p) = .ok p :=
  bind_eq_ok.mpr ⟨p.ty, read_ty h.ty, bind_eq_ok.mpr ⟨p.docs, read_docs h.docs, rfl⟩⟩

theorem read_constructor {c : Option Function} (h : ∀ f ∈ c, f.WellFormed) :
    Reading.constructor loc (constructor c) = .ok c := by
  cases c with
  | none => rfl
  | some f => exact bind_eq_ok.mpr ⟨f, read_function (h f rfl), rfl⟩

theorem fitsTypes_of_isTypeMember {i : Item} (h : i.IsTypeMember) : Reading.fitsTypes i = true := by
  rcases h with ⟨f, rfl⟩ | ⟨p, rfl⟩
  · rfl
  · rfl

/-- Members are read back in order, if each of them is. -/
theorem read_members {ms : List (Scalar × Item)} {inType : Bool}
    (hk : ∀ m ∈ ms, m.1.writable = true)
    (h : ∀ m ∈ ms, ∀ loc, Reading.item loc (.map (item m.2)) = .ok m.2)
    (hin : inType = true → ∀ m ∈ ms, m.2.IsTypeMember) :
    Reading.members loc inType (members ms) = .ok ms := by
  induction ms with
  | nil => rfl
  | cons m ms ih =>
    obtain ⟨k, i⟩ := m
    have hi := h (k, i) List.mem_cons_self (loc.member k)
    have hms := ih (fun m hm => hk m (List.mem_cons_of_mem _ hm))
      (fun m hm => h m (List.mem_cons_of_mem _ hm)) fun ht m hm => hin ht m (List.mem_cons_of_mem _ hm)
    have hfits : ¬ (inType && !Reading.fitsTypes i) = true := by
      cases inType with
      | false => simp
      | true => simp [fitsTypes_of_isTypeMember (hin rfl (k, i) List.mem_cons_self)]
    rw [members, Reading.members]
    have hkey : (Value.scalar k).writable = true := by simpa using hk (k, i) List.mem_cons_self
    refine bind_eq_ok.mpr ⟨i, Reading.writing_eq_ok.mpr ⟨hkey, hi⟩, ?_⟩
    rw [if_neg hfits]
    exact bind_eq_ok.mpr ⟨ms, hms, rfl⟩

theorem read_item {i : Item} (h : i.WellFormed) (loc : Location) :
    Reading.item loc (.map (item i)) = .ok i := by
  induction h generalizing loc with
  | @module d ms hd hk _ ih =>
    have hread : Reading.members loc false (members ms) = .ok ms :=
      read_members (writable_of_textKeys hk) ih (by simp)
    have hms : Reading.membersIn loc false (item (.module d ms)) = .ok ms := by
      simpa [item, Reading.membersIn, Reading.membersOf] using hread
    unfold Reading.item
    refine bind_eq_ok.mpr ⟨.module, rfl, ?_⟩
    exact bind_eq_ok.mpr ⟨ms, hms, bind_eq_ok.mpr ⟨d, read_docs hd, rfl⟩⟩
  | @type d c ms t hd hc hk _ hin ht ih =>
    have hread : Reading.members loc true (members ms) = .ok ms :=
      read_members (writable_of_textKeys hk) ih fun _ => hin
    have hms : Reading.membersIn loc true (item (.type d c ms t)) = .ok ms := by
      simpa [item, Reading.membersIn, Reading.membersOf] using hread
    have hty : Reading.ownTy loc (item (.type d c ms t)) = .ok t := read_ty ht
    unfold Reading.item
    refine bind_eq_ok.mpr ⟨.type, rfl, ?_⟩
    refine bind_eq_ok.mpr ⟨ms, hms, ?_⟩
    refine bind_eq_ok.mpr ⟨c, read_constructor hc, ?_⟩
    exact bind_eq_ok.mpr ⟨t, hty, bind_eq_ok.mpr ⟨d, read_docs hd, rfl⟩⟩
  | @function f hf =>
    unfold Reading.item
    exact bind_eq_ok.mpr ⟨.function, rfl, bind_eq_ok.mpr ⟨f, read_function hf, rfl⟩⟩
  | @property p hp =>
    unfold Reading.item
    exact bind_eq_ok.mpr ⟨.property, rfl, bind_eq_ok.mpr ⟨p, read_property hp, rfl⟩⟩

end Document

/-- **Every well-formed item has a document, and reading the document gives the item back.** -/
theorem readItem_document {i : Item} (h : i.WellFormed) (loc : Location) :
    (Value.map (Document.item i)).Keyed ∧ readItem loc (Document.item i) = .ok i :=
  ⟨Document.keyed_item h, Document.read_item h loc⟩

namespace Document

/-- A method with a parameter for all further positions and one that is bound by name only. -/
def fill : Function where
  params := [⟨"items", .args, [.name "int", .list [.name "int"]], none, none⟩,
    ⟨"label", .keyword, [.name "str"], some ⟨"What it says.", some (.whole "May be empty.")⟩, some (.whole "")⟩]
  returns := ⟨Ty.never, none⟩

/-- A module with a type that has a constructor and a method. -/
def boxes : Item :=
  .module (some ⟨"Boxes.", none⟩)
    [(.text "Box", .type none (some {}) [(.text "fill", .function fill)] [.name "Box[int]"])]

theorem wellFormed_fill : fill.WellFormed := by
  have hitems : Ty.WellFormed [.name "int", .list [.name "int"]] :=
    Ty.wellFormed_of_read (s := "int | list[int]") (by decide +kernel)
  have hlabel : Ty.WellFormed [.name "str"] :=
    Ty.wellFormed_of_read (s := "str") (by decide +kernel)
  have hnever : Ty.WellFormed Ty.never := ⟨List.nodup_nil, by simp [Ty.never]⟩
  refine ⟨?_, by decide, ⟨hnever, by simp [fill]⟩, by simp [fill]⟩
  simp only [fill, List.forall_mem_cons]
  refine ⟨⟨by decide, hitems, by simp⟩, ⟨by decide, hlabel, ?_⟩, by simp⟩
  simp [Docs.WellFormed]

theorem wellFormed_boxes : boxes.WellFormed := by
  have hbox : Ty.WellFormed [.name "Box[int]"] :=
    Ty.wellFormed_of_read (s := "Box[int]") (by decide +kernel)
  have hnew : Function.WellFormed {} := ⟨by simp, by simp, ⟨Ty.wellFormed_any, by simp⟩, by simp⟩
  refine .module (by simp [Docs.WellFormed]) ⟨["Box"], by decide, rfl⟩ ?_
  rw [List.forall_mem_singleton]
  refine .type (by simp) (by simpa using hnew) ⟨["fill"], by decide, rfl⟩ ?_ ?_ hbox
  · exact List.forall_mem_singleton.mpr (.function wellFormed_fill)
  · exact List.forall_mem_singleton.mpr (.inl ⟨fill, rfl⟩)

end Document

/-- The document of a module with a type. -/
theorem readItem_document_boxes :
    Document.boxes.WellFormed ∧ readItem {} [
      (.text "kind", .text "module"),
      (.text "docs", .map [(.text "summary", .text "Boxes."), (.text "details", .null)]),
      (.text "members", .map [(.text "Box", .map [
        (.text "kind", .text "type"),
        (.text "docs", .null),
        (.text "ty", .text "Box[int]"),
        (.text "constructor", .map [
          (.text "kind", .text "function"),
          (.text "docs", .null),
          (.text "params", .list []),
          (.text "returns", .map [(.text "type", .text "Any"), (.text "docs", .null)])]),
        (.text "members", .map [(.text "fill", .map [
          (.text "kind", .text "function"),
          (.text "docs", .null),
          (.text "params", .list [
            .map [
              (.text "name", .text "items"),
              (.text "kind", .text "args"),
              (.text "type", .text "int | list[int]"),
              (.text "docs", .null),
              (.text "default", .null)],
            .map [
              (.text "name", .text "label"),
              (.text "kind", .text "keyword"),
              (.text "type", .text "str"),
              (.text "docs", .map [
                (.text "summary", .text "What it says."),
                (.text "details", .text "May be empty.")]),
              (.text "default", .text "")]]),
          (.text "returns", .map [(.text "type", .text "Never"), (.text "docs", .null)])])])])])] =
      .ok Document.boxes :=
  ⟨Document.wellFormed_boxes, (readItem_document Document.wellFormed_boxes {}).2⟩

end ApiPage
