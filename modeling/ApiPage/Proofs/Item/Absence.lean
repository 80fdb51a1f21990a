import ApiPage.Proofs.Item.Reordering
import Mathlib.Logic.Relation

/-!
# Keys whose value is null

A part of an item that is null is as good as absent. `Value.Drops` takes one such key out of one mapping of
a document, at any depth, and what is read, or why nothing is, stays the same, however many keys are taken
out (`readItem_of_drops`). The one exception is a type whose type text is null and that gives a name: without
the key, the name is its type text.
-/

namespace ApiPage

/-! ### Keys that may be left out -/

/-- What a value of a document is read as. -/
inductive Slot
  | item
  | members
  | constructor
  | params
  | param
  | returns
  | docs
  deriving DecidableEq, Repr

namespace Slot

/-- Has a mapping that is read as this keys of its own? Members stand under keys of any name. -/
def isRecord : Slot → Bool
  | .members => false
  | .params => false
  | _ => true

/-- The keys under which parts are read that may have keys themselves. -/
def fields : Slot → List (Str × Slot)
  | .item => [("members", .members), ("constructor", .constructor), ("params", .params),
    ("returns", .returns), ("docs", .docs)]
  | .constructor => [("params", .params), ("returns", .returns), ("docs", .docs)]
  | .param => [("docs", .docs)]
  | .returns => [("docs", .docs)]
  | _ => []

end Slot

/-- The keys that may be left out. -/
def optionalKeys : List Str :=
  ["docs", "details", "type", "ty", "params", "members", "constructor", "returns", "default"]

/-- A mapping without a key. -/
def Entries.without (es : Entries) (key : Str) : Entries :=
  es.filter fun e => !e.1.sameKey (.text key)

/-- The same data with one key less, whose value was null, in a mapping that is read. The type text of a type
is taken out only if the type has no name. -/
inductive Value.Drops : Slot → Value → Value → Prop
  | key {slot : Slot} {es : Entries} {key : Str} (record : slot.isRecord = true)
      (optional : key ∈ optionalKeys) (null : es.field? key = some .null)
      (unnamed : slot = .item → key = "ty" → es.field "kind" = .text "type" → es.field "name" = .null) :
      Drops slot (.map es) (.map (es.without key))
  | part {slot below : Slot} {before after : Entries} {key : Str} {v w : Value}
      (field : (key, below) ∈ slot.fields) (h : Drops below v w) :
      Drops slot (.map (before ++ (.text key, v) :: after)) (.map (before ++ (.text key, w) :: after))
  | member {before after : Entries} {k : Scalar} {v w : Value} (h : Drops .item v w) :
      Drops .members (.map (before ++ (k, v) :: after)) (.map (before ++ (k, w) :: after))
  | param {before after : List Value} {v w : Value} (h : Drops .param v w) :
      Drops .params (.list (before ++ v :: after)) (.list (before ++ w :: after))

/-! ### Looking up what is left -/

namespace Entries

variable {es before after : Entries} {key other : Str} {v w : Value}

theorem field?_without_self : (es.without key).field? key = none := by
  rw [field?, without, List.find?_filter, Option.map_eq_none_iff, List.find?_eq_none]
  simp

theorem field?_without_of_ne (h : other ≠ key) : (es.without key).field? other = es.field? other := by
  rw [field?, field?, without, List.find?_filter]
  congr 2
  funext e
  by_cases he : e.1.sameKey (.text other) = true
  · rw [Scalar.sameKey_text_iff.mp he]
    simpa using h
  · simp [he]

/-- To take out a null changes no value. -/
theorem field_without (h : es.field? key = some .null) (other : Str) :
    (es.without key).field other = es.field other := by
  by_cases hkey : other = key
  · rw [hkey, field_of_none field?_without_self, field_of_some h]
  · rw [field, field?_without_of_ne hkey, field]

theorem field?_append (es fs : Entries) (key : Str) :
    Entries.field? (es ++ fs) key = (es.field? key).or (fs.field? key) := by
  rw [field?, List.find?_append, Option.map_or]
  rfl

theorem field?_cons_text (key other : Str) (v : Value) (es : Entries) :
    Entries.field? ((.text key, v) :: es) other = if key = other then some v else es.field? other := by
  rw [field?, List.find?_cons]
  by_cases h : key = other <;> simp [h, field?]

/-- Under every other key stands the same. -/
theorem field?_replace_of_ne (h : other ≠ key) :
    Entries.field? (before ++ (.text key, v) :: after) other =
      Entries.field? (before ++ (.text key, w) :: after) other := by
  simp only [field?_append, field?_cons_text, if_neg h.symm]

/-- Under the key itself stand the two values, or before them something that is the same. -/
theorem field_replace {P : Value → Value → Prop} (hrefl : ∀ u, P u u) (h : P v w) (other : Str) :
    P (Entries.field (before ++ (.text key, v) :: after) other)
      (Entries.field (before ++ (.text key, w) :: after) other) := by
  by_cases hkey : other = key
  · simp only [field, field?_append, field?_cons_text, if_pos hkey.symm]
    cases Entries.field? before other with
    | some u => exact hrefl u
    | none => exact h
  · rw [field, field, field?_replace_of_ne hkey]
    exact hrefl _

end Entries

/-! ### Readings that do not tell two values apart -/

namespace Reading

variable {loc : Location} {slot : Slot} {v w : Value} {es fs : Entries}

/-- Two values read as the same thing, or refused for the same flaw, wherever they stand. -/
def Same : Slot → Value → Value → Prop
  | .item, v, w => ∀ loc, item loc v = item loc w
  | .members, v, w => ∀ loc inType, membersOf loc inType v = membersOf loc inType w
  | .constructor, v, w => ∀ loc, constructor loc v = constructor loc w
  | .params, v, w => ∀ loc, params loc v = params loc w
  | .param, v, w => ∀ loc, (mapping loc v >>= param loc) = (mapping loc w >>= param loc)
  | .returns, v, w => ∀ loc, returns loc v = returns loc w
  | .docs, v, w => ∀ loc, docs loc v = docs loc w

theorem Same.refl (slot : Slot) (v : Value) : Same slot v v := by
  cases slot <;> exact fun _ => by intros; rfl

/-- Two mappings in which a reader that looks for fixed keys finds values that it does not tell apart. -/
structure Alike (slot : Slot) (es fs : Entries) : Prop where
  parts : ∀ key below, (key, below) ∈ slot.fields → Same below (es.field key) (fs.field key)
  others : ∀ key ∉ slot.fields.map Prod.fst, es.field key = fs.field key
  kind : es.field? "kind" = fs.field? "kind"
  ownType : slot = .item → es.field "kind" = .text "type" → ownTypeText es = ownTypeText fs

/-! ### Mappings with keys of their own -/

theorem docs_same (h : Alike .docs es fs) : Same .docs (.map es) (.map fs) := by
  intro loc
  rw [docs, docs, h.others "summary" (by decide), h.others "details" (by decide)]

theorem returns_map (es : Entries) : returns loc (.map es) = (do
    let t ← ty (loc.field "type") (es.field "type")
    let d ← docs (loc.field "docs") (es.field "docs")
    .ok ⟨t, d⟩) := by
  cases es with
  | nil => rfl
  | cons e es => rfl

theorem returns_same (h : Alike .returns es fs) : Same .returns (.map es) (.map fs) := by
  have hd := h.parts "docs" .docs (by decide)
  intro loc
  rw [returns_map, returns_map, h.others "type" (by decide), hd]

theorem param_same (h : Alike .param es fs) : Same .param (.map es) (.map fs) := by
  have hd := h.parts "docs" .docs (by decide)
  intro loc
  show param loc es = param loc fs
  rw [param, param, h.others "name" (by decide), h.kind, h.others "type" (by decide), hd,
    h.others "default" (by decide)]

theorem function_same (hp : Same .params (es.field "params") (fs.field "params"))
    (hr : Same .returns (es.field "returns") (fs.field "returns"))
    (hd : Same .docs (es.field "docs") (fs.field "docs")) (loc : Location) :
    function loc es = function loc fs := by
  rw [function, function, hp, hr, hd]

theorem constructor_same (h : Alike .constructor es fs) : Same .constructor (.map es) (.map fs) := by
  have hfunction := function_same (h.parts "params" .params (by decide))
    (h.parts "returns" .returns (by decide)) (h.parts "docs" .docs (by decide))
  intro loc
  rw [constructor, constructor, hfunction]

theorem item_same (h : Alike .item es fs) : Same .item (.map es) (.map fs) := by
  have hms := h.parts "members" .members (by decide)
  have hc := h.parts "constructor" .constructor (by decide)
  have hd := h.parts "docs" .docs (by decide)
  have hfunction := function_same (h.parts "params" .params (by decide))
    (h.parts "returns" .returns (by decide)) hd
  have hkind := h.others "kind" (by decide)
  intro loc
  unfold item
  simp only [membersIn_eq]
  rw [← hkind]
  cases hk : itemKind loc (es.field "kind") with
  | error e => rfl
  | ok k =>
    cases k with
    | module =>
      show (membersOf _ _ _ >>= _) = _
      rw [hms, hd]
      rfl
    | type =>
      have hown := h.ownType rfl (itemKind_eq_ok.mp hk)
      show (membersOf _ _ _ >>= _) = _
      rw [hms, hc, ownTy, hown, hd]
      rfl
    | function =>
      show (function _ _ >>= _) = _
      rw [hfunction]
      rfl
    | property =>
      show (property _ _ >>= _) = _
      rw [property, h.others "type" (by decide), hd]
      rfl

/-- A reader of fixed keys does not tell two mappings apart in which it finds the same. -/
theorem Alike.same (h : Alike slot es fs) (hrecord : slot.isRecord = true) :
    Same slot (.map es) (.map fs) := by
  cases slot with
  | item => exact item_same h
  | constructor => exact constructor_same h
  | param => exact param_same h
  | returns => exact returns_same h
  | docs => exact docs_same h
  | members => cases hrecord
  | params => cases hrecord

/-! ### One key less -/

theorem alike_without {key : Str} (optional : key ∈ optionalKeys) (null : es.field? key = some .null)
    (unnamed : slot = .item → key = "ty" → es.field "kind" = .text "type" → es.field "name" = .null) :
    Alike slot es (es.without key) := by
  have hfield := fun other => (Entries.field_without null other).symm
  refine ⟨fun other below _ => ?_, fun other _ => hfield other, ?_, fun hslot hkind => ?_⟩
  · rw [← hfield other]
    exact Same.refl below _
  · -- a null kind of a parameter is refused, so `kind` may not be left out
    refine (Entries.field?_without_of_ne ?_).symm
    rintro rfl
    exact absurd optional (by decide)
  · rw [ownTypeText_eq, ownTypeText_eq, Schema.ownType, Schema.ownType, ← hfield "name"]
    by_cases hkey : key = "ty"
    · subst hkey
      rw [null, Entries.field?_without_self, unnamed hslot rfl hkind]
      rfl
    · rw [Entries.field?_without_of_ne (Ne.symm hkey)]

/-- The parts of an item are not found under the keys that say what it is. -/
theorem ne_of_mem_fields {key : Str} (h : key ∈ slot.fields.map Prod.fst) :
    "kind" ≠ key ∧ "ty" ≠ key ∧ "name" ≠ key := by
  cases slot <;> revert key <;> decide

theorem isRecord_of_mem_fields {part : Str × Slot} (h : part ∈ slot.fields) : slot.isRecord = true := by
  have hne : slot.fields ≠ [] := List.ne_nil_of_mem h
  revert hne
  cases slot <;> decide

theorem eq_of_mem_fields {key : Str} {below other : Slot} (h : (key, below) ∈ slot.fields)
    (h' : (key, other) ∈ slot.fields) : below = other := by
  have hkeys : (slot.fields.map Prod.fst).Nodup := by cases slot <;> decide
  exact (Prod.mk.inj (List.inj_on_of_nodup_map hkeys h h' rfl)).2

theorem alike_replace {before after : Entries} {key : Str} {below : Slot}
    (hkey : (key, below) ∈ slot.fields) (h : Same below v w) :
    Alike slot (before ++ (.text key, v) :: after) (before ++ (.text key, w) :: after) := by
  have hmem : key ∈ slot.fields.map Prod.fst := List.mem_map_of_mem hkey
  obtain ⟨hkind, hty, hname⟩ := ne_of_mem_fields hmem
  have hother : ∀ other, other ≠ key →
      Entries.field (before ++ (.text key, v) :: after) other =
        Entries.field (before ++ (.text key, w) :: after) other := by
    intro other hne
    rw [Entries.field, Entries.field, Entries.field?_replace_of_ne hne]
  refine ⟨fun other slot' hslot' => ?_, fun other hnot => hother other ?_,
    Entries.field?_replace_of_ne hkind, fun _ _ => ?_⟩
  · by_cases hsame : other = key
    · subst hsame
      obtain rfl := eq_of_mem_fields hkey hslot'
      exact Entries.field_replace (Same.refl below) h other
    · rw [hother other hsame]
      exact Same.refl slot' _
  · rintro rfl
    exact hnot hmem
  · rw [ownTypeText_eq, ownTypeText_eq, Schema.ownType, Schema.ownType, hother "name" hname,
      Entries.field?_replace_of_ne hty]

theorem members_replace {before after : Entries} {k : Scalar} {inType : Bool} (h : Same .item v w) :
    members loc inType (before ++ (k, v) :: after) = members loc inType (before ++ (k, w) :: after) := by
  induction before with
  | nil => rw [List.nil_append, List.nil_append, members, members, h]
  | cons e before ih =>
    obtain ⟨l, u⟩ := e
    rw [List.cons_append, List.cons_append, members, members, ih]

theorem paramsFrom_replace {before after : List Value} {i : Nat} (h : Same .param v w) :
    paramsFrom loc i (before ++ v :: after) = paramsFrom loc i (before ++ w :: after) := by
  have hcons : ∀ (i : Nat) (u : Value) (vs : List Value), paramsFrom loc i (u :: vs) = (do
      let p ← mapping (loc.nth i) u >>= param (loc.nth i)
      let ps ← paramsFrom loc (i + 1) vs
      .ok (p :: ps)) := by
    intro i u vs
    rw [paramsFrom]
    cases mapping (loc.nth i) u <;> rfl
  induction before generalizing i with
  | nil => rw [List.nil_append, List.nil_append, hcons, hcons, h]
  | cons u before ih => rw [List.cons_append, List.cons_append, hcons, hcons, ih]

theorem params_replace {before after : List Value} (h : Same .param v w) :
    Same .params (.list (before ++ v :: after)) (.list (before ++ w :: after)) := by
  intro loc
  have hvacant : ∀ u, (Value.list (before ++ u :: after)).isVacant = false := by
    intro u
    cases before <;> rfl
  rw [params, params, hvacant, hvacant, paramsFrom_replace h]

/-- A key whose value is null may be taken out, by induction on the way down to it: the mappings on the way
differ in a part that is read alike. -/
theorem same_of_drops (h : Value.Drops slot v w) : Same slot v w := by
  induction h with
  | key record optional null unnamed => exact (alike_without optional null unnamed).same record
  | part field _ ih => exact (alike_replace field ih).same (isRecord_of_mem_fields field)
  | member _ ih =>
    intro loc inType
    rw [membersOf, membersOf]
    exact members_replace ih
  | param _ ih => exact params_replace ih

theorem item_eq_of_drops (h : Relation.ReflTransGen (Value.Drops .item) v w) (loc : Location) :
    item loc v = item loc w := by
  induction h with
  | refl => rfl
  | tail _ step ih => exact ih.trans (same_of_drops step loc)

end Reading

/-- **A key whose value is null may be left out**: however many of them are taken out of a document, in
whatever mappings that are read, the document gives the same item, or is refused at the same place for the
same flaw. What is excepted is the type text of a type that has a name: while it is there and null the
document does not say which type it is, and without it the name does. -/
theorem readItem_of_drops {es fs : Entries}
    (h : Relation.ReflTransGen (Value.Drops .item) (.map es) (.map fs)) (loc : Location) :
    readItem loc es = readItem loc fs ∧ ∀ sub : Entries, sub.field? "ty" = some .null →
      Schema.ownType sub = .null ∧ Schema.ownType (sub.without "ty") = sub.field "name" := by
  refine ⟨Reading.item_eq_of_drops h loc, fun sub hnull => ?_⟩
  rw [Schema.ownType, Schema.ownType, hnull, Entries.field?_without_self, Entries.field_without hnull]
  exact ⟨rfl, rfl⟩

namespace NullDocument

/-- What stands in a type before its constructor, and behind it. -/
def before : Entries := [(.text "kind", .text "type")]

def after : Entries := [(.text "ty", .null), (.text "members", .null)]

/-- A type of which much is said to be null. -/
def doc : Entries :=
  before ++ (.text "constructor", .map [(.text "returns", .map [(.text "type", .null)])]) :: after

/-- What its constructor gives back is left out. -/
def inner : Entries := before ++ (.text "constructor", .map [(.text "returns", .map [])]) :: after

/-- The same with all nulls left out. -/
def bare : Entries :=
  [(.text "kind", .text "type"), (.text "constructor", .map [(.text "returns", .map [])])]

theorem drops_inner : Value.Drops .item (.map doc) (.map inner) := by
  have hreturns : Value.Drops .returns (.map [(.text "type", .null)])
      (.map (Entries.without [(.text "type", .null)] "type")) := .key rfl (by decide) rfl nofun
  have hconstructor : Value.Drops .constructor
      (.map ([] ++ (.text "returns", .map [(.text "type", .null)]) :: []))
      (.map ([] ++ (.text "returns", .map []) :: [])) := .part (by decide) hreturns
  exact .part (by decide) hconstructor

theorem drops_bare : Relation.ReflTransGen (Value.Drops .item) (.map inner) (.map bare) := by
  have hty : Value.Drops .item (.map inner) (.map (inner.without "ty")) :=
    .key rfl (by decide) rfl fun _ _ _ => rfl
  have hmembers : Value.Drops .item (.map (inner.without "ty"))
      (.map ((inner.without "ty").without "members")) := .key rfl (by decide) rfl nofun
  exact .head hty (.head hmembers .refl)

end NullDocument

open NullDocument in
/-- Three keys less, one of them deep in the document. -/
theorem readItem_of_drops_bare : Relation.ReflTransGen (Value.Drops .item) (.map doc) (.map bare) ∧
    readItem {} doc = readItem {} bare :=
  have hdrops := .head drops_inner drops_bare
  ⟨hdrops, (readItem_of_drops hdrops {}).1⟩

namespace NullTypeText

/-- A named type whose type text is null. -/
def doc : Entries :=
  [(.text "kind", .text "type"), (.text "name", .text "Box"), (.text "ty", .null)]

def item (t : Ty) : Item := .type none none [] t

end NullTypeText

open NullTypeText in
/-- A null that does not count as absent: without it, the type is the one of its name. -/
theorem readItem_ne_nullTypeText : .whole "ty" ∈ optionalKeys ∧ doc.field? "ty" = some .null ∧
    readItem {} doc = .ok (item Ty.any) ∧ readItem {} (doc.without "ty") = .ok (item (Ty.named "Box")) ∧
    item Ty.any ≠ item (Ty.named "Box") := by
  have hread : Ty.read "Box" = .ok (Ty.named "Box") := by decide +kernel
  have hown : Reading.ownTy {} (doc.without "ty") = .ok (Ty.named "Box") := by
    show Reading.ty _ (.text "Box") = _
    rw [Reading.ty, hread]
  refine ⟨by decide, rfl, rfl, ?_, by simp [item, Ty.any, Ty.named]⟩
  exact (Reading.item_type_eq_ok rfl).mpr ⟨[], none, _, none, rfl, rfl, hown, rfl, rfl⟩

end ApiPage
