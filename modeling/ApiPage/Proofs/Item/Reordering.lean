import ApiPage.Proofs.Item.Reading

/-!
# Documents whose keys are in another order

`Value.Reordered` relates data to the same data with the keys of any mappings, at any depth, put in
another order; lists keep their order, and the default values of parameters are kept as they are. What
is read from such data is the same item but for the order of the members at each level, and it is read
from the one if and only if it is read from the other.
-/

namespace ApiPage

/-! ### Where data stand in a document -/

/-- What data of a document describe. -/
inductive Role
  | item
  | members
  /-- The constructor of a type, a function whatever kind it says it is. -/
  | constructor
  | params
  | param
  /-- The default value of a parameter. -/
  | default
  | other
  deriving DecidableEq, Repr

/-- The text that a value is, if it is one. -/
def Value.text? : Value → Option Str
  | .scalar (.text s) => some s
  | _ => none

/-- The text by which a mapping says its kind, if it does so. -/
def Entries.kindText? (es : Entries) : Option Str :=
  (es.field "kind").text?

namespace Role

/-- What the value under a key describes, in a mapping that says its kind. -/
def under (role : Role) (kind : Option Str) (key : Scalar) : Role :=
  match role with
  | .item =>
    if key = .text "members" ∧ (kind = some (.whole "module") ∨ kind = some (.whole "type")) then .members
    else if key = .text "constructor" ∧ kind = some (.whole "type") then .constructor
    else if key = .text "params" ∧ kind = some (.whole "function") then .params
    else .other
  | .members => .item
  | .constructor => if key = .text "params" then .params else .other
  | .param => if key = .text "default" then .default else .other
  | _ => .other

/-- What the elements of a list describe. -/
def element : Role → Role
  | .params => .param
  | _ => .other

end Role

/-- The same data but for the order of keys. -/
inductive Value.Reordered : Role → Value → Value → Prop
  | scalar (role : Role) (s : Scalar) : Reordered role (.scalar s) (.scalar s)
  | foreign (role : Role) (f : Foreign) : Reordered role (.foreign f) (.foreign f)
  | kept (v : Value) : Reordered .default v v
  | list {role : Role} {vs ws : List Value} (free : role ≠ .default) (length : vs.length = ws.length)
      (elements : ∀ (i : Nat) v w, vs[i]? = some v → ws[i]? = some w →
        Reordered role.element v w) :
      Reordered role (.list vs) (.list ws)
  | map {role : Role} {es fs : Entries} (free : role ≠ .default)
      (keys : (es.map Prod.fst).Perm (fs.map Prod.fst))
      (values : ∀ e ∈ es, ∀ f ∈ fs, e.1 = f.1 →
        Reordered (role.under es.kindText? e.1) e.2 f.2) : Reordered role (.map es) (.map fs)

/-- The same item but for the order of members at each level. -/
inductive Item.Reordered : Item → Item → Prop
  | module {d : Option Docs} {ms ns : List (Scalar × Item)}
      (keys : (ms.map Prod.fst).Perm (ns.map Prod.fst))
      (members : ∀ m ∈ ms, ∀ n ∈ ns, m.1 = n.1 → Reordered m.2 n.2) :
      Reordered (.module d ms) (.module d ns)
  | type {d : Option Docs} {c : Option Function} {ms ns : List (Scalar × Item)} {t : Ty}
      (keys : (ms.map Prod.fst).Perm (ns.map Prod.fst))
      (members : ∀ m ∈ ms, ∀ n ∈ ns, m.1 = n.1 → Reordered m.2 n.2) :
      Reordered (.type d c ms t) (.type d c ns t)
  | function (f : Function) : Reordered (.function f) (.function f)
  | property (p : Property) : Reordered (.property p) (.property p)

/-! ### Looking up keys -/

/-- A key equals a text only if it is that text. -/
theorem Scalar.sameKey_text_iff {k : Scalar} {key : Str} :
    k.sameKey (.text key) = true ↔ k = .text key := by
  cases k <;> simp [Scalar.sameKey, Scalar.toInt?]

/-- What is found under a text is listed under that text. -/
theorem mem_of_find?_text {α : Type} {es : List (Scalar × α)} {key : Str} {a : α}
    (h : (es.find? fun e => e.1.sameKey (.text key)).map (·.2) = some a) : (.text key, a) ∈ es := by
  obtain ⟨⟨k, a'⟩, hfind, rfl⟩ := Option.map_eq_some_iff.mp h
  have hk : k.sameKey (.text key) = true := by simpa using List.find?_some hfind
  rw [← Scalar.sameKey_text_iff.mp hk]
  exact List.mem_of_find?_eq_some hfind

namespace Entries

variable {es fs : Entries} {key : Str} {P : Value → Value → Prop}

theorem mem_of_field? {v : Value} (h : es.field? key = some v) : (.text key, v) ∈ es :=
  mem_of_find?_text h

theorem field_of_some {v : Value} (h : es.field? key = some v) : es.field key = v := by
  rw [field, h, Option.getD_some]

theorem field_of_none (h : es.field? key = none) : es.field key = .null := by
  rw [field, h, Option.getD_none]

theorem field?_eq_none : es.field? key = none ↔ .text key ∉ es.map Prod.fst := by
  simp only [field?, Option.map_eq_none_iff, List.find?_eq_none, Scalar.sameKey_text_iff, List.mem_map,
    not_exists, not_and]

/-- Where two mappings have the same keys, and what they have under one key is related, they answer a
lookup alike. -/
theorem rel_field? (keys : (es.map Prod.fst).Perm (fs.map Prod.fst))
    (h : ∀ v w, (.text key, v) ∈ es → (.text key, w) ∈ fs → P v w) :
    Option.Rel P (es.field? key) (fs.field? key) := by
  have hsame : es.field? key = none ↔ fs.field? key = none := by
    rw [field?_eq_none, field?_eq_none, keys.mem_iff]
  cases hes : es.field? key with
  | none =>
    rw [hsame.mp hes]
    exact .none
  | some v =>
    cases hfs : fs.field? key with
    | none => exact absurd (hsame.mpr hfs) (by simp [hes])
    | some w => exact .some (h v w (mem_of_field? hes) (mem_of_field? hfs))

theorem rel_field (keys : (es.map Prod.fst).Perm (fs.map Prod.fst))
    (h : ∀ v w, (.text key, v) ∈ es → (.text key, w) ∈ fs → P v w) (hnull : P .null .null) :
    P (es.field key) (fs.field key) := by
  have hrel := rel_field? keys h
  unfold field
  generalize es.field? key = o at hrel
  generalize fs.field? key = o' at hrel
  cases hrel with
  | some hvw => exact hvw
  | none => exact hnull

end Entries

theorem isEmpty_eq_of_length_eq {α β : Type} {as : List α} {bs : List β}
    (h : as.length = bs.length) : as.isEmpty = bs.isEmpty := by
  cases as <;> cases bs <;> simp_all

namespace Value.Reordered

variable {role : Role} {v w : Value} {es fs : Entries}

/-- Reordered data are the same, or both a list, or both a mapping. -/
theorem cases_shape (h : Reordered role v w) :
    v = w ∨ (∃ vs ws, v = .list vs ∧ w = .list ws ∧ vs.length = ws.length) ∨
      ∃ es fs, v = .map es ∧ w = .map fs ∧ es.length = fs.length := by
  cases h with
  | scalar => exact .inl rfl
  | foreign => exact .inl rfl
  | kept => exact .inl rfl
  | list _ length _ => exact .inr (.inl ⟨_, _, rfl, rfl, length⟩)
  | map _ keys _ => exact .inr (.inr ⟨_, _, rfl, rfl, by simpa using keys.length_eq⟩)

theorem eq_of_scalar {s : Scalar} (h : Reordered role (.scalar s) w) : .scalar s = w := by
  cases h with
  | scalar => rfl
  | kept => rfl

/-- What looks into no list and no mapping sees the same in reordered data. -/
theorem congr_scalar {α : Type} (f : Value → α) (hlist : ∀ vs ws, f (.list vs) = f (.list ws))
    (hmap : ∀ es fs, f (.map es) = f (.map fs)) (h : Reordered role v w) : f v = f w := by
  rcases h.cases_shape with rfl | ⟨vs, ws, rfl, rfl, -⟩ | ⟨es, fs, rfl, rfl, -⟩
  · rfl
  · exact hlist vs ws
  · exact hmap es fs

theorem text?_eq (h : Reordered role v w) : v.text? = w.text? :=
  h.congr_scalar Value.text? (fun _ _ => rfl) fun _ _ => rfl

theorem isVacant_eq (h : Reordered role v w) : v.isVacant = w.isVacant := by
  rcases h.cases_shape with rfl | ⟨vs, ws, rfl, rfl, hlen⟩ | ⟨es, fs, rfl, rfl, hlen⟩
  · rfl
  · exact isEmpty_eq_of_length_eq hlen
  · exact isEmpty_eq_of_length_eq hlen

theorem eq_of_default (h : Reordered .default v w) : v = w := by
  cases h with
  | scalar => rfl
  | foreign => rfl
  | kept => rfl
  | list free => exact absurd rfl free
  | map free => exact absurd rfl free

/-! ### The values of reordered mappings -/

theorem kindText?_eq (h : Reordered role (.map es) (.map fs)) : es.kindText? = fs.kindText? := by
  cases h with
  | kept => rfl
  | map _ keys values =>
    exact Entries.rel_field (P := fun v w => v.text? = w.text?) keys
      (fun v w hv hw => (values _ hv _ hw rfl).text?_eq) rfl

theorem rel_field? (h : Reordered role (.map es) (.map fs)) (free : role ≠ .default) (key : Str) :
    Option.Rel (Reordered (role.under es.kindText? (.text key))) (es.field? key) (fs.field? key) := by
  cases h with
  | kept => exact absurd rfl free
  | map _ keys values => exact Entries.rel_field? keys fun v w hv hw => values _ hv _ hw rfl

theorem field (h : Reordered role (.map es) (.map fs)) (free : role ≠ .default) (key : Str) :
    Reordered (role.under es.kindText? (.text key)) (es.field key) (fs.field key) := by
  cases h with
  | kept => exact absurd rfl free
  | map _ keys values =>
    exact Entries.rel_field keys (fun v w hv hw => values _ hv _ hw rfl) (.scalar _ _)

theorem symm (h : Reordered role v w) : Reordered role w v := by
  induction h with
  | scalar role s => exact .scalar role s
  | foreign role f => exact .foreign role f
  | kept v => exact .kept v
  | list free length _ ih => exact .list free length.symm fun i w v hw hv => ih i v w hv hw
  | @map role es fs free keys values ih =>
    have hkind := (Reordered.map free keys values).kindText?_eq
    refine .map free keys.symm fun f hf e he hfe => ?_
    rw [← hkind, hfe]
    exact ih e he f hf hfe.symm

end Value.Reordered

namespace Reading

variable {loc : Location} {role : Role} {v w : Value} {es fs : Entries}

/-! ### Leaves -/

theorem summary_reordered (h : Value.Reordered role v w) : summary loc v = summary loc w :=
  h.congr_scalar (summary loc) (fun _ _ => rfl) fun _ _ => rfl

theorem details_reordered (h : Value.Reordered role v w) : details loc v = details loc w :=
  h.congr_scalar (details loc) (fun _ _ => rfl) fun _ _ => rfl

theorem ty_reordered (h : Value.Reordered role v w) : ty loc v = ty loc w :=
  h.congr_scalar (ty loc) (fun _ _ => rfl) fun _ _ => rfl

theorem name_reordered (h : Value.Reordered role v w) : name loc v = name loc w :=
  h.congr_scalar (name loc) (fun _ _ => rfl) fun _ _ => rfl

theorem docs_reordered (h : Value.Reordered role v w) : docs loc v = docs loc w := by
  cases h with
  | scalar => rfl
  | foreign => rfl
  | kept => rfl
  | list => rfl
  | map free keys values =>
    have hmap := Value.Reordered.map free keys values
    rw [docs, docs, summary_reordered (hmap.field free "summary"),
      details_reordered (hmap.field free "details")]

/-- A refusal of a kind shows what was found there, so only what is accepted is the same. -/
theorem paramKind_reordered {o o' : Option Value} {k : ParamKind}
    (h : Option.Rel (Value.Reordered role) o o') (hk : paramKind loc o = .ok k) :
    paramKind loc o' = .ok k := by
  cases h with
  | none => exact hk
  | some h =>
    rcases h.cases_shape with rfl | ⟨vs, ws, rfl, rfl, -⟩ | ⟨es, fs, rfl, rfl, -⟩
    · exact hk
    · exact absurd hk (by simp [paramKind])
    · exact absurd hk (by simp [paramKind])

/-! ### Parameters, functions and properties -/

theorem param_reordered {p : Param} (h : Value.Reordered .param (.map es) (.map fs))
    (hp : param loc es = .ok p) : param loc fs = .ok p := by
  have hfield := h.field (by decide)
  have hdefault : es.field "default" = fs.field "default" := (hfield "default").eq_of_default
  unfold param at hp ⊢
  obtain ⟨n, hn, hp⟩ := bind_eq_ok.mp hp
  obtain ⟨k, hk, hp⟩ := bind_eq_ok.mp hp
  rw [← name_reordered (hfield "name"), ← ty_reordered (hfield "type"),
    ← docs_reordered (hfield "docs"), ← hdefault]
  exact bind_eq_ok.mpr ⟨n, hn, bind_eq_ok.mpr
    ⟨k, paramKind_reordered (h.rel_field? (by decide) "kind") hk, hp⟩⟩

theorem paramsFrom_reordered {vs ws : List Value} {i : Nat} {ps : List Param}
    (h : List.Forall₂ (Value.Reordered .param) vs ws) (hps : paramsFrom loc i vs = .ok ps) :
    paramsFrom loc i ws = .ok ps := by
  induction h generalizing i ps with
  | nil => exact hps
  | @cons v w vs ws hfirst _ ih =>
    unfold paramsFrom at hps ⊢
    obtain ⟨es, hm, hps⟩ := bind_eq_ok.mp hps
    obtain ⟨p, hp, hps⟩ := bind_eq_ok.mp hps
    obtain ⟨qs, hqs, hps⟩ := bind_eq_ok.mp hps
    obtain rfl := Except.ok.inj hps
    rcases hfirst.cases_shape with rfl | ⟨us, us', rfl, rfl, -⟩ | ⟨es', fs, rfl, rfl, -⟩
    · exact bind_eq_ok.mpr ⟨es, hm, bind_eq_ok.mpr ⟨p, hp, bind_eq_ok.mpr ⟨qs, ih hqs, rfl⟩⟩⟩
    · exact absurd hm (by simp [mapping])
    · obtain rfl := Except.ok.inj hm
      exact bind_eq_ok.mpr ⟨fs, rfl, bind_eq_ok.mpr ⟨p, param_reordered hfirst hp,
        bind_eq_ok.mpr ⟨qs, ih hqs, rfl⟩⟩⟩

theorem params_reordered {ps : List Param} (h : Value.Reordered .params v w)
    (hps : params loc v = .ok ps) : params loc w = .ok ps := by
  unfold params at hps ⊢
  rw [← h.isVacant_eq]
  split
  · next hv => rwa [if_pos hv] at hps
  · next hv =>
    rw [if_neg hv] at hps
    cases h with
    | scalar => exact hps
    | foreign => exact hps
    | map => exact absurd hps (by simp [refuse])
    | @list _ vs ws _ length elements =>
      obtain ⟨qs, hqs, hps⟩ := bind_eq_ok.mp hps
      have hall : List.Forall₂ (Value.Reordered .param) vs ws := by
        refine List.forall₂_iff_get.mpr ⟨length, fun i hi hj => ?_⟩
        exact elements i _ _ (List.getElem?_eq_getElem hi) (List.getElem?_eq_getElem hj)
      exact bind_eq_ok.mpr ⟨qs, paramsFrom_reordered hall hqs, hps⟩

theorem property_reordered (h : Value.Reordered role (.map es) (.map fs)) (free : role ≠ .default) :
    property loc es = property loc fs := by
  rw [property, property, ty_reordered (h.field free "type"), docs_reordered (h.field free "docs")]

theorem returns_reordered (h : Value.Reordered role v w) : returns loc v = returns loc w := by
  unfold returns
  rw [h.isVacant_eq]
  cases h with
  | scalar => rfl
  | foreign => rfl
  | kept => rfl
  | list => rfl
  | map free keys values =>
    have hmap := Value.Reordered.map free keys values
    split
    · rfl
    · simp only [mapping, bind, Except.bind, ty_reordered (hmap.field free "type"),
        docs_reordered (hmap.field free "docs")]

/-- A function is read alike wherever its parameters are at the place of parameters. -/
theorem function_reordered {f : Function} (h : Value.Reordered role (.map es) (.map fs))
    (free : role ≠ .default) (hparams : role.under es.kindText? (.text "params") = .params)
    (hf : function loc es = .ok f) : function loc fs = .ok f := by
  have hps := h.field free "params"
  rw [hparams] at hps
  unfold function at hf ⊢
  obtain ⟨ps, hp, hf⟩ := bind_eq_ok.mp hf
  rw [← returns_reordered (h.field free "returns"), ← docs_reordered (h.field free "docs")]
  exact bind_eq_ok.mpr ⟨ps, params_reordered hps hp, hf⟩

theorem constructor_reordered {c : Option Function} (h : Value.Reordered .constructor v w)
    (hc : constructor loc v = .ok c) : constructor loc w = .ok c := by
  cases h with
  | scalar => exact hc
  | foreign => exact hc
  | list => exact absurd hc (by simp [constructor])
  | map free keys values =>
    have hmap := Value.Reordered.map free keys values
    obtain ⟨f, hf, hc⟩ := bind_eq_ok.mp hc
    exact bind_eq_ok.mpr ⟨f, function_reordered hmap free rfl hf, hc⟩

theorem ownTy_reordered (h : Value.Reordered role (.map es) (.map fs)) (free : role ≠ .default) :
    ownTy loc es = ownTy loc fs := by
  have htext : ∃ role', Value.Reordered role' (ownTypeText es) (ownTypeText fs) := by
    have hty := h.rel_field? free "ty"
    unfold ownTypeText
    generalize es.field? "ty" = o at hty
    generalize fs.field? "ty" = o' at hty
    cases hty with
    | some hvw => exact ⟨_, hvw⟩
    | none => exact ⟨_, h.field free "name"⟩
  obtain ⟨role', htext⟩ := htext
  unfold ownTy
  generalize ownTypeText es = v at htext
  generalize ownTypeText fs = w at htext
  rcases htext.cases_shape with rfl | ⟨vs, ws, rfl, rfl, -⟩ | ⟨es, fs, rfl, rfl, -⟩
  · rfl
  · rfl
  · rfl

/-! ### Items -/

/-- Members under the same keys, and under each key the same item but for the order of members. -/
def MembersReordered (ms ns : List (Scalar × Item)) : Prop :=
  (ms.map Prod.fst).Perm (ns.map Prod.fst) ∧ ∀ m ∈ ms, ∀ n ∈ ns, m.1 = n.1 → m.2.Reordered n.2

/-- What is read from the second value if something is read from the first. -/
def ItemsAgree (v w : Value) : Prop :=
  ∀ (loc : Location) (i : Item), item loc v = .ok i → ∃ j, item loc w = .ok j ∧ i.Reordered j

def MembersAgree (v w : Value) : Prop :=
  ∀ (loc : Location) (inType : Bool) (ms : List (Scalar × Item)), membersOf loc inType v = .ok ms →
    ∃ ns, membersOf loc inType w = .ok ns ∧ MembersReordered ms ns

theorem fitsTypes_eq {i j : Item} (h : i.Reordered j) : fitsTypes i = fitsTypes j := by
  cases h with
  | module => rfl
  | type => rfl
  | function => rfl
  | property => rfl

theorem membersAgree_of_not_map (hv : ∀ es, v ≠ .map es) (hw : ∀ es, w ≠ .map es)
    (hvacant : v.isVacant = w.isVacant) : MembersAgree v w := by
  intro loc inType ms hms
  have hsame : membersOf loc inType w = membersOf loc inType v := by
    rw [membersOf_eq hv, membersOf_eq hw, hvacant]
  have hnil : ms = [] := by
    rw [membersOf_eq hv] at hms
    split at hms
    · exact (Except.ok.inj hms).symm
    · simp [refuse] at hms
  refine ⟨ms, hsame.trans hms, .refl _, ?_⟩
  simp [hnil]

theorem membersAgree_map (keys : (es.map Prod.fst).Perm (fs.map Prod.fst))
    (h : ∀ e ∈ es, ∀ f ∈ fs, e.1 = f.1 → ItemsAgree e.2 f.2) :
    MembersAgree (.map es) (.map fs) := by
  intro loc inType ms hms
  rw [membersOf] at hms
  have hread := members_eq_ok.mp hms
  have hfound : ∀ f ∈ fs, ∃ n, EntryRead loc inType f n := by
    intro f hf
    have hkey : f.1 ∈ es.map Prod.fst := keys.mem_iff.mpr (List.mem_map_of_mem hf)
    obtain ⟨e, he, hef⟩ := List.mem_map.mp hkey
    obtain ⟨m, -, -, ⟨hkey, hm⟩, hfits⟩ := (exists_of_forall₂ hread).1 e he
    obtain ⟨j, hj, hij⟩ := h e he f hf hef _ _ hm
    rw [hef] at hj hkey
    exact ⟨(f.1, j), rfl, ⟨hkey, hj⟩, fun ht => by rw [← fitsTypes_eq hij]; exact hfits ht⟩
  obtain ⟨ns, hns⟩ := exists_forall₂ hfound
  refine ⟨ns, ?_, ?_, ?_⟩
  · rw [membersOf]
    exact members_eq_ok.mpr hns
  · rw [keys_of_entryRead hread, keys_of_entryRead hns]
    exact keys
  · intro m hm n hn hmn
    obtain ⟨e, he, hme, ⟨-, hi⟩, -⟩ := (exists_of_forall₂ hread).2 m hm
    obtain ⟨f, hf, hnf, ⟨-, hj⟩, -⟩ := (exists_of_forall₂ hns).2 n hn
    have hef : e.1 = f.1 := by rw [← hme, hmn, hnf]
    obtain ⟨j, hj', hij⟩ := h e he f hf hef _ _ hi
    rw [hef, hj] at hj'
    rw [Except.ok.inj hj']
    exact hij

theorem itemsAgree_map (h : Value.Reordered .item (.map es) (.map fs))
    (hmembers : Role.item.under es.kindText? (.text "members") = .members →
      MembersAgree (es.field "members") (fs.field "members")) : ItemsAgree (.map es) (.map fs) := by
  intro loc i hi
  have hfield := h.field (by decide)
  have hkind : es.field "kind" = .text (kindOf i).word := kind_of_item hi
  have hkind' : fs.field "kind" = .text (kindOf i).word := by
    have hk := hfield "kind"
    rw [hkind] at hk
    exact hk.eq_of_scalar.symm
  have htext : es.kindText? = some (kindOf i).word := by
    rw [Entries.kindText?, hkind]
    rfl
  rw [htext] at hmembers hfield
  cases hi' : kindOf i with
  | module =>
    rw [hi'] at hkind hkind' hmembers
    obtain ⟨ms, d, hms, hd, rfl⟩ := (item_module_eq_ok hkind).mp hi
    obtain ⟨ns, hns, hkeys, hitems⟩ := hmembers rfl _ _ _ hms
    rw [docs_reordered (hfield "docs")] at hd
    exact ⟨_, (item_module_eq_ok hkind').mpr ⟨ns, d, hns, hd, rfl⟩, .module hkeys hitems⟩
  | type =>
    rw [hi'] at hkind hkind' hmembers hfield
    obtain ⟨ms, c, t, d, hms, hc, ht, hd, rfl⟩ := (item_type_eq_ok hkind).mp hi
    obtain ⟨ns, hns, hkeys, hitems⟩ := hmembers rfl _ _ _ hms
    have hc' := constructor_reordered (hfield "constructor") hc
    rw [ownTy_reordered h (by decide)] at ht
    rw [docs_reordered (hfield "docs")] at hd
    exact ⟨_, (item_type_eq_ok hkind').mpr ⟨ns, c, t, d, hns, hc', ht, hd, rfl⟩, .type hkeys hitems⟩
  | function =>
    rw [hi'] at hkind hkind' htext
    obtain ⟨f, hf, rfl⟩ := (item_function_eq_ok hkind).mp hi
    have hparams : Role.item.under es.kindText? (.text "params") = .params := by rw [htext]; rfl
    have hf' := function_reordered h (by decide) hparams hf
    exact ⟨_, (item_function_eq_ok hkind').mpr ⟨f, hf', rfl⟩, .function f⟩
  | property =>
    rw [hi'] at hkind hkind'
    obtain ⟨p, hp, rfl⟩ := (item_property_eq_ok hkind).mp hi
    rw [property_reordered h (by decide)] at hp
    exact ⟨_, (item_property_eq_ok hkind').mpr ⟨p, hp, rfl⟩, .property p⟩

/-- The items and the members that reordered values describe agree, by induction on the reordering:
the members of an item are reordered at the place of members, and each of them at that of an item. -/
theorem agree_of_reordered (h : Value.Reordered role v w) :
    (role = .item → ItemsAgree v w) ∧ (role = .members → MembersAgree v w) := by
  induction h with
  | scalar role s =>
    refine ⟨fun _ loc i hi => absurd hi (by simp [item]), fun _ => ?_⟩
    exact membersAgree_of_not_map (by simp) (by simp) rfl
  | foreign role f =>
    refine ⟨fun _ loc i hi => absurd hi (by simp [item]), fun _ => ?_⟩
    exact membersAgree_of_not_map (by simp) (by simp) rfl
  | kept v => exact ⟨by simp, by simp⟩
  | @list role vs ws free length elements ih =>
    refine ⟨fun _ loc i hi => absurd hi (by simp [item]), fun _ => ?_⟩
    have hvacant := (Value.Reordered.list free length elements).isVacant_eq
    exact membersAgree_of_not_map (by simp) (by simp) hvacant
  | @map role es fs free keys values ih =>
    have hmap := Value.Reordered.map free keys values
    constructor
    · rintro rfl
      refine itemsAgree_map hmap fun hrole => ?_
      refine Entries.rel_field keys (fun v w hv hw => (ih _ hv _ hw rfl).2 hrole) ?_
      exact membersAgree_of_not_map (by simp) (by simp) rfl
    · rintro rfl
      exact membersAgree_map keys fun e he f hf hef => (ih e he f hf hef).1 rfl

end Reading

end ApiPage
