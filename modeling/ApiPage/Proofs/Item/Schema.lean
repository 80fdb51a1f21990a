import ApiPage.Item.Reading
import ApiPage.Results
import Mathlib.Data.List.Nodup

/-!
# The schema of documents

`Schema.Item` says which mappings describe an item, without reading one: what each part may be, and
when it counts as absent. A part that is null or missing is absent wherever it may be; for members,
parameters and returns every vacant value is. `Schema.Shows` says which data of such a mapping the item holds
as text: the keys of members, and defaults. `Reading.item` gives an item for exactly the mappings of the schema
in which all of these can be written.
-/

namespace ApiPage

namespace Schema

def IsText (v : Value) : Prop :=
  ∃ s, v = .text s

/-- Null, or the text of a type. -/
def TypeText (v : Value) : Prop :=
  v = .null ∨ ∃ s t, v = .text s ∧ Ty.read s = .ok t

/-- Null, a summary, or a mapping with a summary and perhaps details. -/
inductive Docs : Value → Prop
  | absent : Docs .null
  | summary (s : Str) : Docs (.text s)
  | parts {es : Entries} (hs : IsText (es.field "summary"))
      (hd : es.field "details" = .null ∨ IsText (es.field "details")) : Docs (.map es)

/-- The value under the key of a parameter's kind, if there is one. -/
def ParamKind (o : Option Value) : Prop :=
  o = none ∨ ∃ s ∈ ["positional", "positional_or_keyword", "keyword", "args", "kwargs"],
    o = some (.text s)

structure Param (es : Entries) : Prop where
  name : ∃ s, es.field "name" = .text s ∧ s ≠ ""
  kind : ParamKind (es.field? "kind")
  type : TypeText (es.field "type")
  docs : Docs (es.field "docs")

/-- What a parameter is called. -/
def paramName : Value → Value
  | .map es => Entries.field es "name"
  | _ => .null

structure ParamList (vs : List Value) : Prop where
  each : ∀ v ∈ vs, ∃ es, v = .map es ∧ Param es
  distinct : (vs.map paramName).Nodup

def Params (v : Value) : Prop :=
  v.isVacant = true ∨ ∃ vs, v = .list vs ∧ ParamList vs

structure Property (es : Entries) : Prop where
  type : TypeText (es.field "type")
  docs : Docs (es.field "docs")

/-- What a function gives back is described as a property is. -/
def Returns (v : Value) : Prop :=
  v.isVacant = true ∨ ∃ es, v = .map es ∧ Property es

structure Function (es : Entries) : Prop where
  params : Params (es.field "params")
  returns : Returns (es.field "returns")
  docs : Docs (es.field "docs")

/-- A constructor is described as a function is, whatever kind it says it is. -/
def Constructor (v : Value) : Prop :=
  v = .null ∨ ∃ es, v = .map es ∧ Function es

/-- The members that an item lists; a vacant value lists none. -/
def Lists (v : Value) (ms : Entries) : Prop :=
  v.isVacant = true ∧ ms = [] ∨ v = .map ms

/-- What says which type a type is: its own type text, or else its name. -/
def ownType (es : Entries) : Value :=
  (es.field? "ty").getD (es.field "name")

/-- The kinds that a member of a type may have. -/
def TypeMemberKind (v : Value) : Prop :=
  v = .text "function" ∨ v = .text "property"

/-- The mappings that describe an item. -/
inductive Item : Entries → Prop
  | module {es ms : Entries} (hk : es.field "kind" = .text "module")
      (hm : Lists (es.field "members") ms) (hmap : ∀ m ∈ ms, ∃ sub : Entries, m.2 = .map sub)
      (hitem : ∀ m ∈ ms, ∀ sub : Entries, m.2 = .map sub → Item sub)
      (hd : Docs (es.field "docs")) : Item es
  | type {es ms : Entries} (hk : es.field "kind" = .text "type")
      (hm : Lists (es.field "members") ms) (hmap : ∀ m ∈ ms, ∃ sub : Entries, m.2 = .map sub)
      (hitem : ∀ m ∈ ms, ∀ sub : Entries, m.2 = .map sub → Item sub)
      (hkind : ∀ m ∈ ms, ∀ sub : Entries, m.2 = .map sub → TypeMemberKind (sub.field "kind"))
      (hc : Constructor (es.field "constructor")) (ht : TypeText (ownType es))
      (hd : Docs (es.field "docs")) : Item es
  | function {es : Entries} (hk : es.field "kind" = .text "function") (hf : Function es) : Item es
  | property {es : Entries} (hk : es.field "kind" = .text "property") (hp : Property es) : Item es

/-- An item of a kind that lists members. -/
def ListsMembers (es : Entries) : Prop :=
  es.field "kind" = .text "module" ∨ es.field "kind" = .text "type"

/-- A default of one of the parameters that a value lists. -/
def DefaultIn (v d : Value) : Prop :=
  ∃ ps es, v = .list ps ∧ .map es ∈ ps ∧ d = Entries.field es "default"

/-- A default of one of a constructor's parameters. -/
def ConstructorDefault (v d : Value) : Prop :=
  ∃ c, v = .map c ∧ DefaultIn (Entries.field c "params") d

/-- The data that the item of a mapping holds as text. -/
inductive Shows : Entries → Value → Prop
  | key {es ms : Entries} {m : Scalar × Value} (hk : ListsMembers es)
      (hm : es.field "members" = .map ms) (h : m ∈ ms) : Shows es (.scalar m.1)
  | member {es ms sub : Entries} {m : Scalar × Value} {d : Value} (hk : ListsMembers es)
      (hm : es.field "members" = .map ms) (h : m ∈ ms) (hsub : m.2 = .map sub) (hd : Shows sub d) :
      Shows es d
  | constructor {es : Entries} {d : Value} (hk : es.field "kind" = .text "type")
      (hd : ConstructorDefault (es.field "constructor") d) : Shows es d
  | function {es : Entries} {d : Value} (hk : es.field "kind" = .text "function")
      (hd : DefaultIn (es.field "params") d) : Shows es d

/-- Data that all has texts. -/
def AllWritable (shown : Value → Prop) : Prop :=
  ∀ d, shown d → d.writable = true

/-- Everything that the item of a mapping holds as text has one. -/
abbrev Written (es : Entries) : Prop :=
  AllWritable (Shows es)

end Schema

namespace Reading

variable {α β : Type} {loc : Location} {v : Value} {es : Entries}

/-- A reading that gives a thing. -/
def Accepts (r : Reading α) : Prop :=
  ∃ a, r = .ok a

/-! ### Acceptance step by step -/

@[simp] theorem accepts_ok (a : α) : Accepts (.ok a : Reading α) :=
  ⟨a, rfl⟩

@[simp] theorem not_accepts_refuse (flaw : Flaw) : ¬ Accepts (refuse loc flaw : Reading α) := by
  rintro ⟨a, h⟩
  exact absurd h (by simp [refuse])

theorem accepts_writing {r : Reading α} :
    Accepts (writing v r) ↔ v.writable = true ∧ Accepts r := by
  simp [Accepts]

theorem not_accepts_writing_refuse (flaw : Flaw) :
    ¬ Accepts (writing v (refuse loc flaw) : Reading α) := by
  simp [accepts_writing]

/-- Where what follows is accepted whatever the first step gives, both have to be accepted. -/
theorem accepts_bind {x : Reading α} {f : α → Reading β} {P : Prop}
    (h : ∀ a, x = .ok a → (Accepts (f a) ↔ P)) : Accepts (x >>= f) ↔ Accepts x ∧ P := by
  constructor
  · rintro ⟨b, hb⟩
    obtain ⟨a, ha, hf⟩ := bind_eq_ok.mp hb
    exact ⟨⟨a, ha⟩, (h a ha).mp ⟨b, hf⟩⟩
  · rintro ⟨⟨a, ha⟩, hP⟩
    obtain ⟨b, hb⟩ := (h a ha).mpr hP
    exact ⟨b, bind_eq_ok.mpr ⟨a, ha, hb⟩⟩

theorem accepts_bind_ok {x : Reading α} {g : α → β} :
    Accepts (x >>= fun a => .ok (g a)) ↔ Accepts x := by
  rw [accepts_bind fun a _ => iff_true_intro (accepts_ok (g a)), and_true]

/-! ### Leaves -/

theorem accepts_summary : Accepts (summary loc v) ↔ Schema.IsText v := by
  unfold summary Schema.IsText
  split <;> simp_all

theorem accepts_details : Accepts (details loc v) ↔ v = .null ∨ Schema.IsText v := by
  unfold details Schema.IsText
  split <;> simp_all

theorem accepts_docs : Accepts (docs loc v) ↔ Schema.Docs v := by
  unfold docs
  split
  · simpa using Schema.Docs.absent
  · simpa using Schema.Docs.summary _
  · rw [accepts_bind fun _ _ => accepts_bind_ok, accepts_summary, accepts_details]
    constructor
    · rintro ⟨hs, hd⟩
      exact .parts hs hd
    · rintro (_ | _ | ⟨hs, hd⟩)
      exact ⟨hs, hd⟩
  · next hnull htext hmap =>
    refine iff_of_false (not_accepts_refuse _) ?_
    rintro (_ | s | @⟨es, _, _⟩)
    · exact hnull rfl
    · exact htext s rfl
    · exact hmap es rfl

theorem accepts_ty : Accepts (ty loc v) ↔ Schema.TypeText v := by
  unfold ty Schema.TypeText
  split
  · simp
  · next s =>
    cases h : Ty.read s with
    | ok t => simp [h]
    | error e => simp [h]
  · simp_all

theorem accepts_name : Accepts (name loc v) ↔ ∃ s, v = .text s ∧ s ≠ "" := by
  unfold name
  split
  · split <;> simp_all
  · simp_all

theorem accepts_paramKind {o : Option Value} : Accepts (paramKind loc o) ↔ Schema.ParamKind o := by
  unfold paramKind Schema.ParamKind
  split
  · simp
  · next s =>
    have hs : s ∈ (["positional", "positional_or_keyword", "keyword", "args", "kwargs"] : List Str) ↔
        (ParamKind.ofWord? s).isSome = true := by
      rw [ParamKind.ofWord?, List.find?_isSome]
      simp only [decide_eq_true_eq]
      simp [ParamKind.all, ParamKind.word, @eq_comm _ s]
    cases h : ParamKind.ofWord? s <;> simp_all
  · next v hv =>
    refine iff_of_false (not_accepts_writing_refuse _) ?_
    rintro (h | ⟨s, -, h⟩)
    · exact absurd h (by simp)
    · exact hv s (Option.some.inj h)

theorem ownTypeText_eq (es : Entries) : ownTypeText es = Schema.ownType es := by
  unfold ownTypeText Schema.ownType
  cases es.field? "ty" <;> rfl

theorem accepts_ownTy : Accepts (ownTy loc es) ↔ Schema.TypeText (Schema.ownType es) := by
  rw [← ownTypeText_eq]
  unfold ownTy
  split
  · next h => simp [h, Schema.TypeText]
  · exact accepts_ty

/-! ### Parameters -/

theorem accepts_default : Accepts (default v) ↔ v.writable = true := by
  unfold default
  split
  · simp [Scalar.writable]
  · simp [accepts_writing]

theorem accepts_param :
    Accepts (param loc es) ↔ Schema.Param es ∧ (es.field "default").writable = true := by
  unfold param
  rw [accepts_bind fun _ _ => accepts_bind fun _ _ => accepts_bind fun _ _ =>
      accepts_bind fun _ _ => accepts_bind_ok,
    accepts_name, accepts_paramKind, accepts_ty, accepts_docs, accepts_default]
  exact ⟨fun ⟨hn, hk, ht, hd, hw⟩ => ⟨⟨hn, hk, ht, hd⟩, hw⟩,
    fun ⟨⟨hn, hk, ht, hd⟩, hw⟩ => ⟨hn, hk, ht, hd, hw⟩⟩

theorem name_eq_ok {s : Str} (h : name loc v = .ok s) : v = .text s := by
  unfold name at h
  split at h
  · split at h
    · simp [refuse] at h
    · rw [Except.ok.inj h]
  · simp [refuse] at h

/-- A parameter that was read has the name that the document gives it. -/
theorem name_of_param {p : Param} (h : param loc es = .ok p) : es.field "name" = .text p.name := by
  unfold param at h
  obtain ⟨n, hn, h⟩ := bind_eq_ok.mp h
  obtain ⟨k, -, h⟩ := bind_eq_ok.mp h
  obtain ⟨t, -, h⟩ := bind_eq_ok.mp h
  obtain ⟨d, -, h⟩ := bind_eq_ok.mp h
  obtain ⟨w, -, h⟩ := bind_eq_ok.mp h
  obtain rfl := Except.ok.inj h
  exact name_eq_ok hn

theorem accepts_paramsFrom {vs : List Value} {i : Nat} :
    Accepts (paramsFrom loc i vs) ↔ ∀ v ∈ vs, ∃ es, v = .map es ∧ Schema.Param es ∧
      (Entries.field es "default").writable = true := by
  induction vs generalizing i with
  | nil => simp [paramsFrom]
  | cons v vs ih =>
    unfold paramsFrom
    cases v with
    | map es =>
      have hstep : Accepts (mapping (loc.nth i) (.map es) >>= fun entries => do
          let p ← param (loc.nth i) entries
          let ps ← paramsFrom loc (i + 1) vs
          .ok (p :: ps)) ↔ Accepts (param (loc.nth i) es) ∧ Accepts (paramsFrom loc (i + 1) vs) :=
        accepts_bind fun _ _ => accepts_bind_ok
      rw [hstep, accepts_param, ih, List.forall_mem_cons]
      simp
    | _ =>
      refine iff_of_false ?_ (by simp)
      rintro ⟨ps, h⟩
      obtain ⟨es, h, -⟩ := bind_eq_ok.mp h
      exact absurd h (by simp [mapping, refuse])

/-- The parameters that were read are called as the document calls them, in order. -/
theorem names_of_paramsFrom {vs : List Value} {i : Nat} {ps : List Param}
    (h : paramsFrom loc i vs = .ok ps) :
    vs.map Schema.paramName = ps.map fun p => Value.text p.name := by
  induction vs generalizing i ps with
  | nil =>
    obtain rfl := Except.ok.inj h
    rfl
  | cons v vs ih =>
    unfold paramsFrom at h
    obtain ⟨es, hm, h⟩ := bind_eq_ok.mp h
    obtain ⟨p, hp, h⟩ := bind_eq_ok.mp h
    obtain ⟨qs, hqs, h⟩ := bind_eq_ok.mp h
    obtain rfl := Except.ok.inj h
    cases v with
    | map es' =>
      obtain rfl := Except.ok.inj hm
      rw [List.map_cons, List.map_cons, ih hqs, ← name_of_param hp]
      rfl
    | _ => exact absurd hm (by simp [mapping, refuse])

theorem repeated?_eq_none {seen : List Str} {ps : List Param} :
    repeated? seen ps = none ↔
      (ps.map Param.name).Nodup ∧ ∀ p ∈ ps, p.name ∉ seen := by
  induction ps generalizing seen with
  | nil => simp [repeated?]
  | cons p ps ih =>
    unfold repeated?
    split
    · next h => simp [h]
    · next h =>
      rw [ih]
      simp only [List.map_cons, List.nodup_cons, List.mem_cons, List.mem_map, not_or, forall_eq_or_imp]
      constructor
      · rintro ⟨hn, hs⟩
        refine ⟨⟨?_, hn⟩, h, fun q hq => (hs q hq).2⟩
        rintro ⟨q, hq, he⟩
        exact (hs q hq).1 he
      · rintro ⟨⟨hp, hn⟩, -, hs⟩
        exact ⟨hn, fun q hq => ⟨fun he => hp ⟨q, hq, he⟩, hs q hq⟩⟩

theorem allWritable_defaultIn {vs : List Value} : Schema.AllWritable (Schema.DefaultIn (.list vs)) ↔
    ∀ es, .map es ∈ vs → (Entries.field es "default").writable = true := by
  constructor
  · exact fun h es hes => h _ ⟨vs, es, rfl, hes, rfl⟩
  · rintro h d ⟨vs', es, hvs, hes, rfl⟩
    obtain rfl : vs = vs' := by simpa using hvs
    exact h es hes

/-- Only a list of parameters has defaults in it. -/
theorem allWritable_of_not_list (h : ∀ vs, v ≠ .list vs) : Schema.AllWritable (Schema.DefaultIn v) := by
  rintro d ⟨vs, -, rfl, -⟩
  exact absurd rfl (h vs)

theorem allWritable_of_isVacant (h : v.isVacant = true) : Schema.AllWritable (Schema.DefaultIn v) := by
  rintro d ⟨vs, es, rfl, hes, rfl⟩
  obtain rfl : vs = [] := by simpa [Value.isVacant] using h
  simp at hes

theorem accepts_params :
    Accepts (params loc v) ↔ Schema.Params v ∧ Schema.AllWritable (Schema.DefaultIn v) := by
  unfold params Schema.Params
  split
  · next h => simp [h, allWritable_of_isVacant h]
  · next h =>
    split
    · next vs =>
      have hnodup : ∀ ps : List Param, paramsFrom loc 0 vs = .ok ps →
          ((ps.map Param.name).Nodup ↔ (vs.map Schema.paramName).Nodup) := by
        intro ps hps
        have hinj : Function.Injective Value.text := fun s t h => by simpa using h
        rw [names_of_paramsFrom hps, ← List.nodup_map_iff hinj, List.map_map]
        rfl
      refine (accepts_bind (P := (vs.map Schema.paramName).Nodup) fun ps hps => ?_).trans ?_
      · have hrep := @repeated?_eq_none [] ps
        rw [← hnodup ps hps]
        split <;> simp_all
      rw [accepts_paramsFrom, allWritable_defaultIn]
      constructor
      · rintro ⟨he, hd⟩
        refine ⟨.inr ⟨vs, rfl, fun v hv => ?_, hd⟩, fun es hes => ?_⟩
        · obtain ⟨es, hes, hp, -⟩ := he v hv
          exact ⟨es, hes, hp⟩
        · obtain ⟨es', hes', -, hw⟩ := he _ hes
          obtain rfl : es = es' := by simpa using hes'
          exact hw
      · rintro ⟨hv | ⟨vs', hvs, he, hd⟩, hw⟩
        · exact absurd hv h
        · obtain rfl : vs = vs' := by simpa using hvs
          refine ⟨fun v hv => ?_, hd⟩
          obtain ⟨es, rfl, hp⟩ := he v hv
          exact ⟨es, rfl, hp, hw es hv⟩
    · next hlist =>
      refine iff_of_false (not_accepts_refuse _) ?_
      rintro ⟨hv | ⟨vs, rfl, -⟩, -⟩
      · exact h hv
      · exact hlist vs rfl

/-! ### Functions and properties -/

theorem accepts_property : Accepts (property loc es) ↔ Schema.Property es := by
  unfold property
  rw [accepts_bind fun _ _ => accepts_bind_ok, accepts_ty, accepts_docs]
  exact ⟨fun ⟨ht, hd⟩ => ⟨ht, hd⟩, fun ⟨ht, hd⟩ => ⟨ht, hd⟩⟩

theorem accepts_returns : Accepts (returns loc v) ↔ Schema.Returns v := by
  unfold returns Schema.Returns
  split
  · next h => exact iff_of_true ⟨_, rfl⟩ (.inl h)
  · next h =>
    cases v with
    | map es =>
      have hstep : Accepts (do
          let t ← ty (loc.field "type") (Entries.field es "type")
          let d ← docs (loc.field "docs") (Entries.field es "docs")
          .ok (⟨t, d⟩ : ApiPage.Returns)) ↔ Schema.Property es := by
        rw [accepts_bind fun _ _ => accepts_bind_ok, accepts_ty, accepts_docs]
        exact ⟨fun ⟨ht, hd⟩ => ⟨ht, hd⟩, fun ⟨ht, hd⟩ => ⟨ht, hd⟩⟩
      refine Iff.trans hstep ?_
      simp [h]
    | _ =>
      refine iff_of_false ?_ (by simp [h])
      rintro ⟨r, hr⟩
      obtain ⟨es, hm, -⟩ := bind_eq_ok.mp hr
      exact absurd hm (by simp [mapping, refuse])

theorem accepts_function : Accepts (function loc es) ↔
    Schema.Function es ∧ Schema.AllWritable (Schema.DefaultIn (es.field "params")) := by
  unfold function
  rw [accepts_bind fun _ _ => accepts_bind fun _ _ => accepts_bind_ok, accepts_params,
    accepts_returns, accepts_docs]
  exact ⟨fun ⟨⟨hp, hw⟩, hr, hd⟩ => ⟨⟨hp, hr, hd⟩, hw⟩, fun ⟨⟨hp, hr, hd⟩, hw⟩ => ⟨⟨hp, hw⟩, hr, hd⟩⟩

theorem allWritable_constructorDefault : Schema.AllWritable (Schema.ConstructorDefault v) ↔
    ∀ c, v = .map c → Schema.AllWritable (Schema.DefaultIn (Entries.field c "params")) :=
  ⟨fun h c hc d hd => h d ⟨c, hc, hd⟩, fun h d ⟨c, hc, hd⟩ => h c hc d hd⟩

theorem accepts_constructor : Accepts (constructor loc v) ↔
    Schema.Constructor v ∧ Schema.AllWritable (Schema.ConstructorDefault v) := by
  rw [allWritable_constructorDefault]
  unfold constructor Schema.Constructor
  split
  · simp
  · rw [accepts_bind_ok, accepts_function]
    simp
  · simp_all

/-! ### Items -/

theorem ItemKind.word_of_ofWord? {s : Str} {k : ItemKind} (h : ItemKind.ofWord? s = some k) :
    k.word = s := by
  simpa using List.find?_some h

theorem itemKind_eq_ok {k : ItemKind} : itemKind loc v = .ok k ↔ v = .text k.word := by
  constructor
  · intro h
    unfold itemKind at h
    split at h
    · split at h
      · next k' hk' =>
        obtain rfl := Except.ok.inj h
        rw [ItemKind.word_of_ofWord? hk']
      · simp [refuse] at h
    · simp [refuse] at h
  · rintro rfl
    simp [itemKind]

/-- The kind of an item. -/
def kindOf : Item → ItemKind
  | .module .. => .module
  | .type .. => .type
  | .function _ => .function
  | .property _ => .property

/-- An item that was read is of the kind that the document gives it. -/
theorem kind_of_item {i : Item} (h : item loc (.map es) = .ok i) :
    es.field "kind" = .text (kindOf i).word := by
  unfold item at h
  obtain ⟨k, hk, h⟩ := bind_eq_ok.mp h
  rw [itemKind_eq_ok.mp hk]
  cases k with
  | module =>
    obtain ⟨ms, -, h⟩ := bind_eq_ok.mp h
    obtain ⟨d, -, h⟩ := bind_eq_ok.mp h
    obtain rfl := Except.ok.inj h
    rfl
  | type =>
    obtain ⟨ms, -, h⟩ := bind_eq_ok.mp h
    obtain ⟨c, -, h⟩ := bind_eq_ok.mp h
    obtain ⟨t, -, h⟩ := bind_eq_ok.mp h
    obtain ⟨d, -, h⟩ := bind_eq_ok.mp h
    obtain rfl := Except.ok.inj h
    rfl
  | function =>
    obtain ⟨f, -, h⟩ := bind_eq_ok.mp h
    obtain rfl := Except.ok.inj h
    rfl
  | property =>
    obtain ⟨p, -, h⟩ := bind_eq_ok.mp h
    obtain rfl := Except.ok.inj h
    rfl

theorem fitsTypes_iff {i : Item} (h : item loc (.map es) = .ok i) :
    fitsTypes i = true ↔ Schema.TypeMemberKind (es.field "kind") := by
  rw [kind_of_item h]
  cases i <;> simp [fitsTypes, kindOf, ItemKind.word, Schema.TypeMemberKind]

theorem field_cons (k : Scalar) (rest : Entries) (key : Str) :
    Entries.field ((k, v) :: rest) key =
      if k.sameKey (.text key) then v else Entries.field rest key := by
  unfold Entries.field Entries.field?
  rw [List.find?_cons]
  split <;> simp_all

theorem accepts_item_module {P : Prop} (hk : es.field "kind" = .text "module")
    (hm : Accepts (membersIn loc false es) ↔ P) :
    Accepts (item loc (.map es)) ↔ P ∧ Schema.Docs (es.field "docs") := by
  have hkind : itemKind loc (es.field "kind") = .ok .module := itemKind_eq_ok.mpr hk
  unfold item
  rw [hkind]
  refine (accepts_bind fun _ _ => accepts_bind_ok).trans ?_
  rw [hm, accepts_docs]

theorem accepts_item_type {P : Prop} (hk : es.field "kind" = .text "type")
    (hm : Accepts (membersIn loc true es) ↔ P) :
    Accepts (item loc (.map es)) ↔
      P ∧ (Schema.Constructor (es.field "constructor") ∧
          Schema.AllWritable (Schema.ConstructorDefault (es.field "constructor"))) ∧
        Schema.TypeText (Schema.ownType es) ∧ Schema.Docs (es.field "docs") := by
  have hkind : itemKind loc (es.field "kind") = .ok .type := itemKind_eq_ok.mpr hk
  unfold item
  rw [hkind]
  refine (accepts_bind fun _ _ => accepts_bind fun _ _ => accepts_bind fun _ _ =>
    accepts_bind_ok).trans ?_
  rw [hm, accepts_constructor, accepts_ownTy, accepts_docs]

theorem accepts_item_function (hk : es.field "kind" = .text "function") :
    Accepts (item loc (.map es)) ↔
      Schema.Function es ∧ Schema.AllWritable (Schema.DefaultIn (es.field "params")) := by
  have hkind : itemKind loc (es.field "kind") = .ok .function := itemKind_eq_ok.mpr hk
  unfold item
  rw [hkind]
  exact accepts_bind_ok.trans accepts_function

theorem accepts_item_property (hk : es.field "kind" = .text "property") :
    Accepts (item loc (.map es)) ↔ Schema.Property es := by
  have hkind : itemKind loc (es.field "kind") = .ok .property := itemKind_eq_ok.mpr hk
  unfold item
  rw [hkind]
  exact accepts_bind_ok.trans accepts_property

end Reading

namespace Schema

variable {es ms : Entries} {d : Value}

/-- The members of an item, those of a type being functions and properties. -/
def Members (inType : Bool) (ms : Entries) : Prop :=
  ∀ m ∈ ms, ∃ sub : Entries, m.2 = .map sub ∧ Item sub ∧
    (inType = true → TypeMemberKind (sub.field "kind"))

/-- The members of an item whose keys, and all of whose shown data, have texts. -/
def MembersWritten (ms : Entries) : Prop :=
  ∀ m ∈ ms, m.1.writable = true ∧ ∀ sub, m.2 = .map sub → Written sub

theorem members_iff {inType : Bool} : Members inType ms ↔
    (∀ m ∈ ms, ∃ sub : Entries, m.2 = .map sub) ∧
      (∀ m ∈ ms, ∀ sub : Entries, m.2 = .map sub → Item sub) ∧
      (inType = true → ∀ m ∈ ms, ∀ sub : Entries, m.2 = .map sub →
        TypeMemberKind (sub.field "kind")) := by
  constructor
  · intro h
    refine ⟨fun m hm => ?_, fun m hm sub hsub => ?_, fun ht m hm sub hsub => ?_⟩
    all_goals obtain ⟨sub', hsub', hitem, hkind⟩ := h m hm
    · exact ⟨sub', hsub'⟩
    · obtain rfl : sub' = sub := by simpa [hsub'] using hsub
      exact hitem
    · obtain rfl : sub' = sub := by simpa [hsub'] using hsub
      exact hkind ht
  · rintro ⟨hmap, hitem, hkind⟩ m hm
    obtain ⟨sub, hsub⟩ := hmap m hm
    exact ⟨sub, hsub, hitem m hm sub hsub, fun ht => hkind ht m hm sub hsub⟩

theorem Item.kind_eq (h : Item es) : ∃ k : Reading.ItemKind, es.field "kind" = .text k.word := by
  cases h with
  | module hk => exact ⟨.module, hk⟩
  | type hk => exact ⟨.type, hk⟩
  | function hk => exact ⟨.function, hk⟩
  | property hk => exact ⟨.property, hk⟩

theorem item_module_iff (hk : es.field "kind" = .text "module") :
    Item es ↔ (∃ ms, Lists (es.field "members") ms ∧ Members false ms) ∧ Docs (es.field "docs") := by
  constructor
  · rintro (⟨-, hm, hmap, hitem, hd⟩ | ⟨hk', -⟩ | ⟨hk', -⟩ | ⟨hk', -⟩)
    · exact ⟨⟨_, hm, members_iff.mpr ⟨hmap, hitem, by simp⟩⟩, hd⟩
    all_goals exact absurd (hk.symm.trans hk') (by simp)
  · rintro ⟨⟨ms, hm, hall⟩, hd⟩
    obtain ⟨hmap, hitem, -⟩ := members_iff.mp hall
    exact .module hk hm hmap hitem hd

theorem item_type_iff (hk : es.field "kind" = .text "type") :
    Item es ↔ (∃ ms, Lists (es.field "members") ms ∧ Members true ms) ∧
      Constructor (es.field "constructor") ∧ TypeText (ownType es) ∧
      Docs (es.field "docs") := by
  constructor
  · rintro (⟨hk', -⟩ | ⟨-, hm, hmap, hitem, hkind, hc, ht, hd⟩ | ⟨hk', -⟩ | ⟨hk', -⟩)
    on_goal 2 => exact ⟨⟨_, hm, members_iff.mpr ⟨hmap, hitem, fun _ => hkind⟩⟩, hc, ht, hd⟩
    all_goals exact absurd (hk.symm.trans hk') (by simp)
  · rintro ⟨⟨ms, hm, hall⟩, hc, ht, hd⟩
    obtain ⟨hmap, hitem, hkind⟩ := members_iff.mp hall
    exact .type hk hm hmap hitem (hkind rfl) hc ht hd

theorem item_function_iff (hk : es.field "kind" = .text "function") : Item es ↔ Function es := by
  constructor
  · rintro (⟨hk', -⟩ | ⟨hk', -⟩ | ⟨-, hf⟩ | ⟨hk', -⟩)
    on_goal 3 => exact hf
    all_goals exact absurd (hk.symm.trans hk') (by simp)
  · exact .function hk

theorem item_property_iff (hk : es.field "kind" = .text "property") : Item es ↔ Property es := by
  constructor
  · rintro (⟨hk', -⟩ | ⟨hk', -⟩ | ⟨hk', -⟩ | ⟨-, hp⟩)
    on_goal 4 => exact hp
    all_goals exact absurd (hk.symm.trans hk') (by simp)
  · exact .property hk

/-! ### What an item shows, kind by kind -/

theorem Lists.eq_of_map {v : Value} {ms' : Entries} (h : Lists v ms) (hv : v = .map ms') : ms = ms' := by
  subst hv
  obtain ⟨hvac, rfl⟩ | hmap := h
  · exact (List.isEmpty_iff.mp hvac).symm
  · exact (Value.map.inj hmap).symm

/-- What the members of an item show, they show as a part of it. -/
theorem Written.members (h : Written es) (hk : ListsMembers es) (hl : Lists (es.field "members") ms) :
    MembersWritten ms := by
  intro m hm
  obtain ⟨-, rfl⟩ | hmap := hl
  · simp at hm
  · exact ⟨by simpa using h _ (.key hk hmap hm), fun sub hsub d hd => h d (.member hk hmap hm hsub hd)⟩

theorem written_module_iff (hk : es.field "kind" = .text "module") (hl : Lists (es.field "members") ms) :
    Written es ↔ MembersWritten ms := by
  refine ⟨fun h => h.members (.inl hk) hl, fun h d hd => ?_⟩
  cases hd with
  | key _ hm hmem =>
    obtain rfl := hl.eq_of_map hm
    simpa using (h _ hmem).1
  | member _ hm hmem hsub hd =>
    obtain rfl := hl.eq_of_map hm
    exact (h _ hmem).2 _ hsub d hd
  | constructor hk' => exact absurd (hk.symm.trans hk') (by simp)
  | function hk' => exact absurd (hk.symm.trans hk') (by simp)

theorem written_type_iff (hk : es.field "kind" = .text "type") (hl : Lists (es.field "members") ms) :
    Written es ↔ MembersWritten ms ∧ AllWritable (ConstructorDefault (es.field "constructor")) := by
  refine ⟨fun h => ⟨h.members (.inr hk) hl, fun d hd => h d (.constructor hk hd)⟩, fun ⟨h, hc⟩ d hd => ?_⟩
  cases hd with
  | key _ hm hmem =>
    obtain rfl := hl.eq_of_map hm
    simpa using (h _ hmem).1
  | member _ hm hmem hsub hd =>
    obtain rfl := hl.eq_of_map hm
    exact (h _ hmem).2 _ hsub d hd
  | constructor _ hd => exact hc d hd
  | function hk' => exact absurd (hk.symm.trans hk') (by simp)

theorem written_function_iff (hk : es.field "kind" = .text "function") :
    Written es ↔ AllWritable (DefaultIn (es.field "params")) := by
  refine ⟨fun h d hd => h d (.function hk hd), fun h d hd => ?_⟩
  cases hd with
  | key hk' => rcases hk' with hk' | hk' <;> exact absurd (hk.symm.trans hk') (by simp)
  | member hk' => rcases hk' with hk' | hk' <;> exact absurd (hk.symm.trans hk') (by simp)
  | constructor hk' => exact absurd (hk.symm.trans hk') (by simp)
  | function _ hd => exact h d hd

theorem written_property (hk : es.field "kind" = .text "property") : Written es := by
  intro d hd
  cases hd with
  | key hk' => rcases hk' with hk' | hk' <;> exact absurd (hk.symm.trans hk') (by simp)
  | member hk' => rcases hk' with hk' | hk' <;> exact absurd (hk.symm.trans hk') (by simp)
  | constructor hk' => exact absurd (hk.symm.trans hk') (by simp)
  | function hk' => exact absurd (hk.symm.trans hk') (by simp)

/-- A member of the schema whose key, and all that it shows, has a text. -/
def ReadableMember (inType : Bool) (m : Scalar × Value) : Prop :=
  m.1.writable = true ∧ ∃ sub : Entries, m.2 = .map sub ∧ (Item sub ∧ Written sub) ∧
    (inType = true → TypeMemberKind (sub.field "kind"))

theorem readable_iff {inType : Bool} :
    Members inType ms ∧ MembersWritten ms ↔ ∀ m ∈ ms, ReadableMember inType m := by
  constructor
  · rintro ⟨h, hw⟩ m hm
    obtain ⟨sub, hsub, hitem, hkind⟩ := h m hm
    exact ⟨(hw m hm).1, sub, hsub, ⟨hitem, (hw m hm).2 sub hsub⟩, hkind⟩
  · refine fun h => ⟨fun m hm => ?_, fun m hm => ?_⟩
    all_goals obtain ⟨hkey, sub, hsub, ⟨hitem, hw⟩, hkind⟩ := h m hm
    · exact ⟨sub, hsub, hitem, hkind⟩
    · refine ⟨hkey, fun sub' hsub' => ?_⟩
      obtain rfl : sub = sub' := Value.map.inj (hsub.symm.trans hsub')
      exact hw

/-- The members that a value lists are all of the schema, and all that they show has texts. -/
def ReadableMembers (inType : Bool) (v : Value) : Prop :=
  ∃ ms, Lists v ms ∧ ∀ m ∈ ms, ReadableMember inType m

theorem item_written_module_iff (hk : es.field "kind" = .text "module") :
    Item es ∧ Written es ↔ ReadableMembers false (es.field "members") ∧ Docs (es.field "docs") := by
  rw [item_module_iff hk]
  constructor
  · rintro ⟨⟨⟨ms, hl, hm⟩, hd⟩, hw⟩
    exact ⟨⟨ms, hl, readable_iff.mp ⟨hm, (written_module_iff hk hl).mp hw⟩⟩, hd⟩
  · rintro ⟨⟨ms, hl, h⟩, hd⟩
    obtain ⟨hm, hw⟩ := readable_iff.mpr h
    exact ⟨⟨⟨ms, hl, hm⟩, hd⟩, (written_module_iff hk hl).mpr hw⟩

theorem item_written_type_iff (hk : es.field "kind" = .text "type") :
    Item es ∧ Written es ↔ ReadableMembers true (es.field "members") ∧
      (Constructor (es.field "constructor") ∧ AllWritable (ConstructorDefault (es.field "constructor"))) ∧
      TypeText (ownType es) ∧ Docs (es.field "docs") := by
  rw [item_type_iff hk]
  constructor
  · rintro ⟨⟨⟨ms, hl, hm⟩, hc, ht, hd⟩, hw⟩
    obtain ⟨hms, hcw⟩ := (written_type_iff hk hl).mp hw
    exact ⟨⟨ms, hl, readable_iff.mp ⟨hm, hms⟩⟩, ⟨hc, hcw⟩, ht, hd⟩
  · rintro ⟨⟨ms, hl, h⟩, ⟨hc, hcw⟩, ht, hd⟩
    obtain ⟨hm, hms⟩ := readable_iff.mpr h
    exact ⟨⟨⟨ms, hl, hm⟩, hc, ht, hd⟩, (written_type_iff hk hl).mpr ⟨hms, hcw⟩⟩

end Schema

namespace Reading

/-- Of the values that are no mapping, the vacant ones list members: none. -/
theorem accepts_vacant {inType : Bool} (hv : ∀ ms, v ≠ .map ms) :
    Accepts (if v.isVacant then .ok [] else refuse loc .notAMapping : Reading (List (Scalar × Item))) ↔
      Schema.ReadableMembers inType v := by
  split
  · next h =>
    exact iff_of_true (accepts_ok _) ⟨[], .inl ⟨h, rfl⟩, by simp⟩
  · next h =>
    refine iff_of_false (not_accepts_refuse _) ?_
    rintro ⟨ms, ⟨hvac, -⟩ | hmap, -⟩
    · exact h hvac
    · exact hv ms hmap

/-- The one step that reads a member and looks whether a type may hold it. -/
theorem exists_member_iff {k : Scalar} {inType : Bool}
    (hitem : Accepts (item loc v) ↔ ∃ es, v = .map es ∧ Schema.Item es ∧ Schema.Written es) :
    (∃ i, writing (.scalar k) (item loc v) = .ok i ∧ (inType && !fitsTypes i) = false) ↔
      Schema.ReadableMember inType (k, v) := by
  constructor
  · rintro ⟨i, hi, hfit⟩
    obtain ⟨hk, hi⟩ := writing_eq_ok.mp hi
    obtain ⟨sub, rfl, hsub⟩ := hitem.mp ⟨i, hi⟩
    refine ⟨by simpa using hk, sub, rfl, hsub, fun ht => ?_⟩
    rw [← fitsTypes_iff hi]
    simpa [ht] using hfit
  · rintro ⟨hk, sub, rfl, hsub, hkind⟩
    obtain ⟨i, hi⟩ := hitem.mpr ⟨sub, rfl, hsub⟩
    refine ⟨i, writing_eq_ok.mpr ⟨by simpa using hk, hi⟩, ?_⟩
    simpa [fitsTypes_iff hi] using hkind

mutual

theorem accepts_item : ∀ (v : Value) (loc : Location),
    Accepts (item loc v) ↔ ∃ es, v = .map es ∧ Schema.Item es ∧ Schema.Written es
  | .scalar s, loc => by simp [item]
  | .list vs, loc => by simp [item]
  | .foreign f, loc => by simp [item]
  | .map es, loc => by
    have hmembers := fun inType => accepts_membersIn es loc inType
    have hexists : (∃ es', Value.map es = .map es' ∧ Schema.Item es' ∧ Schema.Written es') ↔
        Schema.Item es ∧ Schema.Written es := by simp
    rw [hexists]
    by_cases hk : ∃ k : ItemKind, Entries.field es "kind" = .text k.word
    · obtain ⟨k, hk⟩ := hk
      cases k with
      | module => rw [accepts_item_module hk (hmembers false), Schema.item_written_module_iff hk]
      | type => rw [accepts_item_type hk (hmembers true), Schema.item_written_type_iff hk]
      | function =>
        rw [accepts_item_function hk, Schema.item_function_iff hk, Schema.written_function_iff hk]
      | property =>
        rw [accepts_item_property hk, Schema.item_property_iff hk]
        exact (and_iff_left (Schema.written_property hk)).symm
    · refine iff_of_false ?_ fun h => hk h.1.kind_eq
      rintro ⟨i, hi⟩
      exact hk ⟨_, kind_of_item hi⟩

theorem accepts_membersIn : ∀ (es : List (Scalar × Value)) (loc : Location) (inType : Bool),
    Accepts (membersIn loc inType es) ↔ Schema.ReadableMembers inType (Entries.field es "members")
  | [], loc, inType => by
    exact iff_of_true ⟨[], by simp [membersIn]⟩ ⟨[], .inl ⟨rfl, rfl⟩, by simp⟩
  | (k, v) :: rest, loc, inType => by
    rw [membersIn, field_cons]
    split
    · exact accepts_membersOf v loc inType
    · exact accepts_membersIn rest loc inType

theorem accepts_membersOf : ∀ (v : Value) (loc : Location) (inType : Bool),
    Accepts (membersOf loc inType v) ↔ Schema.ReadableMembers inType v
  | .scalar s, loc, inType => by
    rw [membersOf]
    exact accepts_vacant (by simp)
  | .list vs, loc, inType => by
    rw [membersOf]
    exact accepts_vacant (v := .list vs) (by simp)
  | .foreign f, loc, inType => by
    rw [membersOf]
    exact accepts_vacant (v := .foreign f) (by simp)
  | .map ms, loc, inType => by
    rw [membersOf, accepts_members ms loc inType]
    constructor
    · exact fun h => ⟨ms, .inr rfl, h⟩
    · rintro ⟨ms', hl, h⟩
      obtain rfl := hl.eq_of_map rfl
      exact h

theorem accepts_members : ∀ (ms : List (Scalar × Value)) (loc : Location) (inType : Bool),
    Accepts (members loc inType ms) ↔ ∀ m ∈ ms, Schema.ReadableMember inType m
  | [], loc, inType => by simp [members]
  | (k, v) :: rest, loc, inType => by
    have hrest := accepts_members rest loc inType
    rw [List.forall_mem_cons, ← exists_member_iff (accepts_item v (loc.member k)), ← hrest]
    constructor
    · rintro ⟨is, h⟩
      rw [members] at h
      obtain ⟨i, hi, hif⟩ := bind_eq_ok.mp h
      split at hif
      · simp at hif
      · next hfit =>
        obtain ⟨is', his, -⟩ := bind_eq_ok.mp hif
        exact ⟨⟨i, hi, by simpa using hfit⟩, is', his⟩
    · rintro ⟨⟨i, hi, hfit⟩, is, his⟩
      refine ⟨(k, i) :: is, ?_⟩
      rw [members]
      refine bind_eq_ok.mpr ⟨i, hi, ?_⟩
      rw [if_neg (by simp [hfit])]
      exact bind_eq_ok.mpr ⟨is, his, rfl⟩

end

end Reading

end ApiPage
