import ApiPage.Proofs.Item.Reordering
import ApiPage.Proofs.Text.Numeral

/-!
# Documents that cannot be read to their end

Reading writes out the keys of members, defaults, and kinds that are none. A whole number of too many digits
cannot be written, and reading ends there without an item and without a refusal. `Schema.Halts` says of which
mappings that is so: every part before such a number, in the order of reading, is one of the schema. No other
mapping is read otherwise than the schema says.
-/

namespace ApiPage

/-- A whole number has a text below this power of ten, and no other scalar is without one. -/
theorem Scalar.writable_iff {s : Scalar} :
    s.writable = true ↔ ∀ i, s = .int i → i.natAbs < 10 ^ Text.digitLimit := by
  cases s with
  | int i =>
    have hlimit : 0 < Text.digitLimit := by decide
    simp only [writable, Scalar.int.injEq, forall_eq', ← Text.NumeralForm.length_toDigits_le_iff hlimit]
    have hadmits : Text.NumeralForm.usual.admits (Nat.toDigits 10 i.natAbs).length = true ↔
        (Nat.toDigits 10 i.natAbs).length ≤ Text.digitLimit := decide_eq_true_iff
    rw [← hadmits, Text.NumeralForm.write?]
    split
    · next h => simp [h]
    · next h => simp [h]
  | _ => simp [writable]

namespace Schema

/-- One element of a list stops what the elements before it let pass. -/
def StopsAt {α : Type} (passes stops : α → Prop) (as : List α) : Prop :=
  ∃ before a after, as = before ++ a :: after ∧ (∀ b ∈ before, passes b) ∧ stops a

/-- A parameter of the schema whose default has a text. -/
def ReadableParam (v : Value) : Prop :=
  ∃ es, v = .map es ∧ Param es ∧ (Entries.field es "default").writable = true

/-- Reading ends at a parameter: at a kind that is none, which follows its name, or at its default. -/
inductive ParamHalts (es : Entries) : Prop
  | kind (hn : ∃ s, es.field "name" = .text s ∧ s ≠ "") (h : (es.field "kind").writable = false)
  | default (hp : Param es) (h : (es.field "default").writable = false)

/-- Reading ends at a parameter of a list. -/
def ParamsHalt (v : Value) : Prop :=
  ∃ vs, v = .list vs ∧ StopsAt ReadableParam (fun w => ∃ es, w = .map es ∧ ParamHalts es) vs

/-- Reading ends at a parameter of a constructor. -/
def ConstructorHalts (v : Value) : Prop :=
  ∃ c, v = .map c ∧ ParamsHalt (Entries.field c "params")

/-- A module or a type. -/
def NestingKind (inType : Bool) (es : Entries) : Prop :=
  es.field "kind" = .text (if inType then "type" else "module")

/-- The mappings at which, or below which, reading ends. -/
inductive Halts : Entries → Prop
  | kind {es : Entries} (h : (es.field "kind").writable = false) : Halts es
  | key {es before after : Entries} {m : Scalar × Value} {inType : Bool} (hk : NestingKind inType es)
      (hm : es.field "members" = .map (before ++ m :: after))
      (hb : ∀ b ∈ before, ReadableMember inType b) (h : m.1.writable = false) : Halts es
  | member {es before after sub : Entries} {m : Scalar × Value} {inType : Bool} (hk : NestingKind inType es)
      (hm : es.field "members" = .map (before ++ m :: after))
      (hb : ∀ b ∈ before, ReadableMember inType b) (hsub : m.2 = .map sub) (h : Halts sub) : Halts es
  | constructor {es : Entries} (hk : es.field "kind" = .text "type")
      (hm : ReadableMembers true (es.field "members")) (h : ConstructorHalts (es.field "constructor")) :
      Halts es
  | function {es : Entries} (hk : es.field "kind" = .text "function")
      (h : ParamsHalt (es.field "params")) : Halts es

/-- Reading ends at the key of a member, or below the member. -/
def MemberHalts (m : Scalar × Value) : Prop :=
  m.1.writable = false ∨ ∃ sub, m.2 = .map sub ∧ Halts sub

/-- Reading ends at a member that a value lists. -/
def MembersHalt (inType : Bool) (v : Value) : Prop :=
  ∃ ms, v = .map ms ∧ StopsAt (ReadableMember inType) MemberHalts ms

/-! ### The first element that stops -/

section StopsAt

variable {α : Type} {passes stops : α → Prop} {a : α} {as : List α}

theorem not_stopsAt_nil : ¬ StopsAt passes stops [] := by
  rintro ⟨before, a, after, h, -⟩
  simp at h

theorem stopsAt_cons : StopsAt passes stops (a :: as) ↔ stops a ∨ passes a ∧ StopsAt passes stops as := by
  constructor
  · rintro ⟨_ | ⟨b, before⟩, c, after, h, hb, hc⟩
    · obtain ⟨rfl, -⟩ := List.cons.inj h
      exact .inl hc
    · obtain ⟨rfl, rfl⟩ := List.cons.inj h
      obtain ⟨hpass, hbefore⟩ := List.forall_mem_cons.mp hb
      exact .inr ⟨hpass, before, c, after, rfl, hbefore, hc⟩
  · rintro (h | ⟨hpass, before, c, after, rfl, hb, hc⟩)
    · exact ⟨[], a, as, rfl, by simp, h⟩
    · exact ⟨a :: before, c, after, rfl, List.forall_mem_cons.mpr ⟨hpass, hb⟩, hc⟩

/-- Where every element passes or stops, all pass or a first one stops. -/
theorem forall_or_stopsAt (h : ∀ a ∈ as, passes a ∨ stops a) :
    (∀ a ∈ as, passes a) ∨ StopsAt passes stops as := by
  induction as with
  | nil => simp
  | cons a as ih =>
    obtain ⟨ha, has⟩ := List.forall_mem_cons.mp h
    rw [List.forall_mem_cons, stopsAt_cons]
    tauto

end StopsAt

/-! ### Items of the schema -/

variable {es : Entries} {v : Value}

theorem allWritable_or_paramsHalt (h : Params v) : AllWritable (DefaultIn v) ∨ ParamsHalt v := by
  obtain hv | ⟨vs, rfl, hps⟩ := h
  · exact .inl (Reading.allWritable_of_isVacant hv)
  · have hall : ∀ w ∈ vs, ReadableParam w ∨ ∃ es, w = .map es ∧ ParamHalts es := by
      intro w hw
      obtain ⟨es, rfl, hp⟩ := hps.each w hw
      cases hd : (Entries.field es "default").writable with
      | true => exact .inl ⟨es, rfl, hp, hd⟩
      | false => exact .inr ⟨es, rfl, .default hp hd⟩
    refine (forall_or_stopsAt hall).imp (fun h => ?_) fun h => ⟨vs, rfl, h⟩
    refine Reading.allWritable_defaultIn.mpr fun es hes => ?_
    obtain ⟨es', hes', -, hd⟩ := h _ hes
    obtain rfl : es = es' := Value.map.inj hes'
    exact hd

theorem allWritable_or_constructorHalts (h : Constructor v) :
    AllWritable (ConstructorDefault v) ∨ ConstructorHalts v := by
  rw [Reading.allWritable_constructorDefault]
  obtain rfl | ⟨c, rfl, hf⟩ := h
  · exact .inl nofun
  · refine (allWritable_or_paramsHalt hf.params).imp (fun h c' hc => ?_) fun h => ⟨c, rfl, h⟩
    obtain rfl : c = c' := Value.map.inj hc
    exact h

theorem readableMembers_or_membersHalt {inType : Bool} {ms : Entries} (hl : Lists v ms)
    (hms : Members inType ms)
    (ih : ∀ m ∈ ms, ∀ sub : Entries, m.2 = .map sub → Written sub ∨ Halts sub) :
    (∀ m ∈ ms, ReadableMember inType m) ∨ MembersHalt inType v := by
  have hall : ∀ m ∈ ms, ReadableMember inType m ∨ MemberHalts m := by
    intro m hm
    obtain ⟨sub, hsub, hitem, hkind⟩ := hms m hm
    cases hkey : m.1.writable with
    | false => exact .inr (.inl hkey)
    | true =>
      refine (ih m hm sub hsub).imp (fun hw => ?_) fun h => .inr ⟨sub, hsub, h⟩
      exact ⟨hkey, sub, hsub, ⟨hitem, hw⟩, hkind⟩
  refine (forall_or_stopsAt hall).imp id fun h => ?_
  obtain ⟨-, rfl⟩ | hv := hl
  · exact absurd h not_stopsAt_nil
  · exact ⟨ms, hv, h⟩

theorem MembersHalt.halts (inType : Bool) (hk : NestingKind inType es)
    (h : MembersHalt inType (es.field "members")) : Halts es := by
  obtain ⟨ms, hm, before, m, after, rfl, hb, hkey | ⟨sub, hsub, h⟩⟩ := h
  · exact .key hk hm hb hkey
  · exact .member hk hm hb hsub h

/-- What a mapping of the schema shows all has texts, or reading ends at the first that has none. -/
theorem Item.written_or_halts (h : Item es) : Written es ∨ Halts es := by
  induction h with
  | module hk hm hmap hitem hd ih =>
    have hms : Members false _ := members_iff.mpr ⟨hmap, hitem, nofun⟩
    rcases readableMembers_or_membersHalt hm hms ih with h | h
    · exact .inl ((written_module_iff hk hm).mpr (readable_iff.mpr h).2)
    · exact .inr (h.halts false hk)
  | type hk hm hmap hitem hkind hc ht hd ih =>
    have hms : Members true _ := members_iff.mpr ⟨hmap, hitem, fun _ => hkind⟩
    rcases readableMembers_or_membersHalt hm hms ih with h | h
    · refine (allWritable_or_constructorHalts hc).imp (fun hw => ?_) fun hhalt => ?_
      · exact (written_type_iff hk hm).mpr ⟨(readable_iff.mpr h).2, hw⟩
      · exact .constructor hk ⟨_, hm, h⟩ hhalt
    · exact .inr (h.halts true hk)
  | function hk hf =>
    exact (allWritable_or_paramsHalt hf.params).imp (written_function_iff hk).mpr (.function hk)
  | property hk hp => exact .inl (written_property hk)

/-! ### Documents that all have texts -/

theorem writable_of_mem_list {vs : List Value} (h : (Value.list vs).writable = true) :
    ∀ v ∈ vs, v.writable = true := by
  rw [Value.writable] at h
  induction vs with
  | nil => simp
  | cons v vs ih =>
    rw [Value.allWritable, Bool.and_eq_true] at h
    exact List.forall_mem_cons.mpr ⟨h.1, ih h.2⟩

theorem writable_of_mem_map (h : (Value.map es).writable = true) :
    ∀ e ∈ es, e.1.writable = true ∧ e.2.writable = true := by
  rw [Value.writable] at h
  induction es with
  | nil => simp
  | cons e es ih =>
    obtain ⟨k, v⟩ := e
    rw [Value.entriesWritable, Bool.and_eq_true, Bool.and_eq_true] at h
    exact List.forall_mem_cons.mpr ⟨h.1, ih h.2⟩

theorem writable_field (h : (Value.map es).writable = true) (key : Str) :
    (es.field key).writable = true := by
  cases hv : es.field? key with
  | none => rw [Entries.field_of_none hv, Value.writable_scalar]; rfl
  | some v =>
    rw [Entries.field_of_some hv]
    exact (writable_of_mem_map h _ (Entries.mem_of_field? hv)).2

theorem not_paramsHalt (h : v.writable = true) : ¬ ParamsHalt v := by
  rintro ⟨vs, rfl, before, w, after, rfl, -, es, rfl, hhalt⟩
  have hes : (Value.map es).writable = true := writable_of_mem_list h _ (by simp)
  cases hhalt with
  | kind _ hk => simp [writable_field hes] at hk
  | default _ hd => simp [writable_field hes] at hd

/-- Where all data has a text, reading does not end before its time. -/
theorem not_halts_of_writable (h : (Value.map es).writable = true) : ¬ Halts es := by
  intro hhalt
  induction hhalt with
  | kind hk => simp [writable_field h] at hk
  | key hk hm hb hkey =>
    have hms := hm ▸ writable_field h "members"
    simp [(writable_of_mem_map hms _ (List.mem_append_right _ List.mem_cons_self)).1] at hkey
  | member hk hm hb hsub _ ih =>
    have hms := hm ▸ writable_field h "members"
    refine ih ?_
    rw [← hsub]
    exact (writable_of_mem_map hms _ (List.mem_append_right _ List.mem_cons_self)).2
  | constructor hk hm hc =>
    obtain ⟨c, hc, hps⟩ := hc
    have hmap := hc ▸ writable_field h "constructor"
    exact not_paramsHalt (writable_field hmap "params") hps
  | function hk hps => exact not_paramsHalt (writable_field h "params") hps

end Schema

namespace Reading

variable {α β : Type} {loc : Location} {v : Value} {es : Entries}

/-! ### Where reading ends, step by step -/

/-- A reading that ends at a number that cannot be written. -/
def Halts (r : Reading α) : Prop :=
  r = .error .unwritable

@[simp] theorem not_halts_ok (a : α) : ¬ Halts (.ok a : Reading α) := nofun

@[simp] theorem not_halts_refuse (flaw : Flaw) : ¬ Halts (refuse loc flaw : Reading α) := nofun

theorem halts_writing {r : Reading α} : Halts (writing v r) ↔ v.writable = false ∨ Halts r := by
  unfold writing
  split
  · next h => simp [h]
  · next h => simp [h, Halts]

theorem halts_bind {x : Reading α} {f : α → Reading β} :
    Halts (x >>= f) ↔ Halts x ∨ ∃ a, x = .ok a ∧ Halts (f a) := by
  cases x with
  | ok a =>
    have hbind : (Except.ok a >>= f) = f a := rfl
    simp [hbind]
  | error e => simp [Halts, bind, Except.bind]

/-- Where what follows a step ends alike whatever the step gives. -/
theorem halts_bind_iff {x : Reading α} {f : α → Reading β} {P : Prop}
    (h : ∀ a, x = .ok a → (Halts (f a) ↔ P)) : Halts (x >>= f) ↔ Halts x ∨ Accepts x ∧ P := by
  rw [halts_bind]
  refine or_congr_right ⟨fun ⟨a, ha, hf⟩ => ⟨⟨a, ha⟩, (h a ha).mp hf⟩, fun ⟨⟨a, ha⟩, hP⟩ => ?_⟩
  exact ⟨a, ha, (h a ha).mpr hP⟩

theorem halts_bind_ok {x : Reading α} {g : α → β} : Halts (x >>= fun a => .ok (g a)) ↔ Halts x := by
  simp [halts_bind]

/-! ### Parts that write nothing -/

@[simp] theorem not_halts_mapping : ¬ Halts (mapping loc v) := by
  cases v <;> simp [mapping]

theorem not_halts_summary : ¬ Halts (summary loc v) := by
  unfold summary
  split <;> simp

theorem not_halts_details : ¬ Halts (details loc v) := by
  unfold details
  split <;> simp

@[simp] theorem not_halts_docs : ¬ Halts (docs loc v) := by
  unfold docs
  split
  · simp
  · simp
  · simp [halts_bind, not_halts_summary, not_halts_details]
  · simp

@[simp] theorem not_halts_ty : ¬ Halts (ty loc v) := by
  unfold ty
  split
  · simp
  · split <;> simp
  · simp

@[simp] theorem not_halts_name : ¬ Halts (name loc v) := by
  unfold name
  split
  · split <;> simp
  · simp

@[simp] theorem not_halts_ownTy : ¬ Halts (ownTy loc es) := by
  unfold ownTy
  split <;> simp

@[simp] theorem not_halts_property : ¬ Halts (property loc es) := by
  simp [property, halts_bind]

@[simp] theorem not_halts_returns : ¬ Halts (returns loc v) := by
  unfold returns
  split <;> simp [halts_bind]

/-! ### Parameters -/

theorem halts_paramKind : Halts (paramKind loc (es.field? "kind")) ↔
    (es.field "kind").writable = false := by
  unfold Entries.field
  generalize es.field? "kind" = o
  unfold paramKind
  split
  · simp [Scalar.writable]
  · split <;> simp
  · simp [halts_writing]

theorem halts_default : Halts (default v) ↔ v.writable = false := by
  unfold default
  split
  · simp [Scalar.writable]
  · simp [halts_writing]

theorem halts_param : Halts (param loc es) ↔ Schema.ParamHalts es := by
  unfold param
  rw [halts_bind_iff fun _ _ => halts_bind_iff fun _ _ => halts_bind_iff fun _ _ =>
      halts_bind_iff fun _ _ => halts_bind_ok,
    accepts_name, accepts_paramKind, accepts_ty, accepts_docs, halts_paramKind, halts_default]
  constructor
  · rintro (h | ⟨hn, hk | ⟨hk, h | ⟨ht, h | ⟨hd, hdefault⟩⟩⟩⟩)
    · exact absurd h not_halts_name
    · exact .kind hn hk
    · exact absurd h not_halts_ty
    · exact absurd h not_halts_docs
    · exact .default ⟨hn, hk, ht, hd⟩ hdefault
  · rintro (⟨hn, hk⟩ | ⟨hp, hdefault⟩)
    · exact .inr ⟨hn, .inl hk⟩
    · exact .inr ⟨hp.name, .inr ⟨hp.kind, .inr ⟨hp.type, .inr ⟨hp.docs, hdefault⟩⟩⟩⟩

theorem halts_paramsFrom {vs : List Value} {i : Nat} : Halts (paramsFrom loc i vs) ↔
    Schema.StopsAt Schema.ReadableParam (fun w => ∃ es, w = .map es ∧ Schema.ParamHalts es) vs := by
  induction vs generalizing i with
  | nil => exact iff_of_false (not_halts_ok _) Schema.not_stopsAt_nil
  | cons v vs ih =>
    unfold paramsFrom
    rw [Schema.stopsAt_cons]
    cases v with
    | map es =>
      have hstep : Halts (mapping (loc.nth i) (.map es) >>= fun entries => do
          let p ← param (loc.nth i) entries
          let ps ← paramsFrom loc (i + 1) vs
          .ok (p :: ps)) ↔ Halts (param (loc.nth i) es) ∨
            Accepts (param (loc.nth i) es) ∧ Halts (paramsFrom loc (i + 1) vs) :=
        halts_bind_iff fun _ _ => halts_bind_ok
      rw [hstep, halts_param, accepts_param, ih]
      simp [Schema.ReadableParam]
    | _ =>
      refine iff_of_false ?_ (by simp [Schema.ReadableParam])
      simp [halts_bind, mapping]

theorem halts_params : Halts (params loc v) ↔ Schema.ParamsHalt v := by
  unfold params
  by_cases hv : v.isVacant = true
  · rw [if_pos hv]
    refine iff_of_false (not_halts_ok _) ?_
    rintro ⟨vs, rfl, h⟩
    obtain rfl : vs = [] := by simpa [Value.isVacant] using hv
    exact Schema.not_stopsAt_nil h
  · rw [if_neg hv]
    cases v with
    | list vs =>
      refine halts_bind.trans ((or_iff_left ?_).trans ?_)
      · rintro ⟨ps, -, h⟩
        split at h <;> simp at h
      · simp [halts_paramsFrom, Schema.ParamsHalt]
    | _ => exact iff_of_false (not_halts_refuse _) (by simp [Schema.ParamsHalt])

theorem halts_function : Halts (function loc es) ↔ Schema.ParamsHalt (es.field "params") := by
  simp [function, halts_bind, halts_params]

theorem halts_constructor : Halts (constructor loc v) ↔ Schema.ConstructorHalts v := by
  unfold constructor Schema.ConstructorHalts
  split
  · simp
  · simp [halts_bind, halts_function]
  · simp_all

/-! ### Items -/

theorem halts_itemKind : Halts (itemKind loc v) ↔ v.writable = false := by
  unfold itemKind
  split
  · split <;> simp
  · simp [halts_writing]

theorem halts_vacant {inType : Bool} (hv : ∀ ms, v ≠ .map ms) :
    Halts (if v.isVacant then .ok [] else refuse loc .notAMapping : Reading (List (Scalar × Item))) ↔
      Schema.MembersHalt inType v := by
  refine iff_of_false ?_ fun ⟨ms, hmap, _⟩ => hv ms hmap
  split <;> simp

/-- The ends of an item's reading, kind by kind, from those of its members. -/
theorem halts_item_map (hms : ∀ inType, Halts (membersIn loc inType es) ↔
      Schema.MembersHalt inType (es.field "members"))
    (hacc : Accepts (membersIn loc true es) ↔ Schema.ReadableMembers true (es.field "members")) :
    Halts (item loc (.map es)) ↔ Schema.Halts es := by
  unfold item
  constructor
  · intro h
    obtain h | ⟨k, hk, h⟩ := halts_bind.mp h
    · exact .kind (halts_itemKind.mp h)
    · have hkind := itemKind_eq_ok.mp hk
      cases k with
      | module =>
        have hm : Halts (membersIn loc false es) := by simpa [halts_bind] using h
        exact ((hms false).mp hm).halts false hkind
      | type =>
        obtain h | ⟨ms, hread, h⟩ := halts_bind.mp h
        · exact ((hms true).mp h).halts true hkind
        · have hc : Halts (constructor (loc.field "constructor") (es.field "constructor")) := by
            simpa [halts_bind] using h
          exact .constructor hkind (hacc.mp ⟨ms, hread⟩) (halts_constructor.mp hc)
      | function => exact .function hkind (halts_function.mp (halts_bind_ok.mp h))
      | property => exact absurd (halts_bind_ok.mp h) not_halts_property
  · have hbind : ∀ {k : ItemKind} {f : ItemKind → Reading Item}, es.field "kind" = .text k.word →
        Halts (f k) → Halts (itemKind loc (es.field "kind") >>= f) :=
      fun hk hf => halts_bind.mpr (.inr ⟨_, itemKind_eq_ok.mpr hk, hf⟩)
    have hnest : ∀ {inType}, Schema.NestingKind inType es → Schema.MembersHalt inType (es.field "members") →
        Halts (item loc (.map es)) := by
      intro inType hk hm
      unfold item
      cases inType with
      | false => exact hbind (k := .module) hk (halts_bind.mpr (.inl ((hms false).mpr hm)))
      | true => exact hbind (k := .type) hk (halts_bind.mpr (.inl ((hms true).mpr hm)))
    intro h
    cases h with
    | kind h => exact halts_bind.mpr (.inl (halts_itemKind.mpr h))
    | key hk hm hb hkey => exact hnest hk ⟨_, hm, _, _, _, rfl, hb, .inl hkey⟩
    | member hk hm hb hsub h => exact hnest hk ⟨_, hm, _, _, _, rfl, hb, .inr ⟨_, hsub, h⟩⟩
    | constructor hk hm h =>
      obtain ⟨ms, hread⟩ := hacc.mpr hm
      refine hbind (k := .type) hk (halts_bind.mpr (.inr ⟨ms, hread, halts_bind.mpr (.inl ?_)⟩))
      exact halts_constructor.mpr h
    | function hk h => exact hbind (k := .function) hk (halts_bind_ok.mpr (halts_function.mpr h))

mutual

/-- Where the reading of an item ends, by induction on the document along the functions that read it. -/
theorem halts_item : ∀ (v : Value) (loc : Location),
    Halts (item loc v) ↔ ∃ es, v = .map es ∧ Schema.Halts es
  | .scalar s, loc => by simp [item]
  | .list vs, loc => by simp [item]
  | .foreign f, loc => by simp [item]
  | .map es, loc => by
    have hms := fun inType => halts_membersIn es loc inType
    rw [halts_item_map hms (accepts_membersIn es loc true)]
    simp

theorem halts_membersIn : ∀ (es : List (Scalar × Value)) (loc : Location) (inType : Bool),
    Halts (membersIn loc inType es) ↔ Schema.MembersHalt inType (Entries.field es "members")
  | [], loc, inType => by
    refine iff_of_false (by simp [membersIn]) ?_
    rintro ⟨ms, hms, -⟩
    cases hms
  | (k, v) :: rest, loc, inType => by
    rw [membersIn, field_cons]
    split
    · exact halts_membersOf v loc inType
    · exact halts_membersIn rest loc inType

theorem halts_membersOf : ∀ (v : Value) (loc : Location) (inType : Bool),
    Halts (membersOf loc inType v) ↔ Schema.MembersHalt inType v
  | .scalar s, loc, inType => by
    rw [membersOf]
    exact halts_vacant (by simp)
  | .list vs, loc, inType => by
    rw [membersOf]
    exact halts_vacant (v := .list vs) (by simp)
  | .foreign f, loc, inType => by
    rw [membersOf]
    exact halts_vacant (v := .foreign f) (by simp)
  | .map ms, loc, inType => by
    rw [membersOf, halts_members ms loc inType]
    simp [Schema.MembersHalt]

theorem halts_members : ∀ (ms : List (Scalar × Value)) (loc : Location) (inType : Bool),
    Halts (members loc inType ms) ↔
      Schema.StopsAt (Schema.ReadableMember inType) Schema.MemberHalts ms
  | [], loc, inType => iff_of_false (by simp [members]) Schema.not_stopsAt_nil
  | (k, v) :: rest, loc, inType => by
    have hitem := halts_item v (loc.member k)
    have hrest := halts_members rest loc inType
    have hfirst : Halts (writing (.scalar k) (item (loc.member k) v)) ↔ Schema.MemberHalts (k, v) := by
      rw [halts_writing, hitem, Value.writable_scalar]
      rfl
    rw [Schema.stopsAt_cons, members, halts_bind, hfirst, ← hrest,
      ← exists_member_iff (accepts_item v (loc.member k))]
    refine or_congr_right ⟨fun ⟨i, hi, h⟩ => ?_, fun ⟨⟨i, hi, hfit⟩, h⟩ => ⟨i, hi, ?_⟩⟩
    · by_cases hfit : (inType && !fitsTypes i) = true
      · rw [if_pos hfit] at h
        exact absurd h (not_halts_refuse _)
      · rw [if_neg hfit] at h
        exact ⟨⟨i, hi, by simpa using hfit⟩, halts_bind_ok.mp h⟩
    · rw [if_neg (by simp [hfit])]
      exact halts_bind_ok.mpr h

end

end Reading

/-! ### Documents -/

/-- **What becomes of a mapping.** An item is read from exactly the mappings of the schema of which all that
the item holds as text can be written. Reading ends without an item and without a refusal at exactly the first
number, in the order of reading, that has to be written and cannot be. Every other mapping that is none of the
schema is refused. No mapping all of whose data can be written ends reading. -/
theorem readItem_iff_schema (loc : Location) (es : Entries) :
    ((∃ i, readItem loc es = .ok i) ↔ Schema.Item es ∧ Schema.Written es) ∧
      (readItem loc es = .error .unwritable ↔ Schema.Halts es) ∧
      ((∃ e, readItem loc es = .error (.refused e)) ↔ ¬ Schema.Item es ∧ ¬ Schema.Halts es) ∧
      ((Value.map es).writable = true → ¬ Schema.Halts es) := by
  have haccepts : (∃ i, readItem loc es = .ok i) ↔ Schema.Item es ∧ Schema.Written es := by
    have h := Reading.accepts_item (.map es) loc
    simpa [Reading.Accepts, readItem] using h
  have hhalts : readItem loc es = .error .unwritable ↔ Schema.Halts es := by
    have h := Reading.halts_item (.map es) loc
    simpa [Reading.Halts, readItem] using h
  refine ⟨haccepts, hhalts, ?_, Schema.not_halts_of_writable⟩
  have hshown : Schema.Item es → Schema.Written es ∨ Schema.Halts es := Schema.Item.written_or_halts
  cases hread : readItem loc es with
  | ok i => simp_all
  | error fault =>
    cases fault with
    | unwritable => simp_all
    | refused e =>
      rw [hread] at haccepts hhalts
      simp only [reduceCtorEq, Except.error.injEq, exists_false, false_iff, not_and] at haccepts hhalts
      simpa [hhalts] using fun hitem => (hshown hitem).elim (haccepts hitem) hhalts

namespace LongDefault

/-- A parameter whose default has 4817 digits. -/
def param : Entries :=
  [(.text "name", .text "a"), (.text "default", .scalar (.int (16 ^ 4000)))]

def doc : Entries :=
  [(.text "kind", .text "function"), (.text "params", .list [.map param])]

theorem not_writable : (Value.scalar (.int (16 ^ 4000))).writable = false := by
  rw [Value.writable_scalar, ← Bool.not_eq_true, Scalar.writable_iff]
  intro h
  have hlong : ¬ (16 ^ 4000 : Int).natAbs < 10 ^ Text.digitLimit := by decide +kernel
  exact hlong (h _ rfl)

theorem schema_param : Schema.Param param where
  name := ⟨"a", rfl, by decide⟩
  kind := .inl rfl
  type := .inl rfl
  docs := .absent

theorem schema_doc : Schema.Item doc := by
  refine .function rfl ⟨.inr ⟨[.map param], rfl, ?_, ?_⟩, .inl rfl, .absent⟩
  · exact List.forall_mem_singleton.mpr ⟨param, rfl, schema_param⟩
  · exact List.nodup_singleton _

theorem halts_doc : Schema.Halts doc := by
  have hparam : Schema.ParamHalts param := .default schema_param not_writable
  exact .function rfl ⟨_, rfl, [], _, [], rfl, nofun, param, rfl, hparam⟩

end LongDefault

/-- A mapping of the schema from which no item is read: its default cannot be written. -/
theorem readItem_longDefault :
    Schema.Item LongDefault.doc ∧ readItem {} LongDefault.doc = .error .unwritable :=
  ⟨LongDefault.schema_doc, (Reading.halts_item _ {}).mpr ⟨_, rfl, LongDefault.halts_doc⟩⟩

end ApiPage
