import ApiPage.Proofs.Item.Reordering
import Mathlib.Data.List.Duplicate

/-!
# Where a refused document is wrong

A refusal names a place. `Flaw.Blames` says when the place is right: its steps can be followed from the
document's root, and the value that they lead to has the flaw, or they end at a key that a parameter or
prose has to have and does not. Every refusal names a right place, one case apart: a type without type
text of its own takes the text from its name, and a flaw of that text is reported at the key for type
text, which is not in the document (`Flaw.Misnames`).
-/

namespace ApiPage

/-- A step from a value to a part of it. -/
inductive Step.Leads : Step → Value → Value → Prop
  | key {es : Entries} {k : Scalar} {v : Value} (h : (k, v) ∈ es) : Leads (.key k) (.map es) v
  | index {vs : List Value} {i : Nat} {v : Value} (h : vs[i]? = some v) : Leads (.index i) (.list vs) v

/-- A value has a flaw. A flaw that only a file can have is none of a value. -/
def Flaw.Offends (v : Value) : Flaw → Prop
  | .unknownKind found =>
    ∃ es : Entries, v = .map es ∧ es.field "kind" = found ∧ ∀ k : Reading.ItemKind, found ≠ .text k.word
  | .notAMapping => ∀ es, v ≠ .map es
  | .notAList => ∀ vs, v ≠ .list vs
  | .notText => ∀ s, v ≠ .text s
  | .emptyOrNotText => ∀ s, v = .text s → s = ""
  | .notTypeText => v ≠ .null ∧ ∀ s, v ≠ .text s
  | .badType cause => ∃ s, v = .text s ∧ Ty.read s = .error cause
  | .unknownParamKind found => v = found ∧ ∀ k : ParamKind, found ≠ .text k.word
  | .notForTypes => ∃ es : Entries, v = .map es ∧ ¬ Schema.TypeMemberKind (es.field "kind")
  | .duplicateParam name => ∃ vs, v = .list vs ∧ (vs.map Schema.paramName).Duplicate (.text name)
  | .notJson _ => False
  | .notYaml _ => False
  | .rootNotAMapping => False

/-- `flaw.Blames steps v`: from `v`, the steps lead to the flaw. -/
inductive Flaw.Blames : Flaw → List Step → Value → Prop
  | here {flaw : Flaw} {v : Value} (h : flaw.Offends v) : Blames flaw [] v
  /-- A parameter has no name. -/
  | noName {vs : List Value} {i : Nat} {es : Entries} (hi : vs[i]? = some (.map es))
      (h : es.field? "name" = none) :
      Blames .emptyOrNotText [.index i, .key (.text "name")] (.list vs)
  /-- Prose has no summary. -/
  | noSummary {es docs : Entries} (hd : (.text "docs", .map docs) ∈ es)
      (h : docs.field? "summary" = none) :
      Blames .notText [.key (.text "docs"), .key (.text "summary")] (.map es)
  | step {flaw : Flaw} {s : Step} {steps : List Step} {v w : Value} (hs : s.Leads v w)
      (h : Blames flaw steps w) : Blames flaw (s :: steps) v

/-- `flaw.Misnames steps v`: from `v`, all steps but the last lead to a type that has no type text of its
own; the last is the key for type text, and the flaw is one of the type's name. -/
inductive Flaw.Misnames : Flaw → List Step → Value → Prop
  | name {flaw : Flaw} {es : Entries} {v : Value} (hk : es.field "kind" = .text "type")
      (hty : es.field? "ty" = none) (hname : es.field? "name" = some v) (h : flaw.Offends v) :
      Misnames flaw [.key (.text "ty")] (.map es)
  | step {flaw : Flaw} {s : Step} {steps : List Step} {v w : Value} (hs : s.Leads v w)
      (h : Misnames flaw steps w) : Misnames flaw (s :: steps) v

/-- Steps from an item to an item below it. -/
inductive ItemSteps : List Step → Prop
  | nil : ItemSteps []
  | member {k : Scalar} {steps : List Step} (h : ItemSteps steps) :
      ItemSteps (.key (.text "members") :: .key k :: steps)

/-- A flaw of the kind of an item. -/
def Flaw.isOfKind : Flaw → Bool
  | .unknownKind _ => true
  | .notForTypes => true
  | _ => false

namespace Reading

variable {α β : Type} {loc : Location} {v w : Value} {es : Entries} {flaw : Flaw} {steps : List Step}

/-! ### Refusals step by step -/

/-- Every refusal of a reading is for a flaw that `Q` allows at its place below `loc`. -/
def Refuses (Q : Flaw → List Step → Prop) (loc : Location) (r : Reading α) : Prop :=
  ∀ e, r = .error (.refused e) → ∃ steps, e.location = ⟨loc.root, loc.steps ++ steps⟩ ∧ Q e.flaw steps

variable {Q Q' : Flaw → List Step → Prop}

theorem Refuses.ok (a : α) : Refuses Q loc (.ok a : Reading α) := by
  intro e h
  cases h

theorem Refuses.refuse (h : Q flaw []) : Refuses Q loc (refuse loc flaw : Reading α) := by
  intro e he
  obtain rfl := ItemFault.refused.inj (Except.error.inj he)
  exact ⟨[], by rw [List.append_nil], h⟩

theorem Refuses.writing {r : Reading α} (h : Refuses Q loc r) (v : Value) : Refuses Q loc (writing v r) := by
  unfold Reading.writing
  split
  · exact h
  · rintro e ⟨⟩

theorem Refuses.bind {x : Reading α} {f : α → Reading β} (hx : Refuses Q loc x)
    (hf : ∀ a, x = .ok a → Refuses Q loc (f a)) : Refuses Q loc (x >>= f) := by
  intro e h
  cases x with
  | error e' =>
    cases h
    exact hx _ rfl
  | ok a => exact hf a rfl e h

theorem Refuses.mono {r : Reading α} (h : Refuses Q loc r) (hQ : ∀ flaw steps, Q flaw steps → Q' flaw steps) :
    Refuses Q' loc r := by
  intro e he
  obtain ⟨steps, hloc, hq⟩ := h e he
  exact ⟨steps, hloc, hQ _ _ hq⟩

/-- What is refused one step further in is refused here, the step before its place. -/
theorem Refuses.into (s : Step) {r : Reading α}
    (h : Refuses (fun flaw steps => Q flaw (s :: steps)) ⟨loc.root, loc.steps ++ [s]⟩ r) :
    Refuses Q loc r := by
  intro e he
  obtain ⟨steps, hloc, hq⟩ := h e he
  refine ⟨s :: steps, ?_, hq⟩
  rw [hloc, List.append_assoc]
  rfl

/-- A field is refused at its key, whether it is there or missing. -/
theorem Refuses.field {key : Str} {g : Value → Reading α}
    (hmissing : es.field? key = none →
      Refuses (fun flaw steps => Q flaw (.key (.text key) :: steps)) (loc.field key) (g .null))
    (h : ∀ v, (.text key, v) ∈ es →
      Refuses (fun flaw steps => Q flaw (.key (.text key) :: steps)) (loc.field key) (g v)) :
    Refuses Q loc (g (es.field key)) := by
  refine .into (.key (.text key)) ?_
  unfold Entries.field
  cases hv : es.field? key with
  | none => exact hmissing hv
  | some v => exact h v (Entries.mem_of_field? hv)

theorem Refuses.optional {key : Str} {g : Value → Reading α} (hnull : ∃ a, g .null = .ok a)
    (h : ∀ v, (.text key, v) ∈ es →
      Refuses (fun flaw steps => Q flaw (.key (.text key) :: steps)) (loc.field key) (g v)) :
    Refuses Q loc (g (es.field key)) := by
  obtain ⟨a, ha⟩ := hnull
  refine .field (fun _ => ?_) h
  rw [ha]
  exact .ok a

/-! ### Parts of items -/

/-- A flaw of a part, at a right place below `v`. -/
def Part (v : Value) (flaw : Flaw) (steps : List Step) : Prop :=
  flaw.Blames steps v ∧ flaw.isOfKind = false

theorem Part.here (h : flaw.Offends v) (hk : flaw.isOfKind = false) : Part v flaw [] :=
  ⟨.here h, hk⟩

theorem Part.step {s : Step} (hs : s.Leads v w) (h : Part w flaw steps) : Part v flaw (s :: steps) :=
  ⟨.step hs h.1, h.2⟩

theorem refuses_mapping (v : Value) : Refuses (Part v) loc (mapping loc v) := by
  cases v with
  | map es => exact .ok es
  | _ => exact .refuse (.here nofun rfl)

theorem refuses_details (v : Value) : Refuses (Part v) loc (details loc v) := by
  cases v with
  | scalar s =>
    cases s with
    | null => exact .ok none
    | text s => exact .ok _
    | _ => exact .refuse (.here nofun rfl)
  | _ => exact .refuse (.here nofun rfl)

theorem refuses_summary (v : Value) : Refuses (Part v) loc (summary loc v) := by
  cases v with
  | scalar s =>
    cases s with
    | text s => exact .ok s
    | _ => exact .refuse (.here nofun rfl)
  | _ => exact .refuse (.here nofun rfl)

theorem refuses_name (v : Value) : Refuses (Part v) loc (name loc v) := by
  cases v with
  | scalar s =>
    cases s with
    | text s =>
      rw [name]
      by_cases hs : s = ""
      · rw [if_pos hs]
        refine .refuse (.here (fun t ht => ?_) rfl)
        obtain rfl : s = t := by simpa using ht
        exact hs
      · rw [if_neg hs]
        exact .ok s
    | _ => exact .refuse (.here nofun rfl)
  | _ => exact .refuse (.here nofun rfl)

/-- Prose is refused at its key, or below it; where the summary is missing, at the summary's key. -/
theorem refuses_docs : Refuses (Part (.map es)) loc (docs (loc.field "docs") (es.field "docs")) := by
  refine .optional ⟨none, rfl⟩ fun v hv => ?_
  have hstep : (Step.key (.text "docs")).Leads (.map es) v := .key hv
  cases v with
  | scalar s =>
    cases s with
    | null => exact .ok none
    | text s => exact .ok _
    | _ => exact .refuse (.step hstep (.here nofun rfl))
  | list vs => exact .refuse (.step hstep (.here nofun rfl))
  | foreign f => exact .refuse (.step hstep (.here nofun rfl))
  | map sub =>
    refine .bind ?_ fun s _ => .bind ?_ fun d _ => .ok _
    · refine .field (fun hmissing => .refuse ⟨.noSummary hv hmissing, rfl⟩) fun w hw => ?_
      exact (refuses_summary w).mono fun flaw steps h => .step hstep (.step (.key hw) h)
    · refine .optional ⟨none, rfl⟩ fun w hw => ?_
      exact (refuses_details w).mono fun flaw steps h => .step hstep (.step (.key hw) h)

/-- The flaw of a type text is one of the value itself. -/
theorem refuses_ty (v : Value) :
    Refuses (fun flaw steps => steps = [] ∧ flaw.Offends v ∧ flaw.isOfKind = false) loc (ty loc v) := by
  cases v with
  | scalar s =>
    cases s with
    | null => exact .ok _
    | text s =>
      rw [ty]
      cases hs : Ty.read s with
      | ok t => exact .ok t
      | error cause => exact .refuse ⟨rfl, ⟨s, rfl, hs⟩, rfl⟩
    | _ => exact .refuse ⟨rfl, ⟨nofun, nofun⟩, rfl⟩
  | _ => exact .refuse ⟨rfl, ⟨nofun, nofun⟩, rfl⟩

theorem refuses_type : Refuses (Part (.map es)) loc (ty (loc.field "type") (es.field "type")) := by
  refine .optional ⟨Ty.any, rfl⟩ fun v hv => (refuses_ty v).mono ?_
  rintro flaw steps ⟨rfl, h, hk⟩
  exact .step (.key hv) (.here h hk)

/-! ### Parameters -/

theorem refuses_paramKind (v : Value) : Refuses (Part v) loc (paramKind loc (some v)) := by
  cases v with
  | scalar s =>
    cases s with
    | text s =>
      rw [paramKind]
      cases hs : ParamKind.ofWord? s with
      | some k => exact .ok k
      | none =>
        refine .refuse (.here ⟨rfl, fun k hk => ?_⟩ rfl)
        obtain rfl : s = k.word := by simpa using hk
        exact absurd hs (by simp)
    | _ => exact .writing (.refuse (.here ⟨rfl, by simp⟩ rfl)) _
  | _ => exact .writing (.refuse (.here ⟨rfl, by simp⟩ rfl)) _

/-- A default is never refused. -/
theorem refuses_default (v : Value) : Refuses Q loc (default v) := by
  unfold default
  split
  · exact .ok _
  · exact .writing (.ok _) _

/-- A parameter is refused below its place in the list; where the name is missing, at the name's key. -/
theorem refuses_param {vs : List Value} {i : Nat} (hi : vs[i]? = some (.map es)) :
    Refuses (Part (.list vs)) loc (param (loc.nth i) es) := by
  have hin : ∀ flaw steps, Part (.map es) flaw steps → Part (.list vs) flaw (.index i :: steps) :=
    fun flaw steps h => .step (.index hi) h
  refine .into (.index i) ?_
  refine .bind ?_ fun n _ => .bind ?_ fun k _ => .bind ?_ fun t _ => .bind ?_ fun d _ =>
    .bind (refuses_default _) fun w _ => .ok _
  · refine .field (fun hmissing => .refuse ⟨.noName hi hmissing, rfl⟩) fun v hv => ?_
    exact (refuses_name v).mono fun flaw steps h => hin _ _ (.step (.key hv) h)
  · cases hv : es.field? "kind" with
    | none => exact .ok _
    | some v =>
      refine .into (.key (.text "kind")) ((refuses_paramKind v).mono fun flaw steps h => ?_)
      exact hin _ _ (.step (.key (Entries.mem_of_field? hv)) h)
  · exact refuses_type.mono hin
  · exact refuses_docs.mono hin

theorem refuses_paramsFrom {all vs : List Value} {i : Nat} (h : all.drop i = vs) :
    Refuses (Part (.list all)) loc (paramsFrom loc i vs) := by
  induction vs generalizing i with
  | nil => exact .ok []
  | cons v vs ih =>
    have hi : all[i]? = some v := by
      have hhead := congrArg (·[0]?) h
      simpa using hhead
    have hrest : all.drop (i + 1) = vs := by
      rw [← List.tail_drop, h]
      rfl
    refine .bind ?_ fun es hes => .bind ?_ fun p _ => .bind (ih hrest) fun ps _ => .ok _
    · exact .into (.index i) ((refuses_mapping v).mono fun flaw steps hp => .step (.index hi) hp)
    · cases v with
      | map es' =>
        obtain rfl := Except.ok.inj hes
        exact refuses_param hi
      | _ => exact absurd hes (by simp [mapping, refuse])

theorem duplicate_of_repeated? {seen : List Str} {ps : List Param} {n : Str}
    (h : repeated? seen ps = some n) :
    n ∈ seen ∧ n ∈ ps.map Param.name ∨ (ps.map Param.name).Duplicate n := by
  induction ps generalizing seen with
  | nil => cases h
  | cons p ps ih =>
    unfold repeated? at h
    by_cases hp : p.name ∈ seen
    · rw [if_pos hp] at h
      obtain rfl := Option.some.inj h
      exact .inl ⟨hp, List.mem_cons_self⟩
    · rw [if_neg hp] at h
      rcases ih h with ⟨hseen, hps⟩ | hdup
      · rcases List.mem_cons.mp hseen with rfl | hseen
        · exact .inr (.cons_mem hps)
        · exact .inl ⟨hseen, List.mem_cons_of_mem _ hps⟩
      · exact .inr (.cons_duplicate hdup)

theorem refuses_params (v : Value) : Refuses (Part v) loc (params loc v) := by
  unfold params
  by_cases hv : v.isVacant = true
  · rw [if_pos hv]
    exact .ok []
  · rw [if_neg hv]
    cases v with
    | list vs =>
      refine .bind (refuses_paramsFrom rfl) fun ps hps => ?_
      cases hn : repeated? [] ps with
      | none => exact .ok ps
      | some n =>
        have hdup : (ps.map Param.name).Duplicate n := by
          rcases duplicate_of_repeated? hn with ⟨hseen, -⟩ | hdup
          · cases hseen
          · exact hdup
        have hnames : (vs.map Schema.paramName).Duplicate (.text n) := by
          rw [names_of_paramsFrom hps, List.duplicate_iff_sublist]
          have hsub := (List.duplicate_iff_sublist.mp hdup).map Value.text
          rwa [List.map_map] at hsub
        exact .refuse (.here ⟨vs, rfl, hnames⟩ rfl)
    | _ => exact .refuse (.here nofun rfl)

/-! ### Functions and properties -/

theorem refuses_property : Refuses (Part (.map es)) loc (property loc es) :=
  .bind refuses_type fun _ _ => .bind refuses_docs fun _ _ => .ok _

theorem refuses_returns (v : Value) : Refuses (Part v) loc (returns loc v) := by
  unfold returns
  by_cases hv : v.isVacant = true
  · rw [if_pos hv]
    exact .ok _
  · rw [if_neg hv]
    refine .bind (refuses_mapping v) fun es hes => ?_
    cases v with
    | map es' =>
      obtain rfl := Except.ok.inj hes
      exact .bind refuses_type fun _ _ => .bind refuses_docs fun _ _ => .ok _
    | _ => exact absurd hes (by simp [mapping, refuse])

theorem refuses_function : Refuses (Part (.map es)) loc (function loc es) := by
  refine .bind ?_ fun ps _ => .bind ?_ fun r _ => .bind refuses_docs fun d _ => .ok _
  · exact .optional ⟨[], rfl⟩ fun v hv => (refuses_params v).mono fun flaw steps h => .step (.key hv) h
  · exact .optional ⟨{}, rfl⟩ fun v hv => (refuses_returns v).mono fun flaw steps h => .step (.key hv) h

theorem refuses_constructor (v : Value) : Refuses (Part v) loc (constructor loc v) := by
  cases v with
  | scalar s =>
    cases s with
    | null => exact .ok none
    | _ => exact .refuse (.here nofun rfl)
  | list vs => exact .refuse (.here nofun rfl)
  | foreign f => exact .refuse (.here nofun rfl)
  | map es => exact .bind refuses_function fun f _ => .ok _

/-! ### Items -/

/-- A flaw below an item, at its right place or at the place where a flaw of a type's name is put. -/
structure Wrong (v : Value) (flaw : Flaw) (steps : List Step) : Prop where
  place : flaw.Blames steps v ∨ flaw.Misnames steps v
  ofItem : flaw.isOfKind = true → ItemSteps steps

theorem Part.wrong (h : Part v flaw steps) : Wrong v flaw steps :=
  ⟨.inl h.1, fun hk => absurd hk (by simp [h.2])⟩

theorem Wrong.here (h : flaw.Offends v) : Wrong v flaw [] :=
  ⟨.inl (.here h), fun _ => .nil⟩

/-- What is wrong with a member is wrong with the item that lists it. -/
theorem Wrong.member {ms : Entries} {k : Scalar} (hm : (.text "members", .map ms) ∈ es)
    (hk : (k, v) ∈ ms) (h : Wrong v flaw steps) :
    Wrong (.map es) flaw (.key (.text "members") :: .key k :: steps) := by
  refine ⟨?_, fun hkind => .member (h.ofItem hkind)⟩
  rcases h.place with hplace | hplace
  · exact .inl (.step (.key hm) (.step (.key hk) hplace))
  · exact .inr (.step (.key hm) (.step (.key hk) hplace))

theorem refuses_itemKind : Refuses (Wrong (.map es)) loc (itemKind loc (es.field "kind")) := by
  have hunknown : (∀ k : ItemKind, es.field "kind" ≠ .text k.word) →
      Wrong (.map es) (.unknownKind (es.field "kind")) [] := fun h => .here ⟨es, rfl, rfl, h⟩
  generalize es.field "kind" = v at hunknown
  cases v with
  | scalar s =>
    cases s with
    | text s =>
      rw [itemKind]
      cases hs : ItemKind.ofWord? s with
      | some k => exact .ok k
      | none =>
        refine .refuse (hunknown fun k hk => ?_)
        obtain rfl : s = k.word := by simpa using hk
        exact absurd hs (by simp)
    | _ => exact .writing (.refuse (hunknown (by simp))) _
  | _ => exact .writing (.refuse (hunknown (by simp))) _

/-- Type text of a type's own is refused where it is. The name that stands for type text is refused at
the key for type text all the same. -/
theorem refuses_ownTy (hk : es.field "kind" = .text "type") :
    Refuses (Wrong (.map es)) loc (ownTy loc es) := by
  unfold ownTy
  split
  · exact .ok _
  · next hnull =>
    refine .into (.key (.text "ty")) ((refuses_ty _).mono ?_)
    rintro flaw steps ⟨rfl, h, hflaw⟩
    refine ⟨?_, fun hofKind => absurd hofKind (by simp [hflaw])⟩
    unfold ownTypeText at h hnull
    cases hty : es.field? "ty" with
    | some v =>
      rw [hty] at h
      exact .inl (.step (.key (Entries.mem_of_field? hty)) (.here h))
    | none =>
      rw [hty] at h hnull
      cases hname : es.field? "name" with
      | some v => exact .inr (.name hk hty hname (Entries.field_of_some hname ▸ h))
      | none => exact absurd (Entries.field_of_none hname) hnull

/-- A value that is no mapping is refused as a list of members, unless it counts as nothing. -/
theorem refuses_vacantMembers (hv : (.text "members", v) ∈ es) (hmap : ∀ ms, v ≠ .map ms) :
    Refuses (Wrong (.map es)) loc
      (if v.isVacant then .ok [] else refuse (loc.field "members") .notAMapping :
        Reading (List (Scalar × Item))) := by
  by_cases hvacant : v.isVacant = true
  · rw [if_pos hvacant]
    exact .ok []
  · rw [if_neg hvacant]
    refine .into (.key (.text "members")) (.refuse ?_)
    exact Part.wrong (.step (.key hv) (.here hmap rfl))

theorem offends_of_not_fitsTypes {i : Item} (hi : item loc v = .ok i) (hfits : fitsTypes i = false) :
    Flaw.notForTypes.Offends v := by
  cases v with
  | map sub =>
    refine ⟨sub, rfl, fun hkind => ?_⟩
    rw [← fitsTypes_iff hi, hfits] at hkind
    cases hkind
  | scalar s => cases hi
  | list vs => cases hi
  | foreign f => cases hi

mutual

/-- Whatever an item is refused for is wrong below it, by induction on the document along the functions
that read it: those for members carry the mapping in which the members are listed. -/
theorem refuses_item : ∀ (v : Value) (loc : Location), Refuses (Wrong v) loc (item loc v)
  | .scalar s, loc => .refuse (.here nofun)
  | .list vs, loc => .refuse (.here nofun)
  | .foreign f, loc => .refuse (.here nofun)
  | .map es, loc => by
    unfold item
    refine .bind refuses_itemKind fun k hk => ?_
    have hkind := itemKind_eq_ok.mp hk
    have hdocs : Refuses (Wrong (.map es)) loc (docs (loc.field "docs") (Entries.field es "docs")) :=
      refuses_docs.mono fun _ _ => Part.wrong
    cases k with
    | module =>
      have hms := refuses_membersIn es loc false fun e he => he
      exact .bind hms fun ms _ => .bind hdocs fun d _ => .ok _
    | type =>
      have hms := refuses_membersIn es loc true fun e he => he
      refine .bind hms fun ms _ => .bind ?_ fun c _ => .bind (refuses_ownTy hkind) fun t _ =>
        .bind hdocs fun d _ => .ok _
      refine .optional ⟨none, rfl⟩ fun v hv => (refuses_constructor v).mono fun flaw steps h => ?_
      exact Part.wrong (.step (.key hv) h)
    | function => exact .bind (refuses_function.mono fun _ _ => Part.wrong) fun f _ => .ok _
    | property => exact .bind (refuses_property.mono fun _ _ => Part.wrong) fun p _ => .ok _

theorem refuses_membersIn : ∀ (rest : List (Scalar × Value)) (loc : Location) (inType : Bool)
    {es : Entries}, (∀ e ∈ rest, e ∈ es) → Refuses (Wrong (.map es)) loc (membersIn loc inType rest)
  | [], loc, inType, es, hin => by
    rw [membersIn]
    exact .ok []
  | (k, v) :: rest, loc, inType, es, hin => by
    obtain ⟨hfirst, hrest⟩ := List.forall_mem_cons.mp hin
    rw [membersIn]
    by_cases hk : k.sameKey (.text "members") = true
    · rw [if_pos hk]
      obtain rfl := Scalar.sameKey_text_iff.mp hk
      exact refuses_membersOf v loc inType hfirst
    · rw [if_neg hk]
      exact refuses_membersIn rest loc inType hrest

theorem refuses_membersOf : ∀ (v : Value) (loc : Location) (inType : Bool) {es : Entries},
    (.text "members", v) ∈ es → Refuses (Wrong (.map es)) loc (membersOf loc inType v)
  | .scalar s, loc, inType, es, hv => by
    rw [membersOf]
    exact refuses_vacantMembers hv nofun
  | .list vs, loc, inType, es, hv => by
    rw [membersOf]
    exact refuses_vacantMembers hv nofun
  | .foreign f, loc, inType, es, hv => by
    rw [membersOf]
    exact refuses_vacantMembers hv nofun
  | .map ms, loc, inType, es, hv => by
    rw [membersOf]
    exact refuses_members ms loc inType hv fun e he => he

theorem refuses_members : ∀ (rest : List (Scalar × Value)) (loc : Location) (inType : Bool)
    {es ms : Entries}, (.text "members", .map ms) ∈ es → (∀ e ∈ rest, e ∈ ms) →
    Refuses (Wrong (.map es)) loc (members loc inType rest)
  | [], loc, inType, es, ms, hm, hin => by
    rw [members]
    exact .ok []
  | (k, v) :: rest, loc, inType, es, ms, hm, hin => by
    obtain ⟨hfirst, hrest⟩ := List.forall_mem_cons.mp hin
    rw [members]
    -- the place of a member is two steps in
    have hitem : Refuses (Wrong (.map es)) loc (item (loc.member k) v) := by
      refine .into (.key (.text "members")) (.into (.key k) ?_)
      exact (refuses_item v (loc.member k)).mono fun flaw steps h => h.member hm hfirst
    refine .bind (.writing hitem _) fun i hi => ?_
    obtain ⟨-, hi⟩ := writing_eq_ok.mp hi
    by_cases hfits : (inType && !fitsTypes i) = true
    · rw [if_pos hfits]
      refine .into (.key (.text "members")) (.into (.key k) (.refuse ?_))
      have hnot : fitsTypes i = false := by
        simp only [Bool.and_eq_true, Bool.not_eq_true'] at hfits
        exact hfits.2
      exact Wrong.member hm hfirst (.here (offends_of_not_fitsTypes hi hnot))
    · rw [if_neg hfits]
      exact .bind (refuses_members rest loc inType hm hrest) fun is _ => .ok _

end

end Reading

variable {es : Entries} {e : ModelError}

/-- **A refusal names a place in the document**: its steps lead from the root to a value with the flaw, or
to a key that a parameter or prose has to have, where they do not lead to the key for type text of a type
that has none and whose name has the flaw. A flaw of an item's kind is reported at the item. -/
theorem blames_of_readItem (h : readItem {} es = .error (.refused e)) : e.location.root = "$" ∧
    (e.flaw.Blames e.location.steps (.map es) ∨ e.flaw.Misnames e.location.steps (.map es)) ∧
      (e.flaw.isOfKind = true → ItemSteps e.location.steps) := by
  obtain ⟨steps, hloc, hwrong⟩ := Reading.refuses_item (.map es) {} e h
  rw [hloc]
  exact ⟨rfl, hwrong.place, hwrong.ofItem⟩

namespace NamelessParam

/-- A function with a parameter that has no name. -/
def doc : Entries :=
  [(.text "kind", .text "function"),
    (.text "params", .list [.map [(.text "kind", .text "args")]])]

def refusal : ModelError :=
  ⟨((({} : Location).field "params").nth 0).field "name", .emptyOrNotText⟩

end NamelessParam

open NamelessParam in
/-- A name that is missing is reported at its key. -/
theorem blames_of_readItem_namelessParam : readItem {} doc = .error (.refused refusal) ∧
    refusal.location.root = "$" ∧
      (refusal.flaw.Blames refusal.location.steps (.map doc) ∨
        refusal.flaw.Misnames refusal.location.steps (.map doc)) ∧
      (refusal.flaw.isOfKind = true → ItemSteps refusal.location.steps) := by
  have hread : readItem {} doc = .error (.refused refusal) := rfl
  exact ⟨hread, blames_of_readItem hread⟩

namespace NumberedType

/-- A type whose name is a number. -/
def doc : Entries :=
  [(.text "kind", .text "type"), (.text "name", .scalar (.int 5))]

def refusal : ModelError :=
  ⟨({} : Location).field "ty", .notTypeText⟩

end NumberedType

open NumberedType in
/-- A refusal at a place that is not in the document: the flaw is one of the type's name. -/
theorem not_blames_numberedType : readItem {} doc = .error (.refused refusal) ∧
    ¬ refusal.flaw.Blames refusal.location.steps (.map doc) := by
  refine ⟨rfl, fun h => ?_⟩
  cases h with
  | step hs _ =>
    cases hs with
    | key hmem => simp [doc] at hmem

end ApiPage
