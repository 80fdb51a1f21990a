import ApiPage.Proofs.Item.Naming
import ApiPage.Proofs.Item.Reading

/-!
# Reading does not depend on the place of a document

What is read at a place below `base` is what is read at the same place below any other root: the same
thing, or the same refusal with its place moved along (`Reading.placed`). The one thing that looks at the
place is a type that does not say which type it is, and as a member of another item it looks no further than
its own key. So only the type of such a document itself depends on where the document is read.
-/

namespace ApiPage

/-- The place to which the steps of a place lead from another root. -/
def Location.below (base loc : Location) : Location :=
  ⟨base.root, base.steps ++ loc.steps⟩

namespace Location

variable {base loc : Location}

theorem below_under (k : Scalar) : (base.below loc).under k = base.below (loc.under k) := by
  simp [below, under]

theorem below_field (name : Str) : (base.below loc).field name = base.below (loc.field name) :=
  below_under _

theorem below_nth (i : Nat) : (base.below loc).nth i = base.below (loc.nth i) := by
  simp [below, nth]

theorem below_member (k : Scalar) : (base.below loc).member k = base.below (loc.member k) := by
  simp only [member, below_field, below_under]

/-- A place without a root, from which no step leads. -/
def blank : Location := ⟨"", []⟩

theorem below_blank : base.below blank = base := by
  simp [below, blank]

theorem text_below : (base.below loc).text = base.text ++ Text.concat (loc.steps.map Step.text) := by
  simp [below, text, Str.append_assoc]

end Location

/-- The same fault with the place of a refusal moved below `base`. -/
def ItemFault.below (base : Location) : ItemFault → ItemFault
  | .refused e => .refused ⟨base.below e.location, e.flaw⟩
  | .unwritable => .unwritable

namespace Reading

variable {α β : Type} {base loc : Location} {v : Value} {es : Entries}

/-! ### Readings moved below another root -/

/-- The same reading with the place of a refusal moved below `base`. -/
def placed (base : Location) (r : Reading α) : Reading α :=
  r.mapError (.below base)

theorem refuse_below (flaw : Flaw) :
    refuse (base.below loc) flaw = placed base (refuse loc flaw : Reading α) := rfl

theorem writing_placed {r r' : Reading α} (h : r' = placed base r) (v : Value) :
    writing v r' = placed base (writing v r) := by
  unfold writing
  split
  · exact h
  · rfl

/-- Steps that move along one by one move along together. -/
theorem bind_placed {x x' : Reading α} {f f' : α → Reading β} (hx : x' = placed base x)
    (hf : ∀ a, x = .ok a → f' a = placed base (f a)) : (x' >>= f') = placed base (x >>= f) := by
  rw [hx]
  cases x with
  | error e => rfl
  | ok a => exact hf a rfl

theorem map_bind {γ : Type} {x : Reading α} {f : α → Reading β} {g : β → γ} :
    (x >>= f).map g = x >>= fun a => (f a).map g := by
  cases x <;> rfl

/-! ### Parts of items -/

theorem mapping_below (v : Value) : mapping (base.below loc) v = placed base (mapping loc v) := by
  cases v <;> rfl

theorem details_below (v : Value) : details (base.below loc) v = placed base (details loc v) := by
  unfold details
  split <;> rfl

theorem summary_below (v : Value) : summary (base.below loc) v = placed base (summary loc v) := by
  unfold summary
  split <;> rfl

theorem docs_below (v : Value) : docs (base.below loc) v = placed base (docs loc v) := by
  unfold docs
  split
  · rfl
  · rfl
  · rw [Location.below_field, Location.below_field]
    exact bind_placed (summary_below _) fun s _ => bind_placed (details_below _) fun d _ => rfl
  · rfl

theorem ty_below (v : Value) : ty (base.below loc) v = placed base (ty loc v) := by
  unfold ty
  split
  · rfl
  · split <;> rfl
  · rfl

theorem name_below (v : Value) : name (base.below loc) v = placed base (name loc v) := by
  unfold name
  split
  · split <;> rfl
  · rfl

theorem paramKind_below (o : Option Value) :
    paramKind (base.below loc) o = placed base (paramKind loc o) := by
  unfold paramKind
  split
  · rfl
  · split <;> rfl
  · exact writing_placed (refuse_below _) _

/-- A default is read without its place. -/
theorem default_placed (v : Value) : default v = placed base (default v) := by
  unfold default
  split
  · rfl
  · have hok : (.ok (some v.plain) : Reading (Option Str)) = placed base (.ok (some v.plain)) := rfl
    exact writing_placed hok _

theorem param_below : param (base.below loc) es = placed base (param loc es) := by
  unfold param
  simp only [Location.below_field]
  exact bind_placed (name_below _) fun n _ => bind_placed (paramKind_below _) fun k _ =>
    bind_placed (ty_below _) fun t _ => bind_placed (docs_below _) fun d _ =>
      bind_placed (default_placed _) fun w _ => rfl

theorem paramsFrom_below (i : Nat) (vs : List Value) :
    paramsFrom (base.below loc) i vs = placed base (paramsFrom loc i vs) := by
  induction vs generalizing i with
  | nil => rfl
  | cons v vs ih =>
    unfold paramsFrom
    rw [Location.below_nth]
    exact bind_placed (mapping_below v) fun es _ => bind_placed param_below fun p _ =>
      bind_placed (ih (i + 1)) fun ps _ => rfl

theorem params_below (v : Value) : params (base.below loc) v = placed base (params loc v) := by
  unfold params
  split
  · rfl
  · split
    · refine bind_placed (paramsFrom_below 0 _) fun ps _ => ?_
      split <;> rfl
    · rfl

theorem property_below : property (base.below loc) es = placed base (property loc es) := by
  unfold property
  simp only [Location.below_field]
  exact bind_placed (ty_below _) fun t _ => bind_placed (docs_below _) fun d _ => rfl

theorem returns_below (v : Value) : returns (base.below loc) v = placed base (returns loc v) := by
  unfold returns
  simp only [Location.below_field]
  split
  · exact bind_placed rfl fun es _ => bind_placed (ty_below _) fun t _ =>
      bind_placed (docs_below _) fun d _ => rfl
  · exact bind_placed (mapping_below v) fun es _ => bind_placed (ty_below _) fun t _ =>
      bind_placed (docs_below _) fun d _ => rfl

theorem function_below : function (base.below loc) es = placed base (function loc es) := by
  unfold function
  simp only [Location.below_field]
  exact bind_placed (params_below _) fun ps _ => bind_placed (returns_below _) fun r _ =>
    bind_placed (docs_below _) fun d _ => rfl

theorem constructor_below (v : Value) :
    constructor (base.below loc) v = placed base (constructor loc v) := by
  unfold constructor
  split
  · rfl
  · exact bind_placed function_below fun f _ => rfl
  · rfl

theorem itemKind_below (v : Value) : itemKind (base.below loc) v = placed base (itemKind loc v) := by
  unfold itemKind
  split
  · split <;> rfl
  · exact writing_placed (refuse_below _) _

/-! ### Items -/

/-- The name of a member is found at its key, below whatever root. -/
theorem listedTy_member_below (k : Scalar) :
    listedTy (base.below (loc.member k)) = listedTy (loc.member k) := by
  obtain ⟨name, hname⟩ := Location.exists_keyNames k.plain
  unfold listedTy
  rw [← Location.below_member, Location.innermost?_member _ hname, Location.innermost?_member _ hname]

theorem ownTy_below (h : Schema.ownType es = .null → listedTy (base.below loc) = listedTy loc) :
    ownTy (base.below loc) es = placed base (ownTy loc es) := by
  unfold ownTy
  split
  · next hnull => rw [h (ownTypeText_eq es ▸ hnull)]; rfl
  · rw [Location.below_field]
    exact ty_below _

mutual

/-- An item is read alike below any root, unless it is a type that is named after its place and the name is
another there; by induction on the document along the functions that read it. The members of an item stand
at their keys, so nothing has to be known of them. -/
theorem item_below : ∀ (v : Value) (loc : Location),
    (∀ es : Entries, v = .map es → es.field "kind" = .text "type" → Schema.ownType es = .null →
      listedTy (base.below loc) = listedTy loc) →
    item (base.below loc) v = placed base (item loc v)
  | .scalar s, loc, _ => rfl
  | .list vs, loc, _ => rfl
  | .foreign f, loc, _ => rfl
  | .map es, loc, h => by
    have hms := fun inType => membersIn_below es loc inType
    have hd : docs ((base.below loc).field "docs") (Entries.field es "docs") =
        placed base (docs (loc.field "docs") (Entries.field es "docs")) := by
      rw [Location.below_field]
      exact docs_below _
    unfold item
    refine bind_placed (itemKind_below _) fun k hk => ?_
    cases k with
    | module => exact bind_placed (hms false) fun ms _ => bind_placed hd fun d _ => rfl
    | type =>
      -- the one kind of item that looks at its place
      have hc : constructor ((base.below loc).field "constructor") (Entries.field es "constructor") =
          placed base (constructor (loc.field "constructor") (Entries.field es "constructor")) := by
        rw [Location.below_field]
        exact constructor_below _
      exact bind_placed (hms true) fun ms _ => bind_placed hc fun c _ =>
        bind_placed (ownTy_below (h es rfl (itemKind_eq_ok.mp hk))) fun t _ => bind_placed hd fun d _ => rfl
    | function => exact bind_placed function_below fun f _ => rfl
    | property => exact bind_placed property_below fun p _ => rfl

theorem membersIn_below : ∀ (es : List (Scalar × Value)) (loc : Location) (inType : Bool),
    membersIn (base.below loc) inType es = placed base (membersIn loc inType es)
  | [], loc, inType => by
    rw [membersIn, membersIn]
    rfl
  | (k, v) :: rest, loc, inType => by
    rw [membersIn, membersIn]
    split
    · exact membersOf_below v loc inType
    · exact membersIn_below rest loc inType

theorem membersOf_below : ∀ (v : Value) (loc : Location) (inType : Bool),
    membersOf (base.below loc) inType v = placed base (membersOf loc inType v)
  | .scalar s, loc, inType => by
    rw [membersOf, membersOf, Location.below_field]
    split <;> rfl
  | .list vs, loc, inType => by
    rw [membersOf, membersOf, Location.below_field]
    split <;> rfl
  | .foreign f, loc, inType => by
    rw [membersOf, membersOf, Location.below_field]
    split <;> rfl
  | .map ms, loc, inType => by
    rw [membersOf, membersOf]
    exact members_below ms loc inType

theorem members_below : ∀ (ms : List (Scalar × Value)) (loc : Location) (inType : Bool),
    members (base.below loc) inType ms = placed base (members loc inType ms)
  | [], loc, inType => by
    rw [members, members]
    rfl
  | (k, v) :: rest, loc, inType => by
    have hitem := item_below v (loc.member k) fun _ _ _ _ => listedTy_member_below k
    rw [members, members, Location.below_member]
    refine bind_placed (writing_placed hitem _) fun i _ => ?_
    split
    · rfl
    · exact bind_placed (members_below rest loc inType) fun is _ => rfl

end

/-- A type that does not say which type it is, without its own type. -/
def unnamedType (loc : Location) (es : Entries) :
    Reading (Option Docs × Option Function × List (Scalar × Item)) := do
  let ms ← membersIn loc true es
  let c ← constructor (loc.field "constructor") (es.field "constructor")
  let d ← docs (loc.field "docs") (es.field "docs")
  .ok (d, c, ms)

theorem unnamedType_below : unnamedType (base.below loc) es = placed base (unnamedType loc es) := by
  unfold unnamedType
  simp only [Location.below_field]
  exact bind_placed (membersIn_below es loc true) fun ms _ => bind_placed (constructor_below _) fun c _ =>
    bind_placed (docs_below _) fun d _ => rfl

/-- The place of such a type says nothing but its own type. -/
theorem item_of_unnamed (hk : es.field "kind" = .text "type") (hnull : Schema.ownType es = .null) :
    item loc (.map es) = (unnamedType loc es).map fun p => .type p.1 p.2.1 p.2.2 (listedTy loc) := by
  have hkind : itemKind loc (es.field "kind") = .ok .type := itemKind_eq_ok.mpr hk
  have hown : ownTy loc es = .ok (listedTy loc) := by
    rw [ownTy, ownTypeText_eq, hnull]
  unfold item unnamedType
  rw [hkind, hown]
  simp only [map_bind]
  rfl

end Reading

/-! ### Documents -/

/-- A document gives no item for one fault, at the same steps wherever it is read, or gives one item wherever
it is read, or gives a type that is the same but for its own type, which the document does not say. -/
theorem readItem_cases (es : Entries) :
    (∃ e : ItemFault, ∀ loc : Location, readItem loc es = .error (e.below loc)) ∨
      (∃ i, ∀ loc, readItem loc es = .ok i) ∨
      Schema.ownType es = .null ∧
        ∃ d c ms, ∀ loc, readItem loc es = .ok (.type d c ms (Reading.listedTy loc)) := by
  by_cases h : es.field "kind" = .text "type" ∧ Schema.ownType es = .null
  · obtain ⟨hk, hnull⟩ := h
    have hread : ∀ loc : Location, readItem loc es =
        (Reading.placed loc (Reading.unnamedType .blank es)).map fun p =>
          .type p.1 p.2.1 p.2.2 (Reading.listedTy loc) := by
      intro loc
      rw [← Reading.unnamedType_below, Location.below_blank]
      exact Reading.item_of_unnamed hk hnull
    cases hparts : Reading.unnamedType .blank es with
    | error e => exact .inl ⟨e, fun loc => by rw [hread, hparts]; rfl⟩
    | ok p => exact .inr (.inr ⟨hnull, p.1, p.2.1, p.2.2, fun loc => by rw [hread, hparts]; rfl⟩)
  · have hread : ∀ loc : Location, readItem loc es = Reading.placed loc (readItem .blank es) := by
      intro loc
      have hitem : Reading.item (loc.below .blank) (.map es) = Reading.placed loc (readItem .blank es) := by
        refine Reading.item_below (.map es) .blank fun es' hes hk hnull => ?_
        obtain rfl : es = es' := Value.map.inj hes
        exact absurd ⟨hk, hnull⟩ h
      rwa [Location.below_blank] at hitem
    cases hblank : readItem .blank es with
    | error e => exact .inl ⟨e, fun loc => by rw [hread, hblank]; rfl⟩
    | ok i => exact .inr (.inl ⟨i, fun loc => by rw [hread, hblank]; rfl⟩)

/-- **Reading does not depend on where a document stands.** A place is any text and steps behind it. At any
two places a document is refused for the same flaws at the same steps behind the place, and it is accepted at
both or at none, as a number that cannot be written ends reading at both or at none; and the items that are
read at both are equal, but for the own type of a type that does not say which type it is. -/
theorem readItem_relocated (es : Entries) (loc loc' : Location) :
    (∀ s m, (∃ e, readItem loc es = .error (.refused e) ∧ e.location.text = loc.text ++ s ∧
        e.flaw.message = m) ↔
      ∃ e, readItem loc' es = .error (.refused e) ∧ e.location.text = loc'.text ++ s ∧
        e.flaw.message = m) ∧
      (∀ e, readItem loc es = .error (.refused e) → ∃ s, e.location.text = loc.text ++ s) ∧
      (readItem loc es = .error .unwritable ↔ readItem loc' es = .error .unwritable) ∧
      ((∃ i, readItem loc es = .ok i) ↔ ∃ j, readItem loc' es = .ok j) ∧
      ∀ i j, readItem loc es = .ok i → readItem loc' es = .ok j → i = j ∨
        Schema.ownType es = .null ∧ ∃ d c ms t t', i = .type d c ms t ∧ j = .type d c ms t' := by
  rcases readItem_cases es with ⟨e | _, h⟩ | ⟨i, h⟩ | ⟨hnull, d, c, ms, h⟩
  · have hread : ∀ l : Location, readItem l es = .error (.refused ⟨l.below e.location, e.flaw⟩) := h
    have htext : ∀ l : Location, ∀ s m, (∃ e', readItem l es = .error (.refused e') ∧
        e'.location.text = l.text ++ s ∧ e'.flaw.message = m) ↔
          Text.concat (e.location.steps.map Step.text) = s ∧ e.flaw.message = m := by
      intro l s m
      simp only [hread, Except.error.injEq, ItemFault.refused.injEq, ↓existsAndEq, true_and,
        Location.text_below, Str.append_right_inj]
    refine ⟨fun s m => (htext loc s m).trans (htext loc' s m).symm, ?_, ?_, ?_, ?_⟩
    · intro e' he
      obtain rfl := ItemFault.refused.inj (Except.error.inj ((hread loc).symm.trans he))
      exact ⟨_, Location.text_below⟩
    · simp [hread]
    · simp [hread]
    · simp [hread]
  · have hread : ∀ l : Location, readItem l es = .error .unwritable := h
    simp [hread]
  · simp [h]
  · simp [h, hnull]

/-- The place of a document may say the own type of a type. -/
example : readItem ⟨"shapes.members.Box", []⟩ [(.text "kind", .text "type")] =
    .ok (.type none none [] (Ty.named "Box")) := rfl

end ApiPage
