import ApiPage.Proofs.Ty.Unions
import ApiPage.Ty.Unpack

/-!
# What a variadic parameter gives

A projection looks into the variants of one shape and takes what they hold; of any other variant it knows
nothing, so that one contributes `Any`. `Ty.Projects` says what such a projection is, for any shape; the
projections to the members of sequences and to the values of mappings are two of them.
-/

namespace ApiPage

/-- The variants of the members of a sequence, if a variant is one. -/
def Variant.items? : Variant → Option (List Variant)
  | .list item => some item
  | .tuple elems _ => some elems.flatten
  | _ => none

/-- The variants of the values of a mapping, if a variant is one. -/
def Variant.values? : Variant → Option (List Variant)
  | .dict _ value => some value
  | _ => none

namespace Ty

variable {inside? : Variant → Option (List Variant)} {project : Ty → Ty}

/-- What the variants of a type contribute, one after the other: what is inside a variant of the shape,
and `Any` for a variant of another one. -/
def contributions (inside? : Variant → Option (List Variant)) (t : Ty) : List Variant :=
  t.flatMap fun v => (inside? v).getD any

/-- `Projects inside? project`: `project` takes what is inside the variants of the shape that `inside?`
looks into. -/
structure Projects (inside? : Variant → Option (List Variant)) (project : Ty → Ty) : Prop where
  /-- The projection of a union is the union of the projections. -/
  unions : ∀ ts, project (Ty.unions ts) = Ty.unions (ts.map project)
  /-- No variant twice, and each at the place of its first contribution. -/
  collects : ∀ t, (project t).Collects (contributions inside? t)
  mem_iff : ∀ t v, v ∈ project t ↔
    (∃ w ∈ t, ∃ vs, inside? w = some vs ∧ v ∈ vs) ∨ v = .any ∧ ∃ w ∈ t, inside? w = none
  never_iff : ∀ t, project t = never ↔ ∀ w ∈ t, inside? w = some []

theorem mem_contributions {t : Ty} {v : Variant} : v ∈ contributions inside? t ↔
    (∃ w ∈ t, ∃ vs, inside? w = some vs ∧ v ∈ vs) ∨ v = .any ∧ ∃ w ∈ t, inside? w = none := by
  rw [contributions, List.mem_flatMap]
  constructor
  · rintro ⟨w, hw, hv⟩
    cases hin : inside? w with
    | none =>
      rw [hin] at hv
      exact .inr ⟨List.mem_singleton.mp hv, w, hw, hin⟩
    | some vs =>
      rw [hin] at hv
      exact .inl ⟨w, hw, vs, hin, hv⟩
  · rintro (⟨w, hw, vs, hin, hv⟩ | ⟨rfl, w, hw, hin⟩)
    · refine ⟨w, hw, ?_⟩
      rw [hin]
      exact hv
    · refine ⟨w, hw, ?_⟩
      rw [hin]
      exact List.mem_singleton_self _

theorem contributions_eq_nil {t : Ty} :
    contributions inside? t = [] ↔ ∀ w ∈ t, inside? w = some [] := by
  rw [contributions, List.flatMap_eq_nil_iff]
  refine forall₂_congr fun w _ => ?_
  cases hin : inside? w with
  | none => simp [any]
  | some vs => simp

theorem ofVariants_eq_nil {vs : List Variant} : ofVariants vs = [] ↔ vs = [] := by
  rw [List.eq_nil_iff_forall_not_mem, List.eq_nil_iff_forall_not_mem]
  simp

/-- The union of what the variants of a type contribute is a projection. -/
theorem projects_of_eq (h : ∀ t, project t = ofVariants (contributions inside? t)) :
    Projects inside? project := by
  refine ⟨fun ts => ?_, fun t => ?_, fun t v => ?_, fun t => ?_⟩
  · have hparts : ofVariants (ts.flatMap project) = ofVariants (ts.flatMap (contributions inside?)) :=
      ofVariants_flatMap_congr ts fun t => by rw [h t, ofVariants_ofVariants]
    calc project (Ty.unions ts)
        = ofVariants ((ofVariants ts.flatten).flatMap fun v => (inside? v).getD any) := h _
      _ = ofVariants (ts.flatten.flatMap fun v => (inside? v).getD any) :=
        ofVariants_flatMap_ofVariants _ ts.flatten
      _ = ofVariants (ts.flatMap (contributions inside?)) := by
        rw [← List.flatMap_id, List.flatMap_assoc]
        rfl
      _ = Ty.unions (ts.map project) := hparts.symm
  · rw [h t]
    exact collects_ofVariants _
  · rw [h t, mem_ofVariants, mem_contributions]
  · rw [h t, never, ofVariants_eq_nil, contributions_eq_nil]

/-- A tuple is looked into through the union of its element types, which has what these have. -/
theorem unpackArgs_eq (t : Ty) : unpackArgs t = ofVariants (contributions Variant.items? t) := by
  rw [unpackArgs, unions_map_eq, contributions]
  refine ofVariants_flatMap_congr t fun v => ?_
  cases v with
  | tuple elems _ => exact ofVariants_ofVariants elems.flatten
  | _ => rfl

theorem unpackKwargs_eq (t : Ty) : unpackKwargs t = ofVariants (contributions Variant.values? t) := by
  rw [unpackKwargs, unions_map_eq, contributions]
  refine ofVariants_flatMap_congr t fun v => ?_
  cases v <;> rfl

/-- **Both projections carry unions to unions**, and have the variants inside those of their shape, `Any`
for others, each once and in the order of first contribution; nothing is left exactly if all variants are
of the shape and nothing is inside. -/
theorem unpack_projects :
    Projects Variant.items? unpackArgs ∧ Projects Variant.values? unpackKwargs :=
  ⟨projects_of_eq unpackArgs_eq, projects_of_eq unpackKwargs_eq⟩

/-- A list without a type of its members and a tuple without members have nothing inside, a name is of
another shape, and `int` counts where the list of it stands. -/
example : unpackArgs [.list never, .tuple [] false] = never ∧
    unpackArgs [.list [.name "int", .any], .name "str", .tuple [named "str", named "int"] false] =
      [.name "int", .any, .name "str"] := by
  decide

end Ty

end ApiPage
