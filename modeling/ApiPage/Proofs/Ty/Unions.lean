import ApiPage.Ty.Basic
import Mathlib.Data.List.Induction
import Mathlib.Data.List.Basic

/-!
# Unions as sets in an order

A union has the variants of its parts, each once and at the place of its first occurrence. So it does not
matter how the parts are grouped, and a part may be made a union before or after something is made of its
variants (`ofVariants_flatMap_congr`, `ofVariants_flatMap_ofVariants`).
-/

namespace ApiPage.Ty

variable {t u : Ty} {vs : List Variant} {v : Variant}

/-! ### First occurrences -/

/-- `t.Collects vs`: `t` has the variants of `vs`, none of them twice, and they stand in the order of their
first occurrences in `vs`. -/
structure Collects (t : Ty) (vs : List Variant) : Prop where
  mem_iff : ∀ v, v ∈ t ↔ ∃ w ∈ vs, w.same v = true
  nodup : t.Nodup
  order : t.Pairwise fun v w => vs.idxOf v < vs.idxOf w

theorem exists_same_iff : (∃ w ∈ vs, w.same v = true) ↔ v ∈ vs := by
  constructor
  · rintro ⟨w, hw, hsame⟩
    rwa [← (Variant.same_iff w v).mp hsame]
  · intro hv
    exact ⟨v, hv, (Variant.same_iff v v).mpr rfl⟩

/-- What was looked through first comes first also when more is looked through. -/
theorem order_append (hmem : ∀ v ∈ t, v ∈ vs) (h : t.Pairwise fun v w => vs.idxOf v < vs.idxOf w)
    (ws : List Variant) : t.Pairwise fun v w => (vs ++ ws).idxOf v < (vs ++ ws).idxOf w := by
  refine h.imp_of_mem fun {a b} ha hb hab => ?_
  rw [List.idxOf_append_of_mem (hmem a ha), List.idxOf_append_of_mem (hmem b hb)]
  exact hab

/-- What occurs for the first time comes last. -/
theorem order_concat (hmem : ∀ v ∈ t, v ∈ vs) (h : t.Pairwise fun v w => vs.idxOf v < vs.idxOf w)
    (hv : v ∉ vs) :
    (t ++ [v]).Pairwise fun a b => (vs ++ [v]).idxOf a < (vs ++ [v]).idxOf b := by
  refine List.pairwise_append.mpr ⟨order_append hmem h [v], List.pairwise_singleton _ v, ?_⟩
  intro a ha b hb
  obtain rfl := List.mem_singleton.mp hb
  have hlt : vs.idxOf a < vs.length := List.idxOf_lt_length_of_mem (hmem a ha)
  rw [List.idxOf_append_of_mem (hmem a ha), List.idxOf_append_of_notMem hv]
  omega

/-- One variant more is put at the end, unless it is there already. -/
theorem Collects.add (h : t.Collects vs) (v : Variant) : (t.add v).Collects (vs ++ [v]) := by
  have hin : ∀ w ∈ t, w ∈ vs := fun w hw => exists_same_iff.mp ((h.mem_iff w).mp hw)
  refine ⟨fun w => ?_, nodup_add h.nodup, ?_⟩
  · rw [mem_add, h.mem_iff, exists_same_iff, exists_same_iff, List.mem_append, List.mem_singleton]
  · unfold Ty.add
    by_cases hv : v ∈ t
    · rw [if_pos hv]
      exact order_append hin h.order [v]
    · rw [if_neg hv]
      have hnew : v ∉ vs := fun hvs => hv ((h.mem_iff v).mpr (exists_same_iff.mpr hvs))
      exact order_concat hin h.order hnew

theorem ofVariants_concat (vs : List Variant) (v : Variant) :
    ofVariants (vs ++ [v]) = (ofVariants vs).add v := by
  rw [ofVariants, List.foldl_append]
  rfl

theorem collects_ofVariants (vs : List Variant) : (ofVariants vs).Collects vs := by
  induction vs using List.reverseRecOn with
  | nil => exact ⟨by simp [ofVariants], List.nodup_nil, List.Pairwise.nil⟩
  | append_singleton vs v ih =>
    rw [ofVariants_concat]
    exact ih.add v

/-- The first occurrences of a list of variants are one type. -/
theorem Collects.eq (h : t.Collects vs) (h' : u.Collects vs) : t = u := by
  have hmem : ∀ v, v ∈ t ↔ v ∈ u := fun v => (h.mem_iff v).trans (h'.mem_iff v).symm
  have hperm : t.Perm u := (List.perm_ext_iff_of_nodup h.nodup h'.nodup).mpr hmem
  refine hperm.eq_of_pairwise (fun a b _ _ hab hba => ?_) h.order h'.order
  exact absurd hab (Nat.lt_asymm hba)

theorem collects_iff : t.Collects vs ↔ t = ofVariants vs := by
  constructor
  · intro h
    exact h.eq (collects_ofVariants vs)
  · rintro rfl
    exact collects_ofVariants vs

theorem collects_unions (ts : List Ty) : (unions ts).Collects ts.flatten :=
  collects_ofVariants ts.flatten

theorem collects_unions_iff {ts : List Ty} : t.Collects ts.flatten ↔ t = unions ts :=
  collects_iff

/-! ### Unions of unions -/

/-- Adding what is there changes nothing. -/
theorem foldl_add_of_subset (h : ∀ v ∈ vs, v ∈ t) : vs.foldl add t = t := by
  induction vs with
  | nil => rfl
  | cons v vs ih =>
    obtain ⟨hv, hvs⟩ := List.forall_mem_cons.mp h
    rw [List.foldl_cons, add, if_pos hv, ih hvs]

/-- Whatever the variants are made into: a variant that occurs again adds nothing. -/
theorem foldl_add_flatMap_ofVariants (f : Variant → List Variant) (t : Ty) (vs : List Variant) :
    ((ofVariants vs).flatMap f).foldl add t = (vs.flatMap f).foldl add t := by
  induction vs using List.reverseRecOn with
  | nil => rfl
  | append_singleton vs v ih =>
    rw [ofVariants_concat, List.flatMap_append, List.foldl_append, ← ih, List.flatMap_singleton]
    unfold Ty.add
    by_cases hv : v ∈ ofVariants vs
    · -- all that the variant is made into was added when it occurred for the first time
      rw [if_pos hv]
      refine (foldl_add_of_subset fun w hw => ?_).symm
      exact mem_foldl_add.mpr (.inr (List.mem_flatMap.mpr ⟨v, hv, hw⟩))
    · rw [if_neg hv, List.flatMap_append, List.foldl_append, List.flatMap_singleton]

/-- Repeats may be left out before the variants are made into others. -/
theorem ofVariants_flatMap_ofVariants (f : Variant → List Variant) (vs : List Variant) :
    ofVariants ((ofVariants vs).flatMap f) = ofVariants (vs.flatMap f) :=
  foldl_add_flatMap_ofVariants f [] vs

theorem foldl_add_ofVariants (t : Ty) (vs : List Variant) :
    (ofVariants vs).foldl add t = vs.foldl add t := by
  have h := foldl_add_flatMap_ofVariants (fun v => [v]) t vs
  rwa [List.flatMap_singleton', List.flatMap_singleton'] at h

theorem ofVariants_append (vs ws : List Variant) :
    ofVariants (vs ++ ws) = (ofVariants ws).foldl add (ofVariants vs) := by
  rw [foldl_add_ofVariants, ofVariants, List.foldl_append]
  rfl

/-- Parts may be replaced by parts of the same union. -/
theorem ofVariants_flatMap_congr {α : Type} {f g : α → List Variant} (as : List α)
    (h : ∀ a, ofVariants (f a) = ofVariants (g a)) :
    ofVariants (as.flatMap f) = ofVariants (as.flatMap g) := by
  induction as using List.reverseRecOn with
  | nil => rfl
  | append_singleton as a ih =>
    rw [List.flatMap_append, List.flatMap_append, ofVariants_append, ofVariants_append, ih,
      List.flatMap_singleton, List.flatMap_singleton, h a]

@[simp] theorem ofVariants_ofVariants (vs : List Variant) : ofVariants (ofVariants vs) = ofVariants vs :=
  ofVariants_of_nodup (nodup_ofVariants vs)

theorem unions_map_eq {α : Type} (f : α → Ty) (as : List α) :
    unions (as.map f) = ofVariants (as.flatMap f) :=
  rfl

/-- Parts may be united in groups first. -/
theorem unions_map_unions (groups : List (List Ty)) :
    unions (groups.map unions) = unions groups.flatten := by
  have hgroups : ofVariants (groups.flatMap unions) = ofVariants (groups.flatMap List.flatten) :=
    ofVariants_flatMap_congr groups fun ts => ofVariants_ofVariants ts.flatten
  rw [unions_map_eq, hgroups, unions, List.flatMap_def, List.flatten_flatten]

/-- **The union of types is set union in the order of first occurrence.** It is the one type that has each
variant of the parts once, where it occurs first. How the parts are grouped does not matter, a part without
variants adds nothing wherever it stands, and uniting again changes nothing. -/
theorem unions_collects (ts before after : List Ty) (groups : List (List Ty)) :
    (∀ t, t.Collects ts.flatten ↔ t = unions ts) ∧
      unions (groups.map unions) = unions groups.flatten ∧
      unions (before ++ never :: after) = unions (before ++ after) ∧
      unions [unions ts] = unions ts ∧ unions (ts ++ ts) = unions ts := by
  refine ⟨fun t => collects_unions_iff, unions_map_unions groups, ?_, ?_, ?_⟩
  · have hnone : (before ++ never :: after).flatten = (before ++ after).flatten := by
      rw [List.flatten_append, List.flatten_cons, List.flatten_append]
      rfl
    rw [unions, hnone, unions]
  · have hgroup := unions_map_unions [ts]
    rwa [List.map_singleton, List.flatten_singleton] at hgroup
  · rw [unions, List.flatten_append, ofVariants_append]
    exact foldl_add_of_subset fun v hv => hv

end ApiPage.Ty
