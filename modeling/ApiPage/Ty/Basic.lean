import ApiPage.Text.Pieces

/-!
# Types

A type is an ordered union of variants; the union of one variant is an ordinary type and the empty
union is `Never`. `Ty.ofVariants` and `Ty.unions` build unions without repeats, in the order of first
occurrence, and `Ty.text` is the canonical text of a type.
-/

namespace ApiPage

/-- One alternative of a type. A tuple is fixed, or has any number of members of its one element type
if it is variadic. -/
inductive Variant
  | any
  | name (text : Str)
  | list (item : List Variant)
  | tuple (elems : List (List Variant)) (variadic : Bool)
  | dict (key value : List Variant)
  deriving Repr

/-- A type: the union of its variants, in order. -/
abbrev Ty := List Variant

/-! ### Equality is structural -/

mutual

/-- Structural equality of variants. -/
def Variant.same : Variant → Variant → Bool
  | .any, .any => true
  | .name s, .name t => s == t
  | .list a, .list b => Ty.same a b
  | .tuple as v, .tuple bs w => Ty.sameAll as bs && v == w
  | .dict a b, .dict c d => Ty.same a c && Ty.same b d
  | _, _ => false

/-- Structural equality of types. -/
def Ty.same : List Variant → List Variant → Bool
  | [], [] => true
  | v :: a, w :: b => v.same w && Ty.same a b
  | _, _ => false

/-- Structural equality of lists of types. -/
def Ty.sameAll : List (List Variant) → List (List Variant) → Bool
  | [], [] => true
  | a :: as, b :: bs => Ty.same a b && Ty.sameAll as bs
  | _, _ => false

end

mutual

theorem Variant.same_iff : (v w : Variant) → (v.same w = true ↔ v = w)
  | .any, w => by cases w <;> simp [Variant.same]
  | .name s, w => by cases w <;> simp [Variant.same]
  | .list a, w => by
    cases w with
    | list b => simp [Variant.same, Ty.same_iff a b]
    | _ => simp [Variant.same]
  | .tuple as v, w => by
    cases w with
    | tuple bs x => simp [Variant.same, Ty.sameAll_iff as bs]
    | _ => simp [Variant.same]
  | .dict a b, w => by
    cases w with
    | dict c d => simp [Variant.same, Ty.same_iff a c, Ty.same_iff b d]
    | _ => simp [Variant.same]

theorem Ty.same_iff : (a b : List Variant) → (Ty.same a b = true ↔ a = b)
  | [], b => by cases b <;> simp [Ty.same]
  | v :: a, b => by
    cases b with
    | nil => simp [Ty.same]
    | cons w b => simp [Ty.same, Variant.same_iff v w, Ty.same_iff a b]

theorem Ty.sameAll_iff : (as bs : List (List Variant)) → (Ty.sameAll as bs = true ↔ as = bs)
  | [], bs => by cases bs <;> simp [Ty.sameAll]
  | a :: as, bs => by
    cases bs with
    | nil => simp [Ty.sameAll]
    | cons b bs => simp [Ty.sameAll, Ty.same_iff a b, Ty.sameAll_iff as bs]

end

instance : DecidableEq Variant := fun v w => decidable_of_iff _ (Variant.same_iff v w)

namespace Ty

/-! ### Building types -/

/-- The type that says nothing about a shape. -/
def any : Ty := [.any]

/-- The type without values. -/
def never : Ty := []

/-- A type known by its name only. -/
def named (s : Str) : Ty := [.name s]

/-- Lists of a type. -/
def listOf (item : Ty) : Ty := [.list item]

/-- Tuples of any length of a type. -/
def tupleOf (item : Ty) : Ty := [.tuple [item] true]

/-- Mappings from one type to another. -/
def dictOf (key value : Ty) : Ty := [.dict key value]

/-- A union with one alternative more, unless it has it already. -/
def add (t : Ty) (v : Variant) : Ty :=
  if v ∈ t then t else t ++ [v]

/-- The union of variants, each at its first occurrence. -/
def ofVariants (vs : List Variant) : Ty :=
  vs.foldl add []

/-- The union of types. -/
def unions (ts : List Ty) : Ty :=
  ofVariants ts.flatten

theorem mem_add {t : Ty} {v w : Variant} : w ∈ t.add v ↔ w ∈ t ∨ w = v := by
  unfold add
  split
  · constructor
    · exact Or.inl
    · rintro (h | rfl) <;> assumption
  · simp

theorem nodup_add {t : Ty} {v : Variant} (h : t.Nodup) : (t.add v).Nodup := by
  unfold add
  split
  · exact h
  · next hv => exact List.nodup_append.2 ⟨h, by simp, by rintro a ha b hb rfl; simp_all⟩

/-- Adding variants one by one keeps what is there and appends what is new. -/
theorem mem_foldl_add {t vs : List Variant} {w : Variant} :
    w ∈ vs.foldl add t ↔ w ∈ t ∨ w ∈ vs := by
  induction vs generalizing t with
  | nil => simp
  | cons v vs ih => rw [List.foldl_cons, ih, mem_add, List.mem_cons, or_assoc]

theorem nodup_foldl_add {t : Ty} (vs : List Variant) (h : t.Nodup) : (vs.foldl add t).Nodup := by
  induction vs generalizing t with
  | nil => exact h
  | cons v vs ih => exact ih (nodup_add h)

@[simp] theorem mem_ofVariants {vs : List Variant} {w : Variant} : w ∈ ofVariants vs ↔ w ∈ vs := by
  simp [ofVariants, mem_foldl_add]

theorem nodup_ofVariants (vs : List Variant) : (ofVariants vs).Nodup :=
  nodup_foldl_add vs List.nodup_nil

theorem foldl_add_of_nodup {t vs : List Variant} (h : (t ++ vs).Nodup) :
    vs.foldl add t = t ++ vs := by
  induction vs generalizing t with
  | nil => simp
  | cons v vs ih =>
    have hv : v ∉ t := fun hm =>
      (List.nodup_append.1 h).2.2 v hm v List.mem_cons_self rfl
    rw [List.foldl_cons, add, if_neg hv, ih (by simpa using h)]
    simp

/-- A list without repeats is its own union. -/
theorem ofVariants_of_nodup {vs : List Variant} (h : vs.Nodup) : ofVariants vs = vs := by
  simpa [ofVariants] using (foldl_add_of_nodup (by simpa using h) : vs.foldl add [] = [] ++ vs)

@[simp] theorem mem_unions {ts : List Ty} {w : Variant} : w ∈ unions ts ↔ ∃ t ∈ ts, w ∈ t := by
  simp [unions]

theorem nodup_unions (ts : List Ty) : (unions ts).Nodup :=
  nodup_ofVariants _

/-! ### Reading types -/

/-- Exactly the type that says nothing. -/
def isAny (t : Ty) : Bool := t = any

/-- Exactly the type without values. -/
def isNever (t : Ty) : Bool := t.isEmpty

end Ty

/-! ### Canonical text -/

mutual

/-- The canonical text of a variant. -/
def Variant.text : Variant → Str
  | .any => "Any"
  | .name s => s
  | .list item => "list[" ++ Ty.text item ++ "]"
  | .tuple [] _ => "tuple[()]"
  | .tuple (e :: es) variadic =>
    if variadic then "tuple[" ++ Ty.text e ++ ", ...]"
    else "tuple[" ++ Text.joinWith ", " (Ty.text e :: Ty.texts es) ++ "]"
  | .dict key value => "dict[" ++ Ty.text key ++ ", " ++ Ty.text value ++ "]"

/-- The canonical text of a type: its variants between bars. -/
def Ty.text : List Variant → Str
  | [] => "Never"
  | v :: vs => Text.joinWith " | " (v.text :: Ty.variantTexts vs)

/-- The canonical texts of variants. -/
def Ty.variantTexts : List Variant → List Str
  | [] => []
  | v :: vs => v.text :: Ty.variantTexts vs

/-- The canonical texts of types. -/
def Ty.texts : List (List Variant) → List Str
  | [] => []
  | t :: ts => Ty.text t :: Ty.texts ts

end

/-! ### Types that have a text -/

mutual

/-- Has a variant a canonical text? A tuple of any length has one only with a type of its elements. -/
def Variant.hasText : Variant → Bool
  | .any => true
  | .name _ => true
  | .list item => Ty.hasText item
  | .tuple [] variadic => !variadic
  | .tuple (e :: es) variadic => Ty.hasText e && (variadic || Ty.allHaveText es)
  | .dict key value => Ty.hasText key && Ty.hasText value

/-- Has a type a canonical text? -/
def Ty.hasText : List Variant → Bool
  | [] => true
  | v :: vs => v.hasText && Ty.hasText vs

/-- Have types canonical texts? -/
def Ty.allHaveText : List (List Variant) → Bool
  | [] => true
  | t :: ts => Ty.hasText t && Ty.allHaveText ts

end

@[simp] theorem Ty.hasText_any : Ty.hasText Ty.any = true := rfl

@[simp] theorem Ty.hasText_never : Ty.hasText Ty.never = true := rfl

end ApiPage
