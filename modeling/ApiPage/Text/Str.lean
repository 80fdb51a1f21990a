/-!
# Texts with surrogates

A document may hold a surrogate that stands alone: it has a number, as every character has, but it is none,
and no encoding has bytes for it. `Str` is a text as a document holds it. It is whole, a `String`, or broken
by such a surrogate; `toList` forgets which of the two, and two texts with the same code points are the same.
-/

namespace ApiPage

/-- A code point of a text: a character, or a surrogate. -/
inductive CodePoint
  | char (c : Char)
  | surrogate (n : Fin 0x800)
  deriving DecidableEq, Repr

namespace CodePoint

instance : Coe Char CodePoint := ⟨.char⟩

/-- The number of a code point. -/
def toNat : CodePoint → Nat
  | .char c => c.toNat
  | .surrogate n => 0xD800 + n

/-- The code point of a number. -/
def ofNat (n : Nat) : CodePoint :=
  if h : 0xD800 ≤ n ∧ n < 0xE000 then .surrogate ⟨n - 0xD800, by omega⟩ else .char (Char.ofNat n)

/-- Is a code point a surrogate? -/
def isSurrogate : CodePoint → Bool
  | .char _ => false
  | .surrogate _ => true

/-- The character that a code point is. -/
def char? : CodePoint → Option Char
  | .char c => some c
  | .surrogate _ => none

@[simp] theorem toNat_char (c : Char) : (char c).toNat = c.toNat := rfl

@[simp] theorem isSurrogate_char (c : Char) : (char c).isSurrogate = false := rfl

@[simp] theorem char?_char (c : Char) : (char c).char? = some c := rfl

theorem toNat_ne_surrogate (c : Char) (n : Fin 0x800) : c.toNat ≠ 0xD800 + n := by
  have hc : c.toNat < 0xD800 ∨ 0xDFFF < c.toNat ∧ c.toNat < 0x110000 := c.valid
  omega

theorem toNat_injective {a b : CodePoint} (h : a.toNat = b.toNat) : a = b := by
  cases a with
  | char c =>
    cases b with
    | char d => exact congrArg char (Char.toNat_inj.mp h)
    | surrogate n => exact absurd h (toNat_ne_surrogate c n)
  | surrogate n =>
    cases b with
    | char d => exact absurd h.symm (toNat_ne_surrogate d n)
    | surrogate m => exact congrArg surrogate (Fin.ext (Nat.add_left_cancel h))

end CodePoint

/-- A text as a document holds it. -/
inductive Str
  | whole (s : String)
  | broken (cs : List CodePoint) (h : cs.any CodePoint.isSurrogate = true)
  deriving DecidableEq, Repr

namespace Str

instance : Coe String Str := ⟨.whole⟩

instance : Inhabited Str := ⟨.whole ""⟩

/-- The code points of a text. -/
def toList : Str → List CodePoint
  | .whole s => s.toList.map .char
  | .broken cs _ => cs

/-- The text of code points. -/
def ofList (cs : List CodePoint) : Str :=
  if h : cs.any CodePoint.isSurrogate = true then .broken cs h
  else .whole (String.ofList (cs.filterMap CodePoint.char?))

/-- The text of one code point. -/
def singleton (c : CodePoint) : Str :=
  ofList [c]

/-- The number of code points. -/
def length (s : Str) : Nat :=
  s.toList.length

/-- Is a text empty? -/
def isEmpty : Str → Bool
  | .whole s => s.isEmpty
  | .broken _ _ => false

/-- One text behind another. -/
def append : Str → Str → Str
  | .whole s, .whole t => .whole (s ++ t)
  | s, t => ofList (s.toList ++ t.toList)

instance : Append Str := ⟨append⟩

/-! ### Code points and texts -/

@[simp] theorem toList_whole (s : String) : (whole s).toList = s.toList.map .char := rfl

theorem map_filterMap_char? {cs : List CodePoint} (h : ¬ cs.any CodePoint.isSurrogate = true) :
    (cs.filterMap CodePoint.char?).map .char = cs := by
  induction cs with
  | nil => rfl
  | cons c cs ih =>
    cases c with
    | surrogate n => simp [CodePoint.isSurrogate] at h
    | char c =>
      have hcs : ¬ cs.any CodePoint.isSurrogate = true := by simpa using h
      simpa using ih hcs

@[simp] theorem toList_ofList {l : List CodePoint} : (ofList l).toList = l := by
  unfold ofList
  split
  · rfl
  · next h => rw [toList_whole, String.toList_ofList, map_filterMap_char? h]

@[simp] theorem ofList_map (cs : List Char) : ofList (cs.map .char) = whole (String.ofList cs) := by
  rw [ofList, dif_neg (by simp)]
  simp [List.filterMap_map, Function.comp_def]

@[simp] theorem ofList_toList {s : Str} : ofList s.toList = s := by
  cases s with
  | whole s => rw [toList_whole, ofList_map, String.ofList_toList]
  | broken cs h => exact dif_pos h

theorem toList_injective {s t : Str} (h : s.toList = t.toList) : s = t := by
  rw [← @ofList_toList s, h, ofList_toList]

theorem ofList_injective {cs ds : List CodePoint} (h : ofList cs = ofList ds) : cs = ds := by
  rw [← @toList_ofList cs, h, toList_ofList]

theorem toList_inj {s t : Str} : s.toList = t.toList ↔ s = t :=
  ⟨toList_injective, congrArg toList⟩

@[simp] theorem toList_eq_nil_iff {s : Str} : s.toList = [] ↔ s = "" := by
  rw [← toList_inj]
  rfl

theorem isEmpty_iff {s : Str} : s.isEmpty = true ↔ s = "" := by
  cases s with
  | whole s => simp [isEmpty]
  | broken cs h => simp [isEmpty]

@[simp] theorem toList_singleton (c : CodePoint) : (singleton c).toList = [c] :=
  toList_ofList

/-! ### Texts behind one another -/

@[simp] theorem whole_append (s t : String) : whole s ++ whole t = whole (s ++ t) := rfl

@[simp] theorem toList_append {s t : Str} : (s ++ t).toList = s.toList ++ t.toList := by
  change (append s t).toList = _
  unfold append
  split
  · simp
  · exact toList_ofList

theorem append_assoc {s t u : Str} : s ++ t ++ u = s ++ (t ++ u) := by
  rw [← toList_inj]
  simp

@[simp] theorem empty_append {s : Str} : "" ++ s = s := by
  rw [← toList_inj]
  simp

@[simp] theorem append_empty {s : Str} : s ++ "" = s := by
  rw [← toList_inj]
  simp

@[simp] theorem append_right_inj (s : Str) {t u : Str} : s ++ t = s ++ u ↔ t = u := by
  rw [← toList_inj, toList_append, toList_append, List.append_cancel_left_eq, toList_inj]

@[simp] theorem append_left_inj {t u : Str} (s : Str) : t ++ s = u ++ s ↔ t = u := by
  rw [← toList_inj, toList_append, toList_append, List.append_cancel_right_eq, toList_inj]

@[simp] theorem append_eq_empty_iff {s t : Str} : s ++ t = "" ↔ s = "" ∧ t = "" := by
  rw [← toList_eq_nil_iff, toList_append, List.append_eq_nil_iff, toList_eq_nil_iff, toList_eq_nil_iff]

/-! ### Order -/

/-- The numbers of the code points. -/
def numbers (s : Str) : List Nat :=
  s.toList.map CodePoint.toNat

theorem numbers_injective {s t : Str} (h : s.numbers = t.numbers) : s = t :=
  toList_injective (List.map_inj_right (fun _ _ => CodePoint.toNat_injective) |>.mp h)

/-- Texts are ordered by the numbers of their code points, the first that differ. -/
instance : LT Str := ⟨fun s t => s.numbers.lt t.numbers⟩

instance : LE Str := ⟨fun s t => ¬ t < s⟩

instance (s t : Str) : Decidable (s < t) :=
  List.decidableLT s.numbers t.numbers

instance (s t : Str) : Decidable (s ≤ t) :=
  inferInstanceAs (Decidable (¬ t < s))

variable {s t u : Str}

theorem lt_irrefl (s : Str) : ¬ s < s :=
  List.lt_irrefl s.numbers

theorem lt_trans (h : s < t) (h' : t < u) : s < u :=
  @List.lt_trans Nat _ _ s.numbers t.numbers u.numbers h h'

theorem not_le : ¬ s ≤ t ↔ t < s :=
  @List.not_le Nat _ s.numbers t.numbers

@[simp] theorem le_refl (s : Str) : s ≤ s :=
  List.le_refl s.numbers

theorem le_trans (h : s ≤ t) (h' : t ≤ u) : s ≤ u :=
  @List.le_trans Nat _ _ _ _ s.numbers t.numbers u.numbers h h'

theorem le_total (s t : Str) : s ≤ t ∨ t ≤ s :=
  List.le_total s.numbers t.numbers

theorem le_antisymm (h : s ≤ t) (h' : t ≤ s) : s = t :=
  numbers_injective (@List.le_antisymm Nat _ _ s.numbers t.numbers h h')

end Str

end ApiPage
