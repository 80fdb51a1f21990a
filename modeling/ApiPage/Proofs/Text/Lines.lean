import ApiPage.Text.Pieces
import Mathlib.Data.List.Infix

/-!
# Taking a text apart

The lines of a text, where each of them has its newline; and what is left of a text when what it begins or ends
with is taken off. All of them are given only where the text has that form.
-/

namespace ApiPage.Text

variable {lead tail s t : Str} {ls : List Str}

/-! ### Beginnings and ends -/

/-- What comes behind `lead`, if a text begins with it. -/
def behind? (lead s : Str) : Option Str :=
  (lead.toList.isPrefixOf? s.toList).map Str.ofList

/-- What comes before `tail`, if a text ends with it. -/
def before? (tail s : Str) : Option Str :=
  (tail.toList.isSuffixOf? s.toList).map Str.ofList

theorem exists_ofList_eq {P : List CodePoint → Prop} : (∃ cs, P cs ∧ Str.ofList cs = t) ↔ P t.toList := by
  constructor
  · rintro ⟨cs, hcs, rfl⟩
    rwa [Str.toList_ofList]
  · intro h
    exact ⟨t.toList, h, Str.ofList_toList⟩

theorem behind?_eq_some : behind? lead s = some t ↔ s = lead ++ t := by
  rw [behind?, Option.map_eq_some_iff, exists_ofList_eq, List.isPrefixOf?_eq_some_iff_append_eq,
    ← Str.toList_append, Str.toList_inj, eq_comm]

theorem before?_eq_some : before? tail s = some t ↔ s = t ++ tail := by
  rw [before?, Option.map_eq_some_iff, exists_ofList_eq, List.isSuffixOf?_eq_some_iff_append_eq,
    ← Str.toList_append, Str.toList_inj, eq_comm]

@[simp] theorem behind?_append : behind? lead (lead ++ s) = some s :=
  behind?_eq_some.mpr rfl

@[simp] theorem before?_append : before? tail (s ++ tail) = some s :=
  before?_eq_some.mpr rfl

/-- A beginning is taken off part by part. -/
theorem behind?_of_append (front back s : Str) :
    behind? (front ++ back) s = (behind? front s).bind (behind? back) := by
  ext t
  simp [behind?_eq_some, Option.bind_eq_some_iff, Str.append_assoc]

/-! ### Lines -/

/-- The lines of a text in which every line has its newline. -/
def endedLines? (s : Str) : Option (List Str) :=
  if (splitAt '\n' s).getLast? = some (.whole "") then some (splitAt '\n' s).dropLast else none

theorem splitAt_ended (h : ∀ line ∈ ls, .char '\n' ∉ line.toList) :
    splitAt '\n' (concat (ls.map (· ++ "\n"))) = ls ++ [("" : Str)] := by
  induction ls with
  | nil => rfl
  | cons line ls ih =>
    obtain ⟨hline, hls⟩ := List.forall_mem_cons.mp h
    have hcons : concat ((line :: ls).map (· ++ "\n")) =
        line ++ Str.singleton '\n' ++ concat (ls.map (· ++ "\n")) := rfl
    rw [hcons, splitAt_append hline, ih hls, List.cons_append]

theorem endedLines?_ended (h : ∀ line ∈ ls, .char '\n' ∉ line.toList) :
    endedLines? (concat (ls.map (· ++ "\n"))) = some ls := by
  rw [endedLines?, splitAt_ended h]
  simp

/-- A list of which every member is read. -/
theorem mapM_map_eq_some {α β γ : Type} {read : β → Option γ} {write : α → β} {get : α → γ} {as : List α}
    (h : ∀ a ∈ as, read (write a) = some (get a)) : (as.map write).mapM read = some (as.map get) := by
  induction as with
  | nil => rfl
  | cons a as ih =>
    obtain ⟨ha, has⟩ := List.forall_mem_cons.mp h
    rw [List.map_cons, List.mapM_cons, ha, ih has]
    rfl

end ApiPage.Text
