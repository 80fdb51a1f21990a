import ApiPage.Item.Location
import Mathlib.Data.List.Infix

/-!
# Under which name a type is listed

A type that does not say which type it is gets the name under which it is listed, and this name is found in
the text of its place, behind the last mark of membership. Whatever the place of the module that lists it,
only the key counts (`Location.innermost?_member`): it is the name as it stands, unless a mark stands in it
or begins with the dot before it.
-/

namespace ApiPage

/-! ### The last occurrence of a mark -/

namespace Location

variable {mark cs rest : List CodePoint}

theorem afterLast?_eq_none (hmark : mark ≠ []) : afterLast? mark cs = none ↔ ¬ mark <:+: cs := by
  induction cs with
  | nil => simpa [afterLast?] using hmark
  | cons c cs ih =>
    rw [afterLast?, List.infix_cons_iff, ← List.isPrefixOf_iff_prefix, not_or, ← ih]
    cases afterLast? mark cs <;> simp

/-- What stands in front does not matter where there is a mark. -/
theorem afterLast?_append (h : afterLast? mark cs = some rest) (before : List CodePoint) :
    afterLast? mark (before ++ cs) = some rest := by
  induction before with
  | nil => exact h
  | cons c before ih => rw [List.cons_append, afterLast?, ih]

/-- Behind the last mark stands `rest`: a mark stands before it, and no other begins in or behind that. -/
theorem afterLast?_eq_some (hmark : mark ≠ []) : afterLast? mark cs = some rest ↔
    ∃ before, cs = before ++ (mark ++ rest) ∧ ¬ mark <:+: mark.tail ++ rest := by
  constructor
  · intro h
    induction cs with
    | nil => cases h
    | cons c cs ih =>
      rw [afterLast?] at h
      cases hcs : afterLast? mark cs with
      | some other =>
        rw [hcs] at h ih
        obtain ⟨before, rfl, hlast⟩ := ih h
        exact ⟨c :: before, rfl, hlast⟩
      | none =>
        obtain ⟨hstarts, hdrop⟩ : mark <+: c :: cs ∧ (c :: cs).drop mark.length = rest := by
          simpa [hcs] using h
        obtain ⟨others, hsplit⟩ := hstarts
        obtain rfl : others = rest := by rw [← hdrop, ← hsplit, List.drop_left]
        have htail : mark.tail ++ others = cs := by
          rw [← List.tail_append_of_ne_nil hmark, hsplit, List.tail_cons]
        exact ⟨[], hsplit.symm, htail ▸ (afterLast?_eq_none hmark).mp hcs⟩
  · rintro ⟨before, rfl, hlast⟩
    refine afterLast?_append ?_ before
    obtain ⟨c, tail, rfl⟩ := List.exists_cons_of_ne_nil hmark
    have hnone : afterLast? (c :: tail) (tail ++ rest) = none := (afterLast?_eq_none hmark).mpr hlast
    rw [List.cons_append, afterLast?, hnone]
    simp

/-! ### What a key says -/

/-- The mark of membership in the text of a place. -/
def memberMark : List CodePoint := ['.', 'm', 'e', 'm', 'b', 'e', 'r', 's', '.']

theorem memberMark_ne_nil : memberMark ≠ [] := by decide

/-- What a key says to be the name: the key as it stands, or, if the key with the dot before it has a mark
of membership in it, what stands behind the last one. -/
inductive KeyNames (key : Str) : Str → Prop
  | whole (h : ¬ memberMark <:+: .char '.' :: key.toList) : KeyNames key key
  | behind {before : List CodePoint} {name : Str}
      (h : .char '.' :: key.toList = before ++ (memberMark ++ name.toList))
      (last : ¬ memberMark <:+: memberMark.tail ++ name.toList) : KeyNames key name

variable {key name : Str}

theorem exists_keyNames (key : Str) : ∃ name, KeyNames key name := by
  cases h : afterLast? memberMark (.char '.' :: key.toList) with
  | none => exact ⟨key, .whole ((afterLast?_eq_none memberMark_ne_nil).mp h)⟩
  | some rest =>
    obtain ⟨before, hkey, hlast⟩ := (afterLast?_eq_some memberMark_ne_nil).mp h
    rw [← Str.toList_ofList (l := rest)] at hkey hlast
    exact ⟨Str.ofList rest, .behind hkey hlast⟩

/-- A key is the name itself exactly if there is no mark in it, the dot before it counted in. -/
theorem KeyNames.eq_iff (h : KeyNames key name) : name = key ↔ ¬ memberMark <:+: .char '.' :: key.toList := by
  cases h with
  | whole h => simpa using h
  | @behind before _ h =>
    refine iff_of_false ?_ (not_not_intro ?_)
    · -- the mark is longer than the dot in front of the key
      rintro rfl
      have hlength := congrArg List.length h
      simp [memberMark] at hlength
      omega
    · rw [h]
      exact ⟨before, name.toList, by simp⟩

/-- Behind the first dot of the mark no mark begins but at the key. -/
theorem infix_of_infix_tail (h : memberMark <:+: memberMark.tail ++ key.toList) :
    memberMark <:+: .char '.' :: key.toList := by
  simpa [memberMark, List.infix_cons_iff] using h

theorem toList_text_member (loc : Location) (k : Scalar) :
    (loc.member k).text.toList = (loc.text.toList ++ (Str.whole ".members").toList) ++ .char '.' :: k.plain.toList := by
  simp [member, field]

/-- **Only the key says the name of a member**, wherever the item stands that lists it. -/
theorem innermost?_member (loc : Location) {k : Scalar} (h : KeyNames k.plain name) :
    (loc.member k).innermost? = if name = "" then none else some name := by
  have hlast : afterLast? memberMark (loc.member k).text.toList = some name.toList := by
    rw [toList_text_member]
    cases h with
    | whole h =>
      -- the last mark is the one between the place of the listing item and the key
      have hnone := mt infix_of_infix_tail h
      refine (afterLast?_eq_some memberMark_ne_nil).mpr ⟨loc.text.toList, ?_, hnone⟩
      rw [List.append_assoc]
      rfl
    | behind h last =>
      -- the last mark in the key is the last of all
      refine afterLast?_append ?_ _
      exact (afterLast?_eq_some memberMark_ne_nil).mpr ⟨_, h, last⟩
  have hmark : (Str.whole ".members.").toList = memberMark := by simp [memberMark]
  rw [innermost?, hmark, hlast]
  cases hchars : name.toList with
  | nil => rw [if_pos (Str.toList_eq_nil_iff.mp hchars)]
  | cons c cs =>
    have hname : name ≠ "" := fun h => by simp [h] at hchars
    rw [if_neg hname, ← Str.ofList_toList (s := name), hchars]

end Location

end ApiPage
