import ApiPage.Proofs.Text.Paragraphs
import Mathlib.Data.List.Infix

/-!
# Marks at the beginning of a line

A mark begins a line of a text just if it stands right behind a newline, the text taken with a newline in front
(`exists_line_iff`). A character that the mark has not keeps what is before it apart from what is behind it, so
a mark in a text that was put together is looked for part by part.
-/

namespace ApiPage.Text

variable {sep c d : CodePoint} {mark cs front back : List CodePoint}

/-! ### Parts of a text -/

/-- A text keeps its neighbours apart: there is a character in it, and none that the mark has. -/
structure Parts (mark : List CodePoint) (between : Str) : Prop where
  ne_nil : between.toList ≠ []
  foreign : ∀ c ∈ between.toList, c ∉ mark

instance (mark : List CodePoint) (between : Str) : Decidable (Parts mark between) :=
  decidable_of_iff (between.toList ≠ [] ∧ between.toList.all (decide <| · ∉ mark) = true)
    ⟨fun h => ⟨h.1, by simpa using h.2⟩, fun h => ⟨h.ne_nil, by simpa using h.foreign⟩⟩

theorem prefix_append_cons_iff (hc : c ∉ mark) (front back : List CodePoint) :
    mark <+: front ++ c :: back ↔ mark <+: front := by
  constructor
  · rintro ⟨rest, h⟩
    rcases List.append_eq_append_iff.mp h with ⟨as, hfront, -⟩ | ⟨_ | ⟨b, bs⟩, rfl, hback⟩
    · exact ⟨as, hfront.symm⟩
    · simp
    · obtain ⟨rfl, -⟩ := List.cons.inj hback
      simp at hc
  · exact fun h => h.trans (List.prefix_append _ _)

theorem infix_append_cons_iff (hc : c ∉ mark) :
    mark <:+: front ++ c :: back ↔ mark <:+: front ∨ mark <:+: back := by
  induction front with
  | nil =>
    have hprefix : mark <+: c :: back ↔ mark <+: [] := prefix_append_cons_iff hc [] back
    rw [List.nil_append, List.infix_cons_iff, hprefix, List.prefix_nil, List.infix_nil]
  | cons e front ih =>
    have hprefix : mark <+: e :: (front ++ c :: back) ↔ mark <+: e :: front :=
      prefix_append_cons_iff hc (e :: front) back
    rw [List.cons_append, List.infix_cons_iff, List.infix_cons_iff, hprefix, ih, or_assoc]

/-- A mark stands on one side of what keeps the sides apart. -/
theorem Parts.infix_iff {s t between : Str} (h : Parts mark between) :
    mark <:+: (s ++ between ++ t).toList ↔ mark <:+: s.toList ∨ mark <:+: t.toList := by
  obtain ⟨hne, hforeign⟩ := h
  rw [Str.append_assoc, Str.toList_append, Str.toList_append]
  generalize s.toList = front, between.toList = middle, t.toList = back at *
  induction middle generalizing front with
  | nil => exact absurd rfl hne
  | cons c middle ih =>
    obtain ⟨hc, hmiddle⟩ := List.forall_mem_cons.mp hforeign
    rw [List.cons_append, infix_append_cons_iff hc]
    cases middle with
    | nil => rfl
    | cons d middle =>
      have hrest := ih [] (List.cons_ne_nil d middle) hmiddle
      rw [List.nil_append] at hrest
      have hnil : mark <:+: [] → mark <:+: front := fun h => List.infix_nil.mp h ▸ List.nil_infix
      rw [hrest, ← or_assoc, or_iff_left_of_imp hnil]

/-- A mark does not begin in what keeps it apart. -/
theorem Parts.infix_behind_iff {t between : Str} (h : Parts mark between) :
    mark <:+: (between ++ t).toList ↔ mark <:+: t.toList := by
  have hsplit := h.infix_iff (s := "") (t := t)
  have hempty : mark <:+: (Str.whole "").toList → mark <:+: t.toList := fun hnil => by
    rw [List.infix_nil.mp hnil]
    exact List.nil_infix
  rwa [Str.empty_append, or_iff_right_of_imp hempty] at hsplit

/-- A mark begins a text before what keeps it apart. -/
theorem Parts.prefix_iff {s t between : Str} (h : Parts mark between) :
    mark <+: (s ++ between ++ t).toList ↔ mark <+: s.toList := by
  obtain ⟨c, middle, hmiddle⟩ := List.exists_cons_of_ne_nil h.ne_nil
  have hc : c ∉ mark := h.foreign c (hmiddle ▸ List.mem_cons_self)
  rw [Str.append_assoc, Str.toList_append, Str.toList_append, hmiddle, List.cons_append,
    prefix_append_cons_iff hc]

/-- A mark in joined texts is in one of them. -/
theorem Parts.infix_joinWith_iff {between : Str} (h : Parts mark between) (hmark : mark ≠ [])
    (ss : List Str) :
    mark <:+: (joinWith between ss).toList ↔ ∃ s ∈ ss, mark <:+: s.toList := by
  induction ss with
  | nil => simpa [joinWith] using hmark
  | cons s ss ih =>
    cases ss with
    | nil => simp [joinWith]
    | cons t rest => rw [joinWith_cons_cons, h.infix_iff, ih, List.exists_mem_cons_iff _ s]

/-! ### Beginnings of lines -/

theorem cons_infix_append_iff (hc : c ∉ front) : c :: mark <:+: front ++ back ↔ c :: mark <:+: back := by
  induction front with
  | nil => rfl
  | cons e front ih =>
    obtain ⟨hne, hfront⟩ := not_or.mp (mt List.mem_cons.mpr hc)
    rw [List.cons_append, List.infix_cons_iff, List.cons_prefix_cons, ih hfront]
    simp [hne]

/-- Behind a text without the second character of the mark, the first may be its last character. -/
theorem cons_cons_infix_append_iff (hc : c ∉ front) : d :: c :: mark <:+: front ++ back ↔
    (front.getLast? = some d ∧ c :: mark <+: back) ∨ d :: c :: mark <:+: back := by
  induction front with
  | nil => simp
  | cons e front ih =>
    obtain ⟨-, hfront⟩ := not_or.mp (mt List.mem_cons.mpr hc)
    rw [List.cons_append, List.infix_cons_iff, List.cons_prefix_cons, ih hfront, ← or_assoc]
    refine or_congr_left ?_
    cases front with
    | nil => simp [eq_comm]
    | cons x front =>
      have hx : c ≠ x := fun h => hfront (h ▸ List.mem_cons_self)
      simp [List.cons_prefix_cons, hx]

/-- A mark begins a piece of a text just if it stands behind a separator, the text taken with one in front. -/
theorem exists_piece_iff (hsep : sep ∉ mark) (cs : List CodePoint) :
    (∃ p ∈ pieces sep cs, mark <+: p) ↔ sep :: mark <:+: sep :: cs := by
  rw [List.infix_cons_iff, List.cons_prefix_cons]
  by_cases hmem : sep ∈ cs
  · -- the piece before the first separator, and the pieces behind it
    obtain ⟨p, rest, rfl, hp⟩ := List.eq_append_cons_of_mem hmem
    have hlt : rest.length < (p ++ sep :: rest).length := by simp; omega
    rw [pieces_append_cons hp, List.exists_mem_cons_iff, exists_piece_iff hsep rest,
      prefix_append_cons_iff hsep, cons_infix_append_iff hp]
    simp
  · have hnone : ¬ sep :: mark <:+: cs := fun h => hmem (h.mem List.mem_cons_self)
    simp [pieces_of_not_mem hmem, hnone]
termination_by cs.length

/-- A mark begins a line just if it stands behind a newline, the text taken with a newline in front. -/
theorem exists_line_iff (hmark : .char '\n' ∉ mark) (s : Str) :
    (∃ line ∈ splitAt '\n' s, mark <+: line.toList) ↔ .char '\n' :: mark <:+: .char '\n' :: s.toList := by
  rw [← exists_piece_iff hmark]
  simp [splitAt]

end ApiPage.Text
