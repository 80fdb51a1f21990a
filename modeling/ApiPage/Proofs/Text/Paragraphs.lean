import ApiPage.Text.Pieces

/-!
# Lines and paragraphs

The lines of a text determine it. Its paragraphs are the longest runs of lines that are not empty; a blank
line between two texts keeps their paragraphs apart (`paragraphs_append`), and a text without an empty line is
one paragraph.
-/

namespace ApiPage.Text

variable {sep : CodePoint}

/-! ### Cutting at every separator -/

theorem pieces_append_sep (cs ds : List CodePoint) :
    pieces sep (cs ++ sep :: ds) = pieces sep cs ++ pieces sep ds := by
  induction cs with
  | nil => simp [pieces]
  | cons c cs ih =>
    rw [List.cons_append, pieces, pieces, ih]
    by_cases hc : c = sep
    · rw [if_pos hc, if_pos hc, List.cons_append]
    · rw [if_neg hc, if_neg hc]
      obtain ⟨p, ps, hp⟩ := List.exists_cons_of_ne_nil (pieces_ne_nil sep cs)
      rw [hp]
      rfl

/-- The pieces with separators between them are the text. -/
theorem intercalate_pieces (cs : List CodePoint) : [sep].intercalate (pieces sep cs) = cs := by
  induction cs with
  | nil => rfl
  | cons c cs ih =>
    obtain ⟨p, ps, hp⟩ := List.exists_cons_of_ne_nil (pieces_ne_nil sep cs)
    rw [hp] at ih
    rw [pieces, hp]
    by_cases hc : c = sep
    · rw [if_pos hc, List.intercalate_cons_cons, ih, hc]
      rfl
    · rw [if_neg hc]
      cases ps with
      | nil => simpa using ih
      | cons q qs =>
        rw [List.intercalate_cons_cons] at ih ⊢
        rw [← ih]
        rfl

/-- The pieces of a text have no character that the text has not. -/
theorem mem_of_mem_pieces {cs p : List CodePoint} (hp : p ∈ pieces sep cs) : ∀ c ∈ p, c ∈ cs := by
  induction cs generalizing p with
  | nil =>
    rw [pieces, List.mem_singleton] at hp
    simp [hp]
  | cons d cs ih =>
    obtain ⟨q, qs, hq⟩ := List.exists_cons_of_ne_nil (pieces_ne_nil sep cs)
    rw [pieces, hq] at hp
    rw [hq] at ih
    intro c hc
    by_cases hd : d = sep
    · rw [if_pos hd] at hp
      rcases List.mem_cons.mp hp with rfl | hp
      · exact absurd hc List.not_mem_nil
      · exact List.mem_cons_of_mem d (ih hp c hc)
    · rw [if_neg hd] at hp
      rcases List.mem_cons.mp hp with rfl | hp
      · rcases List.mem_cons.mp hc with rfl | hc
        · exact List.mem_cons_self
        · exact List.mem_cons_of_mem d (ih List.mem_cons_self c hc)
      · exact List.mem_cons_of_mem d (ih (List.mem_cons_of_mem q hp) c hc)

theorem splitAt_injective {s t : Str} (h : splitAt sep s = splitAt sep t) : s = t := by
  have hpieces : pieces sep s.toList = pieces sep t.toList :=
    (List.map_inj_right fun _ _ => Str.ofList_injective).mp h
  have hchars : s.toList = t.toList := by
    rw [← intercalate_pieces s.toList, hpieces, intercalate_pieces]
  exact Str.toList_inj.mp hchars

theorem splitAt_append_sep (s t : Str) :
    splitAt sep (s ++ Str.singleton sep ++ t) = splitAt sep s ++ splitAt sep t := by
  have hchars : (s ++ Str.singleton sep ++ t).toList = s.toList ++ sep :: t.toList := by
    simp [Str.toList_append]
  rw [splitAt, hchars, pieces_append_sep, List.map_append]
  rfl

/-- Parts without a separator are what the text with separators between them is split into. -/
theorem splitAt_joinWith {parts : List Str} (hne : parts ≠ []) (h : ∀ p ∈ parts, sep ∉ p.toList) :
    splitAt sep (joinWith (Str.singleton sep) parts) = parts := by
  induction parts with
  | nil => exact absurd rfl hne
  | cons p parts ih =>
    obtain ⟨hp, hparts⟩ := List.forall_mem_cons.mp h
    cases parts with
    | nil => exact splitAt_of_not_mem hp
    | cons q parts => rw [joinWith_cons_cons, splitAt_append hp, ih (List.cons_ne_nil q parts) hparts]

theorem not_mem_of_mem_splitAt {s part : Str} (h : part ∈ splitAt sep s) : sep ∉ part.toList := by
  obtain ⟨cs, hcs, rfl⟩ := List.mem_map.mp h
  rw [Str.toList_ofList]
  exact not_mem_of_mem_pieces hcs

theorem splitAt_ne_nil (s : Str) : splitAt sep s ≠ [] := by
  simp [splitAt, pieces_ne_nil]

theorem mem_of_mem_dropReturn {line : List CodePoint} {c : CodePoint} (h : c ∈ dropReturn line) : c ∈ line := by
  unfold dropReturn at h
  split at h
  · exact (List.dropLast_sublist _).mem h
  · exact h

theorem mem_of_mem_dropEmptyLast {lines : List (List CodePoint)} {line : List CodePoint}
    (h : line ∈ dropEmptyLast lines) : line ∈ lines := by
  unfold dropEmptyLast at h
  split at h
  · exact (List.dropLast_sublist _).mem h
  · exact h

/-- A line of prose is one line. -/
theorem newline_not_mem_of_mem_proseLines {s line : Str} (h : line ∈ proseLines s) :
    .char '\n' ∉ line.toList := by
  obtain ⟨cs, hcs, rfl⟩ := List.mem_map.mp h
  obtain ⟨piece, hpiece, rfl⟩ := List.mem_map.mp (mem_of_mem_dropEmptyLast hcs)
  rw [Str.toList_ofList]
  exact fun hc => not_mem_of_mem_pieces hpiece (mem_of_mem_dropReturn hc)

/-- Prose without carriage returns has the lines of its text if the last of them is not empty. -/
theorem proseLines_eq_splitAt {s : Str} (hr : .char '\r' ∉ s.toList)
    (hlast : (splitAt '\n' s).getLast? ≠ some (.whole "")) : proseLines s = splitAt '\n' s := by
  have hdrop : (pieces '\n' s.toList).map dropReturn = pieces '\n' s.toList := by
    refine (List.map_congr_left fun p hp => ?_).trans (List.map_id _)
    have hpr : p.getLast? ≠ some (.char '\r') := fun h => hr (mem_of_mem_pieces hp _ (List.mem_of_getLast? h))
    rw [dropReturn, if_neg hpr, id]
  have hpieces : (pieces '\n' s.toList).getLast? ≠ some [] := by
    intro h
    rw [splitAt, List.getLast?_map, h] at hlast
    exact hlast rfl
  rw [proseLines, hdrop, dropEmptyLast, if_neg hpieces, splitAt]

/-! ### Paragraphs -/

/-- The paragraphs of a text, each as its lines. -/
def paragraphs (s : Str) : List (List Str) :=
  ((splitAt '\n' s).splitOnP (· == ("" : Str))).filter (· != [])

/-- A blank line parts paragraphs. -/
theorem paragraphs_append (s t : Str) :
    paragraphs (s ++ "\n\n" ++ t) = paragraphs s ++ paragraphs t := by
  have hlines : splitAt '\n' (s ++ "\n\n" ++ t) = splitAt '\n' s ++ ("" : Str) :: splitAt '\n' t := by
    have hblank : "\n\n" = Str.singleton '\n' ++ "" ++ Str.singleton '\n' := rfl
    have hempty : splitAt '\n' "" = [.whole ""] := rfl
    rw [hblank, ← Str.append_assoc, splitAt_append_sep, ← Str.append_assoc, splitAt_append_sep,
      hempty, List.append_assoc]
    rfl
  rw [paragraphs, hlines, List.splitOnP_append_cons _ _ (by simp), List.filter_append]
  rfl

/-- A text without an empty line is one paragraph. -/
theorem paragraphs_of_lines {s : Str} (h : ∀ line ∈ splitAt '\n' s, line ≠ "") :
    paragraphs s = [splitAt '\n' s] := by
  rw [paragraphs, List.splitOnP_eq_singleton fun line hline => by simpa using h line hline]
  simp [splitAt_ne_nil]

/-- A line that is not empty is a paragraph. -/
theorem paragraphs_of_line {s : Str} (h : .char '\n' ∉ s.toList) (hs : s ≠ "") : paragraphs s = [[s]] := by
  have hline : splitAt '\n' s = [s] := splitAt_of_not_mem h
  rw [paragraphs_of_lines (by simpa [hline] using hs), hline]

end ApiPage.Text
