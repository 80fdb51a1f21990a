import ApiPage.Proofs.Text.Paragraphs
import Mathlib.Data.List.Basic

/-!
# Where the lines of prose end

A line of prose ends at a newline, or at a carriage return with a newline right behind it. `Lined` says this
of a text and its lines. `proseLines` finds the lines of every text that does not end with a carriage return;
one at the very end is cut off too, although no newline follows it.
-/

namespace ApiPage.Text

variable {line cs : List CodePoint} {ls : List (List CodePoint)}

/-- `Lined cs ls`: a text has these lines. What stands behind the last ending is a line if it is not
empty. -/
inductive Lined : List CodePoint → List (List CodePoint) → Prop
  | nothing : Lined [] []
  | last {line : List CodePoint} (hne : line ≠ []) (h : .char '\n' ∉ line) : Lined line [line]
  | newline {line cs : List CodePoint} {ls : List (List CodePoint)} (h : .char '\n' ∉ line)
      (hr : line.getLast? ≠ some (.char '\r')) (rest : Lined cs ls) : Lined (line ++ .char '\n' :: cs) (line :: ls)
  | returned {line cs : List CodePoint} {ls : List (List CodePoint)} (h : .char '\n' ∉ line) (rest : Lined cs ls) :
      Lined (line ++ .char '\r' :: .char '\n' :: cs) (line :: ls)

/-- The characters of a text that do not end a line. -/
def unended : List CodePoint → List CodePoint
  | [] => []
  | .char '\r' :: .char '\n' :: cs => unended cs
  | c :: cs => if c = '\n' then unended cs else c :: unended cs

/-- The lines of prose as characters. -/
def charLines (cs : List CodePoint) : List (List CodePoint) :=
  dropEmptyLast ((pieces '\n' cs).map dropReturn)

/-- A text is without a newline, or it is cut at the first one. -/
theorem lines_induction {P : List CodePoint → Prop} (last : ∀ cs, .char '\n' ∉ cs → P cs)
    (cut : ∀ line cs, .char '\n' ∉ line → P cs → P (line ++ .char '\n' :: cs)) (cs : List CodePoint) :
    P cs := by
  by_cases h : .char '\n' ∈ cs
  · obtain ⟨line, rest, hcs, hline⟩ := List.eq_append_cons_of_mem h
    have hshorter : rest.length < cs.length := by
      rw [hcs, List.length_append, List.length_cons]
      omega
    rw [hcs]
    exact cut line rest hline (lines_induction last cut rest)
  · exact last cs h
termination_by cs.length

/-! ### Carriage returns at the end -/

theorem dropReturn_concat (cs : List CodePoint) : dropReturn (cs ++ [.char '\r']) = cs := by
  rw [dropReturn, if_pos List.getLast?_concat, List.dropLast_concat]

theorem dropReturn_of_ne (h : cs.getLast? ≠ some (.char '\r')) : dropReturn cs = cs :=
  if_neg h

theorem dropReturn_append_newline (line cs : List CodePoint) :
    dropReturn (line ++ .char '\n' :: cs) = line ++ .char '\n' :: dropReturn cs := by
  cases cs with
  | nil =>
    have hlast : (line ++ [CodePoint.char '\n']).getLast? ≠ some (.char '\r') := by
      rw [List.getLast?_concat]
      decide
    exact dropReturn_of_ne hlast
  | cons c cs =>
    have hlast : (line ++ .char '\n' :: c :: cs).getLast? = (c :: cs).getLast? := by
      rw [List.getLast?_append_cons, List.getLast?_cons_cons]
    rw [dropReturn, dropReturn, hlast, List.dropLast_append_cons, List.dropLast_cons_cons]
    split
    · rfl
    · rfl

theorem newline_not_mem_dropReturn (h : .char '\n' ∉ line) : .char '\n' ∉ dropReturn line :=
  fun hmem => h (mem_of_mem_dropReturn hmem)

/-- A text ends with a carriage return, or dropping it changes nothing. -/
theorem eq_concat_or_dropReturn (cs : List CodePoint) :
    cs = dropReturn cs ++ [.char '\r'] ∧ cs.getLast? = some (.char '\r') ∨
      dropReturn cs = cs ∧ cs.getLast? ≠ some (.char '\r') := by
  by_cases h : cs.getLast? = some (.char '\r')
  · obtain ⟨ds, rfl⟩ := List.getLast?_eq_some_iff.mp h
    exact .inl ⟨by rw [dropReturn_concat], h⟩
  · exact .inr ⟨dropReturn_of_ne h, h⟩

/-! ### Lines by cutting -/

theorem charLines_of_not_mem (h : .char '\n' ∉ cs) :
    charLines cs = if dropReturn cs = [] then [] else [dropReturn cs] := by
  rw [charLines, pieces_of_not_mem h, List.map_singleton, dropEmptyLast]
  simp

theorem charLines_append_newline (h : .char '\n' ∉ line) (cs : List CodePoint) :
    charLines (line ++ .char '\n' :: cs) = dropReturn line :: charLines cs := by
  have hne : (pieces '\n' cs).map dropReturn ≠ [] := by
    simp [pieces_ne_nil]
  rw [charLines, pieces_append_cons h, List.map_cons, dropEmptyLast, List.getLast?_cons_of_ne_nil hne,
    List.dropLast_cons_of_ne_nil hne, charLines, dropEmptyLast]
  split
  · rfl
  · rfl

/-- A line that is cut off has its carriage return for a part of its ending. -/
theorem Lined.cons (h : .char '\n' ∉ line) (rest : Lined cs ls) :
    Lined (line ++ .char '\n' :: cs) (dropReturn line :: ls) := by
  rcases eq_concat_or_dropReturn line with ⟨hline, -⟩ | ⟨hline, hr⟩
  · have hshort : .char '\n' ∉ dropReturn line := by
      rw [hline, List.mem_append, not_or] at h
      exact h.1
    have hreturned := Lined.returned hshort rest
    rw [hline, List.append_assoc, ← hline]
    exact hreturned
  · rw [hline]
    exact .newline h hr rest

/-- The lines are those of the text without a carriage return at its very end. -/
theorem lined_charLines (cs : List CodePoint) : Lined (dropReturn cs) (charLines cs) := by
  induction cs using lines_induction with
  | last cs h =>
    -- the one piece loses its carriage return as if a newline stood behind it
    rw [charLines_of_not_mem h]
    split
    · next hempty =>
      rw [hempty]
      exact .nothing
    · next hne =>
      exact .last hne (newline_not_mem_dropReturn h)
  | cut line cs h ih =>
    rw [dropReturn_append_newline, charLines_append_newline h]
    exact ih.cons h

theorem Lined.eq_charLines (h : Lined cs ls) : ls = charLines (cs ++ [.char '\r']) := by
  induction h with
  | nothing => rfl
  | @last line hne h =>
    have hreturn : .char '\n' ∉ line ++ [.char '\r'] := by simpa using h
    rw [charLines_of_not_mem hreturn, dropReturn_concat, if_neg hne]
  | newline h hr _ ih =>
    rw [List.append_assoc, List.cons_append, charLines_append_newline h, dropReturn_of_ne hr, ← ih]
  | @returned line cs ls h _ ih =>
    have hreturn : .char '\n' ∉ line ++ [.char '\r'] := by simpa using h
    have hcut : line ++ .char '\r' :: .char '\n' :: cs ++ [.char '\r'] =
        (line ++ [.char '\r']) ++ .char '\n' :: (cs ++ [.char '\r']) := by
      simp
    rw [hcut, charLines_append_newline hreturn, dropReturn_concat, ← ih]

/-- A text has one list of lines. -/
theorem lined_iff : Lined cs ls ↔ ls = charLines (cs ++ [.char '\r']) := by
  constructor
  · exact Lined.eq_charLines
  · rintro rfl
    have h := lined_charLines (cs ++ [.char '\r'])
    rwa [dropReturn_concat] at h

/-! ### What the lines keep -/

theorem unended_cons {c : CodePoint} (hc : c ≠ '\n') (hr : c = '\r' → cs.head? ≠ some (.char '\n')) :
    unended (c :: cs) = c :: unended cs := by
  rw [unended, if_neg hc]
  rintro rest rfl rfl
  exact hr rfl rfl

theorem unended_append {rest : List CodePoint} (h : .char '\n' ∉ line)
    (hr : line.getLast? = some (.char '\r') → rest.head? ≠ some (.char '\n')) :
    unended (line ++ rest) = line ++ unended rest := by
  induction line with
  | nil => rfl
  | cons c line ih =>
    rw [List.mem_cons, not_or] at h
    cases line with
    | nil => exact unended_cons (Ne.symm h.1) fun hc => hr (by rw [hc]; rfl)
    | cons d line =>
      have hd : d ≠ '\n' := fun hd => h.2 (hd ▸ List.mem_cons_self)
      rw [List.cons_append, unended_cons (Ne.symm h.1) fun _ => by simpa using hd, ih h.2]
      · rfl
      · rwa [List.getLast?_cons_cons] at hr

theorem unended_of_not_mem (h : .char '\n' ∉ cs) : unended cs = cs := by
  have hrest : unended (cs ++ []) = cs ++ unended [] := unended_append h (by simp)
  rwa [List.append_nil, unended, List.append_nil] at hrest

theorem unended_append_newline (h : .char '\n' ∉ line) (cs : List CodePoint) :
    unended (line ++ .char '\n' :: cs) = dropReturn line ++ unended cs := by
  rcases eq_concat_or_dropReturn line with ⟨hline, -⟩ | ⟨hline, hr⟩
  · have hcut : line ++ .char '\n' :: cs = dropReturn line ++ .char '\r' :: .char '\n' :: cs := by
      rw [hline, List.append_assoc, ← hline]
      rfl
    rw [hcut, unended_append (newline_not_mem_dropReturn h) (by simp), unended]
  · rw [hline, unended_append h fun hlast => absurd hlast hr, unended, if_pos rfl]
    simp

/-- The lines are, one after the other, all that ends no line. -/
theorem Lined.flatten_eq (h : Lined cs ls) : ls.flatten = unended cs := by
  induction h with
  | nothing => rfl
  | last _ h => rw [List.flatten_singleton, unended_of_not_mem h]
  | newline h hr _ ih =>
    rw [unended_append_newline h, dropReturn_of_ne hr, List.flatten_cons, ih]
  | @returned line cs ls h _ ih =>
    have hreturn : line.getLast? = some (.char '\r') →
        (.char '\r' :: .char '\n' :: cs).head? ≠ some (.char '\n') := by simp
    rw [unended_append h hreturn, unended, List.flatten_cons, ih]

/-- A carriage return at the very end ends no line. -/
theorem unended_concat (cs : List CodePoint) : unended (cs ++ [.char '\r']) = unended cs ++ [.char '\r'] := by
  induction cs using lines_induction with
  | last cs h =>
    rw [unended_append h (by simp), unended_of_not_mem h]
    rfl
  | cut line cs h ih =>
    rw [List.append_assoc, List.cons_append, unended_append_newline h, unended_append_newline h, ih,
      List.append_assoc]

theorem unended_eq (cs : List CodePoint) : unended cs =
    (charLines cs).flatten ++ if cs.getLast? = some (.char '\r') then [.char '\r'] else [] := by
  rw [(lined_charLines cs).flatten_eq]
  rcases eq_concat_or_dropReturn cs with ⟨hcs, hlast⟩ | ⟨hcs, hlast⟩
  · rw [if_pos hlast, ← unended_concat, ← hcs]
  · rw [if_neg hlast, hcs, List.append_nil]

theorem lined_charLines_iff : Lined cs (charLines cs) ↔ cs.getLast? ≠ some (.char '\r') := by
  constructor
  · intro h hlast
    have hkept := unended_eq cs
    rw [if_pos hlast, h.flatten_eq] at hkept
    exact absurd (List.self_eq_append_right.mp hkept) (List.cons_ne_nil _ _)
  · intro h
    have hlined := lined_charLines cs
    rwa [dropReturn_of_ne h] at hlined

theorem toList_concat (ss : List Str) : (concat ss).toList = (ss.map Str.toList).flatten := by
  induction ss with
  | nil => rfl
  | cons s ss ih => rw [concat, Str.toList_append, ih, List.map_cons, List.flatten_cons]

theorem map_toList_proseLines (s : Str) : (proseLines s).map Str.toList = charLines s.toList := by
  rw [proseLines, List.map_map]
  refine (List.map_congr_left fun cs _ => ?_).trans (List.map_id _)
  exact Str.toList_ofList

theorem eq_proseLines_iff {s : Str} {lines : List Str} :
    lines = proseLines s ↔ lines.map Str.toList = charLines s.toList := by
  rw [← map_toList_proseLines]
  exact ((List.map_inj_right fun _ _ h => Str.toList_inj.mp h)).symm

/-- **A carriage return at the very end of prose is lost, and nothing else but the line endings.** Every text
has one list of lines, and it is found in the text with a carriage return more. In the text as it is, it is
found just if the text does not end with a carriage return. The lines that are found hold, one after the
other, all characters that end no line, but for that one. -/
theorem proseLines_lined (s : Str) :
    (∀ lines : List Str, Lined s.toList (lines.map Str.toList) ↔ lines = proseLines (s ++ "\r")) ∧
      (Lined s.toList ((proseLines s).map Str.toList) ↔ s.toList.getLast? ≠ some (.char '\r')) ∧
      unended s.toList =
        (concat (proseLines s)).toList ++ if s.toList.getLast? = some (.char '\r') then [.char '\r'] else [] := by
  refine ⟨fun lines => ?_, ?_, ?_⟩
  · rw [eq_proseLines_iff, lined_iff, Str.toList_append]
    rfl
  · rw [map_toList_proseLines]
    exact lined_charLines_iff
  · rw [toList_concat, map_toList_proseLines]
    exact unended_eq s.toList

/-- The carriage return behind the one line of this text ends no line, but is not in the line found. -/
theorem not_lined_return : ¬ Lined (Str.whole "a\r").toList ((proseLines "a\r").map Str.toList) := by
  rw [lined_iff]
  decide

/-- Carriage returns doubled before a newline, at the beginning of a line, and before the last newline. -/
example : proseLines "a\r\r\n\rb\r\n" = ["a\r", "\rb"] := by
  decide

end ApiPage.Text
