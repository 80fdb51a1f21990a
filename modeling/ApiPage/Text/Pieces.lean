import ApiPage.Text.Str

/-!
# Cutting text into pieces and joining it

`pieces sep` cuts at every `sep` and always gives at least one piece; `joinWith` is its inverse on
pieces that hold no `sep`. `proseLines` cuts prose into lines.
-/

namespace ApiPage.Text

/-- The pieces of a text between the occurrences of `sep`. -/
def pieces (sep : CodePoint) : List CodePoint → List (List CodePoint)
  | [] => [[]]
  | c :: cs =>
    if c = sep then [] :: pieces sep cs
    else match pieces sep cs with
      | [] => [[c]]
      | p :: ps => (c :: p) :: ps

theorem pieces_ne_nil (sep : CodePoint) (cs : List CodePoint) : pieces sep cs ≠ [] := by
  cases cs with
  | nil => simp [pieces]
  | cons c cs =>
    unfold pieces
    split
    · simp
    · split <;> simp

/-- A piece holds no separator. -/
theorem not_mem_of_mem_pieces {sep : CodePoint} {cs p : List CodePoint} (h : p ∈ pieces sep cs) : sep ∉ p := by
  induction cs generalizing p with
  | nil => simp_all [pieces]
  | cons c cs ih =>
    unfold pieces at h
    split at h
    · rcases List.mem_cons.1 h with rfl | h
      · simp
      · exact ih h
    · next hc =>
      split at h
      · rw [List.mem_singleton] at h
        subst h
        simpa using Ne.symm hc
      · next q qs hq =>
        rcases List.mem_cons.1 h with rfl | h
        · simpa [Ne.symm hc] using ih (hq ▸ List.mem_cons_self)
        · exact ih (hq ▸ List.mem_cons_of_mem _ h)

/-- A text without a separator is one piece. -/
theorem pieces_of_not_mem {sep : CodePoint} {cs : List CodePoint} (h : sep ∉ cs) : pieces sep cs = [cs] := by
  induction cs with
  | nil => rfl
  | cons c cs ih =>
    rw [List.mem_cons, not_or] at h
    simp [pieces, Ne.symm h.1, ih h.2]

/-- What stands before the first separator is the first piece. -/
theorem pieces_append_cons {sep : CodePoint} {p : List CodePoint} (h : sep ∉ p) (cs : List CodePoint) :
    pieces sep (p ++ sep :: cs) = p :: pieces sep cs := by
  induction p with
  | nil => simp [pieces]
  | cons c p ih =>
    rw [List.mem_cons, not_or] at h
    simp [pieces, Ne.symm h.1, ih h.2]

/-- The texts in order with `sep` between neighbours. -/
def joinWith (sep : Str) : List Str → Str
  | [] => ""
  | [s] => s
  | s :: t :: rest => s ++ sep ++ joinWith sep (t :: rest)

theorem joinWith_cons_cons (sep s t : Str) (rest : List Str) :
    joinWith sep (s :: t :: rest) = s ++ sep ++ joinWith sep (t :: rest) := rfl

/-- What stands around one of the texts does not depend on it. -/
theorem exists_joinWith_eq (sep : Str) (before after : List Str) :
    ∃ front back, ∀ s, joinWith sep (before ++ s :: after) = front ++ s ++ back := by
  induction before with
  | nil =>
    cases after with
    | nil => exact ⟨"", "", by simp [joinWith]⟩
    | cons t rest => exact ⟨"", sep ++ joinWith sep (t :: rest), by simp [joinWith, Str.append_assoc]⟩
  | cons r before ih =>
    obtain ⟨front, back, h⟩ := ih
    refine ⟨r ++ sep ++ front, back, fun s => ?_⟩
    have hne : before ++ s :: after ≠ [] := by simp
    obtain ⟨t, rest, hcons⟩ := List.exists_cons_of_ne_nil hne
    have hs := h s
    rw [hcons] at hs
    rw [List.cons_append, hcons, joinWith_cons_cons, hs]
    simp only [Str.append_assoc]

/-- The texts in order with nothing between them. -/
def concat : List Str → Str
  | [] => ""
  | s :: rest => s ++ concat rest

@[simp] theorem concat_append (ss ts : List Str) : concat (ss ++ ts) = concat ss ++ concat ts := by
  induction ss with
  | nil => simp [concat]
  | cons s ss ih => simp [concat, ih, Str.append_assoc]

/-- Every text but the first is led by `sep`. -/
theorem joinWith_cons (sep s : Str) (rest : List Str) :
    joinWith sep (s :: rest) = s ++ concat (rest.map (sep ++ ·)) := by
  induction rest generalizing s with
  | nil => simp [joinWith, concat]
  | cons t rest ih => rw [joinWith_cons_cons, ih, List.map_cons, concat]; simp only [Str.append_assoc]

theorem not_mem_concat {c : CodePoint} {ss : List Str} (h : ∀ s ∈ ss, c ∉ s.toList) :
    c ∉ (concat ss).toList := by
  induction ss with
  | nil => simp [concat]
  | cons s ss ih =>
    rw [concat, Str.toList_append, List.mem_append, not_or]
    exact ⟨h s List.mem_cons_self, ih fun t ht => h t (List.mem_cons_of_mem s ht)⟩

/-- A character of joined texts is one of a text or of what stands between them. -/
theorem not_mem_joinWith {c : CodePoint} {sep : Str} {ss : List Str} (hsep : c ∉ sep.toList)
    (h : ∀ s ∈ ss, c ∉ s.toList) : c ∉ (joinWith sep ss).toList := by
  cases ss with
  | nil => simp [joinWith]
  | cons s ss =>
    rw [joinWith_cons, Str.toList_append, List.mem_append, not_or]
    refine ⟨h s List.mem_cons_self, not_mem_concat fun led hled => ?_⟩
    obtain ⟨t, ht, rfl⟩ := List.mem_map.mp hled
    rw [Str.toList_append, List.mem_append, not_or]
    exact ⟨hsep, h t (List.mem_cons_of_mem s ht)⟩

/-- A text split at every `sep`. -/
def splitAt (sep : CodePoint) (s : Str) : List Str :=
  (pieces sep s.toList).map Str.ofList

/-- A text without a separator is not split. -/
theorem splitAt_of_not_mem {sep : CodePoint} {s : Str} (h : sep ∉ s.toList) : splitAt sep s = [s] := by
  rw [splitAt, pieces_of_not_mem h, List.map_singleton, Str.ofList_toList]

/-- A text is split at its first separator. -/
theorem splitAt_append {sep : CodePoint} {s : Str} (h : sep ∉ s.toList) (t : Str) :
    splitAt sep (s ++ Str.singleton sep ++ t) = s :: splitAt sep t := by
  have hchars : (s ++ Str.singleton sep ++ t).toList = s.toList ++ sep :: t.toList := by
    simp [Str.toList_append]
  rw [splitAt, hchars, pieces_append_cons h, List.map_cons, Str.ofList_toList, splitAt]

/-- A line without the carriage return at its end, if it has one. -/
def dropReturn (line : List CodePoint) : List CodePoint :=
  if line.getLast? = some (.char '\r') then line.dropLast else line

/-- The list without an empty last member. -/
def dropEmptyLast (lines : List (List CodePoint)) : List (List CodePoint) :=
  if lines.getLast? = some [] then lines.dropLast else lines

/-- The lines of prose: a newline ends a line, a carriage return at the end of a line belongs to the
ending, and a last line that is then empty is no line. Other line separators stay in their line. -/
def proseLines (s : Str) : List Str :=
  (dropEmptyLast ((pieces '\n' s.toList).map dropReturn)).map Str.ofList

/-- Every line ending becomes a newline: a carriage return with the newline after it, or alone. -/
def unifyNewlines : List Char → List Char
  | [] => []
  | '\r' :: '\n' :: cs => '\n' :: unifyNewlines cs
  | c :: cs => (if c = '\r' then '\n' else c) :: unifyNewlines cs

end ApiPage.Text
