import ApiPage.Proofs.Params.Signature

/-!
# The two layouts of a declaration

A declaration is one line, or it has a line for each place of its parameter list; the places of the lines,
with commas between them, give the one line again. Lines are laid out just where a limit of the style is
exceeded, so neither a higher limit nor less prose breaks a declaration that fits in one line.
-/

namespace ApiPage

/-! ### Prose that is taken away -/

/-- The same parameters, some of them without their prose. -/
def Params.Stripped : List Param → List Param → Prop :=
  List.Forall₂ fun p q => q = p ∨ q = p.withoutDocs

namespace Params.Stripped

variable {ps qs : List Param}

theorem map_withoutDocs (h : Stripped ps qs) : qs.map Param.withoutDocs = ps.map Param.withoutDocs := by
  induction h with
  | nil => rfl
  | cons hpq _ ih =>
    rw [List.map_cons, List.map_cons, ih]
    rcases hpq with rfl | rfl <;> rfl

theorem documented_le (h : Stripped ps qs) : (documented qs).length ≤ (documented ps).length := by
  induction h with
  | nil => exact Nat.le_refl _
  | @cons p q ps qs hpq _ ih =>
    simp only [documented, List.filter_cons] at ih ⊢
    rcases hpq with rfl | rfl
    · split
      · exact Nat.succ_le_succ ih
      · exact ih
    · have hnone : ¬ p.withoutDocs.docs.isSome = true := nofun
      rw [if_neg hnone]
      split
      · exact Nat.le_succ_of_le ih
      · exact ih

end Params.Stripped

namespace Function

variable {f : Function} {style : Style} {name : Str}

/-! ### Layouts -/

/-- All that a declaration shows is written in one line. -/
structure OneLine (name : Str) (f : Function) : Prop where
  name : .char '\n' ∉ name.toList
  params : ∀ p ∈ f.params, .char '\n' ∉ p.text.toList
  returned : .char '\n' ∉ f.returnSuffix.toList

theorem OneLine.inlinePrototype (h : f.OneLine name) : .char '\n' ∉ (f.inlinePrototype name).toList := by
  simp [Function.inlinePrototype, Str.toList_append, h.name, h.returned, Params.not_mem_inlineText h.params]

theorem newline_mem_linesPrototype (indent name : Str) (f : Function) :
    .char '\n' ∈ (f.linesPrototype indent name).toList := by
  simp [linesPrototype, Str.toList_append]

theorem needsLines_iff : f.needsLines style name = true ↔
    style.maxDocumentedParams < (Params.documented f.params).length ∨
      style.maxLineLength < (f.inlinePrototype name).length := by
  simp [needsLines]

/-- A declaration has lines just where it exceeds a limit. -/
theorem OneLine.newline_mem_prototype (h : f.OneLine name) :
    .char '\n' ∈ (f.prototype style name).toList ↔ f.needsLines style name = true := by
  unfold prototype
  split
  · next hlines => exact iff_of_true (newline_mem_linesPrototype ..) hlines
  · next hlines => exact iff_of_false h.inlinePrototype hlines

/-- The places of the lines are those of the one line. -/
theorem OneLine.places_linesText {indent : Str} (h : f.OneLine name) (hindent : .char '\n' ∉ indent.toList) :
    ∃ places, Params.placesOnLines? indent (Params.linesText indent f.params) = some places ∧
      f.inlinePrototype name = "def " ++ name ++ "(" ++ Text.joinWith ", " places ++ ")" ++ f.returnSuffix :=
  ⟨_, Params.placesOnLines?_linesText hindent h.params, rfl⟩

theorem inlinePrototype_stripped {ps : List Param} (h : Params.Stripped f.params ps) (name : Str) :
    { f with params := ps }.inlinePrototype name = f.inlinePrototype name := by
  have hsig : { f with params := ps }.withoutDocs = f.withoutDocs := by
    rw [withoutDocs, withoutDocs, h.map_withoutDocs]
  rw [← inlinePrototype_withoutDocs, hsig, inlinePrototype_withoutDocs]

/-- **The two layouts of a declaration are the same signature.** A declaration of which each part is written in
one line is one line itself, or it has lines between its parentheses whose places, with commas between them, give
that one line. It has lines just if more parameters have prose than the style allows or the one line is longer;
so a declaration in one line stays as it is under a style with higher limits and with less prose. -/
theorem prototype_layouts (h : f.OneLine name) (hindent : .char '\n' ∉ style.paramIndent.toList) :
    .char '\n' ∉ (f.inlinePrototype name).toList ∧
      (f.prototype style name = f.inlinePrototype name ∨
        ∃ lines places, f.prototype style name = "def " ++ name ++ "(\n" ++ lines ++ ")" ++ f.returnSuffix ∧
          Params.placesOnLines? style.paramIndent lines = some places ∧ f.inlinePrototype name =
            "def " ++ name ++ "(" ++ Text.joinWith ", " places ++ ")" ++ f.returnSuffix) ∧
      (.char '\n' ∈ (f.prototype style name).toList ↔
        style.maxDocumentedParams < (Params.documented f.params).length ∨
          style.maxLineLength < (f.inlinePrototype name).length) ∧
      ∀ (wider : Style) (ps : List Param), style.maxDocumentedParams ≤ wider.maxDocumentedParams →
        style.maxLineLength ≤ wider.maxLineLength → Params.Stripped f.params ps →
          .char '\n' ∉ (f.prototype style name).toList →
            { f with params := ps }.prototype wider name = f.prototype style name := by
  refine ⟨h.inlinePrototype, ?_, h.newline_mem_prototype.trans needsLines_iff, ?_⟩
  · by_cases hlines : f.needsLines style name = true
    · obtain ⟨places, hplaces, hline⟩ := h.places_linesText hindent
      have hproto : f.prototype style name = f.linesPrototype style.paramIndent name := if_pos hlines
      exact .inr ⟨_, places, hproto, hplaces, hline⟩
    · exact .inl (if_neg hlines)
  · intro wider ps hdocumented hlength hps hone
    have hfits : ¬ f.needsLines style name = true := mt h.newline_mem_prototype.mpr hone
    have hfits' : ¬ { f with params := ps }.needsLines wider name = true := by
      rw [needsLines_iff, inlinePrototype_stripped hps]
      rw [needsLines_iff] at hfits
      have hless := hps.documented_le
      dsimp only
      omega
    rw [prototype, prototype, if_neg hfits, if_neg hfits', inlinePrototype_stripped hps]

namespace Wrapped

/-- A function of three parameters, two of them with prose. -/
def move : Function where
  params := [{ name := "point", kind := .positional, docs := some ⟨"What to move.", none⟩ },
    { name := "by", ty := [.name "Vector"], default := some (.whole "(0, 0)"), docs := some ⟨"How far.", none⟩ },
    { name := "rest", kind := .args }]
  returns := { ty := [.name "Point"] }

/-- Its parameters, the first of them without its prose. -/
def lessProse : List Param :=
  [{ name := "point", kind := .positional },
    { name := "by", ty := [.name "Vector"], default := some (.whole "(0, 0)"), docs := some ⟨"How far.", none⟩ },
    { name := "rest", kind := .args }]

end Wrapped

open Wrapped in
/-- A declaration that has lines under a style, and is one line with higher limits and with less prose. -/
theorem prototype_layouts_wrapped : move.OneLine "move" ∧
    move.prototype { maxDocumentedParams := 1 } "move" =
      "def move(\n    point,\n    /,\n    by: Vector = (0, 0),\n    *rest,\n) -> Point" ∧
    .char '\n' ∈ (move.prototype { maxDocumentedParams := 1 } "move").toList ∧
    move.prototype { maxDocumentedParams := 2 } "move" =
      "def move(point, /, by: Vector = (0, 0), *rest) -> Point" ∧
    { move with params := lessProse }.prototype { maxDocumentedParams := 2, maxLineLength := 100 } "move" =
      .whole "def move(point, /, by: Vector = (0, 0), *rest) -> Point" := by
  have h : move.OneLine "move" := ⟨by decide, by decide +kernel, by decide +kernel⟩
  have hindent : .char '\n' ∉ ({} : Style).paramIndent.toList := by decide
  have hstripped : Params.Stripped move.params lessProse :=
    .cons (.inr rfl) (.cons (.inl rfl) (.cons (.inl rfl) .nil))
  have hone : move.prototype { maxDocumentedParams := 2 } "move" =
      "def move(point, /, by: Vector = (0, 0), *rest) -> Point" := by decide +kernel
  obtain ⟨-, -, hlines, -⟩ := @prototype_layouts move { maxDocumentedParams := 1 } "move" h hindent
  obtain ⟨-, -, -, hkept⟩ := @prototype_layouts move { maxDocumentedParams := 2 } "move" h hindent
  refine ⟨h, by decide +kernel, hlines.mpr (.inl (by decide)), hone, ?_⟩
  rw [← hone]
  exact hkept _ _ (by decide) (by decide) hstripped (by decide +kernel)

end Function

end ApiPage
