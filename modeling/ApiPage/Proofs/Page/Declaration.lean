import ApiPage.Proofs.Page.Bullets

/-!
# Declarations

The declaration of a function depends on its signature, and its layout on how many parameters have prose as
well. The layout shows at the character behind the parenthesis, so two sections that begin alike have the same
code block.
-/

namespace ApiPage

/-! ### Signatures -/

/-- A parameter without its prose. -/
def Param.withoutDocs (p : Param) : Param :=
  { p with docs := none }

/-- A function without any prose: its signature. -/
def Function.withoutDocs (f : Function) : Function :=
  { params := f.params.map Param.withoutDocs, returns := { ty := f.returns.ty } }

namespace Params

theorem startsPositional_withoutDocs (ps : List Param) :
    startsPositional (ps.map Param.withoutDocs) = startsPositional ps := by
  cases ps <;> rfl

/-- Prose does not show in a declaration. -/
theorem entryTexts_withoutDocs (announced : Bool) (ps : List Param) :
    (entriesFrom announced (ps.map Param.withoutDocs)).map Entry.text =
      (entriesFrom announced ps).map Entry.text := by
  induction ps generalizing announced with
  | nil => rfl
  | cons p ps ih =>
    have hkind : p.withoutDocs.kind = p.kind := rfl
    have htext : (Entry.param p.withoutDocs).text = (Entry.param p).text := rfl
    simp only [List.map_cons, entriesFrom, List.map_append, ih, hkind, htext,
      startsPositional_withoutDocs]

theorem not_mem_text_of_mem_entries {ps : List Param} {e : Entry} (h : ∀ p ∈ ps, .char '\n' ∉ p.text.toList)
    (he : e ∈ entries ps) : .char '\n' ∉ e.text.toList := by
  cases e with
  | param p => exact h p (mem_of_param? he rfl)
  | slash => decide
  | star => decide

/-- A list of parameters on one line is one line. -/
theorem not_mem_inlineText {ps : List Param} (h : ∀ p ∈ ps, .char '\n' ∉ p.text.toList) :
    .char '\n' ∉ (inlineText ps).toList := by
  refine Text.not_mem_joinWith (by decide) fun s hs => ?_
  obtain ⟨e, he, rfl⟩ := List.mem_map.mp hs
  exact not_mem_text_of_mem_entries h he

end Params

namespace Function

variable {f g : Function}

theorem inlinePrototype_withoutDocs (name : Str) (f : Function) :
    f.withoutDocs.inlinePrototype name = f.inlinePrototype name := by
  rw [inlinePrototype, Params.inlineText, Params.entries, withoutDocs, Params.entryTexts_withoutDocs]
  rfl

theorem linesPrototype_withoutDocs (indent name : Str) (f : Function) :
    f.withoutDocs.linesPrototype indent name = f.linesPrototype indent name := by
  have hlines (ps : List Param) : Params.linesText indent ps =
      Text.concat (((Params.entries ps).map Entry.text).map fun s => indent ++ s ++ ",\n") := by
    rw [Params.linesText, List.map_map]
    rfl
  rw [linesPrototype, hlines, Params.entries, withoutDocs, Params.entryTexts_withoutDocs,
    linesPrototype, hlines]
  rfl

/-- Parameters as a language declares them: under different names, each of them in one line. -/
structure PlainSignature (f : Function) : Prop where
  names : (f.params.map (·.name)).Nodup
  /-- True of every identifier. -/
  identifiers : ∀ p ∈ f.params, .char '`' ∉ p.name.toList ∧ .char '*' ∉ p.name.toList
  oneLine : ∀ p ∈ f.params, .char '\n' ∉ p.text.toList

theorem plainSignature_withoutDocs : f.withoutDocs.PlainSignature ↔ f.PlainSignature := by
  have hnames : f.withoutDocs.params.map (·.name) = f.params.map (·.name) := by
    rw [withoutDocs, List.map_map]
    rfl
  have hall {P : Param → Prop} :
      (∀ p ∈ f.withoutDocs.params, P p) ↔ ∀ p ∈ f.params, P p.withoutDocs := by
    simp [withoutDocs]
  constructor
  · rintro ⟨names, identifiers, oneLine⟩
    exact ⟨hnames ▸ names, hall.mp identifiers, hall.mp oneLine⟩
  · rintro ⟨names, identifiers, oneLine⟩
    exact ⟨hnames ▸ names, hall.mpr identifiers, hall.mpr oneLine⟩

/-- The stars of a kind can be told from an identifier. -/
theorem PlainSignature.readable (hf : f.PlainSignature) :
    ParamList.Readable (f.params.map Param.starredName) := by
  have hdrop : ∀ p ∈ f.params, p.starredName.toList.dropWhile (· = .char '*') = p.name.toList := by
    intro p hp
    have hstar : .char '*' ∉ p.name.toList := (hf.identifiers p hp).2
    have hname : p.name.toList.dropWhile (· = .char '*') = p.name.toList := by
      cases hl : p.name.toList with
      | nil => rfl
      | cons c cs =>
        have hc : c ≠ '*' := by
          rintro rfl
          exact hstar (hl ▸ List.mem_cons_self)
        simp [hc]
    unfold Param.starredName
    cases p.kind <;> simp [Str.toList_append, hname]
  constructor
  · rw [List.Nodup, List.pairwise_map]
    refine (List.pairwise_map.mp hf.names).imp_of_mem fun {p q} hp hq hpq heq => hpq ?_
    rw [← Str.toList_inj, ← hdrop p hp, ← hdrop q hq, heq]
  · intro name hname
    obtain ⟨p, hp, rfl⟩ := List.mem_map.mp hname
    have hquote : .char '`' ∉ p.name.toList := (hf.identifiers p hp).1
    unfold Param.starredName
    cases p.kind <;> simp [Str.toList_append, hquote]

theorem PlainSignature.not_mem_starredName (hf : f.PlainSignature) {p : Param} (hp : p ∈ f.params) :
    .char '\n' ∉ p.starredName.toList := by
  have hline := hf.oneLine p hp
  simp only [Param.text, Str.toList_append, List.mem_append, not_or] at hline
  exact hline.1.1

/-- The character behind the parenthesis tells the layout of a declaration. -/
theorem exists_prototype_eq (hf : f.PlainSignature) (style : Style) (name : Str) :
    ∃ c rest, f.prototype style name = "def " ++ name ++ "(" ++ Str.ofList (c :: rest) ∧
      (c = '\n' ↔ f.needsLines style name = true) := by
  unfold prototype
  by_cases hlines : f.needsLines style name = true
  · rw [if_pos hlines]
    let rest : Str := Params.linesText style.paramIndent f.params ++ ")" ++ f.returnSuffix
    refine ⟨'\n', rest.toList, ?_, by simp [hlines]⟩
    apply Str.toList_inj.mp
    simp [rest, linesPrototype, Str.toList_append]
  · rw [if_neg hlines]
    have hline : .char '\n' ∉ (Params.inlineText f.params ++ ")").toList := by
      simp [Str.toList_append, Params.not_mem_inlineText hf.oneLine]
    obtain ⟨c, rest, hcons⟩ : ∃ c rest, (Params.inlineText f.params ++ ")").toList = c :: rest :=
      List.exists_cons_of_ne_nil (by simp [Str.toList_append])
    refine ⟨c, rest ++ f.returnSuffix.toList, ?_, ?_⟩
    · apply Str.toList_inj.mp
      rw [Str.toList_append, Str.toList_append, Str.toList_ofList, ← List.cons_append, ← hcons]
      simp [inlinePrototype, Str.toList_append]
    · have hc : c ≠ '\n' := by
        rintro rfl
        exact hline (hcons ▸ List.mem_cons_self)
      simp [hc, hlines]

/-- Functions with one signature whose sections begin alike have the same code block. -/
theorem codeBlock_append_inj (hsig : f.withoutDocs = g.withoutDocs) (hf : f.PlainSignature)
    (hg : g.PlainSignature) {style : Style} {name s t : Str}
    (h : codeBlock style.codeLanguage (f.prototype style name) ++ s =
      codeBlock style.codeLanguage (g.prototype style name) ++ t) : s = t := by
  obtain ⟨c, rest, hproto, hlayout⟩ := exists_prototype_eq hf style name
  obtain ⟨c', rest', hproto', hlayout'⟩ := exists_prototype_eq hg style name
  have hchar : c = c' := by
    rw [hproto, hproto'] at h
    simp only [codeBlock, Str.append_assoc, Str.append_right_inj] at h
    have hlist := congrArg Str.toList h
    simp only [Str.toList_append, Str.toList_ofList, List.cons_append] at hlist
    exact (List.cons_eq_cons.mp hlist).1
  have hneeds : f.needsLines style name = g.needsLines style name := by
    rw [Bool.eq_iff_iff, ← hlayout, ← hlayout', hchar]
  have hsame : f.prototype style name = g.prototype style name := by
    rw [prototype, prototype, hneeds, ← linesPrototype_withoutDocs, ← inlinePrototype_withoutDocs, hsig,
      linesPrototype_withoutDocs, inlinePrototype_withoutDocs]
  rw [hsame] at h
  exact (Str.append_right_inj _).mp h

end Function

end ApiPage
