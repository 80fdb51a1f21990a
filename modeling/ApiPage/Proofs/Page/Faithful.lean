import ApiPage.Proofs.Page.Declaration

/-!
# The prose of a section

Two functions with one signature have the same prose if they have the same section. Behind the code block a
section is paragraphs, and a paragraph that is a heading ends what stands before it.
-/

namespace ApiPage

/-! ### Paragraphs under headings -/

/-- Does a paragraph begin with a heading? -/
def opensChapter (p : List Str) : Bool :=
  p.head?.any isHeading

/-- Paragraphs under their heading, which is left out where there are none. -/
def chapter (heading : Str) : List (List Str) → List (List Str)
  | [] => []
  | p :: ps => [heading] :: p :: ps

/-- The prose of a section in paragraphs. -/
structure Outline where
  summary : List (List Str)
  parameters : List (List Str)
  returned : List (List Str)
  details : List (List Str)

namespace Outline

variable {o o' : Outline}

/-- Do the details stand right behind the summary? -/
def direct (o : Outline) : Bool :=
  o.parameters.isEmpty && o.returned.isEmpty

/-- The paragraphs in front of the first heading. -/
def opening (o : Outline) : List (List Str) :=
  o.summary ++ if o.direct then o.details else []

/-- The details under their heading, where they need one. -/
def detailsChapter (o : Outline) : List (List Str) :=
  if o.direct then [] else chapter "#### Details" o.details

/-- The paragraphs from the first heading on. -/
def chapters (o : Outline) : List (List Str) :=
  chapter "#### Parameters" o.parameters ++ (chapter "#### Returns" o.returned ++ o.detailsChapter)

/-- No paragraph begins with a heading. -/
structure Unheaded (o : Outline) : Prop where
  summary : ∀ p ∈ o.summary, opensChapter p = false
  parameters : ∀ p ∈ o.parameters, opensChapter p = false
  returned : ∀ p ∈ o.returned, opensChapter p = false
  details : ∀ p ∈ o.details, opensChapter p = false

end Outline

/-- A chapter begins with its heading, and what follows it where it is left out. -/
theorem head?_chapter_append {heading : Str} {ps x : List (List Str)} {p : List Str}
    (h : p ∈ (chapter heading ps ++ x).head?) : p = [heading] ∨ p ∈ x.head? := by
  cases ps with
  | nil => exact .inr h
  | cons q qs => exact .inl (Option.some.inj h).symm

/-- A chapter ends where another heading begins the next one. -/
theorem chapter_append_inj {heading : Str} {ps qs x y : List (List Str)}
    (hps : ∀ p ∈ ps, opensChapter p = false) (hqs : ∀ q ∈ qs, opensChapter q = false)
    (hx : ∀ p ∈ x.head?, opensChapter p = true ∧ p ≠ [heading])
    (hy : ∀ p ∈ y.head?, opensChapter p = true ∧ p ≠ [heading])
    (h : chapter heading ps ++ x = chapter heading qs ++ y) : ps = qs ∧ x = y := by
  cases ps with
  | nil =>
    cases qs with
    | nil => exact ⟨rfl, h⟩
    | cons q qs =>
      have hhead : [heading] ∈ x.head? := by
        rw [chapter, List.nil_append] at h
        rw [h]
        rfl
      exact absurd rfl (hx _ hhead).2
  | cons p ps =>
    cases qs with
    | nil =>
      have hhead : [heading] ∈ y.head? := by
        rw [chapter, List.nil_append] at h
        rw [← h]
        rfl
      exact absurd rfl (hy _ hhead).2
    | cons q qs =>
      obtain ⟨-, htail⟩ := List.cons_eq_cons.mp h
      exact append_inj_of_first hps hqs (fun p hp => (hx p hp).1) (fun p hp => (hy p hp).1) htail

namespace Outline

variable {o o' : Outline}

theorem head?_detailsChapter {p : List Str} (h : p ∈ o.detailsChapter.head?) : p = [.whole "#### Details"] := by
  rw [detailsChapter] at h
  by_cases hd : o.direct = true
  · rw [if_pos hd] at h
    cases h
  · rw [if_neg hd, ← List.append_nil (chapter _ _)] at h
    rcases head?_chapter_append h with rfl | h
    · rfl
    · cases h

theorem head?_returned {p : List Str}
    (h : p ∈ (chapter "#### Returns" o.returned ++ o.detailsChapter).head?) :
    p = [.whole "#### Returns"] ∨ p = [.whole "#### Details"] :=
  (head?_chapter_append h).imp_right head?_detailsChapter

/-- The first chapter begins with a heading. -/
theorem head?_chapters {p : List Str} (h : p ∈ o.chapters.head?) : opensChapter p = true := by
  rcases head?_chapter_append h with rfl | h
  · decide
  · rcases head?_returned h with rfl | rfl <;> decide

theorem Unheaded.opening (ho : o.Unheaded) : ∀ p ∈ o.opening, opensChapter p = false := by
  intro p hp
  rcases List.mem_append.mp hp with hp | hp
  · exact ho.summary p hp
  · by_cases hd : o.direct = true
    · rw [if_pos hd] at hp
      exact ho.details p hp
    · rw [if_neg hd] at hp
      cases hp

/-- With the same chapters, the details stand in the same place. -/
theorem summary_append_details (ho : o.Unheaded) (ho' : o'.Unheaded) (hd : o.direct = o'.direct)
    (hopening : o.opening = o'.opening) (hlast : o.detailsChapter = o'.detailsChapter) :
    o.summary ++ o.details = o'.summary ++ o'.details := by
  rw [opening, opening, ← hd] at hopening
  rw [detailsChapter, detailsChapter, ← hd] at hlast
  by_cases hdirect : o.direct = true
  · rwa [if_pos hdirect, if_pos hdirect] at hopening
  · rw [if_neg hdirect, if_neg hdirect, List.append_nil, List.append_nil] at hopening
    rw [if_neg hdirect, if_neg hdirect, ← List.append_nil (chapter _ o.details),
      ← List.append_nil (chapter _ o'.details)] at hlast
    obtain ⟨hdetails, -⟩ := chapter_append_inj ho.details ho'.details (by simp) (by simp) hlast
    rw [hopening, hdetails]

/-- The paragraphs of an outline tell what is said of the whole, of the parameters and of the result. -/
theorem eq_of_paragraphs (ho : o.Unheaded) (ho' : o'.Unheaded)
    (h : o.opening ++ o.chapters = o'.opening ++ o'.chapters) :
    o.summary ++ o.details = o'.summary ++ o'.details ∧ o.parameters = o'.parameters ∧
      o.returned = o'.returned := by
  obtain ⟨hopening, hchapters⟩ := append_inj_of_first ho.opening ho'.opening
    (fun _ => head?_chapters) (fun _ => head?_chapters) h
  have hreturns (o : Outline) : ∀ p ∈ (chapter "#### Returns" o.returned ++ o.detailsChapter).head?,
      opensChapter p = true ∧ p ≠ ["#### Parameters"] := by
    intro p hp
    rcases head?_returned hp with rfl | rfl <;> decide
  obtain ⟨hparams, hrest⟩ :=
    chapter_append_inj ho.parameters ho'.parameters (hreturns o) (hreturns o') hchapters
  have hdetails (o : Outline) : ∀ p ∈ o.detailsChapter.head?,
      opensChapter p = true ∧ p ≠ [.whole "#### Returns"] := by
    intro p hp
    rw [head?_detailsChapter hp]
    decide
  obtain ⟨hreturned, hlast⟩ :=
    chapter_append_inj ho.returned ho'.returned (hdetails o) (hdetails o') hrest
  have hdirect : o.direct = o'.direct := by rw [direct, direct, hparams, hreturned]
  exact ⟨summary_append_details ho ho' hdirect hopening hlast, hparams, hreturned⟩

end Outline

/-! ### The outline of a function -/

/-- The paragraphs of a text that may be missing. -/
def partParagraphs (part : Option Str) : List (List Str) :=
  part.toList.flatMap Text.paragraphs

/-- A text that leaves paragraphs in a section is not missing. -/
theorem partParagraphs_isEmpty {part : Option Str} (h : ∀ text ∈ part, Text.paragraphs text ≠ []) :
    (partParagraphs part).isEmpty = !part.isSome := by
  cases part with
  | none => rfl
  | some text => simpa [partParagraphs] using h text rfl

theorem flatMap_headed {heading : Str} {part : Option Str} (hline : .char '\n' ∉ heading.toList)
    (hheading : heading ≠ "") (h : ∀ text ∈ part, Text.paragraphs text ≠ []) :
    (headed heading part).flatMap Text.paragraphs = chapter heading (partParagraphs part) := by
  cases part with
  | none => rfl
  | some text =>
    obtain ⟨p, ps, hps⟩ := List.exists_cons_of_ne_nil (h text rfl)
    simp [headed, partParagraphs, hps, chapter, Text.paragraphs_of_line hline hheading]

/-- A blank line parts the parts of a section. -/
theorem paragraphs_append_ledParts (s : Str) (parts : List Str) :
    Text.paragraphs (s ++ ledParts parts) = Text.paragraphs s ++ parts.flatMap Text.paragraphs := by
  induction parts generalizing s with
  | nil => simp [ledParts, Text.concat]
  | cons part parts ih =>
    rw [ledParts_cons, ← Str.append_assoc, ← Str.append_assoc, ih, Text.paragraphs_append,
      List.append_assoc, List.flatMap_cons]

/-- The summary and the details together are all of the prose. -/
theorem partParagraphs_combined (d : Option Docs) :
    partParagraphs (summaryPart d) ++ partParagraphs (detailsPart d) =
      partParagraphs (d.map Docs.combined) := by
  match d with
  | none => rfl
  | some ⟨summary, none⟩ => exact List.append_nil _
  | some ⟨summary, some details⟩ =>
    simp [partParagraphs, summaryPart, detailsPart, Docs.combined, Text.paragraphs_append]

/-- The paragraphs of plain prose, or of none, determine it. -/
theorem docs_eq_of_partParagraphs {d e : Option Docs} (hd : ∀ docs ∈ d, docs.Plain)
    (he : ∀ docs ∈ e, docs.Plain)
    (h : partParagraphs (d.map Docs.combined) = partParagraphs (e.map Docs.combined)) : d = e := by
  have hsome : ∀ docs : Docs, docs.Plain → partParagraphs (some docs.combined) ≠ [] := by
    intro docs hdocs
    simp [partParagraphs, hdocs.paragraphs_combined]
  match d, e with
  | none, none => rfl
  | none, some e => exact absurd h.symm (hsome e (he e rfl))
  | some d, none => exact absurd h (hsome d (hd d rfl))
  | some d, some e =>
    rw [(hd d rfl).eq_of_paragraphs (he e rfl) (by simpa [partParagraphs] using h)]

namespace Function

variable {f g : Function}

/-- All prose of a function is plain. -/
structure Plain (f : Function) : Prop where
  docs : ∀ d ∈ f.docs, d.Plain
  returned : ∀ d ∈ f.returns.docs, d.Plain
  params : ∀ p ∈ f.params, ∀ d ∈ p.docs, d.Plain

/-- What the section of a function says. -/
def outline (f : Function) : Outline where
  summary := partParagraphs (summaryPart f.docs)
  parameters := partParagraphs (ParamList.ofFunction? f)
  returned := partParagraphs (f.returns.docs.map Docs.combined)
  details := partParagraphs (detailsPart f.docs)

theorem ofFunction?_eq (f : Function) : ParamList.ofFunction? f =
    if ParamList.starredLines f.params = [] then none
    else some (ParamList.linesText (ParamList.starredLines f.params)) := by
  rw [ParamList.ofFunction?, ParamList.text?, ParamList.starredLines]
  split
  · next h => rw [if_pos h]
  · next h => rw [if_neg h]

/-- The parameter list of a function is one paragraph. -/
theorem paragraphs_ofFunction? (hs : f.PlainSignature) {text : Str}
    (h : text ∈ ParamList.ofFunction? f) : Text.paragraphs text = [ParamList.starredLines f.params] := by
  rw [ofFunction?_eq] at h
  by_cases hnil : ParamList.starredLines f.params = []
  · rw [if_pos hnil] at h
    cases h
  · rw [if_neg hnil] at h
    obtain rfl := Option.some.inj h
    refine ParamList.paragraphs_linesText hnil fun line hline => ?_
    obtain ⟨p, hp, d, hd, hline⟩ := ParamList.mem_starredLines hline
    exact ParamList.line_of_mem_bullet (hs.not_mem_starredName hp) hline

/-- The lines of the parameter list are what the outline has of it. -/
theorem flatten_parameters (hs : f.PlainSignature) :
    f.outline.parameters.flatten = ParamList.starredLines f.params := by
  have hpart : f.outline.parameters = partParagraphs (ParamList.ofFunction? f) := rfl
  rw [hpart, partParagraphs]
  cases h : ParamList.ofFunction? f with
  | none =>
    rw [ofFunction?_eq] at h
    by_cases hnil : ParamList.starredLines f.params = []
    · rw [hnil]
      rfl
    · simp [hnil] at h
  | some text => simp [paragraphs_ofFunction? hs h]

/-- The paragraphs of a function's prose are those of its outline, in order. -/
theorem paragraphs_prose (hs : f.PlainSignature) (hf : f.Plain) :
    f.prose.flatMap Text.paragraphs = f.outline.opening ++ f.outline.chapters := by
  have hparams : ∀ text ∈ ParamList.ofFunction? f, Text.paragraphs text ≠ [] := by
    intro text htext
    simp [paragraphs_ofFunction? hs htext]
  have hreturned : ∀ text ∈ f.returns.docs.map Docs.combined, Text.paragraphs text ≠ [] := by
    intro text htext
    obtain ⟨d, hd, rfl⟩ := Option.map_eq_some_iff.mp htext
    simp [(hf.returned d hd).paragraphs_combined]
  have hdetails : ∀ text ∈ detailsPart f.docs, Text.paragraphs text ≠ [] := by
    intro text htext
    obtain ⟨d, hd, hdtext⟩ := Option.bind_eq_some_iff.mp htext
    simp [Text.paragraphs_of_lines ((hf.docs d hd).details text hdtext).noEmptyLine]
  have hdirect : f.outline.direct =
      !((ParamList.ofFunction? f).isSome || (f.returns.docs.map Docs.combined).isSome) := by
    rw [Outline.direct, outline, partParagraphs_isEmpty hparams, partParagraphs_isEmpty hreturned,
      Bool.not_or]
  rw [prose, Outline.opening, Outline.chapters, Outline.detailsChapter, hdirect]
  simp only [List.flatMap_append]
  rw [flatMap_headed (by decide) (by decide) hparams, flatMap_headed (by decide) (by decide) hreturned]
  cases hsome : (ParamList.ofFunction? f).isSome || (f.returns.docs.map Docs.combined).isSome with
  | true =>
    have hheaded : (headed "#### Details" (detailsPart f.docs)).flatMap Text.paragraphs =
        chapter "#### Details" f.outline.details := flatMap_headed (by decide) (by decide) hdetails
    simp [hheaded, outline, partParagraphs]
  | false =>
    obtain ⟨hnone, hnone'⟩ := Bool.or_eq_false_iff.mp hsome
    rw [Option.isSome_eq_false_iff, Option.isNone_iff_eq_none] at hnone hnone'
    simp [hnone, hnone', outline, partParagraphs, chapter]

/-- Plain prose has no headings among its paragraphs. -/
theorem unheaded_outline (hs : f.PlainSignature) (hf : f.Plain) : f.outline.Unheaded := by
  have hlines {s : Str} (h : PlainProse s) : opensChapter (Text.splitAt '\n' s) = false := by
    have hne : Text.splitAt '\n' s ≠ [] := Text.splitAt_ne_nil s
    obtain ⟨line, lines, hl⟩ := List.exists_cons_of_ne_nil hne
    rw [hl]
    exact h.noHeading line (hl ▸ List.mem_cons_self)
  have hprose {s : Str} (h : PlainProse s) : ∀ p ∈ Text.paragraphs s, opensChapter p = false := by
    rw [Text.paragraphs_of_lines h.noEmptyLine]
    simpa using hlines h
  have hpart {part : Option Str} {p : List Str} (hp : p ∈ partParagraphs part) :
      ∃ text ∈ part, p ∈ Text.paragraphs text := by
    simpa [partParagraphs] using hp
  constructor
  · intro p hp
    obtain ⟨text, htext, hp⟩ := hpart hp
    obtain ⟨d, hd, rfl⟩ := Option.map_eq_some_iff.mp htext
    exact hprose (hf.docs d hd).summary p hp
  · intro p hp
    obtain ⟨text, htext, hp⟩ := hpart hp
    rw [paragraphs_ofFunction? hs htext, List.mem_singleton] at hp
    rw [hp, opensChapter]
    cases hhead : (ParamList.starredLines f.params).head? with
    | none => rfl
    | some line => exact ParamList.isHeading_of_isBullet (ParamList.isBullet_head_starredLines line hhead)
  · intro p hp
    obtain ⟨text, htext, hp⟩ := hpart hp
    obtain ⟨d, hd, rfl⟩ := Option.map_eq_some_iff.mp htext
    rw [(hf.returned d hd).paragraphs_combined] at hp
    rcases List.mem_cons.mp hp with rfl | hp
    · exact hlines (hf.returned d hd).summary
    · obtain ⟨details, hdetails, rfl⟩ := List.mem_map.mp hp
      exact hlines ((hf.returned d hd).details details (Option.mem_toList.mp hdetails))
  · intro p hp
    obtain ⟨text, htext, hp⟩ := hpart hp
    obtain ⟨d, hd, hdtext⟩ := Option.bind_eq_some_iff.mp htext
    exact hprose ((hf.docs d hd).details text hdtext) p hp

/-- **A section loses no prose.** Take two functions with one signature, all their prose plain. If they
have the same section under some name and style, or the same section without its heading, then the functions,
their results and each of their parameters have the same prose. -/
theorem docs_eq_of_section (hsig : f.withoutDocs = g.withoutDocs) (hs : f.PlainSignature) (hf : f.Plain)
    (hg : g.Plain) (style : Style) (name : Str)
    (h : f.section style name = g.section style name ∨ f.bareSection style name = g.bareSection style name) :
    f.docs = g.docs ∧ f.returns.docs = g.returns.docs ∧
      f.params.map (·.docs) = g.params.map (·.docs) := by
  have hs' : g.PlainSignature := plainSignature_withoutDocs.mp (hsig ▸ plainSignature_withoutDocs.mpr hs)
  have hbare : codeBlock style.codeLanguage (f.prototype style name) ++ ledParts f.prose =
      codeBlock style.codeLanguage (g.prototype style name) ++ ledParts g.prose := by
    rcases h with h | h
    · rw [«section», «section», joinParts_cons, joinParts_cons, body, body, ledParts_cons,
        ledParts_cons] at h
      simpa only [Str.append_assoc, Str.append_right_inj] using h
    · rwa [bareSection, bareSection, body, body, joinParts_cons, joinParts_cons] at h
  have hprose : f.prose.flatMap Text.paragraphs = g.prose.flatMap Text.paragraphs := by
    have hled := congrArg (fun t => Text.paragraphs ("" ++ t)) (codeBlock_append_inj hsig hs hs' hbare)
    simpa only [paragraphs_append_ledParts, List.append_cancel_left_eq] using hled
  -- headings cut the paragraphs of both at the same places
  rw [paragraphs_prose hs hf, paragraphs_prose hs' hg] at hprose
  obtain ⟨hwhole, hparams, hreturned⟩ :=
    Outline.eq_of_paragraphs (unheaded_outline hs hf) (unheaded_outline hs' hg) hprose
  refine ⟨?_, docs_eq_of_partParagraphs hf.returned hg.returned hreturned, ?_⟩
  · apply docs_eq_of_partParagraphs hf.docs hg.docs
    rw [← partParagraphs_combined, ← partParagraphs_combined]
    exact hwhole
  · have hnames : f.params.map Param.starredName = g.params.map Param.starredName := by
      have hstarred (f : Function) : f.params.map Param.starredName =
          f.withoutDocs.params.map Param.starredName := by
        rw [withoutDocs, List.map_map]
        rfl
      rw [hstarred, hsig, ← hstarred]
    refine ParamList.docs_eq_of_starredLines hs.readable hnames hf.params hg.params ?_
    rw [← flatten_parameters hs, ← flatten_parameters hs', hparams]

namespace Greeting

/-- A function with prose in every place, that of its first parameter in two paragraphs; its details are given in
pieces, with a newline between neighbours. -/
def greet (details : List Str) : Function where
  params := [{ name := "who", docs := some ⟨"Whom to greet.\nA name.", some (.whole "Not empty.")⟩ },
    { name := "rest", kind := .args }]
  returns := { docs := some ⟨"The greeting.", none⟩ }
  docs := some ⟨"Greets.", some (Text.joinWith "\n" details)⟩

end Greeting

open Greeting in
/-- One section with all its parts, of details in two pieces and in one. -/
theorem docs_eq_of_section_greet : (greet ["It is", "polite."]).PlainSignature ∧
    (greet ["It is", "polite."]).Plain ∧ (greet ["It is\npolite."]).Plain ∧
    (greet ["It is", "polite."]).section {} "greet" =
      "## greet\n\n```python\ndef greet(who, *rest)\n```\n\nGreets.\n\n" ++
        "#### Parameters\n\n* `who`: Whom to greet.\n  A name.\n  \n  Not empty.\n\n\n" ++
          "#### Returns\n\nThe greeting.\n\n#### Details\n\nIt is\npolite." ∧
    (greet ["It is", "polite."]).docs = (greet ["It is\npolite."]).docs := by
  have hs : (greet ["It is", "polite."]).PlainSignature := ⟨by decide, by decide +kernel, by decide +kernel⟩
  have hf : (greet ["It is", "polite."]).Plain := ⟨by decide +kernel, by decide +kernel, by decide +kernel⟩
  have hg : (greet ["It is\npolite."]).Plain := ⟨by decide +kernel, by decide +kernel, by decide +kernel⟩
  have hsame : (greet ["It is", "polite."]).section {} "greet" =
      (greet ["It is\npolite."]).section {} "greet" := by decide +kernel
  exact ⟨hs, hf, hg, by decide +kernel, (docs_eq_of_section rfl hs hf hg {} "greet" (.inl hsame)).1⟩

end Function

end ApiPage
