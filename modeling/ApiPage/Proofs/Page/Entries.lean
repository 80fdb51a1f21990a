import ApiPage.Proofs.Cli.Output

/-!
# Entries of a parameter list

A list of parameters is made of one entry for each of them, empty where the parameter has no prose. What the
command `param` shows is such an entry, so it stands word for word in the section of the function.
-/

namespace ApiPage

namespace ParamList

variable {es : List (Str × Param)} {e : Str × Param} {ls : List Str}

/-! ### Lines and entries -/

theorem bullet_ne_nil (name : Str) (d : Docs) : bullet name d ≠ [] := by
  unfold bullet
  cases Text.proseLines d.combined with
  | nil => simp
  | cons line lines => simp

theorem entryLines_eq_nil : entryLines e = [] ↔ e.2.docs = none := by
  unfold entryLines
  cases e.2.docs with
  | none => simp
  | some d => simp [bullet_ne_nil]

theorem lines_eq_nil : lines es = [] ↔ ∀ e ∈ es, e.2.docs = none := by
  rw [lines, List.flatMap_eq_nil_iff]
  exact forall₂_congr fun _ _ => entryLines_eq_nil

@[simp] theorem linesText_append (ls ms : List Str) :
    linesText (ls ++ ms) = linesText ls ++ linesText ms := by
  rw [linesText, List.map_append, Text.concat_append]
  rfl

/-- A text of lines ends with the end of a line. -/
theorem getLast?_linesText (h : ls ≠ []) : (linesText ls).toList.getLast? = some (.char '\n') := by
  rcases List.eq_nil_or_concat ls with rfl | ⟨front, line, rfl⟩
  · exact absurd rfl h
  · rw [List.concat_eq_append, linesText_append]
    simp [linesText, Text.concat, Str.toList_append]

theorem text?_eq_none : text? es = none ↔ ∀ e ∈ es, e.2.docs = none := by
  rw [← lines_eq_nil, text?]
  cases lines es with
  | nil => simp
  | cons line ls => simp

theorem text?_eq_some (h : lines es ≠ []) : text? es = some (linesText (lines es)) := by
  rw [text?]
  cases hl : lines es with
  | nil => exact absurd hl h
  | cons line ls => rfl

theorem entryText_eq (name : Str) (p : Param) :
    entryText name p = linesText (entryLines (name, p)) := by
  have hone : lines [(name, p)] = entryLines (name, p) := List.flatMap_singleton ..
  rw [entryText, text?, hone]
  cases entryLines (name, p) with
  | nil => rfl
  | cons line ls => rfl

theorem entryText_eq_empty {name : Str} {p : Param} (h : p.docs = none) :
    entryText name p = "" := by
  have hnone : entryLines (name, p) = [] := entryLines_eq_nil.mpr h
  rw [entryText_eq, hnone]
  rfl

/-- Entries are whole lines: the lines of a list are those of its entries. -/
theorem linesText_lines (es : List (Str × Param)) :
    linesText (lines es) = Text.concat (es.map fun e => entryText e.1 e.2) := by
  induction es with
  | nil => rfl
  | cons e es ih =>
    have hcons : lines (e :: es) = entryLines e ++ lines es := List.flatMap_cons ..
    rw [hcons, linesText_append, ih, List.map_cons, Text.concat, entryText_eq]

/-- A list without any prose has no text, and the text of every other list is that of its entries in order;
the entry of a parameter without prose is empty. -/
theorem text?_entries (es : List (Str × Param)) :
    (text? es = none ↔ ∀ e ∈ es, e.2.docs = none) ∧
      ((∃ e ∈ es, e.2.docs ≠ none) →
        text? es = some (Text.concat (es.map fun e => entryText e.1 e.2))) ∧
      ∀ e ∈ es, e.2.docs = none → entryText e.1 e.2 = "" := by
  refine ⟨text?_eq_none, ?_, fun e _ => entryText_eq_empty⟩
  rintro ⟨e, he, hd⟩
  have hlines : lines es ≠ [] := fun h => hd (lines_eq_nil.mp h e he)
  rw [text?_eq_some hlines, linesText_lines]

end ParamList

/-! ### The section of a function -/

/-- The entries of a function's parameters under their starred names. -/
def Function.entries (f : Function) : List Str :=
  f.params.map fun p => ParamList.entryText p.starredName p

/-- Nothing, or a text that begins with a heading of the fourth rank. -/
def Headed (text : Str) : Prop :=
  text = "" ∨ ∃ more, text = "\n\n#### " ++ more

/-- `f.HoldsEntry shown text`: in `text`, a section of `f`, `shown` is one of the entries below the heading
of the parameters, where all entries stand up to the next heading or the end. -/
inductive Function.HoldsEntry (f : Function) (shown : Str) : Str → Prop
  | intro {front back : Str} {before after : List Str}
      (entries : f.entries = before ++ shown :: after)
      (ends : Headed back) :
      HoldsEntry f shown
        (front ++ "\n\n#### Parameters\n\n" ++ (Text.concat before ++ shown ++ Text.concat after) ++ back)

theorem ParamList.ofFunction?_eq_some {f : Function} {p : Param} (hp : p ∈ f.params)
    (hd : p.docs ≠ none) : ofFunction? f = some (Text.concat f.entries) := by
  have hlines : lines (f.params.map fun p => (p.starredName, p)) ≠ [] := by
    intro h
    exact hd (lines_eq_nil.mp h _ (List.mem_map_of_mem hp))
  rw [ofFunction?, text?_eq_some hlines, linesText_lines, List.map_map]
  rfl

variable {f : Function} {p : Param}

/-- The list of parameters stands between the summary and what has a heading of its own. -/
theorem Function.prose_of_documented (hp : p ∈ f.params) (hd : p.docs ≠ none) : f.prose =
    (summaryPart f.docs).toList ++ .whole "#### Parameters" :: Text.concat f.entries ::
      (headed "#### Returns" (f.returns.docs.map Docs.combined) ++
        headed "#### Details" (detailsPart f.docs)) := by
  rw [prose, ParamList.ofFunction?_eq_some hp hd]
  simp [headed]

/-- Parts, each of them led by a blank line. -/
def ledParts (parts : List Str) : Str :=
  Text.concat (parts.map ("\n\n" ++ ·))

@[simp] theorem ledParts_append (parts more : List Str) :
    ledParts (parts ++ more) = ledParts parts ++ ledParts more := by
  rw [ledParts, List.map_append, Text.concat_append]
  rfl

@[simp] theorem ledParts_cons (part : Str) (parts : List Str) :
    ledParts (part :: parts) = "\n\n" ++ part ++ ledParts parts := rfl

theorem joinParts_cons (part : Str) (parts : List Str) :
    joinParts (part :: parts) = part ++ ledParts parts :=
  Text.joinWith_cons _ _ _

theorem headed_ledParts (heading : Str) (o : Option Str) :
    Headed (ledParts (headed ("#### " ++ heading) o)) := by
  cases o with
  | none => exact .inl rfl
  | some text =>
    have hlead : Str.whole "\n\n#### " = "\n\n" ++ "#### " := rfl
    refine .inr ⟨heading ++ ("\n\n" ++ text ++ ledParts []), ?_⟩
    simp only [headed, ledParts_cons, hlead, Str.append_assoc]

theorem Headed.append {text more : Str} (h : Headed text) (hmore : Headed more) :
    Headed (text ++ more) := by
  rcases h with rfl | ⟨rest, rfl⟩
  · rw [Str.empty_append]
    exact hmore
  · exact .inr ⟨rest ++ more, Str.append_assoc ..⟩

/-- What stands in front of the prose does not matter to the entries. -/
theorem Function.holdsEntry_joinParts (hp : p ∈ f.params) (hd : p.docs ≠ none) (first : Str)
    (others : List Str) : f.HoldsEntry (ParamList.entryText p.starredName p)
      (joinParts (first :: (others ++ f.prose))) := by
  obtain ⟨before, after, hparams⟩ := List.append_of_mem hp
  let entry (p : Param) : Str := ParamList.entryText p.starredName p
  have hentries : f.entries = before.map entry ++ entry p :: after.map entry := by
    rw [entries, hparams, List.map_append, List.map_cons]
  have hends : Headed (ledParts (headed "#### Returns" (f.returns.docs.map Docs.combined)) ++
      ledParts (headed "#### Details" (detailsPart f.docs))) :=
    (headed_ledParts "Returns" _).append (headed_ledParts "Details" _)
  have htext : joinParts (first :: (others ++ f.prose)) =
      (first ++ ledParts others ++ ledParts (summaryPart f.docs).toList) ++ "\n\n#### Parameters\n\n" ++
        (Text.concat (before.map entry) ++ entry p ++ Text.concat (after.map entry)) ++
          (ledParts (headed "#### Returns" (f.returns.docs.map Docs.combined)) ++
            ledParts (headed "#### Details" (detailsPart f.docs))) := by
    have hheading : Str.whole "\n\n#### Parameters\n\n" = "\n\n" ++ "#### Parameters" ++ "\n\n" := rfl
    rw [joinParts_cons, prose_of_documented hp hd, hentries, hheading]
    simp only [ledParts_append, ledParts_cons, Text.concat_append, Text.concat, Str.append_assoc]
  rw [htext]
  exact .intro hentries hends

/-- A section has the entry of every parameter with prose, with its heading and without. -/
theorem Function.holdsEntry_section (hp : p ∈ f.params) (hd : p.docs ≠ none) (style : Style)
    (name : Str) :
    f.HoldsEntry (ParamList.entryText p.starredName p) (f.section style name) ∧
      f.HoldsEntry (ParamList.entryText p.starredName p) (f.bareSection style name) := by
  constructor
  · exact holdsEntry_joinParts hp hd (sectionHeading name) [codeBlock style.codeLanguage _]
  · exact holdsEntry_joinParts hp hd (codeBlock style.codeLanguage _) []

/-! ### The command `param` -/

namespace Cli

variable {host : Host} {fs : Files} {args : List String} {r : Request}

/-- A text that ends its last line is shown as it is. -/
theorem endLine_of_ended {text : Str} (h : text.toList.getLast? = some (.char '\n')) :
    endLine text = text := by
  rw [endLine, if_pos h]

/-- A parameter that a request shows is one of the function that it selects. -/
theorem selected_of_shows {text : Str} (h : Shows host fs r text) (hparam : commandOf r.action = .param) :
    ∃ path param rs input f p, r.action = .param (.text path) (.text param) ∧
      readInput host fs r = (rs, .ok input) ∧ input.item.selectFunction input.name path = .ok f ∧
        Params.find? f.params param = some p ∧ text = ParamList.entryText p.starredName p := by
  obtain ⟨rs, input, more, hread, hshow⟩ := h
  have hshow := congrArg Prod.snd hshow
  match haction : r.action with
  | .render .. =>
    rw [haction] at hparam
    cases hparam
  | .param .blank _ => simp [haction, show?] at hshow
  | .param (.text path) .blank =>
    cases hf : input.item.selectFunction input.name path <;> simp [haction, show?, hf] at hshow
  | .param (.text path) (.text param) =>
    cases hf : input.item.selectFunction input.name path with
    | error fault => simp [haction, show?, Item.selectParam, hf] at hshow
    | ok f =>
      cases hp : Params.find? f.params param with
      | none => simp [haction, show?, Item.selectParam, hf, hp] at hshow
      | some p =>
        refine ⟨path, param, rs, input, f, p, rfl, hread, hf, hp, ?_⟩
        simpa [haction, show?, Item.selectParam, hf, hp, eq_comm] using hshow

/-- A parameter that the command `param` shows has its entry printed, with the end of its line, and if it has
prose that is one of the entries in every section of its function. -/
theorem shownEntry_of_run (hr : Request.parse args = .ok r) (hparam : commandOf r.action = .param)
    (hs : (run host fs args).ending = .exit 0) :
    ∃ path param rs input f p, r.action = .param (.text path) (.text param) ∧
      readInput host fs r = (rs, .ok input) ∧ input.item.selectFunction input.name path = .ok f ∧
        Params.find? f.params param = some p ∧
          (run host fs args).stdout = endLine (ParamList.entryText p.starredName p) ∧
            (p.docs ≠ none → ∀ style name, f.HoldsEntry (run host fs args).stdout (f.section style name) ∧
              f.HoldsEntry (run host fs args).stdout (f.bareSection style name)) := by
  have hrun : run host fs args = runRequest host fs r := by rw [run, hr]
  rw [hrun] at hs ⊢
  obtain ⟨text, hshows⟩ := shows_of_runRequest hs
  obtain ⟨path, param, rs, input, f, p, haction, hread, hf, hp, rfl⟩ :=
    selected_of_shows hshows hparam
  have hprinted := hshows.printed (by rw [haction]; rfl) hs
  refine ⟨path, param, rs, input, f, p, haction, hread, hf, hp, hprinted, fun hd style name => ?_⟩
  have hmem : p ∈ f.params := List.mem_of_find?_eq_some hp
  have hlast : (ParamList.entryText p.starredName p).toList.getLast? = some (.char '\n') := by
    rw [ParamList.entryText_eq]
    exact ParamList.getLast?_linesText fun h => hd (ParamList.entryLines_eq_nil.mp h)
  rw [hprinted, endLine_of_ended hlast]
  exact Function.holdsEntry_section hmem hd style name

/-- **What is shown of a parameter is its entry.** A list of parameters has no text if none of them has prose,
and otherwise that of their entries in order, those without prose being empty. So what the command `param`
prints of a parameter that has prose is one of the entries in every section of its function. -/
theorem entry_of_run :
    (∀ es : List (Str × Param),
      (ParamList.text? es = none ↔ ∀ e ∈ es, e.2.docs = none) ∧
        ((∃ e ∈ es, e.2.docs ≠ none) → ParamList.text? es =
          some (Text.concat (es.map fun e => ParamList.entryText e.1 e.2))) ∧
        ∀ e ∈ es, e.2.docs = none → ParamList.entryText e.1 e.2 = "") ∧
      ∀ host fs args r, Request.parse args = .ok r → commandOf r.action = .param →
        (run host fs args).ending = .exit 0 →
          ∃ path param rs input f p, r.action = .param (.text path) (.text param) ∧
            readInput host fs r = (rs, .ok input) ∧ input.item.selectFunction input.name path = .ok f ∧
              Params.find? f.params param = some p ∧
                (run host fs args).stdout = endLine (ParamList.entryText p.starredName p) ∧
                  (p.docs ≠ none → ∀ style name,
                    f.HoldsEntry (run host fs args).stdout (f.section style name) ∧
                      f.HoldsEntry (run host fs args).stdout (f.bareSection style name)) :=
  ⟨ParamList.text?_entries, fun _ _ _ _ hr hparam hs => shownEntry_of_run hr hparam hs⟩

namespace Hover

/-- A function of two parameters, of which the second has prose in two lines. -/
def files : Files :=
  ⟨["w"], [(["w"], .directory), (["w", "m.yml"], .file (Text.encodeUtf8
    "kind: function\nparams:\n- name: a\n- name: b\n  kind: args\n  docs: \"One.\\nTwo.\"\n"))], []⟩

def commandLine : List String := ["-q", "param", "m.yml", ".", "b"]

def asked : Request :=
  { verbose := false, quiet := true, path := "m.yml", config := none
    action := .param (.text ".") (.text "b") }

end Hover

open Hover in
/-- The entry of a parameter behind one that has no prose. -/
theorem entry_of_run_hover : Request.parse commandLine = .ok asked ∧
    (run (.bare Yaml.reader) files commandLine).ending = .exit 0 ∧
      (run (.bare Yaml.reader) files commandLine).stdout = "* `*b`: One.\n  Two.\n" ∧
        ∃ f : Function, ∀ style name,
          f.HoldsEntry "* `*b`: One.\n  Two.\n" (f.section style name) := by
  have hr : Request.parse commandLine = .ok asked := rfl
  have hs : (run (.bare Yaml.reader) files commandLine).ending = .exit 0 := by decide +kernel
  have hshown : (run (.bare Yaml.reader) files commandLine).stdout = "* `*b`: One.\n  Two.\n" := by decide +kernel
  obtain ⟨-, hparam⟩ := entry_of_run
  obtain ⟨path, param, rs, input, f, p, -, -, -, -, hprinted, hentry⟩ :=
    hparam (.bare Yaml.reader) files commandLine asked hr rfl hs
  have hd : p.docs ≠ none := by
    intro hnone
    rw [ParamList.entryText_eq_empty hnone, hshown] at hprinted
    exact absurd hprinted (by decide)
  rw [hshown] at hentry
  exact ⟨hr, hs, hshown, f, fun style name => (hentry hd style name).1⟩

end Cli

end ApiPage
