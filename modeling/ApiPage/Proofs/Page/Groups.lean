import ApiPage.Proofs.Page.Bullets
import ApiPage.Proofs.Text.Lines

/-!
# Reading the entries of a parameter list

Cut before every line that begins an entry, the lines of a parameter list fall into one group for each parameter
with prose. The first line of a group tells the name and the others are indented, so whatever the prose holds, it
neither begins an entry of its own nor ends the one in which it stands.
-/

namespace ApiPage

namespace ParamList

open Text (behind?)

variable {name : Str} {prose : List Str} {es : List (Str × Param)}

/-! ### Groups of lines -/

/-- Does a line begin an entry? -/
def opensEntry (line : Str) : Bool :=
  (Str.whole "* `").toList.isPrefixOf line.toList

/-- Lines cut before every line that begins an entry: those in front of the first one, and for each of them the
line with those behind it. -/
def groups : List Str → List Str × List (Str × List Str)
  | [] => ([], [])
  | line :: lines =>
    if opensEntry line then ([], (line, (groups lines).1) :: (groups lines).2)
    else (line :: (groups lines).1, (groups lines).2)

/-- The name in the code span of a line that begins an entry, and the line of prose behind it, if any. -/
def readFirst? (line : Str) : Option (Str × List Str) := do
  let span ← behind? "* `" line
  let name := Str.ofList (span.toList.takeWhile (· ≠ '`'))
  let rest ← behind? (name ++ "`") span
  if rest = "" then some (name, []) else (behind? ": " rest).map fun line => (name, [line])

/-- The name and the lines of prose that a group tells. -/
def readGroup? (group : Str × List Str) : Option (Str × List Str) := do
  let first ← readFirst? group.1
  let others ← group.2.mapM (behind? "  ")
  some (first.1, first.2 ++ others)

/-- The names and the lines of prose in the entries of a text. -/
def readEntries? (text : Str) : Option (List (Str × List Str)) := do
  let lines ← Text.endedLines? text
  if (groups lines).1 = [] then (groups lines).2.mapM readGroup? else none

/-- The parameters with prose: the name of each, and the lines of its prose. -/
def documented (es : List (Str × Param)) : List (Str × List Str) :=
  es.filterMap fun e => e.2.docs.map fun d => (e.1, Text.proseLines d.combined)

/-- Lines that begin no entry stay with what is in front of them. -/
theorem groups_append {others : List Str} (h : ∀ line ∈ others, opensEntry line = false)
    (lines : List Str) : groups (others ++ lines) = (others ++ (groups lines).1, (groups lines).2) := by
  induction others with
  | nil => rfl
  | cons line others ih =>
    obtain ⟨hline, hothers⟩ := List.forall_mem_cons.mp h
    rw [List.cons_append, groups, hline, ih hothers]
    rfl

/-- A list of groups is what its lines are cut into. -/
theorem groups_flatMap {gs : List (Str × List Str)}
    (h : ∀ g ∈ gs, opensEntry g.1 = true ∧ ∀ line ∈ g.2, opensEntry line = false) :
    groups (gs.flatMap fun g => g.1 :: g.2) = ([], gs) := by
  induction gs with
  | nil => rfl
  | cons g gs ih =>
    obtain ⟨⟨hfirst, hothers⟩, hgs⟩ := List.forall_mem_cons.mp h
    rw [List.flatMap_cons, List.cons_append, groups, if_pos hfirst, groups_append hothers, ih hgs,
      List.append_nil]

/-! ### The group of an entry -/

/-- The lines of an entry as a group. -/
def groupOf (name : Str) : List Str → Str × List Str
  | [] => (bulletHead name, [])
  | line :: lines => (bulletHead name ++ (": " ++ line), lines.map ("  " ++ ·))

theorem bullet_eq_groupOf (name : Str) (d : Docs) : bullet name d =
    (groupOf name (Text.proseLines d.combined)).1 :: (groupOf name (Text.proseLines d.combined)).2 := by
  have hquote : Str.whole "`: " = "`" ++ ": " := rfl
  unfold bullet
  cases Text.proseLines d.combined with
  | nil => rfl
  | cons line lines => simp only [groupOf, bulletHead, hquote, Str.append_assoc]

theorem opensEntry_bulletHead (name more : Str) : opensEntry (bulletHead name ++ more) = true := by
  simp [opensEntry, bulletHead, Str.toList_append]

theorem opensEntry_indented (line : Str) : opensEntry ("  " ++ line) = false := by
  simp [opensEntry, List.isPrefixOf, Str.toList_append]

theorem groupOf_opens (name : Str) (prose : List Str) : opensEntry (groupOf name prose).1 = true ∧
    ∀ line ∈ (groupOf name prose).2, opensEntry line = false := by
  cases prose with
  | nil => exact ⟨by simpa [groupOf] using opensEntry_bulletHead name "", by simp [groupOf]⟩
  | cons line lines =>
    refine ⟨opensEntry_bulletHead name _, fun l hl => ?_⟩
    obtain ⟨l, -, rfl⟩ := List.mem_map.mp hl
    exact opensEntry_indented l

/-- The name of an entry ends at the first backquote. -/
theorem readFirst?_bulletHead (hname : .char '`' ∉ name.toList) (more : Str) :
    readFirst? (bulletHead name ++ more) =
      if more = "" then some (name, []) else (behind? ": " more).map fun line => (name, [line]) := by
  have hspan : bulletHead name ++ more = "* `" ++ (name ++ "`" ++ more) := by
    simp only [bulletHead, Str.append_assoc]
  have hquote : (name ++ "`" ++ more).toList = name.toList ++ .char '`' :: more.toList := by
    simp [Str.toList_append]
  have htake : (name ++ "`" ++ more).toList.takeWhile (· ≠ .char '`') = name.toList := by
    have hpos : ∀ c ∈ name.toList, decide (c ≠ .char '`') = true := by
      intro c hc
      exact decide_eq_true fun heq => hname (heq ▸ hc)
    rw [hquote, List.takeWhile_append_of_pos hpos]
    simp
  simp only [readFirst?, hspan, Text.behind?_append, Option.bind_eq_bind, Option.bind_some, htake,
    Str.ofList_toList]

theorem readGroup?_groupOf (hname : .char '`' ∉ name.toList) (prose : List Str) :
    readGroup? (groupOf name prose) = some (name, prose) := by
  cases prose with
  | nil =>
    have hfirst := readFirst?_bulletHead hname ""
    rw [Str.append_empty, if_pos rfl] at hfirst
    simp [readGroup?, groupOf, hfirst]
  | cons line lines =>
    have hfirst := readFirst?_bulletHead hname (": " ++ line)
    have hne : ": " ++ line ≠ "" := fun h => absurd (Str.append_eq_empty_iff.mp h).1 (by decide)
    rw [if_neg hne, Text.behind?_append, Option.map_some] at hfirst
    have hothers : (lines.map (.whole "  " ++ ·)).mapM (behind? "  ") = some (lines.map id) :=
      Text.mapM_map_eq_some fun _ _ => Text.behind?_append
    simp [readGroup?, groupOf, hfirst, hothers]

/-! ### The list -/

theorem lines_eq_flatMap (es : List (Str × Param)) :
    lines es = ((documented es).map fun e => groupOf e.1 e.2).flatMap fun g => g.1 :: g.2 := by
  induction es with
  | nil => rfl
  | cons e es ih =>
    have hcons : lines (e :: es) = entryLines e ++ lines es := List.flatMap_cons ..
    rw [hcons, ih, entryLines, documented, documented, List.filterMap_cons]
    cases e.2.docs with
    | none => rfl
    | some d => simp [bullet_eq_groupOf]

/-- The lines of a list are lines if its names are. -/
theorem newline_not_mem_of_mem_lines (hnames : ∀ e ∈ es, .char '\n' ∉ e.1.toList) :
    ∀ line ∈ lines es, .char '\n' ∉ line.toList := by
  intro line hline
  obtain ⟨e, he, hline⟩ := List.mem_flatMap.mp hline
  unfold entryLines at hline
  cases hdocs : e.2.docs with
  | none => simp [hdocs] at hline
  | some d =>
    rw [hdocs] at hline
    exact (line_of_mem_bullet (hnames e he) hline).2

theorem documented_eq_nil : documented es = [] ↔ ∀ e ∈ es, e.2.docs = none := by
  simp [documented]

theorem exists_of_mem_documented {e : Str × List Str} (h : e ∈ documented es) :
    ∃ e' ∈ es, e'.1 = e.1 := by
  obtain ⟨e', he', h⟩ := List.mem_filterMap.mp h
  obtain ⟨d, -, rfl⟩ := Option.map_eq_some_iff.mp h
  exact ⟨e', he', rfl⟩

/-- **A parameter list can be read back line by line.** If the names hold no backquote and no newline, a list of
parameters has a text if one of them has prose, and its lines fall into one group for each parameter with prose,
in order, which tells its name and exactly the lines of its prose, whatever they hold. -/
theorem readEntries?_text? (hnames : ∀ e ∈ es, .char '`' ∉ e.1.toList ∧ .char '\n' ∉ e.1.toList) :
    (text? es = none ↔ documented es = []) ∧
      ∀ text ∈ text? es, readEntries? text = some (documented es) := by
  refine ⟨text?_eq_none.trans documented_eq_nil.symm, fun text htext => ?_⟩
  have hne : lines es ≠ [] := by
    intro hnil
    rw [text?_eq_none.mpr (lines_eq_nil.mp hnil)] at htext
    cases htext
  rw [text?_eq_some hne] at htext
  obtain rfl := Option.some.inj htext
  have hended : Text.endedLines? (linesText (lines es)) = some (lines es) :=
    Text.endedLines?_ended (newline_not_mem_of_mem_lines fun e he => (hnames e he).2)
  have hgroups : groups (lines es) = ([], (documented es).map fun e => groupOf e.1 e.2) := by
    rw [lines_eq_flatMap]
    refine groups_flatMap fun g hg => ?_
    obtain ⟨e, -, rfl⟩ := List.mem_map.mp hg
    exact groupOf_opens e.1 e.2
  have hread : ((documented es).map fun e => groupOf e.1 e.2).mapM readGroup? =
      some ((documented es).map fun e => (e.1, e.2)) := by
    refine Text.mapM_map_eq_some fun e he => readGroup?_groupOf ?_ e.2
    obtain ⟨e', he', hname⟩ := exists_of_mem_documented he
    exact hname ▸ (hnames e' he').1
  simp [readEntries?, hended, hgroups, hread]

namespace Forged

/-- Prose that looks like entries, no prose, empty prose and an empty line of prose. -/
def entries : List (Str × Param) :=
  [("a", { name := "a", docs := some ⟨"One.\r\n* `b`: forged", some (.whole "* `c`")⟩ }),
    ("*b", { name := "b", kind := .args }), ("c", { name := "c", docs := some ⟨"", none⟩ }),
    ("d", { name := "d", docs := some ⟨"\n", none⟩ })]

/-- The names of those with prose, and the lines of their prose. -/
def listed : List (Str × List Str) :=
  [("a", ["One.", "* `b`: forged", "", "* `c`"]), ("c", []), ("d", [""])]

end Forged

open Forged in
/-- Entries whose prose looks like entries. -/
theorem readEntries?_text?_forged : (∀ e ∈ entries, .char '`' ∉ e.1.toList ∧ .char '\n' ∉ e.1.toList) ∧
    text? entries = some (.whole "* `a`: One.\n  * `b`: forged\n  \n  * `c`\n* `c`\n* `d`: \n") ∧
    readEntries? "* `a`: One.\n  * `b`: forged\n  \n  * `c`\n* `c`\n* `d`: \n" = some listed := by
  have hnames : ∀ e ∈ entries, .char '`' ∉ e.1.toList ∧ .char '\n' ∉ e.1.toList := by decide +kernel
  have htext : text? entries = some (.whole "* `a`: One.\n  * `b`: forged\n  \n  * `c`\n* `c`\n* `d`: \n") := by
    decide +kernel
  have hdocumented : documented entries = listed := by decide +kernel
  refine ⟨hnames, htext, ?_⟩
  rw [← hdocumented]
  exact (readEntries?_text? hnames).2 _ htext

end ParamList

end ApiPage
