import ApiPage.Proofs.Page.Entries
import ApiPage.Proofs.Text.Lines
import ApiPage.Proofs.Text.Paragraphs

/-!
# Reading a parameter list

The lines of a parameter list tell the prose of every parameter. A bullet begins with a star and goes on in
lines that begin with blanks, so the bullets can be told apart; the name up to the closing backquote tells
whose bullet it is, and what follows it, with the blanks taken off, is the prose.
-/

namespace ApiPage

/-- Two equal lists, each cut at its first member with a property, are cut in the same place. -/
theorem append_inj_of_first {α : Type} {p : α → Bool} {a b x y : List α} (ha : ∀ l ∈ a, p l = false)
    (hb : ∀ l ∈ b, p l = false) (hx : ∀ l ∈ x.head?, p l = true) (hy : ∀ l ∈ y.head?, p l = true)
    (h : a ++ x = b ++ y) : a = b ∧ x = y := by
  have hfront {c z : List α} (hc : ∀ l ∈ c, p l = false) (hz : ∀ l ∈ z.head?, p l = true) :
      (c ++ z).takeWhile (fun l => !p l) = c := by
    rw [List.takeWhile_append_of_pos fun l hl => by rw [hc l hl]; rfl]
    cases z with
    | nil => simp
    | cons l z => simp [hz l rfl]
  have hab : a = b := by rw [← hfront ha hx, h, hfront hb hy]
  rw [hab] at h
  exact ⟨hab, List.append_cancel_left h⟩

/-! ### Plain prose -/

/-- Does a heading of the fourth rank stand at the beginning of a line? -/
def isHeading (line : Str) : Bool :=
  (Str.whole "#### ").toList.isPrefixOf line.toList

/-- Prose without carriage returns whose lines are neither empty nor headings; so it is not empty itself, and
has no newline at its ends. -/
structure PlainProse (s : Str) : Prop where
  noReturn : .char '\r' ∉ s.toList
  noEmptyLine : ∀ line ∈ Text.splitAt '\n' s, line ≠ ""
  noHeading : ∀ line ∈ Text.splitAt '\n' s, isHeading line = false

instance : DecidablePred PlainProse := fun s =>
  decidable_of_iff (.char '\r' ∉ s.toList ∧ (∀ line ∈ Text.splitAt '\n' s, line ≠ "") ∧
      ∀ line ∈ Text.splitAt '\n' s, isHeading line = false)
    ⟨fun ⟨noReturn, noEmptyLine, noHeading⟩ => ⟨noReturn, noEmptyLine, noHeading⟩,
      fun ⟨noReturn, noEmptyLine, noHeading⟩ => ⟨noReturn, noEmptyLine, noHeading⟩⟩

/-- Plain in its summary and, where it has them, in its details. -/
structure Docs.Plain (d : Docs) : Prop where
  summary : PlainProse d.summary
  details : ∀ text ∈ d.details, PlainProse text

instance : DecidablePred Docs.Plain := fun d =>
  decidable_of_iff (PlainProse d.summary ∧ ∀ text ∈ d.details, PlainProse text)
    ⟨fun ⟨summary, details⟩ => ⟨summary, details⟩, fun ⟨summary, details⟩ => ⟨summary, details⟩⟩

namespace Docs.Plain

variable {d e : Docs}

/-- The summary is one paragraph, the details another. -/
theorem paragraphs_combined (h : d.Plain) : Text.paragraphs d.combined =
    Text.splitAt '\n' d.summary :: d.details.toList.map (Text.splitAt '\n') := by
  have hsummary := Text.paragraphs_of_lines h.summary.noEmptyLine
  unfold combined
  cases hd : d.details with
  | none => exact hsummary
  | some text =>
    dsimp only
    rw [Text.paragraphs_append, hsummary, Text.paragraphs_of_lines (h.details text hd).noEmptyLine]
    rfl

/-- The paragraphs of plain prose determine it. -/
theorem eq_of_paragraphs (hd : d.Plain) (he : e.Plain)
    (h : Text.paragraphs d.combined = Text.paragraphs e.combined) : d = e := by
  rw [hd.paragraphs_combined, he.paragraphs_combined] at h
  obtain ⟨hsummary, hdetails⟩ := List.cons_eq_cons.mp h
  have hlists : d.details.toList = e.details.toList :=
    (List.map_inj_right fun _ _ => Text.splitAt_injective).mp hdetails
  have hsummary : d.summary = e.summary := Text.splitAt_injective hsummary
  cases d with | mk summary details =>
  cases e with | mk summary' details' =>
  cases details <;> cases details' <;> simp_all

theorem combined_lines (h : d.Plain) : Text.proseLines d.combined = Text.splitAt '\n' d.combined := by
  have hlast {s : Str} (hs : PlainProse s) : (Text.splitAt '\n' s).getLast? ≠ some (.whole "") :=
    fun hempty => hs.noEmptyLine _ (List.mem_of_getLast? hempty) rfl
  unfold combined
  cases hd : d.details with
  | none => exact Text.proseLines_eq_splitAt h.summary.noReturn (hlast h.summary)
  | some text =>
    have ht : PlainProse text := h.details text hd
    dsimp only
    apply Text.proseLines_eq_splitAt
    · simp [Str.toList_append, h.summary.noReturn, ht.noReturn]
    · have hblank : d.summary ++ "\n\n" ++ text =
          d.summary ++ "\n" ++ Str.singleton '\n' ++ text := by
        have hbreak : Str.whole "\n\n" = "\n" ++ Str.singleton '\n' := rfl
        simp only [hbreak, Str.append_assoc]
      have hne : Text.splitAt '\n' text ≠ [] := Text.splitAt_ne_nil text
      obtain ⟨last, hl⟩ := Option.ne_none_iff_exists'.mp (mt List.getLast?_eq_none_iff.mp hne)
      rw [hblank, Text.splitAt_append_sep, List.getLast?_append, hl, Option.some_or, ← hl]
      exact hlast ht

end Docs.Plain

/-! ### Bullets -/

namespace ParamList

/-- What a bullet begins with. -/
def bulletHead (name : Str) : Str :=
  "* `" ++ name ++ "`"

/-- Does a line begin a bullet? -/
def isBullet (line : Str) : Bool :=
  line.toList.head? = some (.char '*')

theorem isBullet_bulletHead (name more : Str) : isBullet (bulletHead name ++ more) = true := by
  simp [isBullet, bulletHead, Str.toList_append]

theorem isBullet_indented (line : Str) : isBullet ("  " ++ line) = false := by
  simp [isBullet, Str.toList_append]

theorem isHeading_of_isBullet {line : Str} (h : isBullet line = true) : isHeading line = false := by
  rw [isBullet, decide_eq_true_iff] at h
  obtain ⟨rest, hline⟩ := List.head?_eq_some_iff.mp h
  rw [isHeading, hline]
  rfl

/-- The name of a bullet ends at the first backquote behind it. -/
theorem bulletHead_inj {name name' more more' : Str} (h : .char '`' ∉ name.toList) (h' : .char '`' ∉ name'.toList)
    (heq : bulletHead name ++ more = bulletHead name' ++ more') : name = name' ∧ more = more' := by
  have hcut (n m : Str) : bulletHead n ++ m = "* `" ++ (n ++ Str.singleton '`' ++ m) := by
    have hquote : Str.singleton '`' = "`" := rfl
    rw [bulletHead, hquote]
    simp only [Str.append_assoc]
  rw [hcut, hcut, Str.append_right_inj] at heq
  have hsplit := congrArg (Text.splitAt '`') heq
  rw [Text.splitAt_append h, Text.splitAt_append h'] at hsplit
  obtain ⟨rfl, -⟩ := List.cons_eq_cons.mp hsplit
  exact ⟨rfl, (Str.append_right_inj _).mp heq⟩

/-- A bullet is one line with the name, and further lines that do not begin bullets. -/
theorem exists_bullet_eq (name : Str) (d : Docs) :
    ∃ more rest, bullet name d = (bulletHead name ++ more) :: rest ∧
      ∀ l ∈ rest, isBullet l = false := by
  unfold bullet
  cases Text.proseLines d.combined with
  | nil => exact ⟨"", [], by simp [bulletHead], by simp⟩
  | cons line lines =>
    refine ⟨": " ++ line, lines.map ("  " ++ ·), ?_, ?_⟩
    · have hquote : Str.whole "`: " = "`" ++ ": " := rfl
      simp only [bulletHead, hquote, Str.append_assoc]
    · intro l hl
      obtain ⟨line, -, rfl⟩ := List.mem_map.mp hl
      exact isBullet_indented line

/-- The bullet of a name determines plain prose. -/
theorem bullet_inj {name : Str} {d e : Docs} (hd : d.Plain) (he : e.Plain)
    (h : bullet name d = bullet name e) : d = e := by
  have hlines : Text.proseLines d.combined = Text.proseLines e.combined := by
    have hd' : Text.proseLines d.combined ≠ [] := hd.combined_lines ▸ Text.splitAt_ne_nil _
    have he' : Text.proseLines e.combined ≠ [] := he.combined_lines ▸ Text.splitAt_ne_nil _
    obtain ⟨line, lines, hdl⟩ := List.exists_cons_of_ne_nil hd'
    obtain ⟨line', lines', hel⟩ := List.exists_cons_of_ne_nil he'
    simp only [bullet, hdl, hel] at h
    obtain ⟨hfirst, hrest⟩ := List.cons_eq_cons.mp h
    rw [hdl, hel, (Str.append_right_inj _).mp hfirst,
      (List.map_inj_right fun _ _ => (Str.append_right_inj "  ").mp).mp hrest]
  rw [hd.combined_lines, he.combined_lines] at hlines
  exact hd.eq_of_paragraphs he (congrArg Text.paragraphs (Text.splitAt_injective hlines))

/-- A bullet is made of lines that are not empty. -/
theorem line_of_mem_bullet {name line : Str} {d : Docs} (hname : .char '\n' ∉ name.toList)
    (h : line ∈ bullet name d) : line ≠ "" ∧ .char '\n' ∉ line.toList := by
  have hlines : ∀ l ∈ Text.proseLines d.combined, .char '\n' ∉ l.toList :=
    fun l => Text.newline_not_mem_of_mem_proseLines
  rw [Ne, ← Str.toList_eq_nil_iff]
  unfold bullet at h
  cases hl : Text.proseLines d.combined with
  | nil =>
    rw [hl, List.mem_singleton] at h
    simp [h, Str.toList_append, hname]
  | cons first rest =>
    rw [hl] at h hlines
    rcases List.mem_cons.mp h with rfl | h
    · simp [Str.toList_append, hname, hlines first List.mem_cons_self]
    · obtain ⟨l, hmem, rfl⟩ := List.mem_map.mp h
      simp [Str.toList_append, hlines l (List.mem_cons_of_mem first hmem)]

/-- Lines that are not empty are one paragraph. -/
theorem paragraphs_linesText {ls : List Str} (hne : ls ≠ [])
    (h : ∀ line ∈ ls, line ≠ "" ∧ .char '\n' ∉ line.toList) : Text.paragraphs (linesText ls) = [ls] := by
  have hlines : Text.splitAt '\n' (linesText ls) = ls ++ [.whole ""] :=
    Text.splitAt_ended fun line hline => (h line hline).2
  have hone : ls.splitOnP (· == .whole "") = [ls] :=
    List.splitOnP_eq_singleton fun line hline => by simpa using (h line hline).1
  rw [Text.paragraphs, hlines, List.splitOnP_append_cons _ _ (by simp), hone]
  simp [hne]

/-! ### The bullets of a function -/

/-- The lines of parameters under their starred names. -/
def starredLines (ps : List Param) : List Str :=
  lines (ps.map fun p => (p.starredName, p))

theorem starredLines_cons (p : Param) (ps : List Param) :
    starredLines (p :: ps) = entryLines (p.starredName, p) ++ starredLines ps := by
  rw [starredLines, List.map_cons, lines, List.flatMap_cons]
  rfl

theorem mem_starredLines {ps : List Param} {line : Str} (h : line ∈ starredLines ps) :
    ∃ p ∈ ps, ∃ d ∈ p.docs, line ∈ bullet p.starredName d := by
  induction ps with
  | nil => cases h
  | cons p ps ih =>
    rw [starredLines_cons, List.mem_append, entryLines] at h
    rcases h with h | h
    · cases hp : p.docs with
      | none => simp [hp] at h
      | some d => exact ⟨p, List.mem_cons_self, d, hp, by simpa [hp] using h⟩
    · obtain ⟨q, hq, hline⟩ := ih h
      exact ⟨q, List.mem_cons_of_mem p hq, hline⟩

/-- The first line of a parameter list begins the bullet of one of the parameters. -/
theorem head_starredLines {ps : List Param} {line : Str} (h : line ∈ (starredLines ps).head?) :
    ∃ p ∈ ps, ∃ more, line = bulletHead p.starredName ++ more := by
  induction ps with
  | nil => cases h
  | cons p ps ih =>
    rw [starredLines_cons, entryLines] at h
    cases hp : p.docs with
    | none =>
      simp only [hp, List.nil_append] at h
      obtain ⟨q, hq, hmore⟩ := ih h
      exact ⟨q, List.mem_cons_of_mem p hq, hmore⟩
    | some d =>
      obtain ⟨more, rest, hbullet, -⟩ := exists_bullet_eq p.starredName d
      simp only [hp, hbullet, List.cons_append, List.head?_cons] at h
      exact ⟨p, List.mem_cons_self, more, (Option.some.inj h).symm⟩

theorem isBullet_head_starredLines {ps : List Param} :
    ∀ line ∈ (starredLines ps).head?, isBullet line = true := by
  intro line h
  obtain ⟨p, -, more, rfl⟩ := head_starredLines h
  exact isBullet_bulletHead p.starredName more

/-- Names that can be read off a parameter list. -/
def Readable (names : List Str) : Prop :=
  names.Nodup ∧ ∀ name ∈ names, .char '`' ∉ name.toList

/-- A list without a parameter does not begin with its bullet. -/
theorem starredLines_ne {p : Param} {ps : List Param} (h : Readable ((p :: ps).map Param.starredName))
    (d : Docs) (rest : List Str) : starredLines ps ≠ bullet p.starredName d ++ rest := by
  intro heq
  obtain ⟨more, rest', hbullet, -⟩ := exists_bullet_eq p.starredName d
  have hhead : bulletHead p.starredName ++ more ∈ (starredLines ps).head? := by
    rw [heq, hbullet]
    rfl
  obtain ⟨q, hq, more', hline⟩ := head_starredLines hhead
  obtain ⟨hnodup, hquote⟩ := h
  have hqm : q.starredName ∈ ps.map Param.starredName := List.mem_map_of_mem hq
  have hname : p.starredName = q.starredName :=
    (bulletHead_inj (hquote _ List.mem_cons_self) (hquote _ (List.mem_cons_of_mem _ hqm)) hline).1
  exact (List.nodup_cons.mp hnodup).1 (hname ▸ hqm)

/-- The bullet at the beginning of a list can be told from the rest. -/
theorem bullet_append_inj {name : Str} {d e : Docs} {ps qs : List Param} (hd : d.Plain) (he : e.Plain)
    (h : bullet name d ++ starredLines ps = bullet name e ++ starredLines qs) :
    d = e ∧ starredLines ps = starredLines qs := by
  obtain ⟨more, rest, hbullet, hcont⟩ := exists_bullet_eq name d
  obtain ⟨more', rest', hbullet', hcont'⟩ := exists_bullet_eq name e
  rw [hbullet, hbullet', List.cons_append, List.cons_append] at h
  obtain ⟨hfirst, hlines⟩ := List.cons_eq_cons.mp h
  obtain ⟨hcontinued, hlines⟩ :=
    append_inj_of_first hcont hcont' isBullet_head_starredLines isBullet_head_starredLines hlines
  have hde : bullet name d = bullet name e := by rw [hbullet, hbullet', hfirst, hcontinued]
  exact ⟨bullet_inj hd he hde, hlines⟩

/-- The lines of a parameter list determine the prose of every parameter. -/
theorem docs_eq_of_starredLines {ps qs : List Param} (hps : Readable (ps.map Param.starredName))
    (hnames : ps.map Param.starredName = qs.map Param.starredName)
    (hpd : ∀ p ∈ ps, ∀ d ∈ p.docs, d.Plain) (hqd : ∀ q ∈ qs, ∀ d ∈ q.docs, d.Plain)
    (h : starredLines ps = starredLines qs) : ps.map (·.docs) = qs.map (·.docs) := by
  induction ps generalizing qs with
  | nil =>
    rw [List.map_nil, eq_comm, List.map_eq_nil_iff] at hnames
    rw [hnames]
  | cons p ps ih =>
    cases qs with
    | nil => cases hnames
    | cons q qs =>
      have hqs : Readable ((q :: qs).map Param.starredName) := hnames ▸ hps
      have hrest : Readable (ps.map Param.starredName) :=
        ⟨(List.nodup_cons.mp hps.1).2, fun n hn => hps.2 n (List.mem_cons_of_mem _ hn)⟩
      obtain ⟨hname, hnames⟩ := List.cons_eq_cons.mp hnames
      have htails (hlines : starredLines ps = starredLines qs) : ps.map (·.docs) = qs.map (·.docs) :=
        ih hrest hnames (fun r hr => hpd r (List.mem_cons_of_mem p hr))
          (fun r hr => hqd r (List.mem_cons_of_mem q hr)) hlines
      rw [starredLines_cons, starredLines_cons, entryLines, entryLines] at h
      rw [List.map_cons, List.map_cons]
      -- where only one of the two has prose, the other list would begin with the bullet of another name
      cases hp : p.docs with
      | none =>
        cases hq : q.docs with
        | none =>
          simp only [hp, hq, List.nil_append] at h
          rw [htails h]
        | some e =>
          simp only [hp, hq, List.nil_append, ← hname] at h
          exact absurd h (starredLines_ne hps e _)
      | some d =>
        cases hq : q.docs with
        | none =>
          simp only [hp, hq, List.nil_append, hname] at h
          exact absurd h.symm (starredLines_ne hqs d _)
        | some e =>
          simp only [hp, hq, ← hname] at h
          obtain ⟨rfl, hlines⟩ :=
            bullet_append_inj (hpd p List.mem_cons_self d hp) (hqd q List.mem_cons_self e hq) h
          rw [htails hlines]

end ParamList

end ApiPage
