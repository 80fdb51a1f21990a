import ApiPage.Proofs.Page.ListedTypes
import ApiPage.Proofs.Params.Lookup
import ApiPage.Proofs.Settings.Entries
import ApiPage.Proofs.Text.Lines
import ApiPage.Proofs.Text.LineStarts
import ApiPage.Proofs.Ty.Spacing

/-!
# Where a code block ends

The first line that begins with three backticks ends a code block. Code stands between its fences as it is, so a
name, a default or an indent can end a block before its code ends. `Member.Breaches` says when each of the texts
does that a document or its settings leave free; type text never does, for no token has a backtick in it.
-/

namespace ApiPage

/-! ### Fences in a text -/

/-- Three backticks. -/
def fence : List CodePoint := ['`', '`', '`']

/-- A text begins with a fence. -/
def StartsFence (s : Str) : Prop :=
  fence <+: s.toList

/-- A line of a text, not the first, begins with a fence. -/
def HoldsFence (s : Str) : Prop :=
  .char '\n' :: fence <:+: s.toList

theorem exists_fenceLine_iff (s : Str) :
    (∃ line ∈ Text.splitAt '\n' s, StartsFence line) ↔ StartsFence s ∨ HoldsFence s := by
  have hmark : .char '\n' ∉ fence := by decide
  have hline := Text.exists_line_iff hmark s
  rwa [List.infix_cons_iff, List.cons_prefix_cons, and_iff_right rfl] at hline

instance (s : Str) : Decidable (StartsFence s) :=
  inferInstanceAs (Decidable (fence <+: s.toList))

instance (s : Str) : Decidable (HoldsFence s) :=
  inferInstanceAs (Decidable (.char '\n' :: fence <:+: s.toList))

/-- What a fence cannot reach across. -/
theorem HoldsFence.append_iff {s t between : Str} (h : Text.Parts (.char '\n' :: fence) between) :
    HoldsFence (s ++ between ++ t) ↔ HoldsFence s ∨ HoldsFence t :=
  h.infix_iff

theorem HoldsFence.behind_iff {t between : Str} (h : Text.Parts (.char '\n' :: fence) between) :
    HoldsFence (between ++ t) ↔ HoldsFence t :=
  h.infix_behind_iff

theorem StartsFence.append_iff {s t between : Str} (h : Text.Parts fence between) :
    StartsFence (s ++ between ++ t) ↔ StartsFence s :=
  h.prefix_iff

theorem not_holdsFence {s : Str} (h : .char '`' ∉ s.toList) : ¬ HoldsFence s :=
  fun hs => h (hs.mem (by decide))

/-! ### Blocks between fences -/

/-- Does a line end a code block? -/
def endsBlock (line : Str) : Bool :=
  fence.isPrefixOf line.toList

theorem endsBlock_iff {line : Str} : endsBlock line = true ↔ StartsFence line :=
  List.isPrefixOf_iff_prefix

/-- What is read of lines that open with a fence: the tag behind the fence, the lines up to the first that ends
the block, and the lines behind that. -/
def readBlock? : List Str → Option (Str × List Str × List Str)
  | [] => none
  | opening :: lines =>
    match Text.behind? "```" opening with
    | none => none
    | some tag =>
      match lines.dropWhile (!endsBlock ·) with
      | [] => none
      | _ :: after => some (tag, lines.takeWhile (!endsBlock ·), after)

theorem eq_of_readBlock? {opening tag : Str} {lines code after : List Str}
    (h : readBlock? (opening :: lines) = some (tag, code, after)) :
    opening = "```" ++ tag ∧ code = lines.takeWhile (!endsBlock ·) := by
  rw [readBlock?] at h
  split at h
  · cases h
  · next tag' htag =>
    split at h
    · cases h
    · obtain ⟨rfl, hrest⟩ := Prod.mk.inj (Option.some.inj h)
      exact ⟨Text.behind?_eq_some.mp htag, (Prod.mk.inj hrest).1.symm⟩

/-- Code and a tag for which the fences of a block are its own: the opening one is in one line with the tag, and
no line of the code begins with a fence. -/
structure ClosedBlock (language contents : Str) : Prop where
  opening : .char '\n' ∉ language.toList
  inside : ∀ line ∈ Text.splitAt '\n' contents, ¬ StartsFence line

variable {language contents : Str}

theorem splitAt_codeBlock (h : .char '\n' ∉ language.toList) : Text.splitAt '\n' (codeBlock language contents) =
    ("```" ++ language) :: (Text.splitAt '\n' contents ++ [.whole "```"]) := by
  have hopening : .char '\n' ∉ ("```" ++ language).toList := by simp [Str.toList_append, h]
  have hblock : codeBlock language contents =
      ("```" ++ language) ++ Str.singleton '\n' ++ (contents ++ Str.singleton '\n' ++ "```") := by
    simp only [codeBlock, Str.append_assoc]
    rfl
  rw [hblock, Text.splitAt_append hopening, Text.splitAt_append_sep]
  rfl

/-- The first line of a block is its opening fence with the whole tag just if the tag is one line. -/
theorem head?_codeBlock_iff : (Text.splitAt '\n' (codeBlock language contents)).head? = some ("```" ++ language) ↔
    .char '\n' ∉ language.toList := by
  constructor
  · intro h hmem
    refine Text.not_mem_of_mem_splitAt (List.mem_of_head? h) ?_
    rw [Str.toList_append]
    exact List.mem_append_right _ hmem
  · intro h
    rw [splitAt_codeBlock h, List.head?_cons]

/-- A block is read back just if its fences are its own. -/
theorem readBlock?_codeBlock_iff (after : List Str) :
    readBlock? (Text.splitAt '\n' (codeBlock language contents) ++ after) =
      some (language, Text.splitAt '\n' contents, after) ↔ ClosedBlock language contents := by
  constructor
  · intro h
    have hsome : Text.splitAt '\n' (codeBlock language contents) ≠ [] := Text.splitAt_ne_nil _
    obtain ⟨opening, lines, hlines⟩ := List.exists_cons_of_ne_nil hsome
    rw [hlines, List.cons_append] at h
    obtain ⟨rfl, hcode⟩ := eq_of_readBlock? h
    constructor
    · have hopening := Text.not_mem_of_mem_splitAt (hlines ▸ List.mem_cons_self)
      rw [Str.toList_append] at hopening
      exact fun hmem => hopening (List.mem_append_right _ hmem)
    · intro line hline hstart
      have hopen := List.mem_takeWhile_imp (hcode ▸ hline)
      rw [endsBlock_iff.mpr hstart] at hopen
      cases hopen
  · rintro ⟨hlanguage, hinside⟩
    have hopen : ∀ line ∈ Text.splitAt '\n' contents, (!endsBlock line) = true := fun line hline => by
      rw [Bool.not_eq_true', ← Bool.not_eq_true, endsBlock_iff]
      exact hinside line hline
    have hclosing : endsBlock "```" = true := by decide
    rw [splitAt_codeBlock hlanguage, List.cons_append, List.append_assoc, readBlock?,
      Text.behind?_append, List.dropWhile_append_of_pos hopen, List.takeWhile_append_of_pos hopen]
    simp [hclosing]

theorem closedBlock_iff : ClosedBlock language contents ↔
    .char '\n' ∉ language.toList ∧ ¬ (StartsFence contents ∨ HoldsFence contents) := by
  rw [← exists_fenceLine_iff]
  exact ⟨fun h => ⟨h.opening, by simpa using h.inside⟩, fun h => ⟨h.1, by simpa using h.2⟩⟩

/-! ### Type text -/

theorem Ty.Token.Proper.not_mem_text {t : Ty.Token} (ht : t.Proper) : .char '`' ∉ t.text.toList := by
  cases t with
  | word s =>
    obtain ⟨c, cs, rfl, hc, hcs⟩ := ht
    rw [Ty.Token.text, Str.toList_ofList]
    have hpart : Ty.isWordPart '`' = false := by decide
    rintro (_ | ⟨_, hmem⟩)
    · rw [Ty.isWordPart_of_isWordStart hc] at hpart
      cases hpart
    · rw [hcs _ hmem] at hpart
      cases hpart
  | _ => decide

/-- No type text has a backtick in it. -/
theorem Ty.Canonical.not_mem_text {t : Ty} (h : t.Canonical) : .char '`' ∉ (Ty.text t).toList := by
  obtain ⟨hnodup, hvariants⟩ := h.wellFormed
  obtain ⟨ts, hspells, -⟩ := Ty.spelled_union hnodup fun v hv => (hvariants v hv).spelled
  intro hmem
  have hkept : .char '`' ∈ (Ty.text t).toList.filter (!CodePoint.isBlank ·) :=
    List.mem_filter.mpr ⟨hmem, by decide⟩
  rw [← hspells.flatMap_text] at hkept
  obtain ⟨u, hu, hin⟩ := List.mem_flatMap.mp hkept
  exact (hspells.proper u hu).not_mem_text hin

/-! ### Declarations -/

variable {style : Style} {name : Str} {f : Function}

theorem holdsFence_typeSuffix_iff {mark s : Str} {t : Ty} (hmark : Text.Parts (.char '\n' :: fence) mark)
    (ht : t.Canonical) : HoldsFence (s ++ Param.typeSuffix mark t) ↔ HoldsFence s := by
  unfold Param.typeSuffix
  split
  · rw [Str.append_empty]
  · rw [← Str.append_assoc, HoldsFence.append_iff hmark, or_iff_left (not_holdsFence ht.not_mem_text)]

namespace Param

variable {p : Param}

theorem holdsFence_starredName_iff : HoldsFence p.starredName ↔ HoldsFence p.name := by
  unfold starredName
  split
  · exact HoldsFence.behind_iff (by decide)
  · exact HoldsFence.behind_iff (by decide)
  · rfl

theorem holdsFence_text_iff (ht : p.ty.Canonical) :
    HoldsFence p.text ↔ HoldsFence p.name ∨ ∃ d ∈ p.default, HoldsFence d := by
  rw [← holdsFence_starredName_iff, text]
  cases p.default with
  | none => simp [holdsFence_typeSuffix_iff (show Text.Parts (.char '\n' :: fence) ": " by decide) ht]
  | some d =>
    dsimp only
    rw [← Str.append_assoc, HoldsFence.append_iff (by decide), holdsFence_typeSuffix_iff (by decide) ht]
    simp

theorem startsFence_text_iff : StartsFence p.text ↔ StartsFence p.starredName := by
  have hty : StartsFence (p.starredName ++ typeSuffix ": " p.ty) ↔ StartsFence p.starredName := by
    unfold typeSuffix
    split
    · rw [Str.append_empty]
    · rw [← Str.append_assoc, StartsFence.append_iff (by decide)]
  rw [← hty, text]
  cases p.default with
  | none => simp
  | some d =>
    dsimp only
    rw [← Str.append_assoc, StartsFence.append_iff (by decide)]

end Param

/-- What holds of a place but of no marker holds of a parameter. -/
theorem Params.exists_entry_iff {P : Str → Prop} (hslash : ¬ P "/") (hstar : ¬ P "*")
    (ps : List Param) : (∃ e ∈ entries ps, P e.text) ↔ ∃ p ∈ ps, P p.text := by
  constructor
  · rintro ⟨e, he, h⟩
    cases e with
    | param p => exact ⟨p, mem_of_param? he rfl, h⟩
    | slash => exact absurd h hslash
    | star => exact absurd h hstar
  · rintro ⟨p, hp, h⟩
    rw [← filterMap_entriesFrom false ps] at hp
    obtain ⟨e, he, hparam⟩ := List.mem_filterMap.mp hp
    cases e with
    | param q => exact ⟨.param q, he, Option.some.inj hparam ▸ h⟩
    | slash => cases hparam
    | star => cases hparam

/-- An indent lets a fence in just if it ends with a newline and the fence stands behind it. -/
theorem holdsFence_indented_iff {indent : Str} (hne : indent ≠ "") (hindent : .char '`' ∉ indent.toList)
    (s : Str) : HoldsFence ("\n" ++ (indent ++ s)) ↔
      (indent.toList.getLast? = some (.char '\n') ∧ StartsFence s) ∨ HoldsFence s := by
  have hfront : .char '`' ∉ .char '\n' :: indent.toList := by simp [hindent]
  have hlast : (.char '\n' :: indent.toList).getLast? = indent.toList.getLast? := by
    obtain ⟨c, cs, hcs⟩ := List.exists_cons_of_ne_nil (mt Str.toList_eq_nil_iff.mp hne)
    rw [hcs, List.getLast?_cons_cons]
  rw [HoldsFence, Str.toList_append, Str.toList_append, ← hlast]
  exact Text.cons_cons_infix_append_iff hfront

/-- The lines of a list of parameters, below a newline, hold a fence just if one of them does. -/
theorem holdsFence_lines_iff (indent : Str) (es : List Entry) :
    HoldsFence ("\n" ++ Text.concat (es.map fun e => indent ++ e.text ++ ",\n")) ↔
      ∃ e ∈ es, HoldsFence ("\n" ++ (indent ++ e.text)) := by
  induction es with
  | nil =>
    have hnone : ¬ HoldsFence ("\n" ++ "") := by unfold HoldsFence; decide
    simpa [Text.concat] using hnone
  | cons e es ih =>
    -- the newline at the end of one line is the one above the next
    have hcomma : Text.Parts (.char '\n' :: fence) "," := by decide
    have hend : Str.whole ",\n" = "," ++ "\n" := rfl
    rw [List.exists_mem_cons_iff, ← ih, ← HoldsFence.append_iff hcomma]
    simp only [List.map_cons, Text.concat, hend, Str.append_assoc]

namespace Function

/-- Around what stands between its parentheses a declaration has only its name to hold a fence. -/
theorem holdsFence_declaration_iff (hreturns : f.returns.ty.Canonical) (between : Str) :
    HoldsFence ("def " ++ name ++ "(" ++ between ++ ")" ++ f.returnSuffix) ↔
      HoldsFence name ∨ HoldsFence between := by
  have hempty : ¬ HoldsFence "" := not_holdsFence (by decide)
  have hsuffix : ¬ HoldsFence f.returnSuffix := by
    have harrow : Text.Parts (.char '\n' :: fence) " -> " := by decide
    have hreturned : HoldsFence ("" ++ f.returnSuffix) ↔ HoldsFence "" :=
      holdsFence_typeSuffix_iff harrow hreturns
    rwa [Str.empty_append, iff_false_right hempty] at hreturned
  rw [HoldsFence.append_iff (by decide), or_iff_left hsuffix, HoldsFence.append_iff (by decide),
    HoldsFence.behind_iff (by decide)]

theorem holdsFence_inlineText_iff (ps : List Param) :
    HoldsFence (Params.inlineText ps) ↔ ∃ p ∈ ps, HoldsFence p.text := by
  have hparts : Text.Parts (.char '\n' :: fence) ", " := by decide
  rw [← Params.exists_entry_iff (P := HoldsFence) (not_holdsFence (by decide)) (not_holdsFence (by decide)),
    Params.inlineText]
  refine (hparts.infix_joinWith_iff (List.cons_ne_nil _ _) _).trans ?_
  simp [HoldsFence]

theorem holdsFence_linesText_iff {indent : Str} (hne : indent ≠ "") (hindent : .char '`' ∉ indent.toList)
    (ps : List Param) : HoldsFence ("\n" ++ Params.linesText indent ps) ↔
      ∃ p ∈ ps, (indent.toList.getLast? = some (.char '\n') ∧ StartsFence p.text) ∨ HoldsFence p.text := by
  have hmarker {s : Str} (hs : .char '`' ∉ s.toList) : ¬ HoldsFence ("\n" ++ (indent ++ s)) :=
    not_holdsFence (by simp [Str.toList_append, hindent, hs])
  rw [Params.linesText, holdsFence_lines_iff,
    Params.exists_entry_iff (P := fun s => HoldsFence ("\n" ++ (indent ++ s))) (hmarker (by decide))
      (hmarker (by decide))]
  simp only [holdsFence_indented_iff hne hindent]

/-- A declaration holds a fence just if its name does, the name or the default of a parameter, or an indent that
ends with a newline has one behind it. -/
theorem holdsFence_prototype_iff (hne : style.paramIndent ≠ "") (hindent : .char '`' ∉ style.paramIndent.toList)
    (hparams : ∀ p ∈ f.params, p.ty.Canonical) (hreturns : f.returns.ty.Canonical) :
    HoldsFence (f.prototype style name) ↔ HoldsFence name ∨ ∃ p ∈ f.params,
      (f.needsLines style name = true ∧ style.paramIndent.toList.getLast? = some (.char '\n') ∧
        StartsFence p.starredName) ∨ HoldsFence p.name ∨ ∃ d ∈ p.default, HoldsFence d := by
  unfold prototype
  split
  · next hlines =>
    have hbreak : f.linesPrototype style.paramIndent name = "def " ++ name ++ "(" ++
        ("\n" ++ Params.linesText style.paramIndent f.params) ++ ")" ++ f.returnSuffix := by
      have hopening : Str.whole "(\n" = "(" ++ "\n" := rfl
      simp only [linesPrototype, hopening, Str.append_assoc]
    rw [hbreak, holdsFence_declaration_iff hreturns, holdsFence_linesText_iff hne hindent]
    refine or_congr_right (exists_congr fun p => and_congr_right fun hp => ?_)
    rw [Param.startsFence_text_iff, Param.holdsFence_text_iff (hparams p hp), and_iff_right hlines]
  · next hlines =>
    rw [inlinePrototype, holdsFence_declaration_iff hreturns, holdsFence_inlineText_iff]
    refine or_congr_right (exists_congr fun p => and_congr_right fun hp => ?_)
    have hone : ¬ (f.needsLines style name = true ∧ style.paramIndent.toList.getLast? = some (.char '\n') ∧
        StartsFence p.starredName) := fun h => hlines h.1
    rw [Param.holdsFence_text_iff (hparams p hp), or_iff_right hone]

theorem not_startsFence_prototype (style : Style) (name : Str) (f : Function) :
    ¬ StartsFence (f.prototype style name) := by
  unfold prototype
  split <;> simp [StartsFence, fence, linesPrototype, inlinePrototype, Str.toList_append]

end Function

/-! ### The code of members -/

namespace Member

/-- The code in the block of a member. -/
def code (style : Style) (name : Str) : Member → Str
  | .function f => f.prototype style name
  | .property p => name ++ ": " ++ Ty.text p.ty

/-- What stands below the block of a member. -/
def prose : Member → List Str
  | .function f => f.prose
  | .property p => (summaryPart p.docs).toList ++ (detailsPart p.docs).toList

theorem section_eq (style : Style) (name : Str) (m : Member) : m.section style name =
    joinParts (sectionHeading name :: codeBlock style.codeLanguage (m.code style name) :: m.prose) := by
  cases m <;> rfl

/-- A text of a member brings a line into its code that begins with a fence. -/
inductive Breaches (style : Style) (name : Str) : Member → Prop
  | displayed {m : Member} (h : HoldsFence name) : Breaches style name m
  /-- The code of a property begins with its name. -/
  | opening {p : Property} (h : StartsFence name) : Breaches style name (.property p)
  /-- The name of a type that does not say which type it is. -/
  | listed {s : Str} {d : Option Docs} (h : HoldsFence s) :
      Breaches style name (.property ⟨Ty.named s, d⟩)
  | param {f : Function} {p : Param} (hp : p ∈ f.params) (h : HoldsFence p.name) :
      Breaches style name (.function f)
  | default {f : Function} {p : Param} {d : Str} (hp : p ∈ f.params) (hd : p.default = some d)
      (h : HoldsFence d) : Breaches style name (.function f)
  /-- An indent may end with a newline. -/
  | indent {f : Function} {p : Param} (hp : p ∈ f.params) (lines : f.needsLines style name = true)
      (newline : style.paramIndent.toList.getLast? = some (.char '\n')) (h : StartsFence p.starredName) :
      Breaches style name (.function f)

/-- The types of a member are canonical, or one name. -/
def Typed : Member → Prop
  | .function f => (∀ p ∈ f.params, p.ty.Canonical) ∧ f.returns.ty.Canonical
  | .property p => p.ty.Canonical ∨ ∃ s, p.ty = Ty.named s

variable {m : Member}

theorem breaches_function_iff : Breaches style name (.function f) ↔ HoldsFence name ∨ ∃ p ∈ f.params,
    (f.needsLines style name = true ∧ style.paramIndent.toList.getLast? = some (.char '\n') ∧
      StartsFence p.starredName) ∨ HoldsFence p.name ∨ ∃ d ∈ p.default, HoldsFence d := by
  constructor
  · rintro (h | _ | _ | ⟨hp, h⟩ | ⟨hp, hd, h⟩ | ⟨hp, hlines, hnewline, h⟩)
    · exact .inl h
    · exact .inr ⟨_, hp, .inr (.inl h)⟩
    · exact .inr ⟨_, hp, .inr (.inr ⟨_, hd, h⟩)⟩
    · exact .inr ⟨_, hp, .inl ⟨hlines, hnewline, h⟩⟩
  · rintro (h | ⟨p, hp, ⟨hlines, hnewline, h⟩ | h | ⟨d, hd, h⟩⟩)
    · exact .displayed h
    · exact .indent hp hlines hnewline h
    · exact .param hp h
    · exact .default hp hd h

theorem breaches_property_iff {p : Property} : Breaches style name (.property p) ↔
    StartsFence name ∨ HoldsFence name ∨ ∃ s, p.ty = Ty.named s ∧ HoldsFence s := by
  constructor
  · rintro (h | h | h)
    · exact .inr (.inl h)
    · exact .inl h
    · exact .inr (.inr ⟨_, rfl, h⟩)
  · rintro (h | h | ⟨s, hs, h⟩)
    · exact .opening h
    · exact .displayed h
    · obtain ⟨t, d⟩ := p
      obtain rfl : t = Ty.named s := hs
      exact .listed h

/-- Type text holds no fence, so a type does only if it is a name that does. -/
theorem holdsFence_propertyTy_iff {p : Property} (h : (property p).Typed) :
    HoldsFence (Ty.text p.ty) ↔ ∃ s, p.ty = Ty.named s ∧ HoldsFence s := by
  constructor
  · intro hfence
    rcases h with hcanonical | ⟨s, hs⟩
    · exact absurd hfence (not_holdsFence hcanonical.not_mem_text)
    · exact ⟨s, hs, by rwa [hs] at hfence⟩
  · rintro ⟨s, hs, hfence⟩
    rw [hs]
    exact hfence

/-- **A line of a member's code begins with a fence just where one of its texts brings it in.** -/
theorem fenceLine_code_iff (hne : style.paramIndent ≠ "") (hindent : .char '`' ∉ style.paramIndent.toList)
    (h : m.Typed) : StartsFence (m.code style name) ∨ HoldsFence (m.code style name) ↔
      m.Breaches style name := by
  cases m with
  | function f =>
    rw [code, or_iff_right (Function.not_startsFence_prototype style name f), breaches_function_iff]
    exact Function.holdsFence_prototype_iff hne hindent h.1 h.2
  | property p =>
    rw [code, breaches_property_iff, StartsFence.append_iff (by decide), HoldsFence.append_iff (by decide),
      holdsFence_propertyTy_iff h]

end Member

/-! ### The blocks of an item -/

/-- An item has a code block of a member: of the member that it is, or of its constructor. -/
inductive Item.Shows : Item → Member → Prop
  | itself {j : Item} {m : Member} (h : j.asMember = some m) : Shows j m
  | constructor {d : Option Docs} {f : Function} {ms : List (Scalar × Item)} {t : Ty} :
      Shows (.type d (some f) ms t) (.function f)

variable {loc : Location} {es : Entries} {i j : Item} {m : Member}

theorem Function.Represents.typed (h : f.Represents es) : (Member.function f).Typed :=
  ⟨h.canonical_params, h.returns.ty⟩

theorem Ty.RepresentsOwn.typed {t : Ty} (h : t.RepresentsOwn loc es) (d : Option Docs) :
    (Member.property ⟨t, d⟩).Typed := by
  cases h with
  | said _ _ hcanonical => exact .inl hcanonical
  | listed _ ht =>
    cases ht with
    | unnamed => exact .inl Ty.wellFormed_any.canonical
    | named => exact .inr ⟨_, rfl⟩

theorem Item.Represents.typed (h : j.Represents loc es) (hm : j.Shows m) : m.Typed := by
  cases hm with
  | itself hm =>
    cases h with
    | module => cases hm
    | function _ hf => exact Option.some.inj hm ▸ hf.typed
    | property _ hp => exact Option.some.inj hm ▸ .inl hp.ty
    | type _ _ _ _ _ own => exact Option.some.inj hm ▸ own.typed _
  | constructor =>
    cases h with
    | type _ _ _ _ constructor =>
      obtain ⟨fs, hf⟩ := constructor.exists_represents
      exact hf.typed

/-- **Where code is fenced by its own fences alone.** An item that was read shows the code of a member between
two fences, under any name and in any style that settings give. The block opens in one line with its tag just if
the language of the style has no newline in it, and a line of the code begins with a fence just if one of the texts
that a document leaves free brings it in. Where the tag is one line and no text does, and only there, the fences of
the block are its own and the block is read back. -/
theorem closedBlock_code_iff {fs : Entries} {yaml : Yaml.Reader} {home : Home} {files : Files} {path : Path}
    (h : readItem loc es = .ok i) (hs : i.Stands es j fs) (hm : j.Shows m)
    (hstyle : Settings.read yaml home files path = .ok style) (name : Str) :
    m.section style name = joinParts
        (sectionHeading name :: codeBlock style.codeLanguage (m.code style name) :: m.prose) ∧
      (∀ f, m = .function f → f.bareSection style name =
        joinParts (codeBlock style.codeLanguage (m.code style name) :: m.prose)) ∧
      ((Text.splitAt '\n' (codeBlock style.codeLanguage (m.code style name))).head? =
        some ("```" ++ style.codeLanguage) ↔ .char '\n' ∉ style.codeLanguage.toList) ∧
      ((∃ line ∈ Text.splitAt '\n' (m.code style name), StartsFence line) ↔ m.Breaches style name) ∧
      (ClosedBlock style.codeLanguage (m.code style name) ↔
        .char '\n' ∉ style.codeLanguage.toList ∧ ¬ m.Breaches style name) ∧
      ∀ after, readBlock? (Text.splitAt '\n' (codeBlock style.codeLanguage (m.code style name)) ++ after) =
          some (style.codeLanguage, Text.splitAt '\n' (m.code style name), after) ↔
        .char '\n' ∉ style.codeLanguage.toList ∧ ¬ m.Breaches style name := by
  obtain ⟨place, hj⟩ := hs.represents (readItem_represents h)
  obtain ⟨hne, hblank⟩ := (Settings.usable_of_readIn hstyle).paramIndent
  have hindent : .char '`' ∉ style.paramIndent.toList := fun hmem => by
    have hb := List.all_eq_true.mp hblank _ hmem
    cases hb
  have hline : StartsFence (m.code style name) ∨ HoldsFence (m.code style name) ↔ m.Breaches style name :=
    Member.fenceLine_code_iff hne hindent (hj.typed hm)
  have hclosed : ClosedBlock style.codeLanguage (m.code style name) ↔
      .char '\n' ∉ style.codeLanguage.toList ∧ ¬ m.Breaches style name := by
    rw [closedBlock_iff, hline]
  refine ⟨m.section_eq style name, ?_, head?_codeBlock_iff, (exists_fenceLine_iff _).trans hline, hclosed,
    fun after => (readBlock?_codeBlock_iff after).trans hclosed⟩
  rintro f rfl
  rfl

namespace Fenced

/-- A function of one parameter, with a default. -/
def document (d : Str) : Entries :=
  [(.text "kind", .text "function"),
    (.text "params", .list [.map [(.text "name", .text "a"), (.text "default", .text d)]])]

def function (d : Str) : Function where
  params := [{ name := "a", default := some d }]

theorem readItem_fenced (d : Str) : readItem {} (document d) = .ok (.function (function d)) :=
  rfl

/-- Nobody's home directory is known. -/
def homeless : Home :=
  fun _ => none

/-- A directory without a settings file. -/
def files : Files :=
  ⟨["w"], [(["w"], .directory)], []⟩

theorem read_files (yaml : Yaml.Reader) : Settings.read yaml homeless files (Path.ofString ".") = .ok {} := by
  rfl

end Fenced

open Fenced in
/-- A default of two lines, with three backticks in the second but not at its beginning. -/
theorem closedBlock_code_indented : readItem {} (document "1\n ```") = .ok (.function (function "1\n ```")) ∧
    Settings.read Yaml.reader homeless files (Path.ofString ".") = .ok {} ∧
    ClosedBlock "python" ((function "1\n ```").prototype {} "f") := by
  have hsafe : ¬ (Member.function (function "1\n ```")).Breaches {} "f" := by
    rw [Member.breaches_function_iff]
    simp only [function, List.mem_singleton, Option.mem_def, Option.some.injEq, exists_eq_left, exists_eq_left']
    decide +kernel
  have hall := closedBlock_code_iff (readItem_fenced "1\n ```") .root (.itself rfl) (read_files Yaml.reader) "f"
  exact ⟨readItem_fenced _, read_files _, hall.2.2.2.2.1.mpr ⟨by decide, hsafe⟩⟩

open Fenced in
/-- A default that ends the block in which it stands. -/
theorem not_closedBlock_default : readItem {} (document "1\n```") = .ok (.function (function "1\n```")) ∧
    Settings.read Yaml.reader homeless files (Path.ofString ".") = .ok {} ∧
    (function "1\n```").prototype {} "f" = "def f(a = 1\n```)" ∧
    (∃ line ∈ Text.splitAt '\n' ((function "1\n```").prototype {} "f"), StartsFence line) ∧
    ¬ ClosedBlock "python" ((function "1\n```").prototype {} "f") := by
  have hproto : (function "1\n```").prototype {} "f" = "def f(a = 1\n```)" := by decide +kernel
  have hline : ∃ line ∈ Text.splitAt '\n' ((function "1\n```").prototype {} "f"), StartsFence line := by
    rw [hproto, exists_fenceLine_iff]
    decide +kernel
  obtain ⟨line, hmem, hstart⟩ := hline
  exact ⟨readItem_fenced _, read_files _, hproto, ⟨line, hmem, hstart⟩, fun h => h.inside line hmem hstart⟩

end ApiPage
