import ApiPage.Proofs.Settings.Entries

/-!
# Numbers and their texts in settings files

A setting that is a number, or an indent of so many spaces, may as well be given as the decimal text of
the number: a style reads both as the number, before it looks for anything else in a text. So two files
that differ in nothing but such entries set the same style, or fail alike.
-/

namespace ApiPage.Settings

variable {form : Text.NumeralForm} {yaml yaml' : Yaml.Reader} {home home' : Home} {fs gs : Files}
  {p q : Path} {text text' : String} {v w : Value} {es es' : Entries}

/-- Two entries are the same, or the second is the decimal text of the number that the first is. -/
inductive SameNumber (form : Text.NumeralForm) : Value → Value → Prop
  | same (v : Value) : SameNumber form v v
  | decimal {n : Int} {s : String} (h : form.Decimal n s) (hlimit : form.Fits n) :
      SameNumber form (.scalar (.int n)) (.text s)

theorem SameNumber.int?_eq (h : SameNumber form v w) : int? form v = int? form w := by
  cases h with
  | same => rfl
  | @decimal n s h hlimit =>
    have htext : Gives form (.text s) n := .text (h.spells hlimit)
    rw [int?_eq_some_iff.mpr (.number n), int?_eq_some_iff.mpr htext]

/-- A decimal text is an indent as the number, and not for the blanks around the digits. -/
theorem SameNumber.indent?_eq (h : SameNumber form v w) : indent? form v = indent? form w := by
  have hint := h.int?_eq
  cases h with
  | same => rfl
  | @decimal n s h hlimit =>
    have hnumber : int? form (.scalar (.int n)) = some n := rfl
    rw [hnumber] at hint
    unfold indent?
    rw [hnumber, ← hint]

/-- Two files are the same in the entries that settings are taken from, but for numbers that the second
gives as texts. -/
structure Alike (form : Text.NumeralForm) (es es' : Entries) : Prop where
  maxDocumentedParams : SameNumber form (entry es "prototype" "max_documented_params")
    (entry es' "prototype" "max_documented_params")
  maxLineLength : SameNumber form (entry es "prototype" "max_line_length")
    (entry es' "prototype" "max_line_length")
  indent : SameNumber form (entry es "prototype" "indent") (entry es' "prototype" "indent")
  language : entry es "code_block" "language" = entry es' "code_block" "language"

theorem Alike.style_eq (h : Alike form es es') : style form es = style form es' := by
  unfold style intFrom?
  rw [h.indent.indent?_eq, h.language, h.maxDocumentedParams.int?_eq, h.maxLineLength.int?_eq]

/-- **A number and its decimal text configure the same**: with blanks around it or a plus sign before
it, the text sets what the number sets, and where no text can be made, both files fail alike. -/
theorem readIn_decimal (h : Holds yaml home fs p text (.map es))
    (h' : Holds yaml' home' gs q text' (.map es')) (halike : Alike form es es') :
    readIn form yaml home fs p = readIn form yaml' home' gs q ∧
    ((∀ fault, ¬ Fails form es fault) →
      ∃ st, readIn form yaml home fs p = .ok st ∧ readIn form yaml' home' gs q = .ok st) ∧
    ∀ fault, Fails form es fault →
      readIn form yaml home fs p = .error (.scalar fault) ∧
        readIn form yaml' home' gs q = .error (.scalar fault) := by
  have heq : readIn form yaml home fs p = readIn form yaml' home' gs q := by
    rw [h.readIn_map, h'.readIn_map, halike.style_eq]
  refine ⟨heq, fun hnone => ?_, fun fault hf => ?_⟩
  · obtain ⟨st, hst, -⟩ := h.exists_readIn hnone
    exact ⟨st, hst, heq ▸ hst⟩
  · have hread : readIn form yaml home fs p = .error (.scalar fault) := h.readIn_of_fails hf
    exact ⟨hread, heq ▸ hread⟩

namespace Lines

/-- A file that sets the length of a line by a number. -/
def numberFile : String := "prototype: \x7bmax_line_length: 120\x7d\n"

def numberEntries : Entries :=
  [(.text "prototype", .map [(.text "max_line_length", .scalar (.int 120))])]

/-- A file that sets it by a text. -/
def textFile : String := "prototype: \x7bmax_line_length: ' +120'\x7d\n"

def textEntries : Entries :=
  [(.text "prototype", .map [(.text "max_line_length", .text " +120")])]

theorem holds_number : Holds Yaml.reader Root.homeless (Root.files numberFile) Root.here numberFile
    (.map numberEntries) :=
  .of_entry true "120" ⟨rfl, by decide +kernel⟩ (by decide +kernel) (by decide +kernel)
    (by decide +kernel)

theorem holds_text : Holds Yaml.reader Root.homeless (Root.files textFile) Root.here textFile
    (.map textEntries) :=
  .of_entry false " +120" ⟨rfl, by decide +kernel⟩ (by decide +kernel) (by decide +kernel)
    (by decide +kernel)

theorem alike (form : Text.NumeralForm) (hmargin : form.isMargin ' ' = true)
    (hlimit : form.Fits 120) : Alike form numberEntries textEntries := by
  have hdecimal : form.Decimal 120 " +120" :=
    ⟨[' '], "+120".toList, [], rfl, List.forall_mem_singleton.mpr hmargin, nofun, .inr ⟨by decide, rfl⟩⟩
  exact ⟨.same _, .decimal hdecimal hlimit, .same _, rfl⟩

end Lines

open Root Lines in
/-- A length of a line as a number and as a text, in two forms. -/
theorem readIn_decimal_lines :
    ∃ st, readIn .usual Yaml.reader homeless (files numberFile) here = .ok st ∧
      readIn .usual Yaml.reader homeless (files textFile) here = .ok st ∧
      readIn .free Yaml.reader homeless (files numberFile) here =
        readIn .free Yaml.reader homeless (files textFile) here := by
  have hfits : Text.NumeralForm.usual.Fits 120 := by decide +kernel
  have hnone : ∀ fault, ¬ Fails .usual numberEntries fault := by
    rintro fault (⟨h, -⟩ | ⟨-, h, -⟩)
    · cases h
    · cases h
  obtain ⟨-, hstyle, -⟩ := readIn_decimal holds_number holds_text (alike .usual rfl hfits)
  obtain ⟨st, hnumber, htext⟩ := hstyle hnone
  have hfree := alike .free rfl (Text.NumeralForm.fits_of_unlimited rfl 120)
  exact ⟨st, hnumber, htext, (readIn_decimal holds_number holds_text hfree).1⟩

namespace Wide

/-- A file that gives the indent of `file` as a text. -/
def textFile : String := "prototype: \x7bindent: '9223372036854775808'\x7d\n"

def textEntries : Entries :=
  [(.text "prototype", .map [(.text "indent", .text "9223372036854775808")])]

theorem holds_textFile : Holds Yaml.reader Root.homeless (Root.files textFile) Root.here textFile
    (.map textEntries) :=
  .of_entry false "9223372036854775808" ⟨rfl, by decide +kernel⟩ (by decide +kernel) (by decide +kernel)
    (by decide +kernel)

end Wide

open Root Wide in
/-- A number and its text of which neither configures anything. -/
theorem read_wideNumber :
    Holds Yaml.reader homeless (files file) here file (.map fileEntries) ∧
    Holds Yaml.reader homeless (files textFile) here textFile (.map textEntries) ∧
    Text.NumeralForm.usual.Decimal 9223372036854775808 "9223372036854775808" ∧
    (∀ st, read Yaml.reader homeless (files file) here ≠ .ok st) ∧
      ∀ st, read Yaml.reader homeless (files textFile) here ≠ .ok st := by
  have hdecimal : Text.NumeralForm.usual.Decimal 9223372036854775808 "9223372036854775808" :=
    ⟨[], "9223372036854775808".toList, [], rfl, nofun, nofun, .inl (by decide +kernel)⟩
  have hfits : Text.NumeralForm.usual.Fits 9223372036854775808 := by decide +kernel
  have hfile : Fails .usual fileEntries .uncountable := .indent (.number _) (by decide)
  have htext : Fails .usual textEntries .uncountable :=
    .indent (.text (hdecimal.spells hfits)) (by decide)
  refine ⟨holds_file, holds_textFile, hdecimal, fun st hst => ?_, fun st hst => ?_⟩
  · cases (holds_file.readIn_of_fails hfile).symm.trans hst
  · cases (holds_textFile.readIn_of_fails htext).symm.trans hst

end ApiPage.Settings
