import ApiPage.Page.Settings
import ApiPage.Proofs.Yaml.Blank

/-!
# The root of a settings file

The root of a settings file has to be a mapping. Not every other root is refused: data that count as
nothing, as an empty list or the number zero, pass for a mapping without entries, and so does any blank
text, whatever it holds. These are the only ones, whatever reads the text.
-/

namespace ApiPage.Settings

variable {form : Text.NumeralForm} {yaml : Yaml.Reader} {home : Home} {fs : Files} {p : Path}
  {name text : String} {v : Value} {es : Entries}

/-- The settings file that a path names has a text, and the text holds the data `v`. -/
structure Holds (yaml : Yaml.Reader) (home : Home) (fs : Files) (p : Path) (text : String) (v : Value) :
    Prop where
  readable : ∃ file, path home fs p = .ok file ∧ fs.readText file = .ok text
  parsed : yaml.read text = .ok v

/-- What can be read is there. -/
theorem look_of_readText {file : Path} (h : fs.readText file = .ok text) :
    ∃ node, look fs file = .ok (some node) := by
  unfold Files.readText Files.read at h
  cases hfind : fs.find file with
  | error fault =>
    rw [hfind] at h
    cases h
  | ok found => exact ⟨found.2, by rw [look, Files.look, hfind]; rfl⟩

/-- A file holds the data of the tree that its tokens make. -/
theorem Holds.of_tokens (ts : List Yaml.Token) {n : Yaml.Node} {file : Path}
    (hfile : (path home fs p).toOption = some file) (htext : (fs.readText file).toOption = some text)
    (hts : (Yaml.tokens text.toList).toOption = some ts) (hn : Yaml.Node.ofTokens? ts = some n)
    (hv : n.value? = some v) : Holds Yaml.reader home fs p text v := by
  refine ⟨⟨file, eq_ok_of_toOption hfile, eq_ok_of_toOption htext⟩, mapError_eq_ok.mpr ?_⟩
  simp only [Yaml.read, eq_ok_of_toOption hts, hn, Yaml.expected_some, bind, Except.bind,
    Yaml.Node.read, hv]

open Yaml.Token Yaml.Node in
/-- A file of one section with one entry that is a scalar holds just that. -/
theorem Holds.of_entry {part word : String} {x : Scalar} {file : Path} (plain : Bool) (written : String)
    (hfile : (path home fs p).toOption = some file ∧ (fs.readText file).toOption = some text)
    (hts : (Yaml.tokens text.toList).toOption = some
      [mappingOpen, key, .scalar true part, value, braceOpen, key, .scalar true word, value,
        .scalar plain written, braceClose, blockClose])
    (hkeys : (part ≠ "<<" ∧ (keyScalar true part).toOption = some (.text part)) ∧
      word ≠ "<<" ∧ (keyScalar true word).toOption = some (.text word))
    (hx : (valueScalar plain written).toOption = some x) :
    Holds Yaml.reader home fs p text (.map [(.text part, .map [(.text word, .scalar x)])]) := by
  have hn : ofTokens? [mappingOpen, key, .scalar true part, value, braceOpen, key,
      .scalar true word, value, .scalar plain written, braceClose, blockClose] =
      some (.mapping [(.scalar true part, .mapping [(.scalar true word, .scalar plain written)])]) :=
    rfl
  refine .of_tokens _ hfile.1 hfile.2 hts hn ?_
  simp [value?, entries?, isMergeKey, key?, hkeys, hx, mergeEntries, insertEntry]

/-- The data that count as nothing and are no mapping. -/
inductive Nothing : Value → Prop
  | null : Nothing .null
  | no : Nothing (.scalar (.bool false))
  | zero : Nothing (.scalar (.int 0))
  | point {x : Binary64} (h : x.isZero = true) : Nothing (.scalar (.float x))
  | blank : Nothing (.text "")
  | noBytes : Nothing (.scalar (.bytes []))
  | empty : Nothing (.list [])
  | other {literal? : Option String} : Nothing (.foreign ⟨true, literal?⟩)

theorem isVacant_iff : v.isVacant = true ↔ Nothing v ∨ v = .map [] := by
  constructor
  · intro h
    cases v with
    | map es => exact .inr (congrArg _ (List.isEmpty_iff.mp h))
    | list vs =>
      obtain rfl : vs = [] := List.isEmpty_iff.mp h
      exact .inl .empty
    | foreign f =>
      obtain ⟨empty, literal?⟩ := f
      obtain rfl : empty = true := h
      exact .inl .other
    | scalar s =>
      refine .inl ?_
      cases s with
      | null => exact .null
      | bool b =>
        obtain rfl : b = false := by simpa [Value.isVacant] using h
        exact .no
      | int i =>
        obtain rfl : i = 0 := by simpa [Value.isVacant] using h
        exact .zero
      | float x => exact .point h
      | text s =>
        obtain rfl : s = "" := Str.isEmpty_iff.mp h
        exact .blank
      | bytes bs =>
        obtain rfl : bs = [] := List.isEmpty_iff.mp h
        exact .noBytes
      | date d => cases h
      | moment m => cases h
  · rintro (h | rfl)
    · cases h with
      | point h => exact h
      | _ => rfl
    · rfl

/-! ### The entries of a text -/

theorem entries_of_map (h : yaml.read text = .ok (.map es)) : entries yaml name text = .ok es := by
  have hb : Text.allBlank text = false := by
    refine Bool.eq_false_iff.mpr fun hb => ?_
    obtain ⟨x, hx⟩ := yaml.scalar_of_blank hb h
    cases hx
  unfold entries
  rw [hb, if_neg Bool.false_ne_true, h]
  cases es with
  | nil => rfl
  | cons e es => rfl

theorem entries_of_nothing (h : yaml.read text = .ok v)
    (hv : Nothing v ∨ Text.allBlank text = true) : entries yaml name text = .ok [] := by
  unfold entries
  split
  · rfl
  · next hb =>
    have hvacant : v.isVacant = true := isVacant_iff.mpr (.inl (hv.resolve_right hb))
    rw [h]
    exact if_pos hvacant

theorem entries_of_other (h : yaml.read text = .ok v) (hmap : ∀ es, v ≠ .map es)
    (hnothing : ¬ Nothing v) (hb : Text.allBlank text = false) :
    entries yaml name text = .error .rootNotAMapping := by
  have hvacant : ¬ v.isVacant = true := fun hv => (isVacant_iff.mp hv).elim hnothing (hmap [])
  unfold entries
  rw [hb, if_neg Bool.false_ne_true, h]
  dsimp only
  rw [if_neg hvacant]
  split
  · next es => exact absurd rfl (hmap es)
  · rfl

/-! ### The style of a file -/

theorem Holds.exists_readIn_eq (h : Holds yaml home fs p text v) (form : Text.NumeralForm) :
    ∃ name, readIn form yaml home fs p = ofText form yaml name text := by
  obtain ⟨file, hpath, htext⟩ := h.readable
  obtain ⟨node, hlook⟩ := look_of_readText htext
  refine ⟨file.name, ?_⟩
  simp only [readIn, hpath, hlook, htext, bind, Except.bind]

/-- A file that holds a mapping sets the style of its entries. -/
theorem Holds.readIn_map (h : Holds yaml home fs p text (.map es)) :
    readIn form yaml home fs p = (style form es).mapError .scalar := by
  obtain ⟨name, hread⟩ := h.exists_readIn_eq form
  rw [hread, ofText, entries_of_map h.parsed]
  rfl

theorem Holds.readIn_nothing (h : Holds yaml home fs p text v)
    (hv : Nothing v ∨ Text.allBlank text = true) : readIn form yaml home fs p = .ok {} := by
  obtain ⟨name, hread⟩ := h.exists_readIn_eq form
  rw [hread, ofText, entries_of_nothing h.parsed hv]
  rfl

theorem Holds.readIn_other (h : Holds yaml home fs p text v) (hmap : ∀ es, v ≠ .map es)
    (hnothing : ¬ Nothing v) (hb : Text.allBlank text = false) :
    readIn form yaml home fs p = .error .rootNotAMapping := by
  obtain ⟨name, hread⟩ := h.exists_readIn_eq form
  rw [hread, ofText, entries_of_other h.parsed hmap hnothing hb]
  rfl

/-- **A root that is no mapping is refused, unless it counts as nothing or the text is blank**, whatever
reads the text; then the file sets nothing. A mapping at the root is never refused. -/
theorem read_eq_rootNotAMapping (h : Holds yaml home fs p text v) :
    (read yaml home fs p = .error .rootNotAMapping ↔
      (∀ es, v ≠ .map es) ∧ ¬ Nothing v ∧ Text.allBlank text = false) ∧
    ((∀ es, v ≠ .map es) → Nothing v ∨ Text.allBlank text = true → read yaml home fs p = .ok {}) ∧
    ∀ es, v = .map es → read yaml home fs p = (style .usual es).mapError .scalar := by
  refine ⟨⟨fun hread => ?_, fun ⟨hmap, hnothing, hb⟩ => h.readIn_other hmap hnothing hb⟩,
    fun _ hv => h.readIn_nothing hv, ?_⟩
  · have hkept : ¬ (Nothing v ∨ Text.allBlank text = true) := fun hv => by
      rw [read, h.readIn_nothing hv] at hread
      cases hread
    refine ⟨?_, fun hv => hkept (.inl hv), by simpa using fun hb => hkept (.inr hb)⟩
    rintro es rfl
    rw [read, h.readIn_map] at hread
    cases hstyle : style .usual es with
    | error fault =>
      rw [hstyle] at hread
      cases hread
    | ok st =>
      rw [hstyle] at hread
      cases hread
  · rintro es rfl
    exact h.readIn_map

namespace Root

/-- A settings file in the working directory. -/
def files (text : String) : Files :=
  ⟨["w"], [(["w"], .directory), (["w", fileName], .file (Text.encodeUtf8 text))], []⟩

/-- The working directory. -/
def here : Path :=
  Path.ofString "."

/-- Nobody's home directory is known. -/
def homeless : Home :=
  fun _ => none

end Root

open Root in
/-- A list of one word is refused. -/
theorem read_eq_rootNotAMapping_list :
    Holds Yaml.reader homeless (files "- one\n") here "- one\n" (.list [.text "one"]) ∧
      read Yaml.reader homeless (files "- one\n") here = .error .rootNotAMapping := by
  have hone : (Yaml.Node.valueScalar true "one").toOption = some (.text "one") := by decide +kernel
  have h : Holds Yaml.reader homeless (files "- one\n") here "- one\n" (.list [.text "one"]) :=
    .of_tokens [.sequenceOpen, .dash, .scalar true "one", .blockClose]
      rfl (by decide +kernel) (by decide +kernel) rfl
      (by simp [Yaml.Node.value?, Yaml.Node.values?, hone])
  have hmap : ∀ es, Value.list [.text "one"] ≠ .map es := by
    intro es heq
    cases heq
  have hnothing : ¬ Nothing (.list [.text "one"]) := by
    intro hn
    cases hn
  exact ⟨h, (read_eq_rootNotAMapping h).1.mpr ⟨hmap, hnothing, by decide +kernel⟩⟩

open Root in
/-- An empty list is neither null nor a mapping, and the file passes for one that sets nothing. -/
theorem read_emptyList : Holds Yaml.reader homeless (files "[]\n") here "[]\n" (.list []) ∧
    read Yaml.reader homeless (files "[]\n") here = .ok {} := by
  have h : Holds Yaml.reader homeless (files "[]\n") here "[]\n" (.list []) :=
    .of_tokens [.bracketOpen, .bracketClose]
      rfl (by decide +kernel) (by decide +kernel) rfl rfl
  exact ⟨h, h.readIn_nothing (.inl .empty)⟩

end ApiPage.Settings
