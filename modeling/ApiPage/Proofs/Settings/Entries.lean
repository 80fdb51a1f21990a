import ApiPage.Proofs.Settings.Root
import ApiPage.Proofs.Text.Numeral
import ApiPage.Results

/-!
# What the entries of a settings file set

`Settled` says of each setting that it is what its own entry gives, if the entry gives something in
range, and the default otherwise; so each setting is determined by its own entry, whatever the others
are. Every style that a file sets is `Usable`. A file that holds a mapping sets a style unless its
indent or its language is a number for which no text can be made, and these faults are the only ones.
-/

namespace ApiPage.Settings

variable {form : Text.NumeralForm} {yaml : Yaml.Reader} {home : Home} {fs gs : Files} {p q : Path}
  {text text' : String} {v : Value} {es es' : Entries} {st st' : Style} {n m : Int} {s t : Str}
  {fault : ScalarFault}

/-! ### What an entry gives -/

/-- The whole number that an entry gives: it is one, or a text that spells one. -/
inductive Gives (form : Text.NumeralForm) : Value → Int → Prop
  | number (n : Int) : Gives form (.scalar (.int n)) n
  | text {s : String} {n : Int} (h : form.Spells s n) : Gives form (.text s) n

/-- The indent that an entry gives: a positive number of spaces, or a blank text. -/
inductive GivesIndent (form : Text.NumeralForm) : Value → Str → Prop
  | spaces {v : Value} {n : Int} (h : Gives form v n) (hn : 0 < n) :
      GivesIndent form v (spaces n.toNat)
  | blank {s : Str} (hs : s ≠ "") (hb : Text.allBlank s = true) : GivesIndent form (.text s) s

/-- The text that an entry gives: it is one, or a number. -/
inductive GivesText : Value → Str → Prop
  | text (s : Str) : GivesText (.text s) s
  | number (n : Int) : GivesText (.scalar (.int n)) (toString n)
  | point (x : Binary64) : GivesText (.scalar (.float x)) x.text

theorem int?_eq_some_iff : int? form v = some n ↔ Gives form v n := by
  constructor
  · intro h
    unfold int? at h
    split at h
    · exact Option.some.inj h ▸ .number _
    · exact .text (Text.NumeralForm.read?_eq_some_iff.mp h)
    · cases h
  · intro h
    cases h with
    | number => rfl
    | text h => exact Text.NumeralForm.read?_eq_some_iff.mpr h

theorem int?_eq_none_iff : int? form v = none ↔ ∀ n, ¬ Gives form v n := by
  simp only [← int?_eq_some_iff, Option.eq_none_iff_forall_ne_some, ne_eq]

theorem Gives.unique (h : Gives form v n) (h' : Gives form v m) : n = m :=
  Option.some.inj ((int?_eq_some_iff.mpr h).symm.trans (int?_eq_some_iff.mpr h'))

/-- A blank text gives no number. -/
theorem Gives.not_allBlank (h : Gives form (.text s) n) : Text.allBlank s = false := by
  cases h with
  | text h => exact h.not_allBlank

theorem GivesIndent.unique (h : GivesIndent form v s) (h' : GivesIndent form v t) : s = t := by
  cases h with
  | spaces h hn =>
    cases h' with
    | spaces h' hn' => rw [h.unique h']
    | blank ht hb =>
      rw [h.not_allBlank] at hb
      cases hb
  | blank hs hb =>
    cases h' with
    | spaces h' hn' =>
      rw [h'.not_allBlank] at hb
      cases hb
    | blank => rfl

theorem GivesText.unique (h : GivesText v s) (h' : GivesText v t) : s = t := by
  cases h <;> cases h' <;> rfl

theorem toList_spaces (k : Nat) : (spaces k).toList = List.replicate k (.char ' ') :=
  (Str.toList_whole _).trans (by rw [String.toList_ofList, List.map_replicate])

theorem spaces_ne_empty {k : Nat} (hk : k ≠ 0) : spaces k ≠ "" := by
  intro h
  have hlist := congrArg Str.toList h
  rw [toList_spaces] at hlist
  exact hk (List.replicate_eq_nil_iff _ |>.mp hlist)

theorem allBlank_spaces (k : Nat) : Text.allBlank (spaces k) = true := by
  rw [Text.allBlank, toList_spaces, List.all_eq_true]
  intro c hc
  rw [List.eq_of_mem_replicate hc]
  rfl

/-- An indent is made of blanks, of at least one. -/
theorem GivesIndent.made_of_blanks (h : GivesIndent form v s) :
    s ≠ "" ∧ Text.allBlank s = true := by
  cases h with
  | spaces h hn => exact ⟨spaces_ne_empty (by omega), allBlank_spaces _⟩
  | blank hs hb => exact ⟨hs, hb⟩

/-! ### Settings and their defaults -/

/-- The setting `a` is what is given, or the default if nothing is given. -/
def Takes {α : Type} (given : α → Prop) (default a : α) : Prop :=
  given a ∨ (∀ b, ¬ given b) ∧ a = default

/-- What is given determines the setting, if it is one thing at most. -/
theorem Takes.unique {α : Type} {given : α → Prop} {default a b : α}
    (hgiven : ∀ a b, given a → given b → a = b) (ha : Takes given default a)
    (hb : Takes given default b) : a = b := by
  rcases ha with ha | ⟨hnone, rfl⟩
  · rcases hb with hb | ⟨hnone, -⟩
    · exact hgiven a b ha hb
    · exact absurd ha (hnone a)
  · rcases hb with hb | ⟨-, rfl⟩
    · exact absurd hb (hnone b)
    · rfl

/-- What is given or else the default has a property, if both have. -/
theorem Takes.elim {α : Type} {given P : α → Prop} {default a : α} (ha : Takes given default a)
    (hgiven : ∀ b, given b → P b) (hdefault : P default) : P a := by
  rcases ha with ha | ⟨-, rfl⟩
  · exact hgiven a ha
  · exact hdefault

theorem takes_getD {α : Type} {given : α → Prop} {default : α} {o : Option α}
    (ho : ∀ a, o = some a ↔ given a) : Takes given default (o.getD default) := by
  cases o with
  | none => exact .inr ⟨fun b hb => absurd ((ho b).mpr hb) nofun, rfl⟩
  | some a => exact .inl ((ho a).mp rfl)

theorem takes_intFrom? (form : Text.NumeralForm) (least default : Int) (v : Value) :
    Takes (fun n => Gives form v n ∧ least ≤ n) default ((intFrom? form least v).getD default) :=
  takes_getD fun n => by
    simp [intFrom?, Option.filter_eq_some_iff, int?_eq_some_iff]

/-! ### Texts that cannot be made -/

/-- The fault of a file: its indent is wider than a text can be, or else its language is a number of
too many digits. -/
inductive Fails (form : Text.NumeralForm) (es : Entries) : ScalarFault → Prop
  | indent {n : Int} (h : Gives form (entry es "prototype" "indent") n) (hn : lengthLimit < n) :
      Fails form es .uncountable
  | language {n : Int} (hindent : ∀ m, Gives form (entry es "prototype" "indent") m → m ≤ lengthLimit)
      (h : entry es "code_block" "language" = .scalar (.int n)) (hn : ¬ form.Fits n) :
      Fails form es .unwritable

theorem indent?_of_wide (h : Gives form v n) (hn : lengthLimit < n) :
    indent? form v = .error .uncountable := by
  have hlimit : (0 : Int) < lengthLimit := by decide
  unfold indent?
  rw [int?_eq_some_iff.mpr h]
  dsimp only
  rw [if_neg (by omega), if_neg (by omega)]

theorem indent?_of_fits (hv : ∀ n, Gives form v n → n ≤ lengthLimit) :
    ∃ o, indent? form v = .ok o ∧ ∀ s, o = some s ↔ GivesIndent form v s := by
  unfold indent?
  cases hint : int? form v with
  | some n =>
    have hn : Gives form v n := int?_eq_some_iff.mp hint
    dsimp only
    by_cases hpos : n ≤ 0
    · refine ⟨none, if_pos hpos, fun s => ⟨nofun, fun h => ?_⟩⟩
      cases h with
      | spaces h' hn' =>
        obtain rfl := hn.unique h'
        omega
      | blank hs hb =>
        rw [hn.not_allBlank] at hb
        cases hb
    · refine ⟨some (spaces n.toNat), by rw [if_neg hpos, if_pos (hv n hn)], fun s => ⟨?_, fun h => ?_⟩⟩
      · rintro ⟨⟩
        exact .spaces hn (by omega)
      · rw [(GivesIndent.spaces hn (by omega)).unique h]
  | none =>
    have hnone := int?_eq_none_iff.mp hint
    dsimp only
    split
    · next s =>
      refine ⟨_, rfl, fun t => ⟨fun h => ?_, fun h => ?_⟩⟩
      · split at h
        · next hs => exact Option.some.inj h ▸ .blank hs.1 hs.2
        · cases h
      · cases h with
        | spaces h' _ => exact absurd h' (hnone _)
        | blank hs hb => rw [if_pos ⟨hs, hb⟩]
    · next htext =>
      refine ⟨none, rfl, fun t => ⟨nofun, fun h => ?_⟩⟩
      cases h with
      | spaces h' _ => exact absurd h' (hnone _)
      | blank => exact absurd rfl (htext _)

theorem write?_of_fits (h : form.Fits n) : form.write? n = some (toString n) :=
  if_pos h

theorem text?_of_long (hn : ¬ form.Fits n) : text? form (.scalar (.int n)) = .error .unwritable := by
  have hwrite : form.write? n = none := if_neg hn
  rw [text?, hwrite]

theorem text?_of_fits (hv : ∀ n, v = .scalar (.int n) → form.Fits n) :
    ∃ o, text? form v = .ok o ∧ ∀ s, o = some s ↔ GivesText v s := by
  unfold text?
  split
  · next s =>
    exact ⟨some s, rfl, fun t => ⟨fun h => Option.some.inj h ▸ .text s,
      fun h => congrArg some ((GivesText.text s).unique h)⟩⟩
  · next n =>
    rw [write?_of_fits (hv n rfl)]
    exact ⟨_, rfl, fun t => ⟨fun h => Option.some.inj h ▸ .number n,
      fun h => congrArg some ((GivesText.number n).unique h)⟩⟩
  · next x =>
    exact ⟨_, rfl, fun t => ⟨fun h => Option.some.inj h ▸ .point x,
      fun h => congrArg some ((GivesText.point x).unique h)⟩⟩
  · next htext hint hfloat =>
    refine ⟨none, rfl, fun t => ⟨nofun, fun h => ?_⟩⟩
    cases h with
    | text => exact absurd rfl (htext _)
    | number => exact absurd rfl (hint _)
    | point => exact absurd rfl (hfloat _)

/-! ### The style of entries -/

/-- Each setting is what its own entry gives in range, or the default. -/
structure Settled (form : Text.NumeralForm) (es : Entries) (st : Style) : Prop where
  maxDocumentedParams : Takes
    (fun n => Gives form (entry es "prototype" "max_documented_params") n ∧ 0 ≤ n) 3
    st.maxDocumentedParams
  maxLineLength : Takes
    (fun n => Gives form (entry es "prototype" "max_line_length") n ∧ 1 ≤ n) 80 st.maxLineLength
  codeLanguage : Takes (GivesText (entry es "code_block" "language")) "python" st.codeLanguage
  paramIndent : Takes (GivesIndent form (entry es "prototype" "indent")) "    " st.paramIndent

/-- The limits of a style are in range, and its indent is made of blanks, of at least one. -/
structure Usable (st : Style) : Prop where
  maxDocumentedParams : 0 ≤ st.maxDocumentedParams
  maxLineLength : 1 ≤ st.maxLineLength
  paramIndent : st.paramIndent ≠ "" ∧ Text.allBlank st.paramIndent = true

/-- Two styles agree in each setting whose own entry is the same for both. -/
structure Agree (es es' : Entries) (st st' : Style) : Prop where
  maxDocumentedParams :
    entry es "prototype" "max_documented_params" = entry es' "prototype" "max_documented_params" →
      st.maxDocumentedParams = st'.maxDocumentedParams
  maxLineLength : entry es "prototype" "max_line_length" = entry es' "prototype" "max_line_length" →
    st.maxLineLength = st'.maxLineLength
  codeLanguage : entry es "code_block" "language" = entry es' "code_block" "language" →
    st.codeLanguage = st'.codeLanguage
  paramIndent : entry es "prototype" "indent" = entry es' "prototype" "indent" →
    st.paramIndent = st'.paramIndent

theorem Settled.usable (h : Settled form es st) : Usable st :=
  ⟨h.maxDocumentedParams.elim (fun _ hn => hn.2) (by decide),
    h.maxLineLength.elim (fun _ hn => hn.2) (by decide),
    h.paramIndent.elim (P := fun s : Str => s ≠ "" ∧ Text.allBlank s = true)
      (fun _ hs => hs.made_of_blanks) (by decide)⟩

theorem Settled.agree (h : Settled form es st) (h' : Settled form es' st') : Agree es es' st st' where
  maxDocumentedParams he :=
    h.maxDocumentedParams.unique (fun _ _ ha hb => ha.1.unique hb.1) (he ▸ h'.maxDocumentedParams)
  maxLineLength he :=
    h.maxLineLength.unique (fun _ _ ha hb => ha.1.unique hb.1) (he ▸ h'.maxLineLength)
  codeLanguage he := h.codeLanguage.unique (fun _ _ ha hb => ha.unique hb) (he ▸ h'.codeLanguage)
  paramIndent he := h.paramIndent.unique (fun _ _ ha hb => ha.unique hb) (he ▸ h'.paramIndent)

theorem style_of_fails (h : Fails form es fault) : style form es = .error fault := by
  unfold style
  cases h with
  | indent h hn => rw [indent?_of_wide h hn]; rfl
  | language hindent h hn =>
    obtain ⟨indent, hi, -⟩ := indent?_of_fits hindent
    rw [hi, h, text?_of_long hn]
    rfl

/-- Entries without a fault set a style, each setting by its own entry. -/
theorem exists_style (h : ∀ fault, ¬ Fails form es fault) :
    ∃ st, style form es = .ok st ∧ Settled form es st := by
  have hindent : ∀ n, Gives form (entry es "prototype" "indent") n → n ≤ lengthLimit :=
    fun n hn => Int.not_lt.mp fun hwide => h _ (.indent hn hwide)
  have hlanguage : ∀ n, entry es "code_block" "language" = .scalar (.int n) → form.Fits n :=
    fun n hn => Classical.byContradiction fun hlong => h _ (.language hindent hn hlong)
  obtain ⟨indent, hi, hgives⟩ := indent?_of_fits hindent
  obtain ⟨language, hl, hgives'⟩ := text?_of_fits hlanguage
  refine ⟨_, by unfold style; rw [hi, hl]; rfl, ?_⟩
  exact ⟨takes_intFrom? form 0 3 _, takes_intFrom? form 1 80 _, takes_getD hgives',
    takes_getD hgives⟩

/-- A style that entries set is settled by them. -/
theorem settled_of_style (h : style form es = .ok st) : Settled form es st := by
  have hnone : ∀ fault, ¬ Fails form es fault := fun fault hf => by
    rw [style_of_fails hf] at h
    cases h
  obtain ⟨st', hst', hs⟩ := exists_style hnone
  exact Except.ok.inj (hst'.symm.trans h) ▸ hs

/-- Every style that a path gives is usable, whether a file sets it or none does. -/
theorem usable_of_readIn (h : readIn form yaml home fs p = .ok st) : Usable st := by
  obtain ⟨file, -, h⟩ := bind_eq_ok.mp h
  obtain ⟨node, -, h⟩ := bind_eq_ok.mp h
  cases node with
  | none =>
    obtain rfl := Except.ok.inj h
    exact ⟨by decide, by decide, by decide⟩
  | some node =>
    dsimp only at h
    split at h
    · cases h
    · obtain ⟨es, -, hst⟩ := bind_eq_ok.mp h
      exact (settled_of_style (mapError_eq_ok.mp hst)).usable

theorem Holds.readIn_of_fails (h : Holds yaml home fs p text (.map es)) (hf : Fails form es fault) :
    readIn form yaml home fs p = .error (.scalar fault) := by
  rw [h.readIn_map, style_of_fails hf]
  rfl

theorem Holds.exists_readIn (h : Holds yaml home fs p text (.map es))
    (hnone : ∀ fault, ¬ Fails form es fault) :
    ∃ st, readIn form yaml home fs p = .ok st ∧ Settled form es st := by
  obtain ⟨st, hst, hs⟩ := exists_style hnone
  refine ⟨st, ?_, hs⟩
  rw [h.readIn_map, hst]
  rfl

/-- A style that a file sets is settled by the file's entries. -/
theorem Holds.settled (h : Holds yaml home fs p text (.map es))
    (hread : readIn form yaml home fs p = .ok st) : Settled form es st := by
  rw [h.readIn_map] at hread
  cases hst : style form es with
  | error fault => rw [hst] at hread; cases hread
  | ok st' =>
    rw [hst] at hread
    obtain rfl := Except.ok.inj hread
    exact settled_of_style hst

/-- **A settings file sets a usable style, each setting by its own entry**, unless its indent or its
language is a number for which no text can be made. Two files that have the entry of a setting in
common set it alike, whatever else they hold. -/
theorem readIn_settled (h : Holds yaml home fs p text (.map es)) :
    (∀ cause, readIn form yaml home fs p = .error cause ↔
      ∃ fault, cause = .scalar fault ∧ Fails form es fault) ∧
    ((∀ fault, ¬ Fails form es fault) →
      ∃ st, readIn form yaml home fs p = .ok st ∧ Usable st ∧ Settled form es st) ∧
    ∀ yaml' home' gs q text' es' st st', Holds yaml' home' gs q text' (.map es') →
      readIn form yaml home fs p = .ok st → readIn form yaml' home' gs q = .ok st' → Agree es es' st st' := by
  refine ⟨fun cause => ⟨fun hread => ?_, ?_⟩, fun hnone => ?_, ?_⟩
  · by_contra hother
    have hnone : ∀ fault, ¬ Fails form es fault := fun fault hf =>
      hother ⟨fault, Except.error.inj (hread.symm.trans (h.readIn_of_fails hf)), hf⟩
    obtain ⟨st, hst, -⟩ := h.exists_readIn hnone
    cases hread.symm.trans hst
  · rintro ⟨fault, rfl, hf⟩
    exact h.readIn_of_fails hf
  · obtain ⟨st, hst, hs⟩ := h.exists_readIn hnone
    exact ⟨st, hst, hs.usable, hs⟩
  · intro yaml' home' gs q text' es' st st' h' hread hread'
    exact (h.settled hread).agree (h'.settled hread')

namespace Mixed

/-- A file that sets the indent by a text. -/
def indentedFile : String := "prototype: \x7bindent: ' 2 '\x7d\n"

def indentedEntries : Entries :=
  [(.text "prototype", .map [(.text "indent", .text " 2 ")])]

/-- A file that sets the language by a number. -/
def languageFile : String := "code_block: \x7blanguage: 7\x7d\n"

def languageEntries : Entries :=
  [(.text "code_block", .map [(.text "language", .scalar (.int 7))])]

theorem holds_indented :
    Holds Yaml.reader Root.homeless (Root.files indentedFile) Root.here indentedFile (.map indentedEntries) :=
  .of_entry false " 2 " ⟨rfl, by decide +kernel⟩ (by decide +kernel) (by decide +kernel)
    (by decide +kernel)

theorem holds_language :
    Holds Yaml.reader Root.homeless (Root.files languageFile) Root.here languageFile (.map languageEntries) :=
  .of_entry true "7" ⟨rfl, by decide +kernel⟩ (by decide +kernel) (by decide +kernel)
    (by decide +kernel)

end Mixed

open Root Mixed in
/-- Two files, of which neither sets the length of a line. -/
theorem readIn_settled_mixed :
    Holds Yaml.reader homeless (files indentedFile) here indentedFile (.map indentedEntries) ∧
    Holds Yaml.reader homeless (files languageFile) here languageFile (.map languageEntries) ∧
    ∃ st st', readIn .usual Yaml.reader homeless (files indentedFile) here = .ok st ∧
      readIn .usual Yaml.reader homeless (files languageFile) here = .ok st' ∧ Usable st ∧
      Settled .usual indentedEntries st ∧ st.maxLineLength = st'.maxLineLength := by
  have hindented : ∀ fault, ¬ Fails .usual indentedEntries fault := by
    rintro fault (⟨h, hn⟩ | ⟨-, h, -⟩)
    · have htwo : int? .usual (.text " 2 ") = some 2 := by decide +kernel
      obtain rfl := h.unique (int?_eq_some_iff.mp htwo)
      exact absurd hn (by decide)
    · cases h
  have hlanguage : ∀ fault, ¬ Fails .usual languageEntries fault := by
    rintro fault (⟨h, hn⟩ | ⟨-, h, hn⟩)
    · cases h
    · cases h
      exact hn (by rfl)
  obtain ⟨-, hstyle, hagree⟩ := readIn_settled holds_indented
  obtain ⟨st, hst, husable, hsettled⟩ := hstyle hindented
  obtain ⟨st', hst', -, -⟩ := (readIn_settled holds_language).2.1 hlanguage
  exact ⟨holds_indented, holds_language, st, st', hst, hst', husable, hsettled,
    (hagree _ _ _ _ _ _ _ _ holds_language hst hst').maxLineLength rfl⟩

namespace Wide

/-- A file whose indent is wider than any text. -/
def file : String := "prototype: \x7bindent: 9223372036854775808\x7d\n"

def fileEntries : Entries :=
  [(.text "prototype", .map [(.text "indent", .scalar (.int 9223372036854775808))])]

theorem holds_file : Holds Yaml.reader Root.homeless (Root.files file) Root.here file (.map fileEntries) :=
  .of_entry true "9223372036854775808" ⟨rfl, by decide +kernel⟩ (by decide +kernel) (by decide +kernel)
    (by decide +kernel)

end Wide

open Root Wide in
/-- A mapping at the root from which no style is had. -/
theorem read_wideIndent : Holds Yaml.reader homeless (files file) here file (.map fileEntries) ∧
    read Yaml.reader homeless (files file) here = .error (.scalar .uncountable) := by
  have hfails : Fails .usual fileEntries .uncountable := .indent (.number _) (by decide)
  exact ⟨holds_file, holds_file.readIn_of_fails hfails⟩

end ApiPage.Settings
