import ApiPage.Text.Numeral
import Mathlib.Data.List.TakeWhile
import Mathlib.Data.Nat.Digits.Defs

/-!
# The whole numbers that texts spell

    number  := margin* sign? digits margin*
    sign    := '+' | '-'
    digits  := DIGIT | digits DIGIT | digits '_' DIGIT

`NumeralForm.Spells` says which number a text of this grammar spells, and reading finds just the numbers
that are spelled. The decimal text of every whole number spells it, also with a plus sign if it is not
negative, and with any margins.
-/

namespace ApiPage.Text

variable {form : NumeralForm} {cs : List Char} {c : Char} {d n : Nat} {i : Int} {s : String}

/-! ### Digits -/

/-- No decimal digit of any script is blank. -/
theorem not_isBlank_of_digitValue? (h : digitValue? c = some d) : isBlank c = false := by
  have hall : ∀ z ∈ scriptZeros, ∀ k < 10, isBlank (Char.ofNat (z + k)) = false := by decide +kernel
  obtain ⟨z, hz, -⟩ := Option.map_eq_some_iff.mp h
  have hmem := List.mem_of_find?_eq_some hz
  have hin := List.find?_some hz
  simp only [Bool.and_eq_true, decide_eq_true_eq] at hin
  have hc := hall z hmem (c.toNat - z) (by omega)
  rwa [Nat.add_sub_cancel' hin.1, Char.ofNat_toNat] at hc

theorem ne_of_digitValue? {x : Char} (hx : digitValue? x = none) (h : digitValue? c = some d) :
    c ≠ x := by
  rintro rfl
  rw [hx] at h
  cases h

theorem digitValue?_digitChar (h : d < 10) : digitValue? d.digitChar = some d := by
  have hall : ∀ k < 10, digitValue? (Nat.digitChar k) = some k := by decide
  exact hall d h

theorem lt_ten_of_digitValue? (h : digitValue? c = some d) : d < 10 := by
  obtain ⟨z, hz, rfl⟩ := Option.map_eq_some_iff.mp h
  have hin := List.find?_some hz
  simp only [Bool.and_eq_true, decide_eq_true_eq] at hin
  omega

/-- The digits `cs` spell `n`; underscores stand singly and between two digits. -/
inductive SpellsNat : List Char → Nat → Prop
  | digit {c : Char} {d : Nat} (h : digitValue? c = some d) : SpellsNat [c] d
  | more {cs : List Char} {n : Nat} {c : Char} {d : Nat} (hs : SpellsNat cs n)
      (h : digitValue? c = some d) : SpellsNat (cs ++ [c]) (n * 10 + d)
  | bar {cs : List Char} {n : Nat} {c : Char} {d : Nat} (hs : SpellsNat cs n)
      (h : digitValue? c = some d) : SpellsNat (cs ++ ['_', c]) (n * 10 + d)

theorem readDigits_digit {fresh : Bool} (h : digitValue? c = some d) :
    readDigits n fresh (c :: cs) = readDigits (n * 10 + d) false cs := by
  have hc : c ≠ '_' := ne_of_digitValue? (by decide) h
  rw [readDigits, if_neg hc, h]

/-- Digits spell no number above the greatest of their length. -/
theorem SpellsNat.lt_pow (h : SpellsNat cs n) : n < 10 ^ cs.length := by
  induction h with
  | digit hd => simpa using lt_ten_of_digitValue? hd
  | more _ hd ih =>
    have hlast := lt_ten_of_digitValue? hd
    rw [List.length_append, List.length_singleton, Nat.pow_succ]
    omega
  | @bar cs n c d _ hd ih =>
    have hlast := lt_ten_of_digitValue? hd
    have hmore : n * 10 + d < 10 ^ (cs.length + 1) := by
      rw [Nat.pow_succ]
      omega
    exact hmore.trans_le (Nat.pow_le_pow_right (by omega) (by simp))

/-- What is read behind digits goes on from the number that they spell. -/
theorem SpellsNat.readDigits_append (h : SpellsNat cs n) (rest : List Char) :
    readDigits 0 true (cs ++ rest) = readDigits n false rest := by
  induction h generalizing rest with
  | digit hd =>
    rw [List.singleton_append, readDigits_digit hd, Nat.zero_mul, Nat.zero_add]
  | more _ hd ih =>
    rw [List.append_assoc, ih, List.singleton_append, readDigits_digit hd]
  | @bar cs n c d _ hd ih =>
    have hbar : readDigits n false ('_' :: c :: rest) = readDigits n true (c :: rest) := rfl
    rw [List.append_assoc, ih, List.cons_append, List.singleton_append, hbar, readDigits_digit hd]

/-- Reading on behind digits finds a number that all of the digits spell. -/
theorem SpellsNat.of_readDigits {m : Nat} : ∀ {rest cs : List Char} {n : Nat}, SpellsNat cs n →
    (readDigits n false rest = some m → SpellsNat (cs ++ rest) m) ∧
      (readDigits n true rest = some m → SpellsNat (cs ++ '_' :: rest) m)
  | [], cs, n, hs => by
    refine ⟨fun h => ?_, fun h => ?_⟩
    · obtain rfl := Option.some.inj h
      rwa [List.append_nil]
    · cases h
  | c :: rest, cs, n, hs => by
    by_cases hc : c = '_'
    · subst hc
      refine ⟨fun h => (SpellsNat.of_readDigits hs).2 h, fun h => ?_⟩
      rw [readDigits, if_pos rfl, if_pos rfl] at h
      cases h
    · cases hd : digitValue? c with
      | none =>
        have hstop : ∀ fresh, readDigits n fresh (c :: rest) = none := fun fresh => by
          rw [readDigits, if_neg hc, hd]
        exact ⟨fun h => absurd h (by simp [hstop]), fun h => absurd h (by simp [hstop])⟩
      | some d =>
        simp only [readDigits_digit hd]
        refine ⟨fun h => ?_, fun h => ?_⟩
        · have hmore := (SpellsNat.of_readDigits (hs.more hd)).1 h
          rwa [List.append_assoc, List.singleton_append] at hmore
        · have hbar := (SpellsNat.of_readDigits (hs.bar hd)).1 h
          rwa [List.append_assoc, List.cons_append, List.singleton_append] at hbar

theorem readDigits_eq_some_iff : readDigits 0 true cs = some n ↔ SpellsNat cs n := by
  constructor
  · intro h
    cases cs with
    | nil => cases h
    | cons c cs =>
      by_cases hc : c = '_'
      · rw [readDigits, if_pos hc, if_pos rfl] at h
        cases h
      · cases hd : digitValue? c with
        | none =>
          rw [readDigits, if_neg hc, hd] at h
          cases h
        | some d =>
          rw [readDigits_digit hd, Nat.zero_mul, Nat.zero_add] at h
          exact (SpellsNat.of_readDigits (.digit hd)).1 h
  · intro h
    have hread := h.readDigits_append []
    rwa [List.append_nil] at hread

/-- Digits begin with a digit. -/
theorem SpellsNat.exists_cons (h : SpellsNat cs n) :
    ∃ c d cs', cs = c :: cs' ∧ digitValue? c = some d := by
  induction h with
  | digit hd => exact ⟨_, _, [], rfl, hd⟩
  | more _ _ ih | bar _ _ ih =>
    obtain ⟨c, d, cs', rfl, hd⟩ := ih
    exact ⟨c, d, _, rfl, hd⟩

/-- Digits end with a digit. -/
theorem SpellsNat.exists_concat (h : SpellsNat cs n) :
    ∃ cs' c d, cs = cs' ++ [c] ∧ digitValue? c = some d := by
  cases h with
  | digit hd => exact ⟨[], _, _, rfl, hd⟩
  | @more cs _ c _ _ hd => exact ⟨cs, c, _, rfl, hd⟩
  | @bar cs _ c _ _ hd => exact ⟨cs ++ ['_'], c, _, by simp, hd⟩

/-! ### Signs -/

/-- The digits `cs`, perhaps behind a sign, spell `i`. -/
inductive SpellsSigned : List Char → Int → Prop
  | digits {cs : List Char} {n : Nat} (h : SpellsNat cs n) : SpellsSigned cs n
  | plus {cs : List Char} {n : Nat} (h : SpellsNat cs n) : SpellsSigned ('+' :: cs) n
  | minus {cs : List Char} {n : Nat} (h : SpellsNat cs n) : SpellsSigned ('-' :: cs) (-n)

theorem readSigned_eq_some_iff : readSigned cs = some i ↔ SpellsSigned cs i := by
  constructor
  · intro h
    unfold readSigned at h
    split at h
    all_goals
      obtain ⟨n, hn, rfl⟩ := Option.map_eq_some_iff.mp h
      have hs := readDigits_eq_some_iff.mp hn
    · exact .minus hs
    · exact .plus hs
    · exact .digits hs
  · intro h
    cases h with
    | plus hs | minus hs => simp [readSigned, readDigits_eq_some_iff.mpr hs]
    | digits hs =>
      obtain ⟨c, d, cs', rfl, hd⟩ := hs.exists_cons
      have hminus : c ≠ '-' := ne_of_digitValue? (by decide) hd
      have hplus : c ≠ '+' := ne_of_digitValue? (by decide) hd
      unfold readSigned
      split
      · next heq => exact absurd (List.cons.inj heq).1 hminus
      · next heq => exact absurd (List.cons.inj heq).1 hplus
      · rw [readDigits_eq_some_iff.mpr hs]
        rfl

/-- A number begins and ends with a character that is not blank. -/
theorem SpellsSigned.not_isBlank (h : SpellsSigned cs i) :
    (∃ c cs', cs = c :: cs' ∧ isBlank c = false) ∧ ∃ cs' c, cs = cs' ++ [c] ∧ isBlank c = false := by
  cases h with
  | digits hs =>
    obtain ⟨c, d, cs', hc, hd⟩ := hs.exists_cons
    obtain ⟨cs'', c', d', hc', hd'⟩ := hs.exists_concat
    exact ⟨⟨c, cs', hc, not_isBlank_of_digitValue? hd⟩, cs'', c', hc', not_isBlank_of_digitValue? hd'⟩
  | plus hs =>
    obtain ⟨cs', c, d, rfl, hd⟩ := hs.exists_concat
    exact ⟨⟨'+', _, rfl, rfl⟩, '+' :: cs', c, rfl, not_isBlank_of_digitValue? hd⟩
  | minus hs =>
    obtain ⟨cs', c, d, rfl, hd⟩ := hs.exists_concat
    exact ⟨⟨'-', _, rfl, rfl⟩, '-' :: cs', c, rfl, not_isBlank_of_digitValue? hd⟩

/-! ### Margins -/

namespace NumeralForm

/-- A text that consists of margins. -/
def Margin (form : NumeralForm) (cs : List Char) : Prop :=
  ∀ c ∈ cs, form.isMargin c = true

/-- The text `s` spells the whole number `i`, with no more digits than are allowed. -/
def Spells (form : NumeralForm) (s : String) (i : Int) : Prop :=
  ∃ before body after, s.toList = before ++ (body ++ after) ∧ form.Margin before ∧
    form.Margin after ∧ SpellsSigned body i ∧ form.admits (digitCount body) = true

theorem not_isMargin (form : NumeralForm) (h : isBlank c = false) : form.isMargin c = false := by
  by_contra hm
  rw [form.isBlank_of_isMargin c (by simpa using hm)] at h
  cases h

theorem digitCount_margin (h : form.Margin cs) : digitCount cs = 0 := by
  rw [digitCount, List.countP_eq_zero]
  intro c hc hsome
  obtain ⟨d, hd⟩ := Option.isSome_iff_exists.mp hsome
  have hblank := form.isBlank_of_isMargin c (h c hc)
  rw [not_isBlank_of_digitValue? hd] at hblank
  cases hblank

theorem digitCount_surrounded {before body after : List Char} (hb : form.Margin before)
    (ha : form.Margin after) : digitCount (before ++ (body ++ after)) = digitCount body := by
  have hbefore := digitCount_margin hb
  have hafter := digitCount_margin ha
  unfold digitCount at *
  rw [List.countP_append, List.countP_append, hbefore, hafter, Nat.zero_add, Nat.add_zero]

/-- Margins come off around what neither begins nor ends with one. -/
theorem dropMargins_surrounded {before body after : List Char} (hb : form.Margin before)
    (ha : form.Margin after) (hbody : SpellsSigned body i) :
    form.dropMargins (before ++ (body ++ after)) = body := by
  obtain ⟨⟨c, cs, hc, hcb⟩, cs', c', hc', hcb'⟩ := hbody.not_isBlank
  have hafter : ∀ a ∈ after.reverse, form.isMargin a = true := fun a h => ha a (List.mem_reverse.mp h)
  have hleft : (before ++ (body ++ after)).dropWhile form.isMargin = body ++ after := by
    rw [List.dropWhile_append_of_pos hb, hc, List.cons_append, List.dropWhile_cons,
      form.not_isMargin hcb, if_neg Bool.false_ne_true]
  have hright : (after.reverse ++ body.reverse).dropWhile form.isMargin = body.reverse := by
    rw [List.dropWhile_append_of_pos hafter, hc', List.reverse_concat, List.dropWhile_cons,
      form.not_isMargin hcb', if_neg Bool.false_ne_true]
  rw [dropMargins, hleft, List.reverse_append, hright, List.reverse_reverse]

/-- What comes off a text on its two sides are margins. -/
theorem exists_eq_dropMargins (form : NumeralForm) (cs : List Char) :
    ∃ before after, form.Margin before ∧ form.Margin after ∧
      cs = before ++ (form.dropMargins cs ++ after) := by
  refine ⟨cs.takeWhile form.isMargin,
    ((cs.dropWhile form.isMargin).reverse.takeWhile form.isMargin).reverse,
    fun c hc => List.mem_takeWhile_imp hc,
    fun c hc => List.mem_takeWhile_imp (List.mem_reverse.mp hc), ?_⟩
  rw [dropMargins, ← List.reverse_append, List.takeWhile_append_dropWhile, List.reverse_reverse,
    List.takeWhile_append_dropWhile]

/-- **Reading finds the numbers that texts spell.** -/
theorem read?_eq_some_iff : form.read? s = some i ↔ form.Spells s i := by
  constructor
  · intro h
    unfold read? at h
    split at h
    · next hlimit =>
      obtain ⟨before, after, hb, ha, hs⟩ := form.exists_eq_dropMargins s.toList
      rw [hs, digitCount_surrounded hb ha] at hlimit
      exact ⟨before, _, after, hs, hb, ha, readSigned_eq_some_iff.mp h, hlimit⟩
    · cases h
  · rintro ⟨before, body, after, hs, hb, ha, hbody, hlimit⟩
    rw [read?, hs, digitCount_surrounded hb ha, if_pos hlimit, dropMargins_surrounded hb ha hbody]
    exact readSigned_eq_some_iff.mpr hbody

/-- A text that spells a number is not blank. -/
theorem Spells.not_allBlank (h : form.Spells s i) : allBlank s = false := by
  obtain ⟨before, body, after, hs, -, -, hbody, -⟩ := h
  obtain ⟨⟨c, cs, rfl, hc⟩, -⟩ := hbody.not_isBlank
  rw [allBlank_whole, hs, List.all_eq_false]
  exact ⟨c, by simp, by simp [hc]⟩

/-! ### Decimal texts -/

theorem spellsNat_toDigits (n : Nat) : SpellsNat (Nat.toDigits 10 n) n := by
  induction n using Nat.strongRecOn with
  | ind n ih =>
    by_cases hn : n < 10
    · rw [Nat.toDigits_of_lt_base hn]
      exact .digit (digitValue?_digitChar hn)
    · have hsmaller : n / 10 < n := by omega
      have hvalue : n / 10 * 10 + n % 10 = n := by omega
      have hmore := (ih _ hsmaller).more (digitValue?_digitChar (Nat.mod_lt n (by omega)))
      rwa [hvalue, ← Nat.toDigits_of_base_le (by omega) (by omega)] at hmore

/-- A number has no more than so many digits if it lies below a power of ten. -/
theorem length_toDigits_le_iff {limit : Nat} (h : 0 < limit) :
    (Nat.toDigits 10 n).length ≤ limit ↔ n < 10 ^ limit := by
  refine ⟨fun hlen => ?_, Nat.toDigits_length 10 n limit h⟩
  exact (spellsNat_toDigits n).lt_pow.trans_le (Nat.pow_le_pow_right (by omega) hlen)

theorem digitCount_toDigits (n : Nat) :
    digitCount (Nat.toDigits 10 n) = (Nat.toDigits 10 n).length := by
  induction n using Nat.strongRecOn with
  | ind n ih =>
    by_cases hn : n < 10
    · rw [Nat.toDigits_of_lt_base hn]
      simp [digitCount, digitValue?_digitChar hn]
    · have hlast := digitValue?_digitChar (Nat.mod_lt n (by omega : 10 > 0))
      have hfront := ih (n / 10) (by omega)
      rw [Nat.toDigits_of_base_le (by omega) (by omega)]
      unfold digitCount at *
      rw [List.countP_append, hfront, List.length_append]
      simp [hlast]

/-- The decimal text of a whole number: a minus sign before the digits of a negative one. -/
theorem toList_toString (i : Int) :
    0 ≤ i ∧ (toString i).toList = Nat.toDigits 10 i.natAbs ∨
      i < 0 ∧ (toString i).toList = '-' :: Nat.toDigits 10 i.natAbs := by
  cases i with
  | ofNat n => exact .inl ⟨Int.natCast_nonneg n, Nat.toList_repr⟩
  | negSucc n =>
    refine .inr ⟨Int.negSucc_lt_zero n, ?_⟩
    have hdef : toString (Int.negSucc n) = "-" ++ (n + 1).repr := rfl
    rw [hdef, String.toList_append, Nat.toList_repr]
    rfl

/-- The text `s` is the decimal text of `i`, perhaps between margins, and behind a plus sign if `i` is
not negative. -/
def Decimal (form : NumeralForm) (i : Int) (s : String) : Prop :=
  ∃ before body after, s.toList = before ++ (body ++ after) ∧ form.Margin before ∧
    form.Margin after ∧
      (body = (toString i).toList ∨ 0 ≤ i ∧ body = '+' :: (toString i).toList)

/-- Has a whole number no more digits than are allowed? -/
def Fits (form : NumeralForm) (i : Int) : Prop :=
  form.admits (Nat.toDigits 10 i.natAbs).length = true

instance (form : NumeralForm) (i : Int) : Decidable (form.Fits i) :=
  inferInstanceAs (Decidable (_ = true))

/-- The form that restricts numbers least: any blanks around them, and any number of digits. -/
def free : NumeralForm :=
  ⟨isBlank, none, fun _ h => h⟩

/-- Without a limit every number fits. -/
theorem fits_of_unlimited (h : form.limit = none) (i : Int) : form.Fits i := by
  rw [Fits, admits, h]
  rfl

theorem digitCount_sign {sign : Char} (h : digitValue? sign = none) :
    digitCount (sign :: cs) = digitCount cs := by
  simp [digitCount, h]

/-- **Decimal texts spell their numbers.** -/
theorem Decimal.spells (h : form.Decimal i s) (hlimit : form.Fits i) : form.Spells s i := by
  obtain ⟨before, body, after, hs, hb, ha, hbody⟩ := h
  have hdigits := spellsNat_toDigits i.natAbs
  rw [Fits, ← digitCount_toDigits] at hlimit
  refine ⟨before, body, after, hs, hb, ha, ?_⟩
  rcases toList_toString i with ⟨hi, htext⟩ | ⟨hi, htext⟩
  · have hvalue : (i.natAbs : Int) = i := Int.natAbs_of_nonneg hi
    rw [htext] at hbody
    rcases hbody with rfl | ⟨-, rfl⟩
    · exact ⟨hvalue ▸ .digits hdigits, hlimit⟩
    · exact ⟨hvalue ▸ .plus hdigits, by rwa [digitCount_sign (by decide)]⟩
  · have hvalue : -(i.natAbs : Int) = i := by omega
    rcases hbody with rfl | ⟨hpos, -⟩
    · have hminus := SpellsSigned.minus hdigits
      rw [hvalue] at hminus
      rw [htext]
      exact ⟨hminus, by rwa [digitCount_sign (by decide)]⟩
    · omega

end NumeralForm

end ApiPage.Text
