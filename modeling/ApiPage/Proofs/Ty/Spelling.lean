import ApiPage.Ty.Token
import Mathlib.Data.List.Chain
import Mathlib.Data.List.TakeWhile

/-!
# How a text spells tokens

`Spells cs ts` says that the tokens `ts` stand in `cs` one after the other with nothing but blank
characters around them; where two tokens meet, it leaves open how they are told apart. `scan` finds
one such list of tokens, and it finds `ts` itself whenever no word of `ts` runs into a word or an
ellipsis, `Apart ts`.
-/

namespace ApiPage.Ty

/-- A token that a text can hold: a word begins with a letter or an underscore and goes on with
letters, digits, underscores and dots. -/
def Token.Proper : Token → Prop
  | .word s => ∃ c cs, s = Str.ofList (c :: cs) ∧ isWordStart c = true ∧
      ∀ d ∈ cs, isWordPart d = true
  | _ => True

/-- The characters `cs` spell the tokens `ts`, with blank characters alone between them. -/
inductive Spells : List CodePoint → List Token → Prop
  | blank {bs : List CodePoint} (hb : ∀ b ∈ bs, CodePoint.isBlank b = true) : Spells bs []
  | token {bs cs : List CodePoint} {t : Token} {ts : List Token} (hb : ∀ b ∈ bs, CodePoint.isBlank b = true)
      (ht : t.Proper) (h : Spells cs ts) : Spells (bs ++ (t.text.toList ++ cs)) (t :: ts)

/-- May the second token follow the first without a blank? A word would swallow it. -/
def mayTouch : Token → Token → Bool
  | .word _, .word _ => false
  | .word _, .ellipsis => false
  | _, _ => true

/-- No word runs into the token after it, wherever the tokens touch. -/
def Apart (ts : List Token) : Prop :=
  ts.IsChain fun t u => mayTouch t u = true

theorem Token.proper_word (c : CodePoint) (cs : List CodePoint) (hc : isWordStart c = true)
    (hcs : cs.all isWordPart = true) : (Token.word (Str.ofList (c :: cs))).Proper :=
  ⟨c, cs, rfl, hc, List.all_eq_true.mp hcs⟩

/-! ### Texts that spell tokens -/

theorem Spells.proper {cs : List CodePoint} {ts : List Token} (h : Spells cs ts) :
    ∀ t ∈ ts, t.Proper := by
  induction h with
  | blank => simp
  | token _ ht _ ih =>
    intro u hu
    rcases List.mem_cons.mp hu with rfl | hu
    · exact ht
    · exact ih u hu

theorem Spells.blank_append {bs cs : List CodePoint} {ts : List Token}
    (hb : ∀ b ∈ bs, CodePoint.isBlank b = true) (h : Spells cs ts) : Spells (bs ++ cs) ts := by
  have hall : ∀ as : List CodePoint, (∀ a ∈ as, CodePoint.isBlank a = true) →
      ∀ b ∈ bs ++ as, CodePoint.isBlank b = true := by
    intro as ha b hm
    rcases List.mem_append.mp hm with hm | hm
    · exact hb b hm
    · exact ha b hm
  cases h with
  | blank ha => exact .blank (hall _ ha)
  | token ha ht h =>
    rw [← List.append_assoc]
    exact .token (hall _ ha) ht h

/-- Texts spell in turn what each of them spells. -/
theorem Spells.append {as cs : List CodePoint} {ts us : List Token} (h : Spells as ts)
    (hc : Spells cs us) : Spells (as ++ cs) (ts ++ us) := by
  induction h with
  | blank hb => exact hc.blank_append hb
  | token hb ht _ ih =>
    simp only [List.append_assoc, List.cons_append]
    exact .token hb ht ih

theorem Token.Proper.spells {t : Token} (ht : t.Proper) : Spells t.text.toList [t] := by
  have h : Spells ([] ++ (t.text.toList ++ [])) [t] := .token (by simp) ht (.blank (by simp))
  simpa using h

/-! ### The token at the front -/

theorem toNat_of_isAlphanum {c : Char} (h : c.isAlphanum = true) :
    65 ≤ c.toNat ∧ c.toNat ≤ 90 ∨ 97 ≤ c.toNat ∧ c.toNat ≤ 122 ∨ 48 ≤ c.toNat ∧ c.toNat ≤ 57 := by
  have hdef : c.isAlphanum = ((decide (c.val ≥ 'A'.val ∧ c.val ≤ 'Z'.val) ||
      (decide (c.val ≥ 'a'.val) && decide (c.val ≤ 'z'.val))) ||
      (decide (c.val ≥ '0'.val) && decide (c.val ≤ '9'.val))) := rfl
  rw [hdef] at h
  simp only [Bool.or_eq_true, Bool.and_eq_true, decide_eq_true_eq, ge_iff_le,
    UInt32.le_iff_toNat_le] at h
  rcases h with (⟨hl, hu⟩ | ⟨hl, hu⟩) | ⟨hl, hu⟩
  · exact .inl ⟨hl, hu⟩
  · exact .inr (.inl ⟨hl, hu⟩)
  · exact .inr (.inr ⟨hl, hu⟩)

theorem not_isBlank_of_isWordPart {c : CodePoint} (h : isWordPart c = true) : CodePoint.isBlank c = false := by
  cases c with
  | surrogate n => rfl
  | char c =>
    simp only [isWordPart, Bool.or_eq_true, beq_iff_eq] at h
    rcases h with (h | rfl) | rfl
    · have hc := toNat_of_isAlphanum h
      simp only [CodePoint.isBlank, Text.isBlank, Bool.or_eq_false_iff, Bool.and_eq_false_iff,
        decide_eq_false_iff_not, beq_eq_false_iff_ne]
      omega
    · decide
    · decide

/-- No blank goes on with a word. -/
theorem not_isWordPart_of_isBlank {c : CodePoint} (h : CodePoint.isBlank c = true) : isWordPart c = false := by
  by_contra hw
  rw [not_isBlank_of_isWordPart (by simpa using hw)] at h
  cases h

theorem isWordPart_of_isWordStart {c : CodePoint} (h : isWordStart c = true) : isWordPart c = true := by
  cases c with
  | surrogate n => cases h
  | char c =>
    simp only [isWordStart, isWordPart, Char.isAlphanum, Bool.or_eq_true] at *
    tauto

/-- The text of a token begins with a character that is not blank. -/
theorem Token.Proper.text_eq_cons {t : Token} (ht : t.Proper) :
    ∃ c cs, t.text.toList = c :: cs ∧ CodePoint.isBlank c = false := by
  cases t with
  | word s =>
    obtain ⟨c, cs, rfl, hc, -⟩ := ht
    exact ⟨c, cs, Str.toList_ofList, not_isBlank_of_isWordPart (isWordPart_of_isWordStart hc)⟩
  | ellipsis => exact ⟨'.', [.char '.', .char '.'], rfl, rfl⟩
  | unit => exact ⟨'(', [.char ')'], rfl, rfl⟩
  | opening => exact ⟨'[', [], rfl, rfl⟩
  | closing => exact ⟨']', [], rfl, rfl⟩
  | comma => exact ⟨',', [], rfl, rfl⟩
  | bar => exact ⟨'|', [], rfl, rfl⟩

/-- What may touch the word before it begins with a character that does not go on with the word. -/
theorem Token.text_of_mayTouch {s : Str} {t : Token} (h : mayTouch (.word s) t = true) :
    ∃ c cs, t.text.toList = c :: cs ∧ isWordPart c = false := by
  cases t with
  | word => exact absurd h (by simp [mayTouch])
  | ellipsis => exact absurd h (by simp [mayTouch])
  | unit => exact ⟨'(', [.char ')'], rfl, rfl⟩
  | opening => exact ⟨'[', [], rfl, rfl⟩
  | closing => exact ⟨']', [], rfl, rfl⟩
  | comma => exact ⟨',', [], rfl, rfl⟩
  | bar => exact ⟨'|', [], rfl, rfl⟩

theorem takeWhile_dropWhile_of_head {α : Type} {p : α → Bool} {l rest : List α}
    (hl : ∀ a ∈ l, p a = true) (hr : ∀ a ∈ rest.head?, p a = false) :
    (l ++ rest).takeWhile p = l ∧ (l ++ rest).dropWhile p = rest := by
  rw [List.takeWhile_append_of_pos hl, List.dropWhile_append_of_pos hl]
  cases rest with
  | nil => simp
  | cons a rest => simp [hr a rfl]

/-- A word start begins no other token. -/
theorem nextToken?_of_isWordStart {c : CodePoint} {cs : List CodePoint} (hc : isWordStart c = true) :
    nextToken? (c :: cs) =
      some (.word (Str.ofList (c :: cs.takeWhile isWordPart)), cs.dropWhile isWordPart) := by
  unfold nextToken?
  split
  case h_7 heq =>
    obtain ⟨rfl, rfl⟩ := List.cons.inj heq
    rw [if_pos hc]
  case h_8 heq => exact absurd heq (by simp)
  all_goals
    next heq =>
      obtain ⟨rfl, -⟩ := List.cons.inj heq
      exact absurd hc (by decide)

/-- A token at the front of a text is found, unless it is a word that goes on. -/
theorem nextToken?_text_append {t : Token} {rest : List CodePoint} (ht : t.Proper)
    (hr : ∀ s, t = .word s → ∀ c ∈ rest.head?, isWordPart c = false) :
    nextToken? (t.text.toList ++ rest) = some (t, rest) := by
  cases t with
  | word s =>
    obtain ⟨c, cs, rfl, hc, hcs⟩ := ht
    obtain ⟨htake, hdrop⟩ := takeWhile_dropWhile_of_head hcs (hr _ rfl)
    rw [Token.text, Str.toList_ofList, List.cons_append, nextToken?_of_isWordStart hc, htake,
      hdrop]
  | _ => rfl

/-- What is found at the front of a text stands there. -/
theorem nextToken?_eq_some {cs rest : List CodePoint} {t : Token} (h : nextToken? cs = some (t, rest)) :
    t.Proper ∧ cs = t.text.toList ++ rest := by
  unfold nextToken? at h
  split at h
  case h_7 c cs _ _ _ _ _ _ =>
    split at h
    case isTrue hc =>
      obtain ⟨rfl, rfl⟩ := Prod.mk.inj (Option.some.inj h)
      refine ⟨⟨c, cs.takeWhile isWordPart, rfl, hc, fun d hd => ?_⟩, ?_⟩
      · exact List.mem_takeWhile_imp hd
      · rw [Token.text, Str.toList_ofList, List.cons_append, List.takeWhile_append_dropWhile]
    case isFalse => simp at h
  case h_8 => simp at h
  all_goals
    obtain ⟨rfl, rfl⟩ := Prod.mk.inj (Option.some.inj h)
    exact ⟨trivial, rfl⟩

/-! ### The tokens that a scan finds -/

theorem dropWhile_isBlank_append {bs cs : List CodePoint} {c : CodePoint}
    (hb : ∀ b ∈ bs, CodePoint.isBlank b = true) (hc : CodePoint.isBlank c = false) :
    (bs ++ c :: cs).dropWhile CodePoint.isBlank = c :: cs := by
  rw [List.dropWhile_append_of_pos hb]
  simp [hc]

theorem scan_of_nextToken? {cs rest : List CodePoint} {t : Token} {ts : List Token}
    (h : nextToken? (cs.dropWhile CodePoint.isBlank) = some (t, rest)) (hr : scan rest = .ok ts) :
    scan cs = .ok (t :: ts) := by
  rw [scan]
  split
  · next t' rest' h' =>
    rw [h] at h'
    obtain ⟨rfl, rfl⟩ := Prod.mk.inj (Option.some.inj h')
    simp [hr]
  · next h' =>
    rw [h] at h'
    exact absurd h' (by simp)

theorem scan_of_isBlank {cs : List CodePoint} (h : ∀ c ∈ cs, CodePoint.isBlank c = true) :
    scan cs = .ok [] := by
  have hd : cs.dropWhile CodePoint.isBlank = [] := List.dropWhile_eq_nil_iff.mpr h
  rw [scan]
  split
  · next h' =>
    rw [hd] at h'
    exact absurd h' (by simp [nextToken?])
  · simp [hd]

/-- A scan finds tokens that the text spells. -/
theorem spells_of_scan {cs : List CodePoint} {ts : List Token} (h : scan cs = .ok ts) : Spells cs ts := by
  have hsplit : cs = cs.takeWhile CodePoint.isBlank ++ cs.dropWhile CodePoint.isBlank :=
    List.takeWhile_append_dropWhile.symm
  have hblank : ∀ b ∈ cs.takeWhile CodePoint.isBlank, CodePoint.isBlank b = true :=
    fun b hb => List.mem_takeWhile_imp hb
  rw [scan] at h
  split at h
  · next t rest hn =>
    obtain ⟨ht, hcs⟩ := nextToken?_eq_some hn
    have hlt : rest.length < cs.length :=
      Nat.lt_of_lt_of_le (length_lt_of_nextToken? hn) (length_dropWhile_le _ _)
    dsimp only at h
    split at h
    · simp at h
    · next us hr =>
      obtain rfl := Except.ok.inj h
      rw [hsplit, hcs]
      exact .token hblank ht (spells_of_scan hr)
  · split at h
    · next hnil =>
      obtain rfl := Except.ok.inj h
      rw [hsplit, hnil, List.append_nil]
      exact .blank hblank
    · simp at h
termination_by cs.length

/-- Behind a word that touches nothing wordlike, no character goes on with the word. -/
theorem Spells.head_of_mayTouch {cs : List CodePoint} {ts : List Token} {s : Str} (h : Spells cs ts)
    (ht : ∀ u ∈ ts.head?, mayTouch (.word s) u = true) : ∀ c ∈ cs.head?, isWordPart c = false := by
  intro c hc
  cases h with
  | blank hb => exact not_isWordPart_of_isBlank (hb c (List.mem_of_mem_head? hc))
  | @token bs cs t ts hb _ _ =>
    cases bs with
    | cons b bs =>
      obtain rfl : b = c := by simpa using hc
      exact not_isWordPart_of_isBlank (hb b List.mem_cons_self)
    | nil =>
      obtain ⟨d, cs', hd, hw⟩ := Token.text_of_mayTouch (ht t rfl)
      rw [List.nil_append, hd] at hc
      obtain rfl : d = c := by simpa using hc
      exact hw

/-- **A scan finds the tokens that a text spells**, if no word runs into the token after it. -/
theorem scan_of_spells {cs : List CodePoint} {ts : List Token} (h : Spells cs ts) (ha : Apart ts) :
    scan cs = .ok ts := by
  induction h with
  | blank hb => exact scan_of_isBlank hb
  | @token bs cs t ts hb ht h ih =>
    obtain ⟨hhead, htail⟩ := List.isChain_cons.mp ha
    obtain ⟨c, cs', hc, hnb⟩ := ht.text_eq_cons
    have hdrop : (bs ++ (t.text.toList ++ cs)).dropWhile CodePoint.isBlank = t.text.toList ++ cs := by
      rw [hc, List.cons_append]
      exact dropWhile_isBlank_append hb hnb
    have hnext : nextToken? (t.text.toList ++ cs) = some (t, cs) := by
      refine nextToken?_text_append ht fun s hs => ?_
      subst hs
      exact h.head_of_mayTouch hhead
    exact scan_of_nextToken? (hdrop.symm ▸ hnext) (ih htail)

/-- A text that spells a token holds a character that is not blank. -/
theorem Spells.exists_not_isBlank {cs : List CodePoint} {t : Token} {ts : List Token}
    (h : Spells cs (t :: ts)) : ∃ c ∈ cs, CodePoint.isBlank c = false := by
  cases h with
  | token _ ht _ =>
    obtain ⟨c, cs', hc, hnb⟩ := ht.text_eq_cons
    exact ⟨c, by simp [hc], hnb⟩

end ApiPage.Ty
