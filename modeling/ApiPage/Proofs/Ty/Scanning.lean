import ApiPage.Proofs.Ty.Spelling
import ApiPage.Ty.Reading

/-!
# Where a scan stops

A scan cuts tokens off the front of a text, each as long as it can be, and skips the blank characters
before each. `Stops cs gap d` says that no more can be cut: behind the last token stands the gap `gap`
of blank characters, and behind that the character `d`, which is not blank and begins no token. There
is only one such place. The refusal names the character right behind the last token, which is the
offending one just if there is no gap.
-/

namespace ApiPage.Ty

variable {cs rest : List CodePoint} {t : Token}

/-! ### The token at the front -/

/-- The token `t` stands at the front of `cs` and `rest` behind it; a word is not cut short. -/
structure Begins (cs : List CodePoint) (t : Token) (rest : List CodePoint) : Prop where
  proper : t.Proper
  eq : cs = t.text.toList ++ rest
  whole : ∀ s, t = .word s → ∀ c ∈ rest.head?, isWordPart c = false

theorem nextToken?_eq_some_iff : nextToken? cs = some (t, rest) ↔ Begins cs t rest := by
  constructor
  · intro h
    obtain ⟨ht, hcs⟩ := nextToken?_eq_some h
    refine ⟨ht, hcs, ?_⟩
    rintro s rfl c hc
    obtain ⟨d, ds, rfl, hd, -⟩ := ht
    rw [Token.text, Str.toList_ofList, List.cons_append] at hcs
    rw [hcs, nextToken?_of_isWordStart hd] at h
    have hrest := (Prod.mk.inj (Option.some.inj h)).2
    have hhead := List.head?_dropWhile_not isWordPart (ds ++ rest)
    rw [hrest, Option.mem_def.mp hc] at hhead
    simpa using hhead
  · rintro ⟨ht, rfl, hwhole⟩
    exact nextToken?_text_append ht hwhole

theorem nextToken?_eq_none_iff : nextToken? cs = none ↔ ∀ t rest, ¬ Begins cs t rest := by
  simp only [← nextToken?_eq_some_iff, Option.eq_none_iff_forall_ne_some, ne_eq, Prod.forall]

/-- A token does not begin with a blank. -/
theorem Begins.dropWhile_append {bs : List CodePoint} (h : Begins cs t rest)
    (hb : ∀ b ∈ bs, CodePoint.isBlank b = true) : (bs ++ cs).dropWhile CodePoint.isBlank = cs := by
  obtain ⟨c, cs', hc, hnb⟩ := h.proper.text_eq_cons
  rw [h.eq, hc, List.cons_append]
  exact dropWhile_isBlank_append hb hnb

/-! ### The tokens that are cut off -/

/-- The tokens `ts` can be cut off the front of `cs`, and `rest` is left. -/
inductive Cuts : List CodePoint → List Token → List CodePoint → Prop
  | done (cs : List CodePoint) : Cuts cs [] cs
  | token {bs cs rest after : List CodePoint} {t : Token} {ts : List Token}
      (hb : ∀ b ∈ bs, CodePoint.isBlank b = true) (ht : Begins cs t rest) (h : Cuts rest ts after) :
      Cuts (bs ++ cs) (t :: ts) after

/-- Behind the gap `gap` stands the character `d`, and there no token begins. -/
structure Stuck (gap : List CodePoint) (d : CodePoint) (left : List CodePoint) : Prop where
  blank : ∀ b ∈ gap, CodePoint.isBlank b = true
  notBlank : CodePoint.isBlank d = false
  none : ∀ t after, ¬ Begins (d :: left) t after

/-- Behind all tokens that can be cut off `cs` stands a gap, and then a character at which no token
begins. -/
def Stops (cs gap : List CodePoint) (d : CodePoint) : Prop :=
  ∃ ts left, Cuts cs ts (gap ++ d :: left) ∧ Stuck gap d left

variable {gap gap' left left' after : List CodePoint} {c d d' : CodePoint} {ts ts' : List Token}

theorem Stuck.dropWhile (h : Stuck gap d left) :
    (gap ++ d :: left).dropWhile CodePoint.isBlank = d :: left :=
  dropWhile_isBlank_append h.blank h.notBlank

/-- Nothing is cut off where no token begins. -/
theorem Stuck.eq_of_cuts (h : Stuck gap d left) (hc : Cuts cs ts after)
    (hcs : cs = gap ++ d :: left) : after = cs := by
  cases hc with
  | done => rfl
  | @token bs cs rest _ t _ hb ht _ =>
    have hdrop := congrArg (List.dropWhile CodePoint.isBlank) hcs
    rw [ht.dropWhile_append hb, h.dropWhile] at hdrop
    exact absurd (hdrop ▸ ht) (h.none t rest)

/-- The tokens that are cut off before no token begins, and what is left of the text, are determined. -/
theorem Cuts.eq_of_stuck (h : Cuts cs ts after) (h' : Cuts cs ts' (gap' ++ d' :: left'))
    (hafter : after = gap ++ d :: left) (hs : Stuck gap d left) (hs' : Stuck gap' d' left') :
    after = gap' ++ d' :: left' := by
  induction h generalizing ts' with
  | done cs => exact (hs.eq_of_cuts h' hafter).symm
  | @token bs cs rest after t ts hb ht hts ih =>
    generalize hall : bs ++ cs = all at h'
    generalize hafter' : gap' ++ d' :: left' = after' at h'
    cases h' with
    | done =>
      rw [hs'.eq_of_cuts (Cuts.token hb ht hts) (hall.trans hafter'.symm), hall]
    | @token bs' cs' rest' _ t' _ hb' ht' hts' =>
      subst hafter'
      have hcs := congrArg (List.dropWhile CodePoint.isBlank) hall
      rw [ht.dropWhile_append hb, ht'.dropWhile_append hb'] at hcs
      subst hcs
      have hnext := (nextToken?_eq_some_iff.mpr ht).symm.trans (nextToken?_eq_some_iff.mpr ht')
      obtain ⟨rfl, rfl⟩ := Prod.mk.inj (Option.some.inj hnext)
      exact ih hts' hafter

/-- There is one place only at which no token begins. -/
theorem Stops.unique (h : Stops cs gap d) (h' : Stops cs gap' d') : gap = gap' ∧ d = d' := by
  obtain ⟨ts, left, hc, hs⟩ := h
  obtain ⟨ts', left', hc', hs'⟩ := h'
  have heq : gap ++ d :: left = gap' ++ d' :: left' := hc.eq_of_stuck hc' rfl hs hs'
  have hdrop := congrArg (List.dropWhile CodePoint.isBlank) heq
  rw [hs.dropWhile, hs'.dropWhile] at hdrop
  rw [hdrop] at heq
  exact ⟨List.append_cancel_right heq, (List.cons.inj hdrop).1⟩

/-! ### The character that is reported -/

theorem scan_of_error (h : nextToken? (cs.dropWhile CodePoint.isBlank) = some (t, rest))
    (hr : scan rest = .error c) : scan cs = .error c := by
  rw [scan]
  split
  · next t' rest' h' =>
    rw [h] at h'
    obtain ⟨rfl, rfl⟩ := Prod.mk.inj (Option.some.inj h')
    simp [hr]
  · next h' =>
    rw [h] at h'
    exact absurd h' (by simp)

/-- Where no token begins, the first character of the gap is reported, or else the one behind it. -/
theorem scan_of_stuck (h : Stuck gap d left) :
    scan (gap ++ d :: left) = .error ((gap ++ [d]).headD d) := by
  have hnone : nextToken? (d :: left) = none := nextToken?_eq_none_iff.mpr h.none
  rw [scan]
  split
  · next h' =>
    rw [h.dropWhile, hnone] at h'
    exact absurd h' (by simp)
  · rw [h.dropWhile]
    cases gap with
    | nil => rfl
    | cons b gap => rfl

theorem scan_of_cuts (h : Cuts cs ts after) (hafter : scan after = .error c) :
    scan cs = .error c := by
  induction h with
  | done => exact hafter
  | token hb ht _ ih =>
    have hnext := nextToken?_eq_some_iff.mpr ht
    rw [← ht.dropWhile_append hb] at hnext
    exact scan_of_error hnext (ih hafter)

/-- A scan that fails stops at a place at which no token begins. -/
theorem stops_of_scan {cs : List CodePoint} {c : CodePoint} (h : scan cs = .error c) :
    ∃ gap d, Stops cs gap d := by
  have hsplit : cs.takeWhile CodePoint.isBlank ++ cs.dropWhile CodePoint.isBlank = cs :=
    List.takeWhile_append_dropWhile
  have hblank : ∀ b ∈ cs.takeWhile CodePoint.isBlank, CodePoint.isBlank b = true :=
    fun b hb => List.mem_takeWhile_imp hb
  rw [scan] at h
  split at h
  · next t rest hn =>
    have hlt : rest.length < cs.length :=
      Nat.lt_of_lt_of_le (length_lt_of_nextToken? hn) (length_dropWhile_le _ _)
    dsimp only at h
    split at h
    · next c' hr =>
      obtain ⟨gap, d, ts, left, hc, hs⟩ := stops_of_scan hr
      exact ⟨gap, d, t :: ts, left,
        hsplit ▸ .token hblank (nextToken?_eq_some_iff.mp hn) hc, hs⟩
    · simp at h
  · next hn =>
    split at h
    · simp at h
    · next d left hd =>
      have hhead := List.head?_dropWhile_not CodePoint.isBlank cs
      rw [hd] at hhead hn hsplit
      refine ⟨cs.takeWhile CodePoint.isBlank, d, [], left, ?_, hblank, by simpa using hhead,
        nextToken?_eq_none_iff.mp hn⟩
      rw [hsplit]
      exact .done cs
termination_by cs.length

theorem scan_of_stops (h : Stops cs gap d) : scan cs = .error ((gap ++ [d]).headD d) := by
  obtain ⟨ts, left, hc, hs⟩ := h
  exact scan_of_cuts hc (scan_of_stuck hs)

theorem Stops.notBlank (h : Stops cs gap d) : CodePoint.isBlank d = false := by
  obtain ⟨ts, left, -, hs⟩ := h
  exact hs.notBlank

/-- A text at which a scan stops is not blank. -/
theorem Stops.not_allBlank {s : Str} (h : Stops s.toList gap d) : Text.allBlank s = false := by
  by_contra hb
  have hblank : ∀ c ∈ s.toList, CodePoint.isBlank c = true := by
    simpa [Text.allBlank, List.all_eq_true] using hb
  have hscan := scan_of_stops h
  rw [scan_of_isBlank hblank] at hscan
  cases hscan

/-! ### Faults of tokens -/

/-- A fault that lies in the tokens of a text and not in its characters. -/
inductive Fault.OfTokens : Fault → Prop
  | unexpectedEnd : OfTokens .unexpectedEnd
  | notClosed (found : Token) : OfTokens (.notClosed found)
  | notAName (found : Token) : OfTokens (.notAName found)
  | trailing (found : Token) : OfTokens (.trailing found)
  | variadicArity : OfTokens .variadicArity

theorem Fault.OfTokens.ne {f : Fault} (h : f.OfTokens) (c : CodePoint) : f ≠ .invalidCharacter c := by
  rintro rfl
  cases h

open Fault.OfTokens

theorem closeBracket_ofTokens {α : Type} {a : α} {f : Fault} (h : closeBracket a ts = .error f) :
    f.OfTokens := by
  unfold closeBracket at h
  split at h
  · exact Except.error.inj h ▸ unexpectedEnd
  · cases h
  · exact Except.error.inj h ▸ notClosed _

mutual

theorem parseAlt_ofTokens : ∀ {fuel : Nat} {ts : List Token} {f : Fault},
    parseAlt fuel ts = .error f → f.OfTokens
  | 0, _, _, h => by
    rw [parseAlt] at h
    exact Except.error.inj h ▸ unexpectedEnd
  | fuel + 1, ts, f, h => by
    unfold parseAlt at h
    split at h
    · exact Except.error.inj h ▸ unexpectedEnd
    · exact Except.error.inj h ▸ unexpectedEnd
    · next s rest heq =>
      obtain rfl := Nat.succ.inj heq
      split at h
      · cases h
      · split at h
        · split at h
          · next f' hb => exact Except.error.inj h ▸ parseBracketed_ofTokens hb
          · exact closeBracket_ofTokens h
        · cases h
    · exact Except.error.inj h ▸ notAName _

theorem parseBracketed_ofTokens : ∀ {fuel : Nat} {head : Str} {ts : List Token} {f : Fault},
    parseBracketed fuel head ts = .error f → f.OfTokens
  | 0, _, _, _, h => by
    rw [parseBracketed] at h
    exact Except.error.inj h ▸ unexpectedEnd
  | fuel + 1, head, ts, f, h => by
    unfold parseBracketed at h
    split at h
    · cases h
    · split at h
      · next f' hu => exact Except.error.inj h ▸ parseUnion_ofTokens hu
      · split at h
        · cases h
        · split at h
          · next f' hus => exact Except.error.inj h ▸ parseArgs_ofTokens hus
          · cases h

theorem parseArgs_ofTokens : ∀ {fuel : Nat} {inTuple : Bool} {ts : List Token} {f : Fault},
    parseArgs fuel inTuple ts = .error f → f.OfTokens
  | 0, _, _, _, h => by
    rw [parseArgs] at h
    exact Except.error.inj h ▸ unexpectedEnd
  | fuel + 1, inTuple, ts, f, h => by
    unfold parseArgs at h
    split at h
    · exact Except.error.inj h ▸ unexpectedEnd
    · exact Except.error.inj h ▸ variadicArity
    · next ts' heq _ =>
      obtain rfl := Nat.succ.inj heq
      split at h
      · next f' hu => exact Except.error.inj h ▸ parseUnion_ofTokens hu
      · split at h
        · next f' hus => exact Except.error.inj h ▸ parseArgs_ofTokens hus
        · cases h
    · cases h

theorem parseUnion_ofTokens : ∀ {fuel : Nat} {ts : List Token} {f : Fault},
    parseUnion fuel ts = .error f → f.OfTokens
  | 0, _, _, h => by
    rw [parseUnion] at h
    exact Except.error.inj h ▸ unexpectedEnd
  | fuel + 1, ts, f, h => by
    unfold parseUnion at h
    split at h
    · next f' he => exact Except.error.inj h ▸ parseAlt_ofTokens he
    · split at h
      · next f' hes => exact Except.error.inj h ▸ parseAlts_ofTokens hes
      · cases h

theorem parseAlts_ofTokens : ∀ {fuel : Nat} {ts : List Token} {f : Fault},
    parseAlts fuel ts = .error f → f.OfTokens
  | 0, _, _, h => by
    rw [parseAlts] at h
    exact Except.error.inj h ▸ unexpectedEnd
  | fuel + 1, ts, f, h => by
    unfold parseAlts at h
    split at h
    · exact Except.error.inj h ▸ unexpectedEnd
    · next ts' heq =>
      obtain rfl := Nat.succ.inj heq
      split at h
      · next f' he => exact Except.error.inj h ▸ parseAlt_ofTokens he
      · split at h
        · next f' hes => exact Except.error.inj h ▸ parseAlts_ofTokens hes
        · cases h
    · cases h

end

theorem parse_ofTokens {f : Fault} (h : parse ts = .error f) : f.OfTokens := by
  unfold parse at h
  split at h
  · next f' hu => exact Except.error.inj h ▸ parseUnion_ofTokens hu
  · cases h
  · exact Except.error.inj h ▸ trailing _

/-! ### Refusals -/

/-- Reading reports a character just if the scan of the text stops at one. -/
theorem read_eq_invalidCharacter {s : Str} :
    read s = .error ⟨s, .invalidCharacter c⟩ ↔ scan s.toList = .error c := by
  constructor
  · intro h
    unfold read parseText at h
    split at h
    · cases h
    · split at h
      · next f hf =>
        split at hf
        · next c' hscan =>
          obtain rfl := Except.error.inj hf
          rw [hscan, Fault.invalidCharacter.inj (ReadError.mk.inj (Except.error.inj h)).2]
        · exact absurd (ReadError.mk.inj (Except.error.inj h)).2 ((parse_ofTokens hf).ne c)
      · cases h
  · intro h
    obtain ⟨gap, d, hstops⟩ := stops_of_scan h
    unfold read parseText
    rw [hstops.not_allBlank, if_neg Bool.false_ne_true, h]

/-- **The character that a refusal reports is the one right behind the last token.** A text is refused
for a character just if behind its tokens stands a gap of blank characters, maybe an empty one, and
then a character that is not blank and begins no token. Without a gap that character is reported; with
one a blank is reported in its place. -/
theorem read_invalidCharacter_iff (s : Str) (c : CodePoint) :
    read s = .error ⟨s, .invalidCharacter c⟩ ↔
      ∃ gap d, Stops s.toList gap d ∧ (∀ gap' d', Stops s.toList gap' d' → gap = gap' ∧ d = d') ∧
        (gap ++ [d]).head? = some c ∧ (c = d ↔ gap = []) ∧ (CodePoint.isBlank c = false ↔ gap = []) := by
  rw [read_eq_invalidCharacter]
  constructor
  · intro h
    obtain ⟨gap, d, hstops⟩ := stops_of_scan h
    have hscan := scan_of_stops hstops
    have hnb : CodePoint.isBlank d = false := hstops.notBlank
    refine ⟨gap, d, hstops, fun gap' d' => hstops.unique, ?_⟩
    cases gap with
    | nil =>
      obtain rfl : c = d := Except.error.inj (h.symm.trans hscan)
      simp [hnb]
    | cons b gap =>
      obtain rfl : c = b := Except.error.inj (h.symm.trans hscan)
      obtain ⟨ts, left, -, hs⟩ := hstops
      have hb : CodePoint.isBlank c = true := hs.blank c List.mem_cons_self
      have hne : c ≠ d := fun hcd => by simp [hcd, hnb] at hb
      simp [hb, hne]
  · rintro ⟨gap, d, hstops, -, hhead, -, -⟩
    rw [scan_of_stops hstops, List.headD_eq_head?_getD, hhead, Option.getD_some]

/-- A blank that is reported where a dollar sign begins no token. -/
theorem read_reports_blank : read "int $" = .error ⟨"int $", .invalidCharacter ' '⟩ ∧
    CodePoint.isBlank ' ' = true ∧ Stops (Str.whole "int $").toList [.char ' '] '$' := by
  have hint : Begins (Str.whole "int $").toList (.word "int") (Str.whole " $").toList :=
    nextToken?_eq_some_iff.mp (by decide +kernel)
  have hdollar : Stuck [.char ' '] '$' [] :=
    ⟨List.forall_mem_singleton.mpr rfl, rfl, nextToken?_eq_none_iff.mp (by decide +kernel)⟩
  have hcuts : Cuts ([] ++ (Str.whole "int $").toList) [.word "int"] (Str.whole " $").toList :=
    .token (by simp) hint (.done _)
  have hstops : Stops (Str.whole "int $").toList [.char ' '] '$' := ⟨[.word "int"], [], hcuts, hdollar⟩
  exact ⟨read_eq_invalidCharacter.mpr (scan_of_stops hstops), by decide, hstops⟩

end ApiPage.Ty
