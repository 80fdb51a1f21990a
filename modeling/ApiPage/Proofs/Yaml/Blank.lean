import ApiPage.Results
import ApiPage.Yaml
import ApiPage.Yaml.Reader
import ApiPage.Text.Blank

/-!
# Blank YAML text

Nothing but a plain scalar begins with a blank character, so all tokens of a blank text are plain
scalars. Such a text is no YAML, or null, or a text of blanks; it holds no list and no mapping. So `read`
makes a `Reader`.
-/

namespace ApiPage.Yaml

/-! ### Cursors move on -/

namespace Cursor

variable {c c' : Cursor}

/-- The text that is left at `c'` is an end of the text that is left at `c`. -/
def Reaches (c c' : Cursor) : Prop :=
  c'.rest <:+ c.rest

theorem Reaches.refl (c : Cursor) : c.Reaches c :=
  List.suffix_refl _

theorem Reaches.trans {c'' : Cursor} (h : c.Reaches c') (h' : c'.Reaches c'') : c.Reaches c'' :=
  List.IsSuffix.trans h' h

theorem reaches_next (c : Cursor) : c.Reaches c.next := by
  unfold Reaches next
  split
  · exact List.suffix_refl _
  · next x xs hrest =>
    have hsuffix : xs <:+ c.rest := hrest ▸ List.suffix_cons x xs
    split
    · exact hsuffix
    · split <;> exact hsuffix

theorem reaches_skip (c : Cursor) (n : Nat) : c.Reaches (c.skip n) := by
  induction n generalizing c with
  | zero => exact .refl c
  | succ n ih => exact c.reaches_next.trans (ih _)

theorem reaches_lineBreak (c : Cursor) : c.Reaches c.lineBreak.2 := by
  unfold lineBreak
  split
  · exact .refl c
  · split
    · exact c.reaches_next
    · split
      · exact c.reaches_next
      · exact .refl c

theorem reaches_skipWhile (c : Cursor) (p : Char → Bool) : c.Reaches (c.skipWhile p) :=
  c.reaches_skip _

end Cursor

theorem reaches_plainBreaks (fuel : Nat) (done : List Char) (c : Cursor) :
    c.Reaches (plainBreaks fuel done c).2 := by
  induction fuel generalizing done c with
  | zero => exact .refl c
  | succ fuel ih =>
    unfold plainBreaks
    dsimp only
    split
    · exact c.reaches_next.trans (ih _ _)
    · split
      · split
        · exact c.reaches_lineBreak
        · exact c.reaches_lineBreak.trans (ih _ _)
      · exact .refl c

theorem reaches_plainGap (c : Cursor) : c.Reaches (plainGap c).2.2 := by
  have hspaces : c.Reaches (c.run (· == ' ')).2 := c.reaches_skipWhile _
  unfold plainGap
  dsimp only
  split
  · have hbreak := hspaces.trans (Cursor.reaches_lineBreak _)
    split
    · exact hbreak
    · split
      · next heq => exact hbreak.trans (congrArg Prod.snd heq ▸ reaches_plainBreaks _ _ _)
      · next heq => exact hbreak.trans (congrArg Prod.snd heq ▸ reaches_plainBreaks _ _ _)
  · exact hspaces

theorem reaches_plainWords (inFlow : Bool) (indent : Int) (fuel : Nat) (done gap : List Char)
    (ended : Bool) (c : Cursor) :
    c.Reaches (plainWords inFlow indent fuel done gap ended c).2.2 := by
  induction fuel generalizing done gap ended c with
  | zero => exact .refl c
  | succ fuel ih =>
    unfold plainWords
    dsimp only
    split
    · exact .refl c
    · split
      · exact .refl c
      · have hword := (c.reaches_skip (plainWord inFlow c.rest).length).trans (reaches_plainGap _)
        split
        · exact hword
        · exact hword.trans (ih _ _ _ _)

/-! ### Scans of blank text -/

namespace Layout

variable {s s' : Layout}

/-- The text ahead is blank, no block and no bracket is open, and all tokens so far are plain
scalars. -/
structure Plain (s : Layout) : Prop where
  blank : ∀ c ∈ s.cursor.rest, Text.isBlank c = true
  depth : s.depth = 0
  outer : s.outer = []
  scalars : ∀ t ∈ s.tokens, ∃ text, t = .scalar true text

/-- Two states that differ in their pending keys alone, or in where a key may begin. -/
structure SameText (s s' : Layout) : Prop where
  cursor : s'.cursor = s.cursor
  depth : s'.depth = s.depth
  outer : s'.outer = s.outer
  tokens : s'.tokens = s.tokens

theorem Plain.of_sameText (h : s.Plain) (hs : s.SameText s') : s'.Plain :=
  ⟨hs.cursor ▸ h.blank, hs.depth ▸ h.depth, hs.outer ▸ h.outer, hs.tokens ▸ h.scalars⟩

theorem Plain.moved {c : Cursor} (h : s.Plain) (hc : s.cursor.Reaches c) (keyAllowed : Bool) :
    { s with cursor := c, keyAllowed := keyAllowed }.Plain :=
  ⟨fun x hx => h.blank x (hc.subset hx), h.depth, h.outer, h.scalars⟩

theorem Plain.skipGaps (h : s.Plain) (fuel : Nat) : (skipGaps fuel s).Plain := by
  induction fuel generalizing s with
  | zero => exact h
  | succ fuel ih =>
    unfold Layout.skipGaps
    dsimp only
    have hblanks := s.cursor.reaches_skipWhile (· == ' ')
    split
    · have hcomment := hblanks.trans (Cursor.reaches_skipWhile _ (!isBreak ·))
      split
      · exact ih (h.moved (hcomment.trans (Cursor.reaches_lineBreak _)) _)
      · exact h.moved hcomment _
    · split
      · exact ih (h.moved (hblanks.trans (Cursor.reaches_lineBreak _)) _)
      · exact h.moved hblanks _

theorem Plain.skipMark (h : s.Plain) : s.skipMark.Plain := by
  unfold Layout.skipMark
  split
  · exact h.moved (s.cursor.reaches_skip 1) s.keyAllowed
  · exact h

theorem Plain.closeBlocks_eq (h : s.Plain) (column : Int) : s.closeBlocks column = s := by
  have hflow : s.inFlow = false := by rw [inFlow, h.depth]; rfl
  rw [closeBlocks, hflow, h.outer]
  rfl

theorem sameText_of_dropPending (h : s.dropPending = some s') : s.SameText s' := by
  unfold dropPending at h
  split at h
  · split at h
    · cases h
    · exact Option.some.inj h ▸ ⟨rfl, rfl, rfl, rfl⟩
  · exact Option.some.inj h ▸ ⟨rfl, rfl, rfl, rfl⟩

theorem sameText_of_dropStale (h : s.dropStale = some s') : s.SameText s' := by
  unfold dropStale at h
  split at h
  · cases h
  · exact Option.some.inj h ▸ ⟨rfl, rfl, rfl, rfl⟩

theorem sameText_of_notePending (h : s.notePending = some s') : s.SameText s' := by
  unfold notePending at h
  split at h
  · split at h
    · cases h
    · next s₁ hdrop =>
      have hsame := sameText_of_dropPending hdrop
      exact Option.some.inj h ▸ ⟨hsame.cursor, hsame.depth, hsame.outer, hsame.tokens⟩
  · exact Option.some.inj h ▸ ⟨rfl, rfl, rfl, rfl⟩

theorem Plain.push (h : s.Plain) (text : String) : (s.push (.scalar true text)).Plain := by
  refine ⟨h.blank, h.depth, h.outer, fun t ht => ?_⟩
  rcases Array.mem_push.mp ht with ht | rfl
  · exact h.scalars t ht
  · exact ⟨text, rfl⟩

theorem Plain.plain (h : s.Plain) (hs : s.plain = some s') : s'.Plain := by
  obtain ⟨s₁, hnote, hs⟩ := Option.bind_eq_some_iff.mp hs
  have h₁ := h.of_sameText (sameText_of_notePending hnote)
  have hreach : s₁.cursor.Reaches (plainScalar s₁.inFlow (s₁.indent + 1) s₁.cursor).2.2 :=
    reaches_plainWords _ _ _ _ _ _ _
  generalize plainScalar s₁.inFlow (s₁.indent + 1) s₁.cursor = scan at hs hreach
  obtain ⟨text, ended, after⟩ := scan
  exact Option.some.inj hs ▸ (h₁.moved hreach ended).push _

/-- Where a blank is ahead, only a plain scalar can begin. -/
theorem unquoted_of_isBlank {x : Char} (hpeek : s.cursor.peek? 0 = some x)
    (hx : Text.isBlank x = true) :
    s.unquoted x = if s.plainAhead x then s.plain else none := by
  have hne : ∀ y, Text.isBlank y = false → (x == y) = false := by
    intro y hy
    refine beq_false_of_ne ?_
    rintro rfl
    rw [hx] at hy
    cases hy
  have hmark : ∀ y, Text.isBlank y = false → s.cursor.seesMark y = false := by
    intro y hy
    simp [Cursor.seesMark, hpeek, hne y hy]
  unfold unquoted
  simp only [hne '%' rfl, hmark '-' rfl, hmark '.' rfl, hne '[' rfl, hne '\x7b' rfl, hne ']' rfl,
    hne '\x7d' rfl, hne ',' rfl, hne '-' rfl, hne '?' rfl, hne ':' rfl, hne '|' rfl, hne '>' rfl,
    Bool.false_and, Bool.and_false, Bool.false_eq_true, if_false]

theorem Plain.token {x : Char} (h : s.Plain) (hpeek : s.cursor.peek? 0 = some x)
    (hs : s.token x = .ok s') : s'.Plain := by
  have hx : Text.isBlank x = true := h.blank x (List.mem_of_getElem? hpeek)
  have hquote : ¬ (x == '\'' || x == '"') = true := by
    simp only [Bool.or_eq_true, beq_iff_eq]
    rintro (rfl | rfl)
    · cases hx
    · cases hx
  rw [Layout.token, if_neg hquote, unquoted_of_isBlank hpeek hx] at hs
  split at hs
  · cases hp : s.plain with
    | none =>
      rw [hp] at hs
      cases hs
    | some s₁ =>
      rw [hp] at hs
      exact Except.ok.inj hs ▸ h.plain hp
  · cases hs

/-- All tokens of a blank text are plain scalars. -/
theorem Plain.run {ts : Array Token} (fuel : Nat) (h : s.Plain) (hts : run fuel s = .ok ts) :
    ∀ t ∈ ts, ∃ text, t = .scalar true text := by
  induction fuel generalizing s with
  | zero => cases hts
  | succ fuel ih =>
    unfold Layout.run at hts
    have hgaps := h.skipMark.skipGaps s.cursor.fuel
    cases hstale : (Layout.skipGaps s.cursor.fuel s.skipMark).dropStale with
    | none =>
      rw [hstale] at hts
      cases hts
    | some s₁ =>
      have h₁ := hgaps.of_sameText (sameText_of_dropStale hstale)
      simp only [hstale, expected_some, h₁.closeBlocks_eq, bind, Except.bind] at hts
      split at hts
      · cases hdrop : s₁.dropPending with
        | none =>
          rw [hdrop] at hts
          cases hts
        | some s₂ =>
          rw [hdrop] at hts
          obtain rfl := Except.ok.inj hts
          exact (h₁.of_sameText (sameText_of_dropPending hdrop)).scalars
      · next x hpeek =>
        cases htoken : s₁.token x with
        | error fault =>
          rw [htoken] at hts
          cases hts
        | ok s₂ =>
          rw [htoken] at hts
          exact ih (h₁.token hpeek htoken) hts

end Layout

/-! ### The data of blank text -/

variable {s : String} {ts : List Token} {n : Node}

theorem scalars_of_tokens {cs : List Char} (hb : ∀ c ∈ cs, Text.isBlank c = true)
    (h : tokens cs = .ok ts) : ∀ t ∈ ts, ∃ text, t = .scalar true text := by
  unfold tokens at h
  split at h
  · cases hrun : Layout.run (cs.length + 1) { cursor := ⟨cs, 0, 0, 0⟩ } with
    | error fault =>
      rw [hrun] at h
      cases h
    | ok all =>
      rw [hrun] at h
      obtain rfl := Except.ok.inj h
      have hplain : Layout.Plain { cursor := ⟨cs, 0, 0, 0⟩ } := ⟨hb, rfl, rfl, by simp⟩
      intro t ht
      exact hplain.run _ hrun t (Array.mem_toList_iff.mp ht)
  · cases h

/-- The tree of plain scalars is one of them, or the node that is left out. -/
theorem exists_scalar_of_ofTokens? (hts : ∀ t ∈ ts, ∃ text, t = .scalar true text)
    (h : Node.ofTokens? ts = some n) : ∃ text, n = .scalar true text := by
  have hcontent : ∀ rest, Node.content (4 * ts.length + 4) ts = some (n, rest) →
      ∃ text, n = .scalar true text := by
    intro rest hn
    cases ts with
    | nil =>
      obtain ⟨rfl, -⟩ := Prod.mk.inj (Option.some.inj hn)
      exact ⟨"", rfl⟩
    | cons t ts =>
      obtain ⟨text, rfl⟩ := hts t List.mem_cons_self
      obtain ⟨rfl, -⟩ := Prod.mk.inj (Option.some.inj hn)
      exact ⟨text, rfl⟩
  unfold Node.ofTokens? at h
  split at h
  · cases h
  · next n' rest hn =>
    split at h
    · exact hcontent rest (Option.some.inj h ▸ hn)
    · cases h

/-- **A blank text holds a scalar**, if it holds anything. -/
theorem exists_scalar_of_read {v : Value} (hb : Text.allBlank s = true) (h : read s = .ok v) :
    ∃ x, v = .scalar x := by
  have hblank : ∀ c ∈ s.toList, Text.isBlank c = true := List.all_eq_true.mp (by simpa using hb)
  unfold read at h
  cases hts : tokens s.toList with
  | error fault =>
    rw [hts] at h
    cases h
  | ok ts =>
    cases hn : Node.ofTokens? ts with
    | none =>
      simp only [hts, hn, bind, Except.bind, expected] at h
      cases h
    | some n =>
      simp only [hts, hn, bind, Except.bind, expected] at h
      obtain ⟨text, rfl⟩ := exists_scalar_of_ofTokens? (scalars_of_tokens hblank hts) hn
      unfold Node.read at h
      split at h
      · next v' hv =>
        obtain rfl := Except.ok.inj h
        rw [Node.value?] at hv
        obtain ⟨x, -, rfl⟩ := Option.map_eq_some_iff.mp hv
        exact ⟨x, rfl⟩
      · cases h

/-- A fault as a reader's. -/
def Fault.refusal : Fault → Refusal
  | .notYaml => .malformed "no YAML document"
  | .scalar fault => .scalar fault

/-- The reader whose texts are those of `Yaml.read`. -/
def reader : Reader where
  read s := (read s).mapError Fault.refusal
  scalar_of_blank hb h := exists_scalar_of_read hb (mapError_eq_ok.mp h)

end ApiPage.Yaml
