import ApiPage.Proofs.Ty.Scanning

/-!
# Blanks between tokens

A `Layout` is a row of tokens with the gap of blank characters before each and the one behind the last. A scan
of its text finds its tokens just if no word runs into the token after it where their gap is empty
(`scan_text_iff`). So a scan loses nothing but blanks, and the tokens, and with them what is read, stay the
same when gaps are widened, and whatever gaps the tokens are set apart by.
-/

namespace ApiPage.Ty

/-! ### Layouts -/

/-- Tokens as they stand in a text: each with the gap before it, and the gap behind the last. -/
structure Layout where
  placed : List (List CodePoint × Token)
  behind : List CodePoint
  gapsBlank : ∀ e ∈ placed, ∀ b ∈ e.1, CodePoint.isBlank b = true
  behindBlank : ∀ b ∈ behind, CodePoint.isBlank b = true

/-- The characters of tokens with their gaps. -/
def laid : List (List CodePoint × Token) → List CodePoint → List CodePoint
  | [], behind => behind
  | (gap, t) :: placed, behind => gap ++ (t.text.toList ++ laid placed behind)

namespace Layout

def text (l : Layout) : List CodePoint :=
  laid l.placed l.behind

def tokens (l : Layout) : List Token :=
  l.placed.map (·.2)

/-- Where two tokens have no gap between them, no word runs into the second. -/
def SetApart (l : Layout) : Prop :=
  l.placed.IsChain fun e f => f.1 = [] → mayTouch e.2 f.2 = true

/-- The same tokens, every gap with more blanks in it. -/
structure Widens (l l' : Layout) : Prop where
  placed : List.Forall₂ (fun e f => f.2 = e.2 ∧ e.1.Sublist f.1) l.placed l'.placed
  behind : l.behind.Sublist l'.behind

/-- Between any two tokens there is a gap. -/
def Parted (l : Layout) : Prop :=
  ∀ e ∈ l.placed.tail, e.1 ≠ []

end Layout

variable {cs : List CodePoint} {t u : Token} {ts : List Token} {placed placed' : List (List CodePoint × Token)}
  {behind : List CodePoint}

theorem spells_laid (hgaps : ∀ e ∈ placed, ∀ b ∈ e.1, CodePoint.isBlank b = true)
    (hbehind : ∀ b ∈ behind, CodePoint.isBlank b = true) (hproper : ∀ e ∈ placed, e.2.Proper) :
    Spells (laid placed behind) (placed.map (·.2)) := by
  induction placed with
  | nil => exact .blank hbehind
  | cons e placed ih =>
    obtain ⟨hgap, hgaps⟩ := List.forall_mem_cons.mp hgaps
    obtain ⟨ht, hproper⟩ := List.forall_mem_cons.mp hproper
    exact .token hgap ht (ih hgaps hproper)

/-- A text that spells tokens is the text of a layout of them. -/
theorem Spells.exists_layout (h : Spells cs ts) : ∃ l : Layout, l.text = cs ∧ l.tokens = ts := by
  induction h with
  | @blank bs hb => exact ⟨⟨[], bs, by simp, hb⟩, rfl, rfl⟩
  | @token bs cs t ts hb ht h ih =>
    obtain ⟨l, rfl, rfl⟩ := ih
    exact ⟨⟨(bs, t) :: l.placed, l.behind, List.forall_mem_cons.mpr ⟨hb, l.gapsBlank⟩, l.behindBlank⟩,
      rfl, rfl⟩

/-! ### Words that run on -/

/-- A word would swallow the beginning of what may not touch it. -/
theorem Token.text_of_not_mayTouch (hu : u.Proper) (h : mayTouch t u = false) :
    (∃ s, t = .word s) ∧ ∃ c cs, u.text.toList = c :: cs ∧ isWordPart c = true := by
  unfold mayTouch at h
  split at h
  · obtain ⟨c, cs, rfl, hc, -⟩ := hu
    exact ⟨⟨_, rfl⟩, c, cs, Str.toList_ofList, isWordPart_of_isWordStart hc⟩
  · exact ⟨⟨_, rfl⟩, '.', [.char '.', .char '.'], rfl, rfl⟩
  · cases h

/-- A token stands whole before others just if it may touch the first of them, where there is no gap. -/
theorem begins_laid_iff (hgaps : ∀ e ∈ placed, ∀ b ∈ e.1, CodePoint.isBlank b = true)
    (hbehind : ∀ b ∈ behind, CodePoint.isBlank b = true) (ht : t.Proper) (hproper : ∀ e ∈ placed, e.2.Proper) :
    Begins (t.text.toList ++ laid placed behind) t (laid placed behind) ↔
      ∀ e ∈ placed.head?, e.1 = [] → mayTouch t e.2 = true := by
  have hspells := spells_laid hgaps hbehind hproper
  constructor
  · rintro h ⟨gap, u⟩ he rfl
    by_contra hmay
    obtain ⟨placed, rfl⟩ := List.head?_eq_some_iff.mp he
    obtain ⟨⟨s, rfl⟩, c, cs, hc, hpart⟩ :=
      Token.text_of_not_mayTouch (hproper _ List.mem_cons_self) (Bool.eq_false_iff.mpr hmay)
    have hhead := h.whole s rfl c (by simp [laid, hc])
    rw [hpart] at hhead
    cases hhead
  · intro h
    refine ⟨ht, rfl, ?_⟩
    rintro s rfl
    rcases placed with _ | ⟨⟨_ | ⟨b, gap⟩, u⟩, placed⟩
    · exact hspells.head_of_mayTouch (s := s) (by simp)
    · exact hspells.head_of_mayTouch (by simpa using h ([], u) rfl rfl)
    · intro c hc
      obtain rfl : b = c := by simpa [laid] using hc
      exact not_isWordPart_of_isBlank (hgaps _ List.mem_cons_self b List.mem_cons_self)

/-! ### Scanning a layout -/

/-- The first token that a scan finds stands at the front, and the others are found behind it. -/
theorem exists_of_scan_cons (h : scan cs = .ok (t :: ts)) :
    ∃ rest, nextToken? (cs.dropWhile CodePoint.isBlank) = some (t, rest) ∧ scan rest = .ok ts := by
  rw [scan] at h
  split at h
  · next t' rest hn =>
    dsimp only at h
    split at h
    · cases h
    · next ts' hr =>
      obtain ⟨rfl, rfl⟩ := List.cons.inj (Except.ok.inj h)
      exact ⟨rest, hn, hr⟩
  · split at h <;> cases h

theorem dropWhile_laid {gap rest : List CodePoint} (hgap : ∀ b ∈ gap, CodePoint.isBlank b = true) (ht : t.Proper) :
    (gap ++ (t.text.toList ++ rest)).dropWhile CodePoint.isBlank = t.text.toList ++ rest := by
  obtain ⟨c, cs, hc, hnb⟩ := ht.text_eq_cons
  rw [hc, List.cons_append]
  exact dropWhile_isBlank_append hgap hnb

theorem scan_laid_iff (hgaps : ∀ e ∈ placed, ∀ b ∈ e.1, CodePoint.isBlank b = true)
    (hbehind : ∀ b ∈ behind, CodePoint.isBlank b = true) (hproper : ∀ e ∈ placed, e.2.Proper) :
    scan (laid placed behind) = .ok (placed.map (·.2)) ↔
      placed.IsChain fun e f => f.1 = [] → mayTouch e.2 f.2 = true := by
  induction placed with
  | nil => exact iff_of_true (scan_of_isBlank hbehind) .nil
  | cons e placed ih =>
    obtain ⟨gap, t⟩ := e
    obtain ⟨hgap, hgaps⟩ := List.forall_mem_cons.mp hgaps
    obtain ⟨ht, hproper⟩ := List.forall_mem_cons.mp hproper
    have hdrop : (gap ++ (t.text.toList ++ laid placed behind)).dropWhile CodePoint.isBlank =
        t.text.toList ++ laid placed behind := dropWhile_laid hgap ht
    -- the first token is found just if it stands whole, and the others just if they are found behind it
    rw [List.isChain_cons, ← begins_laid_iff hgaps hbehind ht hproper, ← ih hgaps hproper, laid,
      List.map_cons]
    constructor
    · intro h
      obtain ⟨rest, hnext, hrest⟩ := exists_of_scan_cons h
      rw [hdrop] at hnext
      have hbegins := nextToken?_eq_some_iff.mp hnext
      obtain rfl := List.append_cancel_left hbegins.eq
      exact ⟨hbegins, hrest⟩
    · rintro ⟨hbegins, hrest⟩
      have hnext := nextToken?_eq_some_iff.mpr hbegins
      rw [← hdrop] at hnext
      exact scan_of_nextToken? hnext hrest

namespace Layout

variable {l l' : Layout}

/-- **A scan finds the tokens of a layout** just if a text can hold each of them and none runs into the next. -/
theorem scan_text_iff (l : Layout) :
    scan l.text = .ok l.tokens ↔ (∀ t ∈ l.tokens, t.Proper) ∧ l.SetApart := by
  have hproper : (∀ t ∈ l.tokens, t.Proper) ↔ ∀ e ∈ l.placed, e.2.Proper := List.forall_mem_map
  constructor
  · intro h
    have hall := (spells_of_scan h).proper
    exact ⟨hall, (scan_laid_iff l.gapsBlank l.behindBlank (hproper.mp hall)).mp h⟩
  · rintro ⟨hall, hapart⟩
    exact (scan_laid_iff l.gapsBlank l.behindBlank (hproper.mp hall)).mpr hapart

/-! ### Other gaps between the same tokens -/

theorem Widens.tokens_eq (h : l.Widens l') : l'.tokens = l.tokens := by
  have heq : List.Forall₂ (· = ·) (l.placed.map (·.2)) (l'.placed.map (·.2)) :=
    List.forall₂_map_left_iff.mpr (List.forall₂_map_right_iff.mpr (h.placed.imp fun _ _ hef => hef.1.symm))
  exact (List.forall₂_eq_eq_eq ▸ heq : l.placed.map (·.2) = l'.placed.map (·.2)).symm

end Layout

/-- A gap that is empty with more blanks in it was empty before. -/
theorem isChain_of_wider (hchain : placed.IsChain fun e f => f.1 = [] → mayTouch e.2 f.2 = true)
    (h : List.Forall₂ (fun e f => f.2 = e.2 ∧ e.1.Sublist f.1) placed placed') :
    placed'.IsChain fun e f => f.1 = [] → mayTouch e.2 f.2 = true := by
  induction h with
  | nil => exact .nil
  | cons hfirst hrest ih =>
    obtain ⟨hhead, htail⟩ := List.isChain_cons.mp hchain
    refine List.isChain_cons.mpr ⟨?_, ih htail⟩
    intro f hf hgap
    cases hrest with
    | nil => cases hf
    | @cons e f' _ _ hnext _ =>
      obtain rfl : f' = f := Option.some.inj hf
      rw [hfirst.1, hnext.1]
      exact hhead e rfl (List.sublist_nil.mp (hgap ▸ hnext.2))

namespace Layout

variable {l l' : Layout}

theorem Widens.setApart (h : l.Widens l') (hl : l.SetApart) : l'.SetApart :=
  isChain_of_wider hl h.placed

theorem Parted.setApart (h : l.Parted) : l.SetApart := by
  refine List.isChain_iff_getElem.mpr fun i hi hgap => ?_
  have hmem : l.placed[i + 1] ∈ l.placed.tail := by
    rw [← List.getElem_tail (by simpa using Nat.lt_sub_of_add_lt hi)]
    exact List.getElem_mem _
  exact absurd hgap (h _ hmem)

end Layout

/-! ### What a scan keeps of a text -/

theorem Token.Proper.not_isBlank (ht : t.Proper) : ∀ c ∈ t.text.toList, CodePoint.isBlank c = false := by
  cases t with
  | word s =>
    obtain ⟨c, cs, rfl, hc, hcs⟩ := ht
    rw [Token.text, Str.toList_ofList]
    exact List.forall_mem_cons.mpr ⟨not_isBlank_of_isWordPart (isWordPart_of_isWordStart hc),
      fun d hd => not_isBlank_of_isWordPart (hcs d hd)⟩
  | _ => simp [Token.text, Text.isBlank]

/-- Tokens one after the other are the text that spells them, without its blanks. -/
theorem Spells.flatMap_text (h : Spells cs ts) :
    ts.flatMap (·.text.toList) = cs.filter (!CodePoint.isBlank ·) := by
  have hnone : ∀ {bs : List CodePoint}, (∀ b ∈ bs, CodePoint.isBlank b = true) →
      bs.filter (!CodePoint.isBlank ·) = [] := fun hb => List.filter_eq_nil_iff.mpr (by simpa using hb)
  induction h with
  | blank hb => exact (hnone hb).symm
  | @token bs cs t ts hb ht h ih =>
    have hall : t.text.toList.filter (!CodePoint.isBlank ·) = t.text.toList :=
      List.filter_eq_self.mpr (by simpa using ht.not_isBlank)
    rw [List.flatMap_cons, List.filter_append, List.filter_append, hnone hb, hall, ih, List.nil_append]

/-- Only blanks hold no token. -/
theorem Spells.all_isBlank_iff (h : Spells cs ts) : cs.all CodePoint.isBlank = true ↔ ts = [] := by
  rw [List.all_eq_true]
  cases h with
  | blank hb => exact iff_of_true hb rfl
  | token hb ht h =>
    obtain ⟨c, hc, hnb⟩ := (Spells.token hb ht h).exists_not_isBlank
    exact iff_of_false (fun hall => by simp [hall c hc] at hnb) (List.cons_ne_nil _ _)

/-- The tokens of a text decide what is read. -/
theorem read_of_scan {s : Str} (h : scan s.toList = .ok ts) :
    (read s).mapError ReadError.fault = if ts = [] then .ok any else (parse ts).map UnionExpr.ty := by
  have hblank : Text.allBlank s = true ↔ ts = [] := (spells_of_scan h).all_isBlank_iff
  unfold read parseText
  rw [h]
  by_cases hts : ts = []
  · rw [if_pos (hblank.mpr hts), if_pos hts]
    rfl
  · rw [if_neg (mt hblank.mp hts), if_neg hts]
    dsimp only
    cases parse ts <;> rfl

/-- **A scan loses nothing but blanks.** The tokens of a text, one after the other, are its characters that are
not blank. They lie in it with gaps around them; where more blanks are put into these gaps, or the tokens are
laid out afresh with a gap between any two, a scan finds them again, and the same type is read or the same
fault found. -/
theorem read_respaced {s : Str} (h : scan s.toList = .ok ts) :
    ts.flatMap (·.text.toList) = s.toList.filter (!CodePoint.isBlank ·) ∧
      (∃ l : Layout, l.text = s.toList ∧ l.tokens = ts) ∧
      ∀ l l' : Layout, l.text = s.toList → l.tokens = ts → (l.Widens l' ∨ l'.tokens = ts ∧ l'.Parted) →
        scan l'.text = .ok ts ∧
          (read (Str.ofList l'.text)).mapError ReadError.fault = (read s).mapError ReadError.fault := by
  have hspells := spells_of_scan h
  refine ⟨hspells.flatMap_text, hspells.exists_layout, ?_⟩
  rintro l l' htext htokens hl'
  have hscan : scan l'.text = .ok ts := by
    obtain ⟨hproper, hapart⟩ := l.scan_text_iff.mp (htext ▸ htokens ▸ h)
    have htokens' : l'.tokens = ts := hl'.elim (fun hw => hw.tokens_eq.trans htokens) And.left
    have hapart' : l'.SetApart := hl'.elim (·.setApart hapart) (·.2.setApart)
    exact htokens' ▸ l'.scan_text_iff.mpr ⟨htokens' ▸ htokens ▸ hproper, hapart'⟩
  exact ⟨hscan, (read_of_scan (by rwa [Str.toList_ofList])).trans (read_of_scan h).symm⟩

/-- An ideographic space and a plain one put around a bar. -/
theorem read_respaced_bar : scan (Str.whole "a|b").toList = .ok [.word "a", .bar, .word "b"] ∧
    scan (Str.whole "a |\u3000b").toList = .ok [.word "a", .bar, .word "b"] ∧
    (read "a |\u3000b").mapError ReadError.fault = (read "a|b").mapError ReadError.fault := by
  let close : Layout := ⟨[([], .word "a"), ([], .bar), ([], .word "b")], [], by simp, by simp⟩
  let wide : Layout := ⟨[([], .word "a"), ([.char ' '], .bar), ([.char '\u3000'], .word "b")], [],
    by simp [Text.isBlank], by simp⟩
  have hproper : ∀ t ∈ close.tokens, t.Proper := by
    have ha : (Token.word "a").Proper := Token.proper_word 'a' [] rfl rfl
    have hb : (Token.word "b").Proper := Token.proper_word 'b' [] rfl rfl
    exact List.forall_mem_cons.mpr
      ⟨ha, List.forall_mem_cons.mpr ⟨trivial, List.forall_mem_singleton.mpr hb⟩⟩
  have hscan : scan (Str.whole "a|b").toList = .ok [.word "a", .bar, .word "b"] :=
    close.scan_text_iff.mpr ⟨hproper, by simp [close, Layout.SetApart, mayTouch]⟩
  have hwidens : close.Widens wide := ⟨by simp [close, wide], List.Sublist.refl _⟩
  exact ⟨hscan, (read_respaced hscan).2.2 close wide rfl rfl (.inl hwidens)⟩

end ApiPage.Ty
