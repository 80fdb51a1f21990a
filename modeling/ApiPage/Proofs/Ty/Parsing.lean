import ApiPage.Proofs.Ty.Grammar
import ApiPage.Ty.Reading

/-!
# The readers of type text follow its grammar

Soundness is by recursion on the fuel: what a reader takes off the front of a token list is a phrase,
and the tree that it gives denotes what the phrase denotes. Completeness is by induction on the
derivation: a phrase is read in full from every text in which nothing goes on with it, given four
units of fuel for each of its tokens.
-/

namespace ApiPage.Ty

/-! ### Soundness -/

theorem closeBracket_eq_ok {α : Type} {a b : α} {ts rest : List Token}
    (h : closeBracket a ts = .ok (b, rest)) : a = b ∧ ts = .closing :: rest := by
  unfold closeBracket at h
  split at h
  · simp at h
  · simpa using h
  · simp at h

mutual

theorem parseAlt_sound : ∀ {fuel : Nat} {ts rest : List Token} {e : Expr},
    parseAlt fuel ts = .ok (e, rest) → ∃ us, ts = us ++ rest ∧ Derives .basic us [e.ty]
  | 0, _, _, _, h => by simp [parseAlt] at h
  | fuel + 1, ts, rest, e, h => by
    unfold parseAlt at h
    split at h
    · simp at h
    · simp at h
    · next s ts' heq =>
      obtain rfl := Nat.succ.inj heq
      split at h
      · next hn =>
        obtain ⟨rfl, rfl⟩ := Prod.mk.inj (Except.ok.inj h)
        refine ⟨[.word s], rfl, ?_⟩
        rw [Expr.ty, wordTy, if_pos hn]
        exact .never hn
      · next hn =>
        have hn : isNeverWord s = false := by simpa using hn
        split at h
        · next inner =>
          split at h
          · simp at h
          · next e' after hb =>
            obtain ⟨rfl, rfl⟩ := closeBracket_eq_ok h
            obtain ⟨us, rfl, hd⟩ := parseBracketed_sound hn hb
            exact ⟨_, by simp, hd⟩
        · obtain ⟨rfl, rfl⟩ := Prod.mk.inj (Except.ok.inj h)
          refine ⟨[.word s], rfl, ?_⟩
          rw [Expr.ty, wordTy, hn, if_neg Bool.false_ne_true]
          split
          · next ha => exact .any ha
          · next ha => exact .name hn (by simpa using ha)
    · simp at h

theorem parseBracketed_sound : ∀ {fuel : Nat} {head : Str} {ts rest : List Token} {e : Expr},
    isNeverWord head = false → parseBracketed fuel head ts = .ok (e, rest) →
      ∃ us, ts = us ++ rest ∧
        Derives .basic (.word head :: .opening :: (us ++ [.closing])) [e.ty]
  | 0, _, _, _, _, _, h => by simp [parseBracketed] at h
  | fuel + 1, head, ts, rest, e, hn, h => by
    unfold parseBracketed at h
    split at h
    · next ht =>
      obtain rfl : head = "tuple" := by simpa using ht
      obtain ⟨rfl, rfl⟩ := Prod.mk.inj (Except.ok.inj h)
      exact ⟨[.unit], rfl, .tuple .emptyTuple⟩
    · split at h
      · simp at h
      · next u mid hu =>
        obtain ⟨us, rfl, hd⟩ := parseUnion_sound hu
        split at h
        · next ht _ =>
          obtain rfl : head = "tuple" := by simpa using ht
          obtain ⟨rfl, rfl⟩ := Prod.mk.inj (Except.ok.inj h)
          exact ⟨us ++ [.comma, .ellipsis], by simp, .tuple (.manyTuple hd)⟩
        · split at h
          · simp at h
          · next us' after hus =>
            obtain ⟨rfl, rfl⟩ := Prod.mk.inj (Except.ok.inj h)
            obtain ⟨vs, rfl, hds⟩ := parseArgs_sound hus hd
            refine ⟨us ++ vs, by simp, ?_⟩
            by_cases ht : head = "tuple"
            · subst ht
              exact .tuple (.fixedTuple hds)
            · exact .generic hn ht hds (denotes_genericVariant _ ht)

theorem parseArgs_sound : ∀ {fuel : Nat} {inTuple : Bool} {ts rest ts₀ : List Token}
    {us : List UnionExpr} {t : Ty}, parseArgs fuel inTuple ts = .ok (us, rest) →
      Derives .union ts₀ [t] → ∃ vs, ts = vs ++ rest ∧ Derives .args (ts₀ ++ vs) (t :: argTys us)
  | 0, _, _, _, _, _, _, h, _ => by simp [parseArgs] at h
  | fuel + 1, inTuple, ts, rest, ts₀, us, t, h, h₀ => by
    unfold parseArgs at h
    split at h
    · simp at h
    · simp at h
    · next ts' heq _ =>
      obtain rfl := Nat.succ.inj heq
      split at h
      · simp at h
      · next u mid hu =>
        split at h
        · simp at h
        · next us' after hus =>
          obtain ⟨rfl, rfl⟩ := Prod.mk.inj (Except.ok.inj h)
          obtain ⟨vs, rfl, hd⟩ := parseUnion_sound hu
          obtain ⟨ws, rfl, hds⟩ := parseArgs_sound hus hd
          exact ⟨.comma :: (vs ++ ws), by simp, .arg h₀ hds⟩
    · obtain ⟨rfl, rfl⟩ := Prod.mk.inj (Except.ok.inj h)
      refine ⟨[], rfl, ?_⟩
      rw [List.append_nil]
      exact .lastArg h₀

theorem parseUnion_sound : ∀ {fuel : Nat} {ts rest : List Token} {u : UnionExpr},
    parseUnion fuel ts = .ok (u, rest) → ∃ us, ts = us ++ rest ∧ Derives .union us [u.ty]
  | 0, _, _, _, h => by simp [parseUnion] at h
  | fuel + 1, ts, rest, u, h => by
    unfold parseUnion at h
    split at h
    · simp at h
    · next e mid he =>
      split at h
      · simp at h
      · next es after hes =>
        obtain ⟨rfl, rfl⟩ := Prod.mk.inj (Except.ok.inj h)
        obtain ⟨us, rfl, hd⟩ := parseAlt_sound he
        obtain ⟨vs, rfl, hds⟩ := parseAlts_sound hes hd
        exact ⟨us ++ vs, by simp, .union hds (collects_unions _)⟩

theorem parseAlts_sound : ∀ {fuel : Nat} {ts rest ts₀ : List Token} {es : UnionExpr} {t : Ty},
    parseAlts fuel ts = .ok (es, rest) → Derives .basic ts₀ [t] →
      ∃ vs, ts = vs ++ rest ∧ Derives .alts (ts₀ ++ vs) (t :: altTys es)
  | 0, _, _, _, _, _, h, _ => by simp [parseAlts] at h
  | fuel + 1, ts, rest, ts₀, es, t, h, h₀ => by
    unfold parseAlts at h
    split at h
    · simp at h
    · next ts' heq =>
      obtain rfl := Nat.succ.inj heq
      split at h
      · simp at h
      · next e mid he =>
        split at h
        · simp at h
        · next es' after hes =>
          obtain ⟨rfl, rfl⟩ := Prod.mk.inj (Except.ok.inj h)
          obtain ⟨us, rfl, hd⟩ := parseAlt_sound he
          obtain ⟨vs, rfl, hds⟩ := parseAlts_sound hes hd
          exact ⟨.bar :: (us ++ vs), by simp, .alt h₀ hds⟩
    · obtain ⟨rfl, rfl⟩ := Prod.mk.inj (Except.ok.inj h)
      refine ⟨[], rfl, ?_⟩
      rw [List.append_nil]
      exact .lastAlt h₀

end

/-! ### Completeness

One equation for each way through a reader, with the results of the readers that it calls. -/

variable {fuel : Nat} {ts mid rest : List Token}

theorem parseAlt_of_never {s : Str} (hn : isNeverWord s = true) :
    parseAlt (fuel + 1) (.word s :: rest) = .ok (.word s, rest) := by
  unfold parseAlt
  exact if_pos hn

theorem parseAlt_of_word {s : Str} (hn : isNeverWord s = false)
    (hr : rest.head? ≠ some .opening) :
    parseAlt (fuel + 1) (.word s :: rest) = .ok (.word s, rest) := by
  unfold parseAlt
  rw [hn, if_neg Bool.false_ne_true]
  split
  · exact absurd rfl hr
  · rfl

theorem parseAlt_of_bracketed {s : Str} {e : Expr} (hn : isNeverWord s = false)
    (h : parseBracketed fuel s ts = .ok (e, .closing :: rest)) :
    parseAlt (fuel + 1) (.word s :: .opening :: ts) = .ok (e, rest) := by
  simp [parseAlt, hn, h, closeBracket]

theorem parseBracketed_of_unit :
    parseBracketed (fuel + 1) "tuple" (.unit :: rest) = .ok (.emptyTuple, rest) := by
  simp [parseBracketed]

theorem parseBracketed_of_ellipsis {s : Str} {u : UnionExpr}
    (hu : parseUnion fuel (.word s :: ts) = .ok (u, .comma :: .ellipsis :: rest)) :
    parseBracketed (fuel + 1) "tuple" (.word s :: ts) = .ok (.manyTuple u, rest) := by
  simp [parseBracketed, hu]

theorem parseBracketed_of_args {head s : Str} {u : UnionExpr} {us : List UnionExpr}
    (hu : parseUnion fuel (.word s :: ts) = .ok (u, mid))
    (hm : ∀ ts', mid ≠ .comma :: .ellipsis :: ts')
    (hus : parseArgs fuel (head == "tuple") mid = .ok (us, rest)) :
    parseBracketed (fuel + 1) head (.word s :: ts) = .ok (.generic head (u :: us), rest) := by
  unfold parseBracketed
  split
  · next heq => exact absurd heq (by simp)
  · rw [hu]
    dsimp only
    split
    · exact absurd rfl (hm _)
    · rw [hus]

theorem parseArgs_of_comma {inTuple : Bool} {s : Str} {u : UnionExpr} {us : List UnionExpr}
    (hu : parseUnion fuel (.word s :: ts) = .ok (u, mid))
    (hus : parseArgs fuel inTuple mid = .ok (us, rest)) :
    parseArgs (fuel + 1) inTuple (.comma :: .word s :: ts) = .ok (u :: us, rest) := by
  cases inTuple <;> simp [parseArgs, hu, hus]

theorem parseArgs_of_end {inTuple : Bool} (hr : rest.head? ≠ some .comma) :
    parseArgs (fuel + 1) inTuple rest = .ok ([], rest) := by
  unfold parseArgs
  split
  · next heq => exact absurd heq (by simp)
  · exact absurd rfl hr
  · exact absurd rfl hr
  · rfl

theorem parseUnion_of_alts {e : Expr} {es : UnionExpr} (he : parseAlt fuel ts = .ok (e, mid))
    (hes : parseAlts fuel mid = .ok (es, rest)) :
    parseUnion (fuel + 1) ts = .ok (e :: es, rest) := by
  simp [parseUnion, he, hes]

theorem parseAlts_of_bar : parseAlts fuel (.bar :: ts) = parseUnion fuel ts := by
  cases fuel with
  | zero => simp [parseAlts, parseUnion]
  | succ fuel => simp [parseAlts, parseUnion]

theorem parseAlts_of_end (hr : rest.head? ≠ some .bar) :
    parseAlts (fuel + 1) rest = .ok ([], rest) := by
  unfold parseAlts
  split
  · next heq => exact absurd heq (by simp)
  · exact absurd rfl hr
  · rfl

/-- The tokens that go on with a phrase. -/
def Nonterminal.goesOn : Nonterminal → List Token
  | .basic => [.opening]
  | .alts | .union => [.opening, .bar]
  | .args | .inTuple => [.opening, .bar, .comma]

/-- Nothing at the front of the tokens goes on with a phrase. -/
def Nonterminal.EndsAt (n : Nonterminal) (rest : List Token) : Prop :=
  ∀ t ∈ rest.head?, t ∉ n.goesOn

/-- A phrase is read in full from every token list that it begins, up to a place where it ends. -/
def Reads : Nonterminal → List Token → List Ty → Prop
  | .basic, ts, as => ∀ fuel rest, 4 * ts.length ≤ fuel + 3 → Nonterminal.basic.EndsAt rest →
      ∃ e, parseAlt fuel (ts ++ rest) = .ok (e, rest) ∧ as = [e.ty]
  | .alts, ts, as => ∀ fuel rest, 4 * ts.length ≤ fuel + 2 → Nonterminal.alts.EndsAt rest →
      ∃ u, parseUnion fuel (ts ++ rest) = .ok (u, rest) ∧ as = altTys u
  | .union, ts, as => ∀ fuel rest, 4 * ts.length ≤ fuel + 2 → Nonterminal.union.EndsAt rest →
      ∃ u : UnionExpr, parseUnion fuel (ts ++ rest) = .ok (u, rest) ∧ as = [u.ty]
  | .args, ts, as => ∀ fuel inTuple rest, 4 * ts.length ≤ fuel + 2 →
      Nonterminal.args.EndsAt rest → ∃ (u : UnionExpr) (mid : List Token) (us : List UnionExpr),
        parseUnion fuel (ts ++ rest) = .ok (u, mid) ∧ (∀ ts', mid ≠ .comma :: .ellipsis :: ts') ∧
        parseArgs fuel inTuple mid = .ok (us, rest) ∧ as = u.ty :: argTys us
  | .inTuple, ts, as => ∀ fuel rest, 4 * ts.length ≤ fuel + 1 → Nonterminal.inTuple.EndsAt rest →
      ∃ e, parseBracketed fuel "tuple" (ts ++ rest) = .ok (e, rest) ∧ as = [e.ty]

section Phrases

variable {us : List Token} {t : Ty} {as : List Ty}

theorem Nonterminal.endsAt_cons {n : Nonterminal} {u : Token} (h : u ∉ n.goesOn) :
    n.EndsAt (u :: rest) := by
  intro t ht
  obtain rfl : u = t := by simpa using ht
  exact h

theorem Nonterminal.EndsAt.head_ne {n : Nonterminal} {u : Token} (h : n.EndsAt rest)
    (hu : u ∈ n.goesOn) : rest.head? ≠ some u :=
  fun hr => h u hr hu

theorem Nonterminal.EndsAt.mono {n m : Nonterminal} (h : n.EndsAt rest)
    (hs : m.goesOn ⊆ n.goesOn) : m.EndsAt rest :=
  fun t ht hm => h t ht (hs hm)

theorem isNeverWord_of_isAnyWord {s : Str} (h : isAnyWord s = true) : isNeverWord s = false := by
  simp only [isAnyWord, Bool.or_eq_true, beq_iff_eq] at h
  rcases h with rfl | rfl <;> decide

theorem reads_word {s : Str} (h : wordTy s = t) : Reads .basic [.word s] [t] := by
  intro fuel rest hf hr
  rw [List.length_singleton] at hf
  obtain ⟨f, rfl⟩ := Nat.exists_eq_add_of_le' (show 1 ≤ fuel by omega)
  refine ⟨.word s, ?_, by rw [Expr.ty, h]⟩
  by_cases hn : isNeverWord s = true
  · exact parseAlt_of_never hn
  · exact parseAlt_of_word (by simpa using hn) (hr.head_ne (by simp [Nonterminal.goesOn]))

theorem Reads.tuple (h : Reads .inTuple ts [t]) :
    Reads .basic (.word "tuple" :: .opening :: (ts ++ [.closing])) [t] := by
  intro fuel rest hf _
  simp only [List.length_cons, List.length_append, List.length_nil] at hf
  obtain ⟨f, rfl⟩ := Nat.exists_eq_add_of_le' (show 1 ≤ fuel by omega)
  obtain ⟨e, he, ht⟩ := h f (.closing :: rest) (by omega)
    (Nonterminal.endsAt_cons (by simp [Nonterminal.goesOn]))
  refine ⟨e, ?_, ht⟩
  simpa using parseAlt_of_bracketed rfl he

theorem Reads.generic {head s : Str} {v : Variant} (hn : isNeverWord head = false)
    (ht : head ≠ "tuple") (h : Reads .args (.word s :: ts) as) (hv : Denotes head as v) :
    Reads .basic (.word head :: .opening :: (.word s :: ts ++ [.closing])) [[v]] := by
  intro fuel rest hf _
  simp only [List.length_cons, List.length_append, List.length_nil] at hf
  obtain ⟨f, rfl⟩ : ∃ f, fuel = f + 1 + 1 := ⟨fuel - 2, by omega⟩
  obtain ⟨u, mid, us, hu, hm, hus, rfl⟩ := h f (head == "tuple") (.closing :: rest)
    (by simp only [List.length_cons]; omega)
    (Nonterminal.endsAt_cons (by simp [Nonterminal.goesOn]))
  refine ⟨.generic head (u :: us), ?_, ?_⟩
  · have hb := parseBracketed_of_args hu hm hus
    simpa using parseAlt_of_bracketed hn hb
  · rw [Expr.ty, argTys, ← genericVariant_of_denotes hv ht]
    rfl

theorem reads_emptyTuple : Reads .inTuple [.unit] [[.tuple [] false]] := by
  intro fuel rest hf _
  rw [List.length_singleton] at hf
  obtain ⟨f, rfl⟩ := Nat.exists_eq_add_of_le' (show 1 ≤ fuel by omega)
  exact ⟨.emptyTuple, parseBracketed_of_unit, rfl⟩

theorem Reads.manyTuple {s : Str} (h : Reads .union (.word s :: ts) [t]) :
    Reads .inTuple (.word s :: ts ++ [.comma, .ellipsis]) [Ty.tupleOf t] := by
  intro fuel rest hf _
  simp only [List.length_cons, List.length_append, List.length_nil] at hf
  obtain ⟨f, rfl⟩ := Nat.exists_eq_add_of_le' (show 1 ≤ fuel by omega)
  obtain ⟨u, hu, ht⟩ := h f (.comma :: .ellipsis :: rest)
    (by simp only [List.length_cons]; omega)
    (Nonterminal.endsAt_cons (by simp [Nonterminal.goesOn]))
  obtain rfl : t = u.ty := by simpa using ht
  refine ⟨.manyTuple u, ?_, rfl⟩
  simpa using parseBracketed_of_ellipsis hu

theorem Reads.fixedTuple {s : Str} (h : Reads .args (.word s :: ts) as) :
    Reads .inTuple (.word s :: ts) [[.tuple as false]] := by
  intro fuel rest hf hr
  simp only [List.length_cons] at hf
  obtain ⟨f, rfl⟩ := Nat.exists_eq_add_of_le' (show 1 ≤ fuel by omega)
  obtain ⟨u, mid, us, hu, hm, hus, rfl⟩ := h f ("tuple" == "tuple") rest
    (by simp only [List.length_cons]; omega) hr
  exact ⟨.generic "tuple" (u :: us), parseBracketed_of_args hu hm hus, rfl⟩

theorem Reads.lastArg {s : Str} (h : Reads .union (.word s :: ts) [t]) :
    Reads .args (.word s :: ts) [t] := by
  intro fuel inTuple rest hf hr
  obtain ⟨u, hu, ht⟩ := h fuel rest hf (hr.mono (by simp [Nonterminal.goesOn]))
  simp only [List.length_cons] at hf
  obtain ⟨f, rfl⟩ := Nat.exists_eq_add_of_le' (show 1 ≤ fuel by omega)
  have hend : rest.head? ≠ some .comma := hr.head_ne (by simp [Nonterminal.goesOn])
  refine ⟨u, rest, [], hu, ?_, parseArgs_of_end hend, ht⟩
  rintro ts' rfl
  exact hend rfl

theorem Reads.arg {s : Str} (h : Reads .union ts [t]) (hs : Reads .args (.word s :: us) as) :
    Reads .args (ts ++ .comma :: .word s :: us) (t :: as) := by
  intro fuel inTuple rest hf hr
  simp only [List.length_cons, List.length_append] at hf
  obtain ⟨f, rfl⟩ := Nat.exists_eq_add_of_le' (show 1 ≤ fuel by omega)
  obtain ⟨u, hu, ht⟩ := h (f + 1) (.comma :: .word s :: us ++ rest) (by omega)
    (Nonterminal.endsAt_cons (by simp [Nonterminal.goesOn]))
  obtain ⟨u', mid, us', hu', -, hus', rfl⟩ := hs f inTuple rest
    (by simp only [List.length_cons]; omega) hr
  obtain rfl : t = u.ty := by simpa using ht
  refine ⟨u, .comma :: .word s :: us ++ rest, u' :: us', ?_, by simp, ?_, rfl⟩
  · rw [List.append_assoc]
    exact hu
  · exact parseArgs_of_comma hu' hus'

theorem Reads.union (h : Reads .alts ts as) : Reads .union ts [Ty.unions as] := by
  intro fuel rest hf hr
  obtain ⟨u, hu, rfl⟩ := h fuel rest hf hr
  exact ⟨u, hu, rfl⟩

theorem Reads.lastAlt {s : Str} (h : Reads .basic (.word s :: ts) [t]) :
    Reads .alts (.word s :: ts) [t] := by
  intro fuel rest hf hr
  simp only [List.length_cons] at hf
  obtain ⟨f, rfl⟩ : ∃ f, fuel = f + 1 + 1 := ⟨fuel - 2, by omega⟩
  obtain ⟨e, he, ht⟩ := h (f + 1) rest (by simp only [List.length_cons]; omega)
    (hr.mono (by simp [Nonterminal.goesOn]))
  have hend : rest.head? ≠ some .bar := hr.head_ne (by simp [Nonterminal.goesOn])
  exact ⟨[e], parseUnion_of_alts he (parseAlts_of_end hend), ht⟩

theorem Reads.alt (h : Reads .basic ts [t]) (hs : Reads .alts us as) :
    Reads .alts (ts ++ .bar :: us) (t :: as) := by
  intro fuel rest hf hr
  simp only [List.length_cons, List.length_append] at hf
  obtain ⟨f, rfl⟩ := Nat.exists_eq_add_of_le' (show 1 ≤ fuel by omega)
  obtain ⟨e, he, ht⟩ := h f (.bar :: us ++ rest) (by omega)
    (Nonterminal.endsAt_cons (by simp [Nonterminal.goesOn]))
  obtain ⟨es, hes, rfl⟩ := hs f rest (by omega) hr
  obtain rfl : t = e.ty := by simpa using ht
  refine ⟨e :: es, ?_, rfl⟩
  rw [List.append_assoc]
  exact parseUnion_of_alts he (parseAlts_of_bar.trans hes)

end Phrases

/-- **A phrase is read in full**, and its tree denotes what the phrase denotes. -/
theorem Derives.reads {n : Nonterminal} {as : List Ty} (h : Derives n ts as) : Reads n ts as := by
  induction h with
  | never h => exact reads_word (by rw [wordTy, if_pos h])
  | any h => exact reads_word (by rw [wordTy, isNeverWord_of_isAnyWord h, h]; rfl)
  | name hn ha => exact reads_word (by rw [wordTy, hn, ha]; rfl)
  | tuple _ ih => exact ih.tuple
  | generic hn ht h hv ih =>
    obtain ⟨s, us, rfl⟩ := h.head_word (by simp)
    exact ih.generic hn ht hv
  | emptyTuple => exact reads_emptyTuple
  | manyTuple h ih =>
    obtain ⟨s, us, rfl⟩ := h.head_word (by simp)
    exact ih.manyTuple
  | fixedTuple h ih =>
    obtain ⟨s, us, rfl⟩ := h.head_word (by simp)
    exact ih.fixedTuple
  | lastArg h ih =>
    obtain ⟨s, us, rfl⟩ := h.head_word (by simp)
    exact ih.lastArg
  | arg _ hs ih ihs =>
    obtain ⟨s, us, rfl⟩ := hs.head_word (by simp)
    exact ih.arg ihs
  | union _ ht ih =>
    obtain rfl := collects_unions_iff.mp ht
    exact ih.union
  | lastAlt h ih =>
    obtain ⟨s, us, rfl⟩ := h.head_word (by simp)
    exact ih.lastAlt
  | alt _ _ ih ihs => exact ih.alt ihs

/-! ### Whole texts -/

theorem derives_of_parse {u : UnionExpr} (h : parse ts = .ok u) : Derives .union ts [u.ty] := by
  unfold parse at h
  split at h
  · simp at h
  · next u' hu =>
    obtain rfl := Except.ok.inj h
    obtain ⟨us, rfl, hd⟩ := parseUnion_sound hu
    rwa [List.append_nil]
  · simp at h

theorem parse_of_derives {t : Ty} (h : Derives .union ts [t]) :
    ∃ u : UnionExpr, parse ts = .ok u ∧ u.ty = t := by
  obtain ⟨u, hu, ht⟩ := h.reads (readFuel ts) [] (by unfold readFuel; omega)
    (by simp [Nonterminal.EndsAt])
  rw [List.append_nil] at hu
  obtain rfl : t = u.ty := by simpa using ht
  exact ⟨u, by simp [parse, hu], rfl⟩

/-- The type `t` is what the text `s` says: a blank text says nothing, and any other spells a union. -/
def Means (s : Str) (t : Ty) : Prop :=
  if Text.allBlank s then t = any else Spelled .union s [t]

/-- A text that spells a union is not blank. -/
theorem means_of_spelled {s : Str} {t : Ty} (h : Spelled .union s [t]) : Means s t := by
  obtain ⟨ts, hs, hd⟩ := h
  obtain ⟨w, us, rfl⟩ := hd.head_word (by simp)
  obtain ⟨c, hc, hnb⟩ := hs.exists_not_isBlank
  have hb : Text.allBlank s = false := List.all_eq_false.mpr ⟨c, hc, by simp [hnb]⟩
  rw [Means, hb, if_neg Bool.false_ne_true]
  exact ⟨_, hs, hd⟩

theorem means_of_read {s : Str} {t : Ty} (h : read s = .ok t) : Means s t := by
  unfold read parseText at h
  unfold Means
  split at h
  · next hb =>
    rw [if_pos hb]
    exact (Except.ok.inj h).symm
  · next hb =>
    rw [if_neg hb]
    split at h
    · simp at h
    · next u hu =>
      split at hu
      · simp at hu
      · next ts hts =>
        obtain rfl := Except.ok.inj h
        exact ⟨ts, spells_of_scan hts, derives_of_parse hu⟩

theorem read_of_means {s : Str} {t : Ty} (h : Means s t) : read s = .ok t := by
  unfold Means at h
  unfold read parseText
  split at h
  · next hb => rw [if_pos hb, h]
  · next hb =>
    obtain ⟨ts, hs, hd⟩ := h
    obtain ⟨u, hu, rfl⟩ := parse_of_derives hd
    rw [if_neg hb, scan_of_spells hs hd.apart]
    simp [hu]

theorem exists_fault_of_read {s : Str} (h : ∀ t, read s ≠ .ok t) :
    ∃ fault, read s = .error ⟨s, fault⟩ := by
  unfold read at *
  split
  · next hb => exact absurd (if_pos hb) (h any)
  · next hb =>
    rw [if_neg hb] at h
    split
    · exact ⟨_, rfl⟩
    · next u hu => exact absurd (by rw [hu]) (h u.ty)

/-- **Reading accepts exactly the grammar and gives what the text says**; every other text is refused,
and the refusal names it. -/
theorem read_iff_means (s : Str) :
    (∀ t, read s = .ok t ↔ Means s t) ∧
      ((∃ fault, read s = .error ⟨s, fault⟩) ↔ ∀ t, ¬ Means s t) := by
  refine ⟨fun t => ⟨means_of_read, read_of_means⟩, fun ⟨fault, hf⟩ t ht => ?_, fun h => ?_⟩
  · rw [read_of_means ht] at hf
    exact absurd hf (by simp)
  · exact exists_fault_of_read fun t ht => h t (means_of_read ht)

end ApiPage.Ty
