import ApiPage.Proofs.Ty.Parsing

/-!
# Canonical text is read back

`Ty.WellFormed` describes the types that type text can express: unions without repeats whose names
are words or generics of no known shape over the canonical text of such types. Their canonical text
spells a phrase that denotes them, and every phrase denotes such a type.
-/

namespace ApiPage

namespace Ty

/-- A word that names a type of its own. -/
def IsTypeName (s : Str) : Prop :=
  (Token.word s).Proper ∧ isNeverWord s = false ∧ isAnyWord s = false

end Ty

/-- The variants that type text can express. -/
inductive Variant.WellFormed : Variant → Prop
  | any : WellFormed .any
  | name {s : Str} (hs : Ty.IsTypeName s) : WellFormed (.name s)
  /-- A generic of no known shape, written with the canonical text of its arguments. -/
  | generic {head : Str} {args : List Ty} (hh : Ty.IsTypeName head) (ht : head ≠ "tuple")
      (hl : head = "list" → args.length ≠ 1) (hd : head = "dict" → args.length ≠ 2)
      (hne : args ≠ []) (hnodup : ∀ t ∈ args, t.Nodup) (h : ∀ t ∈ args, ∀ v ∈ t, WellFormed v) :
      WellFormed (.name (head ++ "[" ++ Text.joinWith ", " (args.map Ty.text) ++ "]"))
  | list {item : Ty} (hnodup : item.Nodup) (h : ∀ v ∈ item, WellFormed v) : WellFormed (.list item)
  | fixedTuple {elems : List Ty} (hnodup : ∀ t ∈ elems, t.Nodup)
      (h : ∀ t ∈ elems, ∀ v ∈ t, WellFormed v) : WellFormed (.tuple elems false)
  | manyTuple {item : Ty} (hnodup : item.Nodup) (h : ∀ v ∈ item, WellFormed v) :
      WellFormed (.tuple [item] true)
  | dict {key value : Ty} (hk : key.Nodup) (hkey : ∀ v ∈ key, WellFormed v) (hv : value.Nodup)
      (hvalue : ∀ v ∈ value, WellFormed v) : WellFormed (.dict key value)

namespace Ty

/-- The types that type text can express: their variants are distinct and well-formed. -/
def WellFormed (t : Ty) : Prop :=
  t.Nodup ∧ ∀ v ∈ t, v.WellFormed

/-! ### Canonical text of lists -/

theorem texts_eq_map : (ts : List Ty) → texts ts = ts.map text
  | [] => rfl
  | t :: ts => by rw [texts, List.map_cons, texts_eq_map ts]

theorem variantTexts_eq_map : (vs : List Variant) → variantTexts vs = vs.map Variant.text
  | [] => rfl
  | v :: vs => by rw [variantTexts, List.map_cons, variantTexts_eq_map vs]

theorem text_cons (v : Variant) (vs : List Variant) :
    text (v :: vs) = Text.joinWith " | " ((v :: vs).map Variant.text) := by
  rw [text, variantTexts_eq_map, List.map_cons]

theorem hasText_iff : (t : List Variant) → (hasText t = true ↔ ∀ v ∈ t, v.hasText = true)
  | [] => by simp [hasText]
  | v :: t => by simp [hasText, hasText_iff t]

theorem allHaveText_iff : (ts : List Ty) → (allHaveText ts = true ↔ ∀ t ∈ ts, hasText t = true)
  | [] => by simp [allHaveText]
  | t :: ts => by simp [allHaveText, allHaveText_iff ts]

/-! ### Canonical text spells a phrase -/

theorem Spells.string_append {a b : Str} {ts us : List Token} (ha : Spells a.toList ts)
    (hb : Spells b.toList us) : Spells (a ++ b).toList (ts ++ us) := by
  rw [Str.toList_append]
  exact ha.append hb

theorem spells_comma : Spells (Str.whole ", ").toList [.comma] := by
  have h : Spells ([] ++ (Token.comma.text.toList ++ [.char ' '])) [.comma] :=
    .token (by simp) trivial (.blank (List.forall_mem_singleton.mpr rfl))
  exact h

theorem spells_bar : Spells (Str.whole " | ").toList [.bar] := by
  have hb : ∀ b ∈ [.char ' '], CodePoint.isBlank b = true := List.forall_mem_singleton.mpr rfl
  have h : Spells ([.char ' '] ++ (Token.bar.text.toList ++ [.char ' '])) [.bar] := .token hb trivial (.blank hb)
  exact h

theorem spells_ellipsis : Spells (Str.whole "...").toList [.ellipsis] :=
  Token.Proper.spells (t := .ellipsis) trivial

theorem spells_word {s : Str} (h : (Token.word s).Proper) : Spells s.toList [.word s] :=
  h.spells

theorem spells_brackets {head s : Str} {ts : List Token} (hh : (Token.word head).Proper)
    (hs : Spells s.toList ts) :
    Spells (head ++ "[" ++ s ++ "]").toList (.word head :: .opening :: (ts ++ [.closing])) := by
  have hopen : Spells (Str.whole "[").toList [.opening] := Token.Proper.spells (t := .opening) trivial
  have hclose : Spells (Str.whole "]").toList [.closing] := Token.Proper.spells (t := .closing) trivial
  have h := (((spells_word hh).string_append hopen).string_append hs).string_append hclose
  simpa using h

theorem spelled_generic {head s : Str} {as : List Ty} {v : Variant}
    (hh : (Token.word head).Proper) (hn : isNeverWord head = false) (ht : head ≠ "tuple")
    (hs : Spelled .args s as) (hv : Denotes head as v) :
    Spelled .basic (head ++ "[" ++ s ++ "]") [[v]] := by
  obtain ⟨ts, hts, hd⟩ := hs
  exact ⟨_, spells_brackets hh hts, .generic hn ht hd hv⟩

theorem proper_tuple : (Token.word "tuple").Proper :=
  Token.proper_word 't' ['u', 'p', 'l', 'e'] rfl rfl

theorem spelled_tuple {s : Str} {t : Ty} (hs : Spelled .inTuple s [t]) :
    Spelled .basic ("tuple" ++ "[" ++ s ++ "]") [t] := by
  obtain ⟨ts, hts, hd⟩ := hs
  exact ⟨_, spells_brackets proper_tuple hts, .tuple hd⟩

/-- Arguments between commas. -/
theorem spelled_args {as : List Ty} (hne : as ≠ []) (h : ∀ t ∈ as, Spelled .union (text t) [t]) :
    Spelled .args (Text.joinWith ", " (as.map text)) as := by
  induction as with
  | nil => exact absurd rfl hne
  | cons t as ih =>
    obtain ⟨ts, hts, hd⟩ := h t List.mem_cons_self
    cases as with
    | nil => exact ⟨ts, hts, .lastArg hd⟩
    | cons u as =>
      obtain ⟨us, hus, hds⟩ := ih (by simp) fun w hw => h w (List.mem_cons_of_mem _ hw)
      refine ⟨ts ++ .comma :: us, ?_, .arg hd hds⟩
      have hjoin := (hts.string_append spells_comma).string_append hus
      rwa [List.append_assoc] at hjoin

/-- Alternatives between bars. -/
theorem spelled_alts {t : Ty} (hne : t ≠ []) (h : ∀ v ∈ t, Spelled .basic v.text [[v]]) :
    Spelled .alts (Text.joinWith " | " (t.map Variant.text)) (t.map fun v => [v]) := by
  induction t with
  | nil => exact absurd rfl hne
  | cons v t ih =>
    obtain ⟨ts, hts, hd⟩ := h v List.mem_cons_self
    cases t with
    | nil => exact ⟨ts, hts, .lastAlt hd⟩
    | cons w t =>
      obtain ⟨us, hus, hds⟩ := ih (by simp) fun x hx => h x (List.mem_cons_of_mem _ hx)
      refine ⟨ts ++ .bar :: us, ?_, .alt hd hds⟩
      have hjoin := (hts.string_append spells_bar).string_append hus
      rwa [List.append_assoc] at hjoin

theorem unions_map_singleton {t : Ty} (h : t.Nodup) : unions (t.map fun v => [v]) = t := by
  have hflat : (t.map fun v => [v]).flatten = t := by
    induction t with
    | nil => rfl
    | cons v t ih => simp [ih (List.nodup_cons.mp h).2]
  rw [unions, hflat, ofVariants_of_nodup h]

/-- The canonical text of a type spells it, if that of every variant does. -/
theorem spelled_union {t : Ty} (hnodup : t.Nodup) (h : ∀ v ∈ t, Spelled .basic v.text [[v]]) :
    Spelled .union (text t) [t] := by
  cases t with
  | nil =>
    have hp : (Token.word "Never").Proper := Token.proper_word 'N' ['e', 'v', 'e', 'r'] rfl rfl
    exact ⟨[.word "Never"], hp.spells, .union (.lastAlt (.never rfl)) (collects_unions_iff.mpr rfl)⟩
  | cons v vs =>
    obtain ⟨ts, hts, hd⟩ := spelled_alts (by simp) h
    refine ⟨ts, (text_cons v vs).symm ▸ hts, ?_⟩
    have hu := Derives.union hd (collects_unions _)
    rwa [unions_map_singleton hnodup] at hu

end Ty

namespace Variant

theorem text_list (item : Ty) : text (.list item) = "list" ++ "[" ++ Ty.text item ++ "]" := by
  rw [text]
  rfl

theorem text_dict (key value : Ty) : text (.dict key value) =
    "dict" ++ "[" ++ Text.joinWith ", " ([key, value].map Ty.text) ++ "]" := by
  rw [text]
  simp [Text.joinWith, ← Str.append_assoc]

theorem text_manyTuple (item : Ty) :
    text (.tuple [item] true) = "tuple" ++ "[" ++ (Ty.text item ++ ", " ++ "...") ++ "]" := by
  rw [text, if_pos rfl]
  apply Str.toList_injective
  simp

theorem text_fixedTuple (e : Ty) (es : List Ty) : text (.tuple (e :: es) false) =
    "tuple" ++ "[" ++ Text.joinWith ", " ((e :: es).map Ty.text) ++ "]" := by
  rw [text, Ty.texts_eq_map]
  rfl

/-- **The canonical text of a well-formed variant spells it.** -/
theorem WellFormed.spelled {v : Variant} (h : v.WellFormed) : Ty.Spelled .basic v.text [[v]] := by
  induction h with
  | any =>
    have hp : (Ty.Token.word "Any").Proper := Ty.Token.proper_word 'A' ['n', 'y'] rfl rfl
    exact ⟨_, Ty.spells_word hp, .any rfl⟩
  | name hs => exact ⟨_, Ty.spells_word hs.1, .name hs.2.1 hs.2.2⟩
  | generic hh ht hl hd hne hnodup _ ih =>
    have hargs := Ty.spelled_args hne fun t hm => Ty.spelled_union (hnodup t hm) (ih t hm)
    exact Ty.spelled_generic hh.1 hh.2.1 ht hargs (.written hh.2.2 hl hd)
  | @list item hnodup _ ih =>
    have hp : (Ty.Token.word "list").Proper := Ty.Token.proper_word 'l' ['i', 's', 't'] rfl rfl
    obtain ⟨ts, hts, hd⟩ := Ty.spelled_union hnodup ih
    rw [text_list]
    exact Ty.spelled_generic hp rfl (by decide) ⟨ts, hts, .lastArg hd⟩ .list
  | @fixedTuple elems hnodup _ ih =>
    cases elems with
    | nil =>
      have hunit : Ty.Spells (Str.whole "()").toList [.unit] := Ty.Token.Proper.spells (t := .unit) trivial
      exact Ty.spelled_tuple (s := "()") ⟨_, hunit, .emptyTuple⟩
    | cons e es =>
      obtain ⟨ts, hts, hd⟩ := Ty.spelled_args (List.cons_ne_nil e es)
        fun t hm => Ty.spelled_union (hnodup t hm) (ih t hm)
      rw [text_fixedTuple]
      exact Ty.spelled_tuple ⟨ts, hts, .fixedTuple hd⟩
  | @manyTuple item hnodup _ ih =>
    obtain ⟨ts, hts, hd⟩ := Ty.spelled_union hnodup ih
    have hmany := (hts.string_append Ty.spells_comma).string_append Ty.spells_ellipsis
    rw [List.append_assoc] at hmany
    rw [text_manyTuple]
    exact Ty.spelled_tuple ⟨_, hmany, .manyTuple hd⟩
  | @dict key value hk _ hv _ ihk ihv =>
    have hp : (Ty.Token.word "dict").Proper := Ty.Token.proper_word 'd' ['i', 'c', 't'] rfl rfl
    have hargs : Ty.Spelled .args (Text.joinWith ", " ([key, value].map Ty.text)) [key, value] := by
      refine Ty.spelled_args (by simp) fun t hm => ?_
      simp only [List.mem_cons, List.not_mem_nil, or_false] at hm
      rcases hm with rfl | rfl
      · exact Ty.spelled_union hk ihk
      · exact Ty.spelled_union hv ihv
    rw [text_dict]
    exact Ty.spelled_generic hp rfl (by decide) hargs .dict

/-- A well-formed variant has a text. -/
theorem WellFormed.hasText {v : Variant} (h : v.WellFormed) : v.hasText = true := by
  induction h with
  | any | name | generic => rfl
  | list _ _ ih => exact (Ty.hasText_iff _).mpr ih
  | @fixedTuple elems _ _ ih =>
    have hall := fun t ht => (Ty.hasText_iff t).mpr (ih t ht)
    cases elems with
    | nil => rfl
    | cons e es =>
      rw [Variant.hasText, hall e List.mem_cons_self, (Ty.allHaveText_iff es).mpr fun t ht =>
        hall t (List.mem_cons_of_mem _ ht)]
      rfl
  | manyTuple _ _ ih =>
    rw [Variant.hasText, (Ty.hasText_iff _).mpr ih]
    rfl
  | dict _ _ _ _ ihk ihv =>
    rw [Variant.hasText, (Ty.hasText_iff _).mpr ihk, (Ty.hasText_iff _).mpr ihv]
    rfl

end Variant

namespace Ty

/-! ### Phrases denote well-formed types -/

theorem wellFormed_singleton {v : Variant} (h : v.WellFormed) : WellFormed [v] := by
  refine ⟨List.pairwise_singleton _ v, fun w hw => ?_⟩
  obtain rfl := List.mem_singleton.mp hw
  exact h

theorem wellFormed_unions {ts : List Ty} (h : ∀ t ∈ ts, WellFormed t) : WellFormed (unions ts) := by
  refine ⟨nodup_unions ts, fun v hv => ?_⟩
  obtain ⟨t, ht, hvt⟩ := mem_unions.mp hv
  exact (h t ht).2 v hvt

theorem wellFormed_any : WellFormed any :=
  wellFormed_singleton .any

theorem Denotes.wellFormed {head : Str} {args : List Ty} {v : Variant}
    (h : Denotes head args v) (hp : (Token.word head).Proper) (hn : isNeverWord head = false)
    (ht : head ≠ "tuple") (hne : args ≠ []) (hargs : ∀ t ∈ args, WellFormed t) : v.WellFormed := by
  cases h with
  | any => exact .any
  | list =>
    have hitem := hargs _ List.mem_cons_self
    exact .list hitem.1 hitem.2
  | dict =>
    have hkey := hargs _ List.mem_cons_self
    have hvalue := hargs _ (List.mem_cons_of_mem _ List.mem_cons_self)
    exact .dict hkey.1 hkey.2 hvalue.1 hvalue.2
  | written ha hl hd =>
    exact .generic ⟨hp, hn, ha⟩ ht hl hd hne (fun t h => (hargs t h).1) fun t h => (hargs t h).2

theorem Derives.ne_nil {n : Nonterminal} {ts : List Token} {as : List Ty} (h : Derives n ts as) :
    as ≠ [] := by
  cases h <;> simp

/-- **Every phrase of proper words denotes well-formed types.** -/
theorem Derives.wellFormed {n : Nonterminal} {ts : List Token} {as : List Ty}
    (h : Derives n ts as) (hp : ∀ t ∈ ts, t.Proper) : ∀ t ∈ as, WellFormed t := by
  induction h with
  | never => simp [Ty.never, WellFormed]
  | any => exact List.forall_mem_singleton.mpr wellFormed_any
  | @name s hn ha =>
    have hs : IsTypeName s := ⟨hp _ List.mem_cons_self, hn, ha⟩
    exact List.forall_mem_singleton.mpr (wellFormed_singleton (.name hs))
  | tuple _ ih => exact ih fun t ht => hp t (by simp [ht])
  | generic hn ht h hv ih =>
    have hargs := ih fun t hm => hp t (by simp [hm])
    have hv := hv.wellFormed (hp _ List.mem_cons_self) hn ht h.ne_nil hargs
    exact List.forall_mem_singleton.mpr (wellFormed_singleton hv)
  | emptyTuple =>
    exact List.forall_mem_singleton.mpr (wellFormed_singleton (.fixedTuple (by simp) (by simp)))
  | manyTuple _ ih =>
    have hitem := ih (fun t ht => hp t (List.mem_append_left _ ht)) _ List.mem_cons_self
    exact List.forall_mem_singleton.mpr (wellFormed_singleton (.manyTuple hitem.1 hitem.2))
  | fixedTuple _ ih =>
    have helems := ih hp
    exact List.forall_mem_singleton.mpr (wellFormed_singleton
      (.fixedTuple (fun t h => (helems t h).1) fun t h => (helems t h).2))
  | lastArg _ ih | lastAlt _ ih => exact ih hp
  | arg _ _ ih ihs | alt _ _ ih ihs =>
    have hfirst := ih fun t ht => hp t (by simp [ht])
    have hrest := ihs fun t ht => hp t (by simp [ht])
    exact List.forall_mem_cons.mpr ⟨hfirst _ List.mem_cons_self, hrest⟩
  | union _ ht ih =>
    obtain rfl := collects_unions_iff.mp ht
    exact List.forall_mem_singleton.mpr (wellFormed_unions (ih hp))

/-! ### Reading canonical text -/

theorem read_text {t : Ty} (h : WellFormed t) : read (text t) = .ok t :=
  read_of_means (means_of_spelled (spelled_union h.1 fun v hv => (h.2 v hv).spelled))

theorem wellFormed_of_read {s : Str} {t : Ty} (h : read s = .ok t) : WellFormed t := by
  have hm := means_of_read h
  unfold Means at hm
  split at hm
  · rw [hm]
    exact wellFormed_any
  · obtain ⟨ts, hs, hd⟩ := hm
    exact hd.wellFormed hs.proper t List.mem_cons_self

/-- The well-formed types are those that are read back from their canonical text. -/
theorem wellFormed_iff_read_text {t : Ty} : WellFormed t ↔ read (text t) = .ok t :=
  ⟨read_text, wellFormed_of_read⟩

/-- **Printing and reading are inverse on the well-formed types**: each has a canonical text and is
read back from it, nothing else is ever read, canonical text tells types that were read apart, and
reading it again changes nothing. -/
theorem text_read_inverse :
    (∀ t, WellFormed t → hasText t = true ∧ read (text t) = .ok t) ∧
      (∀ s t, read s = .ok t → WellFormed t) ∧
      (∀ s s' t t', read s = .ok t → read s' = .ok t' → text t = text t' → t = t') ∧
      ∀ s t, read s = .ok t → read (text t) = .ok t := by
  refine ⟨fun t h => ⟨?_, read_text h⟩, fun s t => wellFormed_of_read, fun s s' t t' h h' he => ?_,
    fun s t h => read_text (wellFormed_of_read h)⟩
  · exact (hasText_iff t).mpr fun v hv => (h.2 v hv).hasText
  · have ht := read_text (wellFormed_of_read h)
    rw [he, read_text (wellFormed_of_read h')] at ht
    exact (Except.ok.inj ht).symm

/-- A generic of no known shape and a tuple of any number of empty tuples, read without blanks and
from their canonical text. -/
theorem text_read_inverse_seq :
    read "Seq[int,list[Never]]|tuple[tuple[()],...]" =
        .ok [.name "Seq[int, list[Never]]", .tuple [[.tuple [] false]] true] ∧
      WellFormed [.name "Seq[int, list[Never]]", .tuple [[.tuple [] false]] true] ∧
      hasText [.name "Seq[int, list[Never]]", .tuple [[.tuple [] false]] true] = true ∧
      read "Seq[int, list[Never]] | tuple[tuple[()], ...]" =
        .ok [.name "Seq[int, list[Never]]", .tuple [[.tuple [] false]] true] := by
  obtain ⟨hprint, hread, hinj, hfix⟩ := text_read_inverse
  have h : read "Seq[int,list[Never]]|tuple[tuple[()],...]" =
      .ok [.name "Seq[int, list[Never]]", .tuple [[.tuple [] false]] true] := by decide +kernel
  have hwf := hread _ _ h
  have hback := hfix _ _ h
  have hsame := hinj _ _ _ _ h hback rfl
  exact ⟨h, hsame ▸ hwf, (hprint _ hwf).1, hback⟩

end Ty

end ApiPage
