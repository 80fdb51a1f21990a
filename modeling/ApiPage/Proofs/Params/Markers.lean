import ApiPage.Item.Params
import ApiPage.Proofs.Item.Reading

/-!
# Where the markers of a declaration stand

A lone star is laid out once, in front of the first parameter that is bound by name only, unless the
parameters behind an `*args` are announced by it. A slash is laid out behind every run of parameters that are
bound by position only; so it stands once, behind the last of them, exactly where they stand together.
-/

namespace ApiPage

/-- The kind of the parameter at a place, none at a marker. -/
def Entry.kind? (e : Entry) : Option ParamKind :=
  (Params.param? e).map (·.kind)

namespace Params

variable {announced : Bool} {ps : List Param} {p : Param} {e : Entry} {es front : List Entry}

/-! ### Where markers belong -/

/-- A slash stands once, right behind the last parameter that is bound by position only, and nowhere if there
is no such parameter. -/
inductive SlashPlaced : List Entry → Prop
  | absent {es : List Entry} (params : ∀ e ∈ es, e.kind? ≠ some .positional)
      (markers : Entry.slash ∉ es) : SlashPlaced es
  | behind (before : List Entry) {after : List Entry} {p : Param} (kind : p.kind = .positional)
      (last : ∀ e ∈ after, e.kind? ≠ some .positional)
      (markers : Entry.slash ∉ before ∧ Entry.slash ∉ after) :
      SlashPlaced (before ++ .param p :: .slash :: after)

/-- A lone star stands once, right before the first parameter that is bound by name only, and nowhere if there
is no such parameter or a parameter that takes all further positions comes before it. -/
inductive StarPlaced : List Entry → Prop
  | absent {es : List Entry} (params : ∀ e ∈ es, e.kind? ≠ some .keyword)
      (markers : Entry.star ∉ es) : StarPlaced es
  | opened {before after : List Entry} {p : Param} (kind : p.kind = .args)
      (params : ∀ e ∈ before, e.kind? ≠ some .keyword)
      (markers : Entry.star ∉ before ∧ Entry.star ∉ after) :
      StarPlaced (before ++ .param p :: after)
  | before {before after : List Entry} {p : Param} (kind : p.kind = .keyword)
      (first : ∀ e ∈ before, e.kind? ≠ some .keyword ∧ e.kind? ≠ some .args)
      (markers : Entry.star ∉ before ∧ Entry.star ∉ after) :
      StarPlaced (before ++ .star :: .param p :: after)

/-- The parameters that are bound by position only stand together. -/
inductive Together : List Param → Prop
  | intro (before run after : List Param) (within : ∀ p ∈ run, p.kind = .positional)
      (outside : ∀ p ∈ before ++ after, p.kind ≠ .positional) : Together (before ++ (run ++ after))

/-! ### Places and parameters -/

theorem kind?_ne_of_forall {k : ParamKind} (h : ∀ p ∈ ps, p.kind ≠ k) :
    ∀ e ∈ entriesFrom announced ps, e.kind? ≠ some k := by
  intro e he hk
  obtain ⟨p, hp, hpk⟩ := Option.map_eq_some_iff.mp hk
  exact h p (mem_of_param? he hp) hpk

/-! ### Layout of one parameter -/

/-- Within a run of parameters that are bound by position only there is no slash. -/
theorem entriesFrom_within (hk : p.kind = .positional) (hnext : startsPositional ps = true) :
    entriesFrom announced (p :: ps) = .param p :: entriesFrom announced ps := by
  simp [entriesFrom, hk, hnext]

/-- A slash ends a run of parameters that are bound by position only. -/
theorem entriesFrom_end (hk : p.kind = .positional) (hnext : startsPositional ps = false) :
    entriesFrom announced (p :: ps) = .param p :: .slash :: entriesFrom announced ps := by
  simp [entriesFrom, hk, hnext]

/-- The star in front of a parameter that is the first to be bound by name only. -/
def starBefore (announced : Bool) (p : Param) : List Entry :=
  if p.kind = .keyword ∧ announced = false then [.star] else []

theorem eq_star_of_mem (he : e ∈ starBefore announced p) : e = .star := by
  unfold starBefore at he
  split at he <;> simp_all

/-- No slash stands at a parameter of another kind. -/
theorem entriesFrom_of_ne (announced : Bool) (hk : p.kind ≠ .positional) (ps : List Param) :
    entriesFrom announced (p :: ps) = starBefore announced p ++
      .param p :: entriesFrom (announced || p.kind = .keyword || p.kind = .args) ps := by
  rw [entriesFrom, if_neg fun h : p.kind = .positional ∧ _ => hk h.1]
  rfl

/-! ### The star -/

/-- What has been announced is not announced again. -/
theorem star_not_mem_entriesFrom (ps : List Param) : Entry.star ∉ entriesFrom true ps := by
  induction ps with
  | nil => simp [entriesFrom]
  | cons p ps ih =>
    simp only [entriesFrom, Bool.true_or, List.mem_append, List.mem_cons, not_or]
    refine ⟨by simp, by simp, ?_, ih⟩
    split <;> simp

/-- Places in front that do not open the parameters bound by name do not move the star. -/
theorem StarPlaced.append (h : StarPlaced es) (hkinds : ∀ e ∈ front, e.kind? ≠ some .keyword ∧ e.kind? ≠ some .args)
    (hmarkers : Entry.star ∉ front) : StarPlaced (front ++ es) := by
  cases h with
  | absent params markers =>
    refine .absent (List.forall_mem_append.mpr ⟨fun e he => (hkinds e he).1, params⟩) ?_
    simp [hmarkers, markers]
  | @opened before after p kind params markers =>
    rw [← List.append_assoc]
    refine .opened kind (List.forall_mem_append.mpr ⟨fun e he => (hkinds e he).1, params⟩) ⟨?_, markers.2⟩
    simp [hmarkers, markers.1]
  | @before before after p kind first markers =>
    rw [← List.append_assoc]
    refine .before kind (List.forall_mem_append.mpr ⟨hkinds, first⟩) ⟨?_, markers.2⟩
    simp [hmarkers, markers.1]

/-- A parameter that does not open those bound by name is laid out without a star. -/
theorem exists_front (hkeyword : p.kind ≠ .keyword) (hargs : p.kind ≠ .args) (ps : List Param) :
    ∃ front, entriesFrom announced (p :: ps) = front ++ entriesFrom announced ps ∧
      (∀ e ∈ front, e.kind? ≠ some .keyword ∧ e.kind? ≠ some .args) ∧ Entry.star ∉ front := by
  by_cases hk : p.kind = .positional
  · cases hnext : startsPositional ps with
    | true => exact ⟨[.param p], entriesFrom_within hk hnext, by simp [Entry.kind?, param?, hk], by simp⟩
    | false => exact ⟨[.param p, .slash], entriesFrom_end hk hnext, by simp [Entry.kind?, param?, hk], by simp⟩
  · refine ⟨[.param p], ?_, by simp [Entry.kind?, param?, hkeyword, hargs], by simp⟩
    simp [entriesFrom_of_ne announced hk, starBefore, hkeyword, hargs]

/-- As long as nothing is announced, the star is where it belongs in what follows; the first parameter that opens
those bound by name settles it, since it announces them. -/
theorem starPlaced_entries (ps : List Param) : StarPlaced (entries ps) := by
  unfold entries
  induction ps with
  | nil => exact .absent (by simp [entriesFrom]) (by simp [entriesFrom])
  | cons p ps ih =>
    by_cases hkeyword : p.kind = .keyword
    · have hcons : entriesFrom false (p :: ps) = [] ++ .star :: .param p :: entriesFrom true ps := by
        simp [entriesFrom, hkeyword]
      rw [hcons]
      exact .before hkeyword (by simp) ⟨by simp, star_not_mem_entriesFrom ps⟩
    by_cases hargs : p.kind = .args
    · have hcons : entriesFrom false (p :: ps) = [] ++ .param p :: entriesFrom true ps := by
        simp [entriesFrom, hargs]
      rw [hcons]
      exact .opened hargs (by simp) ⟨by simp, star_not_mem_entriesFrom ps⟩
    obtain ⟨front, hcons, hkinds, hmarkers⟩ := exists_front hkeyword hargs ps
    rw [hcons]
    exact ih.append hkinds hmarkers

/-! ### The slash -/

theorem startsPositional_eq_true :
    startsPositional ps = true ↔ ∃ p rest, ps = p :: rest ∧ p.kind = .positional := by
  cases ps <;> simp [startsPositional]

/-- A slash is laid out just where a parameter is bound by position only. -/
theorem slash_mem_entriesFrom :
    Entry.slash ∈ entriesFrom announced ps ↔ ∃ p ∈ ps, p.kind = .positional := by
  induction ps generalizing announced with
  | nil => simp [entriesFrom]
  | cons p ps ih =>
    by_cases hk : p.kind = .positional
    · refine iff_of_true ?_ ⟨p, List.mem_cons_self, hk⟩
      cases hnext : startsPositional ps with
      | true =>
        obtain ⟨q, rest, rfl, hq⟩ := startsPositional_eq_true.mp hnext
        rw [entriesFrom_within hk hnext]
        exact List.mem_cons_of_mem _ (ih.mpr ⟨q, List.mem_cons_self, hq⟩)
      | false =>
        rw [entriesFrom_end hk hnext]
        exact List.mem_cons_of_mem _ List.mem_cons_self
    · have hslash : Entry.slash ∉ starBefore announced p := fun h => nomatch eq_star_of_mem h
      rw [entriesFrom_of_ne announced hk, List.mem_append, List.mem_cons, ih]
      simp [hslash, hk]

/-- Places in front do not move the slash if there is one, or if there is nothing among them to close. -/
theorem SlashPlaced.append (h : SlashPlaced es) (front : List Entry) (hmarkers : Entry.slash ∉ front)
    (hclosed : Entry.slash ∈ es ∨ ∀ e ∈ front, e.kind? ≠ some .positional) : SlashPlaced (front ++ es) := by
  cases h with
  | absent params markers =>
    have hfront : ∀ e ∈ front, e.kind? ≠ some .positional := hclosed.resolve_left markers
    refine .absent (List.forall_mem_append.mpr ⟨hfront, params⟩) ?_
    simp [hmarkers, markers]
  | @behind before after p kind last markers =>
    rw [← List.append_assoc]
    refine .behind _ kind last ⟨?_, markers.2⟩
    simp [hmarkers, markers.1]

theorem SlashPlaced.count_le (h : SlashPlaced es) : es.count .slash ≤ 1 := by
  cases h with
  | absent params markers => simp [List.count_eq_zero.mpr markers]
  | behind before kind last markers =>
    simp [List.count_append, List.count_eq_zero.mpr markers.1, List.count_eq_zero.mpr markers.2]

/-- One slash is enough only for one run. -/
theorem together_of_count (h : (entriesFrom announced ps).count .slash ≤ 1) : Together ps := by
  induction ps generalizing announced with
  | nil => exact .intro [] [] [] (by simp) (by simp)
  | cons p ps ih =>
    by_cases hk : p.kind = .positional
    · cases hnext : startsPositional ps with
      | true =>
        rw [entriesFrom_within hk hnext, List.count_cons_of_ne (by simp)] at h
        obtain ⟨q, rest, hps, hq⟩ := startsPositional_eq_true.mp hnext
        cases ih h with
        | intro before run after within outside =>
        -- The next parameter is one of the run, so nothing stands between.
        cases before with
        | nil => exact .intro [] (p :: run) after (by simpa [hk] using within) outside
        | cons r before =>
          obtain rfl : r = q := (List.cons_eq_cons.mp hps).1
          exact absurd hq (outside r (by simp))
      | false =>
        -- The one slash is spent here, so none is left for a second run.
        rw [entriesFrom_end hk hnext, List.count_cons_of_ne (by simp), List.count_cons_self] at h
        have hslash : Entry.slash ∉ entriesFrom announced ps := List.count_eq_zero.mp (by omega)
        have hnone : ∀ q ∈ ps, q.kind ≠ .positional := fun q hq hqk =>
          hslash (slash_mem_entriesFrom.mpr ⟨q, hq, hqk⟩)
        exact .intro [] [p] ps (by simpa using hk) hnone
    · rw [entriesFrom_of_ne announced hk, List.count_append, List.count_cons_of_ne (by simp)] at h
      cases ih (Nat.le_trans (Nat.le_add_left ..) h) with
      | intro before run after within outside =>
      exact .intro (p :: before) run after within (by simpa [hk] using outside)

theorem slashPlaced_of_none (h : ∀ p ∈ ps, p.kind ≠ .positional) : SlashPlaced (entriesFrom announced ps) := by
  refine .absent (kind?_ne_of_forall h) fun hslash => ?_
  obtain ⟨p, hp, hk⟩ := slash_mem_entriesFrom.mp hslash
  exact h p hp hk

/-- A run of parameters that are bound by position only, and others behind it. -/
theorem slashPlaced_of_run {run after : List Param} (within : ∀ p ∈ run, p.kind = .positional)
    (outside : ∀ p ∈ after, p.kind ≠ .positional) : SlashPlaced (entriesFrom announced (run ++ after)) := by
  induction run with
  | nil => exact slashPlaced_of_none outside
  | cons p run ih =>
    obtain ⟨hk, hrun⟩ := List.forall_mem_cons.mp within
    cases run with
    | nil =>
      have hnext : startsPositional after = false := by
        rw [Bool.eq_false_iff, Ne, startsPositional_eq_true]
        rintro ⟨q, rest, rfl, hq⟩
        exact outside q List.mem_cons_self hq
      rw [List.singleton_append, entriesFrom_end hk hnext]
      refine .behind [] hk (kind?_ne_of_forall outside) ⟨by simp, fun hslash => ?_⟩
      obtain ⟨q, hq, hqk⟩ := slash_mem_entriesFrom.mp hslash
      exact outside q hq hqk
    | cons q run =>
      have hq : q.kind = .positional := hrun q List.mem_cons_self
      have hnext : startsPositional (q :: run ++ after) = true := startsPositional_eq_true.mpr ⟨q, _, rfl, hq⟩
      rw [List.cons_append, entriesFrom_within hk hnext]
      refine (ih hrun).append [.param p] (by simp) (.inl ?_)
      exact slash_mem_entriesFrom.mpr ⟨q, List.mem_cons_self, hq⟩

theorem slashPlaced_of_together (h : Together ps) : SlashPlaced (entriesFrom announced ps) := by
  obtain ⟨before, run, after, within, outside⟩ := h
  induction before generalizing announced with
  | nil =>
    rw [List.nil_append]
    exact slashPlaced_of_run within outside
  | cons p before ih =>
    obtain ⟨hk, houtside⟩ := List.forall_mem_cons.mp outside
    have hfront : ∀ e ∈ starBefore announced p ++ [.param p], e.kind? ≠ some .positional ∧ e ≠ Entry.slash := by
      intro e he
      rcases List.mem_append.mp he with he | he
      · simp [eq_star_of_mem he, Entry.kind?, param?]
      · obtain rfl := List.mem_singleton.mp he
        simp [Entry.kind?, param?, hk]
    rw [List.cons_append, entriesFrom_of_ne announced hk, List.append_cons]
    exact (ih houtside).append _ (fun hslash => (hfront _ hslash).2 rfl) (.inr fun e he => (hfront e he).1)

/-! ### Both markers -/

/-- **Where the markers of a declaration stand.** The places of any list of parameters are the parameters in
order and markers. A lone star stands where it belongs in every list; the slash does exactly in the lists in which
the parameters bound by position only stand together. -/
theorem markers_placed (ps : List Param) : (entries ps).filterMap param? = ps ∧ StarPlaced (entries ps) ∧
    (SlashPlaced (entries ps) ↔ Together ps) :=
  ⟨filterMap_entriesFrom false ps, starPlaced_entries ps,
    fun h => together_of_count h.count_le, slashPlaced_of_together⟩

namespace Interleaved

/-- A function with a parameter of another kind between two that are bound by position only. -/
def doc : Entries :=
  [(.text "kind", .text "function"), (.text "params", .list
    [.map [(.text "name", .text "a"), (.text "kind", .text "positional")],
      .map [(.text "name", .text "b")],
      .map [(.text "name", .text "c"), (.text "kind", .text "positional")]])]

def params : List Param :=
  [{ name := "a", kind := .positional }, { name := "b" }, { name := "c", kind := .positional }]

end Interleaved

open Interleaved in
/-- A list that is read from a document and in which a slash stands behind the first of two parameters that are
bound by position only. -/
theorem not_slashPlaced_interleaved : readItem {} doc = .ok (.function { params }) ∧
    inlineText params = "a, /, b, c, /" ∧ ¬ SlashPlaced (entries params) := by
  have hread : readItem {} doc = .ok (.function { params }) :=
    (Reading.item_function_eq_ok rfl).mpr ⟨{ params }, rfl, rfl⟩
  refine ⟨hread, by decide +kernel, fun h => ?_⟩
  have hcount : (entries params).count .slash = 2 := by decide +kernel
  have := h.count_le
  omega

end Params

end ApiPage
