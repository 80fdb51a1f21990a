import ApiPage.Sorting

/-!
# Why a list has no order

`sort` asks its comparison about many pairs, in searches, in runs and in merges, and stops at the first
pair that has no answer. `FaultsFrom` says that a computation can end in no other way: its faults are
those of comparing two members. Every step of the sort is of that kind, and so is the whole of it.
-/

namespace ApiPage.Sorting

variable {α β γ ε : Type}

/-- Each fault of a computation is that of comparing two things of which `p` holds. -/
def FaultsFrom (less : α → α → Except ε Bool) (p : α → Prop) (x : Except ε β) : Prop :=
  ∀ fault, x = .error fault → ∃ a b, p a ∧ p b ∧ less a b = .error fault

variable {less : α → α → Except ε Bool} {p : α → Prop}

theorem FaultsFrom.ok (b : β) : FaultsFrom less p (.ok b : Except ε β) := by
  intro fault h
  cases h

theorem FaultsFrom.bind {x : Except ε β} {f : β → Except ε γ} (hx : FaultsFrom less p x)
    (hf : ∀ b, x = .ok b → FaultsFrom less p (f b)) : FaultsFrom less p (x >>= f) := by
  intro fault h
  cases x with
  | error e =>
    cases h
    exact hx _ rfl
  | ok b => exact hf b rfl fault h

theorem FaultsFrom.map {x : Except ε β} (hx : FaultsFrom less p x) (f : β → γ) :
    FaultsFrom less p (f <$> x) := by
  intro fault h
  cases x with
  | error e =>
    cases h
    exact hx _ rfl
  | ok b => cases h

theorem FaultsFrom.compare {a b : α} (ha : p a) (hb : p b) : FaultsFrom less p (less a b) :=
  fun _ h => ⟨a, b, ha, hb, h⟩

theorem forall_mem_of_perm {as bs : List α} (h : as.Perm bs) (hb : ∀ b ∈ bs, p b) : ∀ a ∈ as, p a :=
  fun a ha => hb a (h.mem_iff.mp ha)

/-! ### Searches -/

section Search

variable {upTo goesOn : Nat → Except ε Bool}

theorem halve_faults (h : ∀ i, FaultsFrom less p (upTo i)) (low high : Nat) :
    FaultsFrom less p (halve upTo low high) := by
  induction hn : high - low using Nat.strongRecOn generalizing low high with
  | ind n ih =>
    unfold halve
    by_cases hlt : low < high
    · rw [if_pos hlt]
      refine (h _).bind fun answer _ => ?_
      cases answer with
      | true => exact ih _ (by omega) _ _ rfl
      | false => exact ih _ (by omega) _ _ rfl
    · rw [if_neg hlt]
      exact .ok low

theorem stride_faults (h : ∀ d, FaultsFrom less p (goesOn d)) (limit last next : Nat) :
    FaultsFrom less p (stride goesOn limit last next) := by
  induction hn : limit - next using Nat.strongRecOn generalizing last next with
  | ind n ih =>
    unfold stride
    by_cases hlt : next < limit
    · rw [if_pos hlt]
      refine (h _).bind fun answer _ => ?_
      cases answer with
      | true => exact ih _ (by omega) _ _ rfl
      | false => exact .ok _
    · rw [if_neg hlt]
      exact .ok _

theorem reach_faults (h : ∀ i, FaultsFrom less p (upTo i)) (size start : Nat) :
    FaultsFrom less p (reach upTo size start) := by
  unfold reach
  refine (h start).bind fun answer _ => ?_
  cases answer with
  | true => exact (stride_faults (fun d => h (start - d)) _ _ _).bind fun _ _ => halve_faults h _ _
  | false =>
    have hnot : ∀ d, FaultsFrom less p ((!·) <$> upTo (start + d)) := fun d => (h (start + d)).map _
    exact (stride_faults hnot _ _ _).bind fun _ _ => halve_faults h _ _

theorem asked_faults {as : List α} {question : α → Except ε Bool}
    (h : ∀ a ∈ as, FaultsFrom less p (question a)) (i : Nat) :
    FaultsFrom less p (asked as question i) := by
  unfold asked
  cases ha : as[i]? with
  | some a => exact h a (List.mem_of_getElem? ha)
  | none => exact .ok true

end Search

variable {a : α} {as bs left right : List α}

theorem placeFor_faults (ha : p a) (has : ∀ b ∈ as, p b) : FaultsFrom less p (placeFor less a as) :=
  halve_faults (asked_faults fun b hb => .compare ha (has b hb)) _ _

theorem placeBehind_faults (ha : p a) (has : ∀ b ∈ as, p b) (start : Nat) :
    FaultsFrom less p (placeBehind less a as start) :=
  reach_faults (asked_faults fun b hb => .compare ha (has b hb)) _ _

theorem placeBefore_faults (ha : p a) (has : ∀ b ∈ as, p b) (start : Nat) :
    FaultsFrom less p (placeBefore less a as start) :=
  reach_faults (asked_faults fun b hb => (FaultsFrom.compare (has b hb) ha).map _) _ _

/-! ### Runs -/

theorem splitRun_faults {follows : α → α → Except ε Bool}
    (h : ∀ a b, p a → p b → FaultsFrom less p (follows a b)) (ha : p a) (has : ∀ b ∈ as, p b) :
    FaultsFrom less p (splitRun follows a as) := by
  induction as generalizing a with
  | nil => exact .ok _
  | cons b as ih =>
    obtain ⟨hb, has⟩ := List.forall_mem_cons.mp has
    unfold splitRun
    refine (h a b ha hb).bind fun answer _ => ?_
    cases answer with
    | true => exact (ih hb has).bind fun _ _ => .ok _
    | false => exact .ok _

theorem firstRun_faults (has : ∀ a ∈ as, p a) : FaultsFrom less p (firstRun less as) := by
  unfold firstRun
  split
  · next a b rest =>
    obtain ⟨ha, hrest⟩ := List.forall_mem_cons.mp has
    obtain ⟨hb, hrest⟩ := List.forall_mem_cons.mp hrest
    refine (FaultsFrom.compare hb ha).bind fun falls _ => ?_
    cases falls with
    | true =>
      have hrun : FaultsFrom less p (splitRun (fun x y => less y x) b rest) :=
        splitRun_faults (fun _ _ hx hy => .compare hy hx) hb hrest
      exact hrun.bind fun _ _ => .ok _
    | false =>
      have hrun : FaultsFrom less p (splitRun (fun x y => (!·) <$> less y x) b rest) :=
        splitRun_faults (fun _ _ hx hy => (FaultsFrom.compare hy hx).map _) hb hrest
      exact hrun.bind fun _ _ => .ok _
  · exact .ok _

theorem insert_faults (ha : p a) (has : ∀ b ∈ as, p b) : FaultsFrom less p (insert less as a) :=
  (placeFor_faults ha has).bind fun _ _ => .ok _

theorem insertAll_faults (has : ∀ a ∈ as, p a) (hbs : ∀ b ∈ bs, p b) :
    FaultsFrom less p (insertAll less as bs) := by
  induction bs generalizing as with
  | nil => exact .ok as
  | cons b bs ih =>
    obtain ⟨hb, hbs⟩ := List.forall_mem_cons.mp hbs
    refine (insert_faults hb has).bind fun more hmore => ih ?_ hbs
    refine forall_mem_of_perm (insert_perm less hmore) fun a ha => ?_
    rcases List.mem_append.mp ha with ha | ha
    · exact has a ha
    · exact List.mem_singleton.mp ha ▸ hb

theorem nextRun_faults (least : Nat) (has : ∀ a ∈ as, p a) :
    FaultsFrom less p (nextRun less least as) := by
  unfold nextRun
  refine (firstRun_faults has).bind fun parts hparts => ?_
  have hmem : ∀ a ∈ parts.1 ++ parts.2, p a := forall_mem_of_perm (firstRun_perm less hparts) has
  have hrun : ∀ a ∈ parts.1, p a := fun a ha => hmem a (List.mem_append_left _ ha)
  have hrest : ∀ a ∈ parts.2.take (least - parts.1.length), p a := fun a ha =>
    hmem a (List.mem_append_right _ (List.mem_of_mem_take ha))
  exact (insertAll_faults hrun hrest).bind fun _ _ => .ok _

/-! ### Merges -/

theorem Merge.step_faults {w : Way} {m : Merge α} {patience : Nat} {a b : α} {pace : Pace} (ha : p a)
    (hb : p b) (hm : ∀ x ∈ m.members, p x) : FaultsFrom less p (m.step less w patience a b pace) := by
  have hleft : ∀ x ∈ m.left, p x := fun x hx => hm x (by simp [members, hx])
  have hright : ∀ x ∈ m.right, p x := fun x hx => hm x (by simp [members, hx])
  cases pace with
  | single lefts rights =>
    refine (FaultsFrom.compare hb ha).bind fun lower _ => ?_
    by_cases hside : (lower = true) = (w = .forward)
    · rw [if_pos hside]
      exact .ok _
    · rw [if_neg hside]
      exact .ok _
  | leftStretch => exact (placeBehind_faults hb hleft _).bind fun _ _ => .ok _
  | rightMember lefts => exact .ok _
  | rightStretch lefts => exact (placeBefore_faults ha hright _).bind fun _ _ => .ok _
  | leftMember lefts rights =>
    by_cases hlong : longStretch ≤ lefts ∨ longStretch ≤ rights
    · simp only [step, if_pos hlong]
      exact .ok _
    · simp only [step, if_neg hlong]
      exact .ok _

theorem Merge.mem_of_next? {w : Way} {m : Merge α} {s : Side} {a : α} (h : m.next? w s = some a) :
    a ∈ m.members := by
  have hrest : a ∈ m.rest s := by
    cases w with
    | forward => exact List.mem_of_head? h
    | backward => exact List.mem_of_getLast? h
  cases s with
  | left => simp [members, show a ∈ m.left from hrest]
  | right => simp [members, show a ∈ m.right from hrest]

theorem Merge.run_faults {w : Way} {fuel : Nat} {pace : Pace} {patience : Nat} {m : Merge α}
    (hm : ∀ x ∈ m.members, p x) : FaultsFrom less p (m.run less w fuel pace patience) := by
  induction fuel generalizing pace patience m with
  | zero => exact .ok _
  | succ fuel ih =>
    unfold run
    split
    · next a b ha hb =>
      have hpa : p a := hm a (mem_of_next? ha)
      have hpb : p b := hm b (mem_of_next? hb)
      refine (step_faults hpa hpb hm).bind fun s _ => ?_
      simp only
      split
      · exact .ok _
      · exact ih (forall_mem_of_perm (take_perm w m s.side s.count) hm)
    · exact .ok _

theorem mergeFrom_faults (patience : Nat) (hl : ∀ x ∈ left, p x) (hr : ∀ x ∈ right, p x) :
    FaultsFrom less p (mergeFrom less patience left right) := by
  unfold mergeFrom
  simp only
  split
  · exact .ok _
  · refine Merge.run_faults (forall_mem_of_perm (Merge.take_perm _ _ _ _) ?_)
    simp only [Merge.members, List.nil_append]
    exact List.forall_mem_append.mpr ⟨hl, hr⟩

theorem mergeRuns_faults (patience : Nat) (hl : ∀ x ∈ left, p x) (hr : ∀ x ∈ right, p x) :
    FaultsFrom less p (mergeRuns less patience left right) := by
  unfold mergeRuns
  split
  · exact .ok _
  · next b rest =>
    refine (placeBehind_faults (hr b List.mem_cons_self) hl _).bind fun i _ => ?_
    split
    · exact .ok _
    · next a ha =>
      have hdrop : ∀ x ∈ left.drop i, p x := fun x hx => hl x (List.mem_of_mem_drop hx)
      refine (placeBefore_faults (hdrop a (List.mem_of_getLast? ha)) hr _).bind fun j _ => ?_
      split
      · exact .ok _
      · have htake : ∀ x ∈ (b :: rest).take j, p x := fun x hx => hr x (List.mem_of_mem_take hx)
        exact (mergeFrom_faults patience hdrop htake).bind fun _ _ => .ok _

/-! ### The sort -/

/-- All members of runs are of the kind that `p` tells. -/
def AllRuns (p : α → Prop) (runs : List (List α)) : Prop :=
  ∀ run ∈ runs, ∀ a ∈ run, p a

theorem allRuns_iff {runs : List (List α)} : AllRuns p runs ↔ ∀ a ∈ inOrder runs, p a := by
  simp only [AllRuns, inOrder, List.mem_flatten, List.mem_reverse]
  grind

theorem settle_faults {d patience : Nat} {ws : List (Waiting α)} {run : List α}
    (h : AllRuns p (run :: ws.map (·.run))) : FaultsFrom less p (settle less d patience ws run) := by
  induction ws generalizing run patience with
  | nil => exact .ok _
  | cons w ws ih =>
    obtain ⟨hrun, hws⟩ := List.forall_mem_cons.mp h
    obtain ⟨hw, hws⟩ := List.forall_mem_cons.mp hws
    unfold settle
    split
    · refine (mergeRuns_faults patience hw hrun).bind fun merged hmerged => ih ?_
      refine List.forall_mem_cons.mpr ⟨?_, hws⟩
      refine forall_mem_of_perm (mergeRuns_perm less hmerged) ?_
      exact List.forall_mem_append.mpr ⟨hw, hrun⟩
    · exact .ok _

theorem mergeAll_faults {patience : Nat} {runs : List (List α)} (h : AllRuns p runs) :
    FaultsFrom less p (mergeAll less patience runs) := by
  have hmerged : ∀ {patience : Nat} {b c : List α} {r : List α × Nat}, (∀ x ∈ b, p x) →
      (∀ x ∈ c, p x) → mergeRuns less patience b c = .ok r → ∀ x ∈ r.1, p x := fun hb hc hr =>
    forall_mem_of_perm (mergeRuns_perm less hr) (List.forall_mem_append.mpr ⟨hb, hc⟩)
  fun_induction mergeAll less patience runs with
  | case1 => exact .ok _
  | case2 => exact .ok _
  | case3 patience c b =>
    obtain ⟨hc, hb⟩ := List.forall_mem_cons.mp h
    have hb := hb b List.mem_cons_self
    exact (mergeRuns_faults patience hb hc).bind fun _ _ => .ok _
  | case4 patience c b a rest _ ih =>
    obtain ⟨hc, h⟩ := List.forall_mem_cons.mp h
    obtain ⟨hb, h⟩ := List.forall_mem_cons.mp h
    obtain ⟨ha, hrest⟩ := List.forall_mem_cons.mp h
    refine (mergeRuns_faults patience ha hb).bind fun r hr => ih _ _ ?_
    exact List.forall_mem_cons.mpr ⟨hc, List.forall_mem_cons.mpr ⟨hmerged ha hb hr, hrest⟩⟩
  | case5 patience c b a rest _ ih =>
    obtain ⟨hc, h⟩ := List.forall_mem_cons.mp h
    obtain ⟨hb, h⟩ := List.forall_mem_cons.mp h
    refine (mergeRuns_faults patience hb hc).bind fun r hr => ih _ _ ?_
    exact List.forall_mem_cons.mpr ⟨hmerged hb hc hr, h⟩

theorem sortFrom_faults {least size fuel start : Nat} {ws : List (Waiting α)} {run : List α}
    {patience : Nat} {rest : List α} (h : AllRuns p (rest :: run :: ws.map (·.run))) :
    FaultsFrom less p (sortFrom less least size fuel start ws run patience rest) := by
  induction fuel generalizing start ws run patience rest with
  | zero =>
    cases rest with
    | nil => exact mergeAll_faults (List.forall_mem_cons.mp h).2
    | cons b bs => exact mergeAll_faults h
  | succ fuel ih =>
    obtain ⟨hrest, hruns⟩ := List.forall_mem_cons.mp h
    cases rest with
    | nil => exact mergeAll_faults hruns
    | cons b bs =>
      unfold sortFrom
      refine (nextRun_faults least hrest).bind fun parts hparts => ?_
      have hnext : ∀ a ∈ parts.1 ++ parts.2, p a := forall_mem_of_perm (nextRun_perm less hparts) hrest
      refine (settle_faults hruns).bind fun settled hsettled => ih ?_
      have hall : AllRuns p (settled.2.1 :: settled.1.map (·.run)) := by
        rw [allRuns_iff]
        exact forall_mem_of_perm (settle_perm less hsettled) (allRuns_iff.mp hruns)
      refine List.forall_mem_cons.mpr ⟨fun a ha => hnext a (List.mem_append_right _ ha), ?_⟩
      exact List.forall_mem_cons.mpr ⟨fun a ha => hnext a (List.mem_append_left _ ha), hall⟩

/-- **A list has no order only where two of its members have none.** -/
theorem sort_faults {fault : ε} (h : sort less as = .error fault) :
    ∃ a ∈ as, ∃ b ∈ as, less a b = .error fault := by
  have hsort : FaultsFrom less (· ∈ as) (sort less as) := by
    refine (nextRun_faults _ fun a ha => ha).bind fun parts hparts => ?_
    have hmem : ∀ a, a ∈ parts.1 ++ parts.2 ↔ a ∈ as := fun a =>
      (nextRun_perm less hparts).mem_iff
    refine sortFrom_faults (List.forall_mem_cons.mpr ⟨?_, List.forall_mem_singleton.mpr ?_⟩)
    · exact fun a ha => (hmem a).mp (List.mem_append_right _ ha)
    · exact fun a ha => (hmem a).mp (List.mem_append_left _ ha)
  obtain ⟨a, b, ha, hb, hfault⟩ := hsort fault h
  exact ⟨a, ha, b, hb, hfault⟩

end ApiPage.Sorting
