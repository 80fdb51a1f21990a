import ApiPage.Sorting.Merge

/-!
# Sorting by a comparison that may fail

`sort` orders a list by a comparison that may refuse to tell which of two members is less; then the
list has no order, for the reason that the first refusal gives. It takes one run after another from the
front and merges neighbouring runs as soon as the balance of the merges asks for it. Where the
comparison is no order at all, the result is still the members of the list, each as often as before.
-/

namespace ApiPage.Sorting

variable {α ε : Type}

/-- A run that waits for the one behind it, and the depth of the border between the two. -/
structure Waiting (α : Type) where
  run : List α
  depth : Nat

/-- The depth of the border between two neighbouring runs: how often a list of `size` places is to be
halved until the middles of the runs are apart. -/
def depth (size start left right : Nat) : Nat :=
  let a := 2 * start + left
  let b := a + left + right
  (((List.range (size + 1)).find? fun k => (a <<< k) / size != (b <<< k) / size).getD size) + 1

variable (less : α → α → Except ε Bool)

/-- A run merged with those before it whose borders lie deeper than a depth; and the runs that wait
still. -/
def settle (depth patience : Nat) : List (Waiting α) → List α →
    Except ε (List (Waiting α) × List α × Nat)
  | [], run => .ok ([], run, patience)
  | w :: ws, run =>
    if depth < w.depth then do
      let (run, patience) ← mergeRuns less patience w.run run
      settle depth patience ws run
    else .ok (w :: ws, run, patience)

/-- All runs as one, the last run first; of three the outer ones are compared, and the middle one is
merged with the shorter. -/
def mergeAll (patience : Nat) : List (List α) → Except ε (List α)
  | [] => .ok []
  | [run] => .ok run
  | [c, b] => do
    let (run, _) ← mergeRuns less patience b c
    .ok run
  | c :: b :: a :: rest =>
    if a.length < c.length then do
      let (run, patience) ← mergeRuns less patience a b
      mergeAll patience (c :: run :: rest)
    else do
      let (run, patience) ← mergeRuns less patience b c
      mergeAll patience (run :: a :: rest)
termination_by runs => runs.length

/-- Sorts what follows a run at the place `start`, the runs before it waiting. -/
def sortFrom (least size : Nat) : Nat → Nat → List (Waiting α) → List α → Nat → List α →
    Except ε (List α)
  | _, _, waiting, run, patience, [] => mergeAll less patience (run :: waiting.map (·.run))
  | 0, _, waiting, run, patience, rest => mergeAll less patience (rest :: run :: waiting.map (·.run))
  | fuel + 1, start, waiting, run, patience, rest => do
    let (next, rest) ← nextRun less least rest
    let d := depth size start run.length next.length
    let (waiting, merged, patience) ← settle less d patience waiting run
    sortFrom least size fuel (start + run.length) (⟨merged, d⟩ :: waiting) next patience rest

/-- A list in order. -/
def sort (as : List α) : Except ε (List α) := do
  let least := leastRun as.length
  let (run, rest) ← nextRun less least as
  sortFrom less least as.length as.length 0 [] run longStretch rest

/-! ### Nothing is lost -/

/-- The members of runs that are listed from the last one on. -/
def inOrder (runs : List (List α)) : List α := runs.reverse.flatten

@[simp] theorem inOrder_cons (run : List α) (runs : List (List α)) :
    inOrder (run :: runs) = inOrder runs ++ run := by
  simp [inOrder]

theorem settle_perm {d patience : Nat} {ws : List (Waiting α)} {run : List α}
    {r : List (Waiting α) × List α × Nat} (h : settle less d patience ws run = .ok r) :
    (inOrder (r.2.1 :: r.1.map (·.run))).Perm (inOrder (run :: ws.map (·.run))) := by
  induction ws generalizing run patience with
  | nil => cases h; exact .rfl
  | cons w ws ih =>
    unfold settle at h
    split at h
    · obtain ⟨more, hm, h⟩ := bind_eq_ok.1 h
      refine (ih h).trans ?_
      simpa using (mergeRuns_perm less hm).append_left _
    · cases h; exact .rfl

theorem mergeAll_perm {patience : Nat} {runs : List (List α)} {as : List α}
    (h : mergeAll less patience runs = .ok as) : as.Perm (inOrder runs) := by
  fun_induction mergeAll less patience runs with
  | case1 => cases h; exact .rfl
  | case2 => cases h; simp [inOrder]
  | case3 patience c b =>
    obtain ⟨more, hm, h⟩ := bind_eq_ok.1 h
    cases h
    simpa [inOrder] using mergeRuns_perm less hm
  | case4 patience c b a rest _ ih =>
    obtain ⟨more, hm, h⟩ := bind_eq_ok.1 h
    refine (ih _ _ h).trans ?_
    simpa using ((mergeRuns_perm less hm).append_right c).append_left (inOrder rest)
  | case5 patience c b a rest _ ih =>
    obtain ⟨more, hm, h⟩ := bind_eq_ok.1 h
    refine (ih _ _ h).trans ?_
    simpa using (mergeRuns_perm less hm).append_left (inOrder rest ++ a)

theorem sortFrom_perm {least size fuel start : Nat} {ws : List (Waiting α)} {run : List α}
    {patience : Nat} {rest as : List α}
    (h : sortFrom less least size fuel start ws run patience rest = .ok as) :
    as.Perm (inOrder (rest :: run :: ws.map (·.run))) := by
  induction fuel generalizing start ws run patience rest with
  | zero =>
    cases rest with
    | nil => simpa [inOrder] using mergeAll_perm less h
    | cons b bs => exact mergeAll_perm less h
  | succ fuel ih =>
    cases rest with
    | nil => simpa [inOrder] using mergeAll_perm less h
    | cons b bs =>
      unfold sortFrom at h
      obtain ⟨parts, hp, h⟩ := bind_eq_ok.1 h
      obtain ⟨settled, hs, h⟩ := bind_eq_ok.1 h
      have hs := settle_perm less hs
      have hp := nextRun_perm less hp
      refine (ih h).trans ?_
      simpa using hs.append hp

/-- Sorting loses nothing and adds nothing. -/
theorem sort_perm {as bs : List α} (h : sort less as = .ok bs) : bs.Perm as := by
  obtain ⟨parts, hp, h⟩ := bind_eq_ok.1 h
  refine (sortFrom_perm less h).trans ?_
  simpa [inOrder] using nextRun_perm less hp

end ApiPage.Sorting
