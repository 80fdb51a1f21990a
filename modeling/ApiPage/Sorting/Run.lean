import ApiPage.Results
import ApiPage.Sorting.Search

/-!
# Runs

A run is a part of a list that is in order already. `nextRun` takes the run at the front of a list and
makes it longer, one member at a time, while it is shorter than a run should be; nothing is lost.
-/

namespace ApiPage.Sorting

variable {α ε : Type}

/-- The members at the front of a list that follow one another, the first of them following `a`, and
the rest. -/
def splitRun (follows : α → α → Except ε Bool) : α → List α → Except ε (List α × List α)
  | _, [] => .ok ([], [])
  | a, b :: rest => do
    if ← follows a b then
      let (run, rest) ← splitRun follows b rest
      .ok (b :: run, rest)
    else .ok ([], b :: rest)

theorem splitRun_append {follows : α → α → Except ε Bool} {a : α} {as : List α}
    {parts : List α × List α} (h : splitRun follows a as = .ok parts) :
    parts.1 ++ parts.2 = as := by
  induction as generalizing a parts with
  | nil => cases h; rfl
  | cons b as ih =>
    obtain ⟨yes, -, h⟩ := bind_eq_ok.1 h
    split at h
    · obtain ⟨more, hm, h⟩ := bind_eq_ok.1 h
      cases h
      simp [ih hm]
    · cases h
      rfl

variable (less : α → α → Except ε Bool)

/-- The longest run at the front of a list, rising or strictly falling, in rising order, and the
rest. -/
def firstRun : List α → Except ε (List α × List α)
  | a :: b :: rest => do
    if ← less b a then
      let (run, rest) ← splitRun (fun x y => less y x) b rest
      .ok ((a :: b :: run).reverse, rest)
    else
      let (run, rest) ← splitRun (fun x y => (!·) <$> less y x) b rest
      .ok (a :: b :: run, rest)
  | as => .ok (as, [])

theorem firstRun_perm {as : List α} {parts : List α × List α} (h : firstRun less as = .ok parts) :
    (parts.1 ++ parts.2).Perm as := by
  unfold firstRun at h
  split at h
  · obtain ⟨falls, -, h⟩ := bind_eq_ok.1 h
    split at h
    all_goals
      obtain ⟨more, hm, h⟩ := bind_eq_ok.1 h
      cases h
      rw [← splitRun_append hm]
    · exact ((List.reverse_perm _).append_right _)
    · exact .rfl
  · cases h
    simp

/-- A run with one member more, at its place. -/
def insert (as : List α) (a : α) : Except ε (List α) := do
  let place ← placeFor less a as
  .ok (as.take place ++ a :: as.drop place)

theorem insert_perm {as bs : List α} {a : α} (h : insert less as a = .ok bs) :
    bs.Perm (as ++ [a]) := by
  obtain ⟨place, -, h⟩ := bind_eq_ok.1 h
  cases h
  refine List.perm_middle.trans ?_
  rw [List.take_append_drop]
  exact (List.perm_append_singleton a as).symm

/-- A run with further members, each at its place. -/
def insertAll (as : List α) : List α → Except ε (List α)
  | [] => .ok as
  | b :: bs => do
    let as ← insert less as b
    insertAll as bs

theorem insertAll_perm {as bs cs : List α} (h : insertAll less as bs = .ok cs) :
    cs.Perm (as ++ bs) := by
  induction bs generalizing as with
  | nil => cases h; simp
  | cons b bs ih =>
    obtain ⟨more, hm, h⟩ := bind_eq_ok.1 h
    refine (ih h).trans (((insert_perm less hm).append_right bs).trans ?_)
    simp

/-- The least length of a run in a list of a size: all of a list of fewer than 64 members, and from
there on the size divided by a power of two, from 32 to 64 members, rounded up. -/
def leastRun (size : Nat) : Nat :=
  let parts := 1 <<< (size.log2 - 5)
  (size + parts - 1) / parts

/-- The run at the front of a list, brought to the least length, and the rest. -/
def nextRun (least : Nat) (as : List α) : Except ε (List α × List α) := do
  let (run, rest) ← firstRun less as
  let missing := least - run.length
  let run ← insertAll less run (rest.take missing)
  .ok (run, rest.drop missing)

/-- Taking a run loses nothing and adds nothing. -/
theorem nextRun_perm {least : Nat} {as : List α} {parts : List α × List α}
    (h : nextRun less least as = .ok parts) : (parts.1 ++ parts.2).Perm as := by
  obtain ⟨first, hf, h⟩ := bind_eq_ok.1 h
  obtain ⟨run, hr, h⟩ := bind_eq_ok.1 h
  cases h
  refine ((insertAll_perm less hr).append_right _).trans ?_
  rw [List.append_assoc, List.take_append_drop]
  exact firstRun_perm less hf

end ApiPage.Sorting
