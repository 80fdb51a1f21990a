import ApiPage.Sorting.Run

/-!
# Merging two runs

Two neighbouring runs become one, from the front where the left one is the shorter and else from the
back. Members are taken one by one until one side wins often in a row; then whole stretches are taken,
as long as they are long. How often in a row is the patience, which goes from one merge to the next:
stretches that pay lower it, and giving them up raises it.
-/

namespace ApiPage.Sorting

variable {α ε : Type}

/-- The end at which a merge begins. -/
inductive Way
  | forward
  | backward
  deriving DecidableEq, Repr

/-- One of the two runs of a merge. -/
inductive Side
  | left
  | right
  deriving DecidableEq, Repr

/-- A merge under way: what is merged already, and what is left of the two runs. -/
structure Merge (α : Type) where
  merged : List α
  left : List α
  right : List α

namespace Merge

/-- All members of a merge. -/
def members (m : Merge α) : List α := m.merged ++ (m.left ++ m.right)

/-- What is left of a run. -/
def rest (m : Merge α) : Side → List α
  | .left => m.left
  | .right => m.right

/-- The member of a run that comes next. -/
def next? (w : Way) (m : Merge α) (s : Side) : Option α :=
  match w with
  | .forward => (m.rest s).head?
  | .backward => (m.rest s).getLast?

/-- Takes the next `n` members of a run. -/
def take (w : Way) (m : Merge α) (s : Side) (n : Nat) : Merge α :=
  match w, s with
  | .forward, .left => ⟨m.merged ++ m.left.take n, m.left.drop n, m.right⟩
  | .forward, .right => ⟨m.merged ++ m.right.take n, m.left, m.right.drop n⟩
  | .backward, .left =>
    ⟨m.left.drop (m.left.length - n) ++ m.merged, m.left.take (m.left.length - n), m.right⟩
  | .backward, .right =>
    ⟨m.right.drop (m.right.length - n) ++ m.merged, m.left, m.right.take (m.right.length - n)⟩

theorem take_perm (w : Way) (m : Merge α) (s : Side) (n : Nat) :
    (m.take w s n).members.Perm m.members := by
  unfold take members
  cases w <;> cases s <;> simp only
  · rw [List.append_assoc, ← List.append_assoc (m.left.take n), List.take_append_drop]
  · rw [List.append_assoc]
    refine List.Perm.append_left _ ?_
    rw [← List.append_assoc]
    refine (List.perm_append_comm.append_right _).trans ?_
    rw [List.append_assoc, List.take_append_drop]
  · rw [← List.append_assoc, ← List.append_assoc]
    refine List.Perm.append_right _ ?_
    rw [List.append_assoc]
    refine List.perm_append_comm.trans ?_
    rw [List.append_assoc, List.take_append_drop]
  · rw [List.append_assoc]
    refine List.perm_append_comm.trans ?_
    rw [List.append_assoc, List.append_assoc, List.take_append_drop]

/-- The whole run, if a merge is over: one side is used up, or one member is left of the side that
is the shorter, and it is the last to be placed. -/
def whole? (w : Way) (m : Merge α) : Option (List α) :=
  match w with
  | .forward =>
    if m.right.isEmpty then some (m.merged ++ m.left)
    else if m.left.length ≤ 1 then some (m.merged ++ (m.right ++ m.left))
    else none
  | .backward =>
    if m.left.isEmpty then some (m.right ++ m.merged)
    else if m.right.length ≤ 1 then some (m.right ++ m.left ++ m.merged)
    else none

theorem whole?_perm {w : Way} {m : Merge α} {as : List α} (h : m.whole? w = some as) :
    as.Perm m.members := by
  unfold whole? at h
  unfold members
  cases w <;> simp only at h
  · split at h
    · next he => cases h; simp [List.isEmpty_iff.1 he]
    · split at h
      · cases h
        exact List.perm_append_comm.append_left _
      · cases h
  · split at h
    · next he => cases h; simpa [List.isEmpty_iff.1 he] using List.perm_append_comm
    · split at h
      · cases h
        exact List.perm_append_comm.trans (List.perm_append_comm.append_left _)
      · cases h

end Merge

/-- How a merge goes on: one by one, a number of members having come from one side in a row; or by
stretches, first one of the left run, then a member of the right one, and the other way round. -/
inductive Pace
  | single (lefts rights : Nat)
  | leftStretch
  | rightMember (lefts : Nat)
  | rightStretch (lefts : Nat)
  | leftMember (lefts rights : Nat)
  deriving DecidableEq, Repr

/-- The patience of the first merge, and the length from which stretches pay. -/
def longStretch : Nat := 7

/-- What is taken next, the pace after it and the patience after it. -/
structure Step where
  side : Side
  count : Nat
  pace : Pace
  patience : Nat

/-- The pace after one member of a side was taken by itself. -/
def paceAfter (patience lefts rights : Nat) : Pace :=
  if patience ≤ lefts ∨ patience ≤ rights then .leftStretch else .single lefts rights

/-- How many members of a side come before what stands next on the other, as the place of the other
tells it. -/
def stretch (w : Way) (size place : Nat) : Nat :=
  match w with
  | .forward => place
  | .backward => size - place

/-- The index of the member of a run that comes next. -/
def nextIndex (w : Way) (size : Nat) : Nat :=
  match w with
  | .forward => 0
  | .backward => size - 1

variable (less : α → α → Except ε Bool)

/-- The next step of a merge; `a` and `b` come next on its two sides. -/
def Merge.step (w : Way) (m : Merge α) (patience : Nat) (a b : α) : Pace → Except ε Step
  | .single lefts rights => do
    let lower ← less b a
    if lower = (w = .forward) then
      .ok ⟨.right, 1, paceAfter patience 0 (rights + 1), patience⟩
    else .ok ⟨.left, 1, paceAfter patience (lefts + 1) 0, patience⟩
  | .leftStretch => do
    let size := m.left.length
    let place ← placeBehind less b m.left (nextIndex w size)
    let n := stretch w size place
    .ok ⟨.left, n, .rightMember n, patience⟩
  | .rightMember lefts => .ok ⟨.right, 1, .rightStretch lefts, patience⟩
  | .rightStretch lefts => do
    let size := m.right.length
    let place ← placeBefore less a m.right (nextIndex w size)
    let n := stretch w size place
    .ok ⟨.right, n, .leftMember lefts n, patience⟩
  | .leftMember lefts rights =>
    if longStretch ≤ lefts ∨ longStretch ≤ rights then
      .ok ⟨.left, 1, .leftStretch, max (patience - 1) 1⟩
    else .ok ⟨.left, 1, .single 0 0, patience + 1⟩

/-- The whole run to which a merge leads that is not over, and the patience after it. -/
def Merge.run (w : Way) : Nat → Pace → Nat → Merge α → Except ε (List α × Nat)
  | 0, _, patience, m => .ok (m.members, patience)
  | fuel + 1, pace, patience, m =>
    match m.next? w .left, m.next? w .right with
    | some a, some b => do
      let s ← m.step less w patience a b pace
      let m := m.take w s.side s.count
      match m.whole? w with
      | some as => .ok (as, patience)
      | none => run w fuel s.pace s.patience m
    | _, _ => .ok (m.members, patience)

theorem Merge.run_perm {w : Way} {fuel : Nat} {pace : Pace} {patience : Nat} {m : Merge α}
    {r : List α × Nat} (h : m.run less w fuel pace patience = .ok r) : r.1.Perm m.members := by
  induction fuel generalizing pace patience m with
  | zero => cases h; exact .rfl
  | succ fuel ih =>
    unfold run at h
    split at h
    · obtain ⟨s, -, h⟩ := bind_eq_ok.1 h
      simp only at h
      split at h
      · next hw => cases h; exact (whole?_perm hw).trans (take_perm w m _ _)
      · exact (ih h).trans (take_perm w m _ _)
    · cases h; exact .rfl

/-- Two runs as one, from the end where the members of the shorter one lie. A merge from the front
begins with a member of the right run, and one from the back with one of the left run. -/
def mergeFrom (patience : Nat) (left right : List α) : Except ε (List α × Nat) :=
  let forward : Bool := left.length ≤ right.length
  let w : Way := if forward then .forward else .backward
  let m : Merge α := Merge.take w ⟨[], left, right⟩ (if forward then .right else .left) 1
  match m.whole? w with
  | some as => .ok (as, patience)
  | none => m.run less w (2 * (left.length + right.length) + 4) (.single 0 0) patience

theorem mergeFrom_perm {patience : Nat} {left right : List α} {r : List α × Nat}
    (h : mergeFrom less patience left right = .ok r) : r.1.Perm (left ++ right) := by
  unfold mergeFrom at h
  simp only at h
  split at h
  · next hw => cases h; exact (Merge.whole?_perm hw).trans (Merge.take_perm _ _ _ _)
  · exact (Merge.run_perm less h).trans (Merge.take_perm _ _ _ _)

/-- Two neighbouring runs as one. What the left run has before the first member of the right one stays
where it is, and so does what the right run has behind the last member of the left one. -/
def mergeRuns (patience : Nat) (left right : List α) : Except ε (List α × Nat) :=
  match right with
  | [] => .ok (left, patience)
  | b :: _ => do
    let i ← placeBehind less b left 0
    match (left.drop i).getLast? with
    | none => .ok (left ++ right, patience)
    | some a =>
      let j ← placeBefore less a right (right.length - 1)
      if j = 0 then .ok (left ++ right, patience)
      else
        let (middle, patience) ← mergeFrom less patience (left.drop i) (right.take j)
        .ok (left.take i ++ (middle ++ right.drop j), patience)

/-- Merging loses nothing and adds nothing. -/
theorem mergeRuns_perm {patience : Nat} {left right : List α} {r : List α × Nat}
    (h : mergeRuns less patience left right = .ok r) : r.1.Perm (left ++ right) := by
  unfold mergeRuns at h
  split at h
  · cases h; simp
  · obtain ⟨i, -, h⟩ := bind_eq_ok.1 h
    split at h
    · cases h; exact .rfl
    · obtain ⟨j, -, h⟩ := bind_eq_ok.1 h
      split at h
      · cases h; exact .rfl
      · obtain ⟨middle, hm, h⟩ := bind_eq_ok.1 h
        cases h
        refine (((mergeFrom_perm less hm).append_right _).append_left _).trans ?_
        rw [List.append_assoc, List.take_append_drop, ← List.append_assoc, List.take_append_drop]

end ApiPage.Sorting
