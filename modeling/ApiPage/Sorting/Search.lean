/-!
# Searching a list in order

A search looks for a place in a list. It may ask of every index whether the place is before it, at it
or behind it, and a question may end the search. `halve` narrows a range down by its middle; `reach`
looks around an index at growing distances before it halves what is left.
-/

namespace ApiPage.Sorting

variable {α ε : Type}

/-- The place between `low` and `high` that halving finds: not behind the middle where `upTo` holds of
it, and behind it otherwise. -/
def halve (upTo : Nat → Except ε Bool) (low high : Nat) : Except ε Nat :=
  if low < high then do
    let middle := (low + high) / 2
    if ← upTo middle then halve upTo low middle else halve upTo (middle + 1) high
  else .ok low
termination_by high - low

/-- The last distance at which `goesOn` holds and the first at which it does not, the distances being
one less than the powers of two; none is greater than `limit`. -/
def stride (goesOn : Nat → Except ε Bool) (limit last next : Nat) : Except ε (Nat × Nat) :=
  if next < limit then do
    if ← goesOn next then stride goesOn limit next (2 * next + 1) else .ok (last, next)
  else .ok (last, limit)
termination_by limit - next

/-- The place in a list of `size` members that is found from an index on: first by strides away from
it, then by halving the last stride. -/
def reach (upTo : Nat → Except ε Bool) (size start : Nat) : Except ε Nat := do
  if ← upTo start then
    let (near, far) ← stride (fun d => upTo (start - d)) (start + 1) 0 1
    halve upTo (start + 1 - far) (start - near)
  else
    let (near, far) ← stride (fun d => (!·) <$> upTo (start + d)) (size - start) 0 1
    halve upTo (start + near + 1) (start + far)

/-- A question about a member of a list; beyond its end the answer is yes. -/
def asked (as : List α) (question : α → Except ε Bool) (i : Nat) : Except ε Bool :=
  match as[i]? with
  | some a => question a
  | none => .ok true

variable (less : α → α → Except ε Bool)

/-- The place for a newcomer behind the members that it is not less than, found by halving. -/
def placeFor (a : α) (as : List α) : Except ε Nat :=
  halve (asked as (less a ·)) 0 as.length

/-- The place behind the members that `a` is not less than, found from an index on. -/
def placeBehind (a : α) (as : List α) (start : Nat) : Except ε Nat :=
  reach (asked as (less a ·)) as.length start

/-- The place before the members that are not less than `a`, found from an index on. -/
def placeBefore (a : α) (as : List α) (start : Nat) : Except ε Nat :=
  reach (asked as fun b => (!·) <$> less b a) as.length start

end ApiPage.Sorting
