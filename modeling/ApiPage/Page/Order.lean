import ApiPage.Sorting
import ApiPage.Value

/-!
# The order of members

Members stand on a page in the order of their names: texts by code point, bytes by value, numbers too,
days and moments by time. Names of different sorts have no order, and putting them in order ends at the first
two that are compared. A name that is no number among numbers is neither before nor after another;
where it stands then follows from the way in which the names are sorted.
-/

namespace ApiPage

namespace Binary64

/-- Is a number less than another? A number that is none is neither less nor greater. -/
def less : Binary64 → Binary64 → Bool
  | .nan, _ => false
  | _, .nan => false
  | .infinite a, .infinite b => a && !b
  | .infinite a, .finite _ _ _ => a
  | .finite _ _ _, .infinite b => !b
  | .finite a m e, .finite b k f =>
    let (n, d) := ratio m e
    let (n', d') := ratio k f
    let signed (neg : Bool) (x : Nat) : Int := if neg then -(x : Int) else x
    signed a (n * d') < signed b (n' * d)

/-- Is a whole number less than a number? -/
def intLess (i : Int) : Binary64 → Bool
  | .nan => false
  | .infinite negative => !negative
  | .finite negative m e =>
    let (n, d) := ratio m e
    i * d < if negative then -(n : Int) else n

/-- Is a number less than a whole number? -/
def lessInt (x : Binary64) (i : Int) : Bool :=
  match x with
  | .nan => false
  | .infinite negative => negative
  | .finite negative m e =>
    let (n, d) := ratio m e
    (if negative then -(n : Int) else n) < i * d

end Binary64

/-- Why two names have no order. -/
inductive Disorder
  /-- They are of different sorts, the first asked whether it is less than the second. -/
  | sorts (first second : Scalar)
  /-- A day and a moment. -/
  | dayAndMoment
  /-- Two moments of which one tells its zone. -/
  | oneZone
  deriving DecidableEq, Repr

namespace Scalar

/-- The word for the sort of a scalar. -/
def sortName : Scalar → String
  | .null => "NoneType"
  | .bool _ => "bool"
  | .int _ => "int"
  | .float _ => "float"
  | .text _ => "str"
  | .bytes _ => "bytes"
  | .date _ => "datetime.date"
  | .moment _ => "datetime.datetime"

/-- Is a scalar less than another, where the two are not both texts, bytes, days or moments? Numbers and
truth values are compared by value. -/
def lessNumber (s t : Scalar) : Except Disorder Bool :=
  match s, t with
  | .float x, .float y => .ok (x.less y)
  | .float x, t =>
    match t.toInt? with
    | some j => .ok (x.lessInt j)
    | none => .error (.sorts s t)
  | s, .float y =>
    match s.toInt? with
    | some i => .ok (Binary64.intLess i y)
    | none => .error (.sorts s t)
  | s, t =>
    match s.toInt?, t.toInt? with
    | some i, some j => .ok (decide (i < j))
    | _, _ => .error (.sorts s t)

/-- Is a scalar less than another? -/
def less : Scalar → Scalar → Except Disorder Bool
  | .text s, .text t => .ok (decide (s < t))
  | .bytes a, .bytes b => .ok (decide (a < b))
  | .date d, .date e => .ok (decide (d.number < e.number))
  | .moment m, .moment n =>
    match m.before? n with
    | some b => .ok b
    | none => .error .oneZone
  | .date _, .moment _ => .error .dayAndMoment
  | .moment _, .date _ => .error .dayAndMoment
  | s, t => lessNumber s t

@[simp] theorem less_text (s t : Str) : less (.text s) (.text t) = .ok (decide (s < t)) := rfl

/-- Is a scalar a text? -/
def isText : Scalar → Bool
  | .text _ => true
  | _ => false

/-- The text of a scalar that is one. -/
def textOf : Scalar → Str
  | .text s => s
  | _ => ""

end Scalar

/-- The wording of a disorder. -/
def Disorder.message : Disorder → String
  | .sorts first second =>
    "'<' not supported between instances of '" ++ first.sortName ++ "' and '" ++
      second.sortName ++ "'"
  | .dayAndMoment => "can't compare datetime.datetime to datetime.date"
  | .oneZone => "can't compare offset-naive and offset-aware datetimes"

/-- Named things in the order of their names; things of one name keep their order. Texts have an order
in any case. -/
def sortByName {α : Type} (es : List (Scalar × α)) : Except Disorder (List (Scalar × α)) :=
  if es.all (·.1.isText) then .ok (es.mergeSort fun a b => a.1.textOf ≤ b.1.textOf)
  else Sorting.sort (fun a b => a.1.less b.1) es

/-- Things whose names are texts have an order. -/
theorem sortByName_of_texts {α : Type} {es : List (Scalar × α)} (h : ∀ e ∈ es, e.1.isText = true) :
    sortByName es = .ok (es.mergeSort fun a b => a.1.textOf ≤ b.1.textOf) := by
  rw [sortByName, if_pos (List.all_eq_true.2 h)]

/-- The order of names loses no named thing and adds none. -/
theorem sortByName_perm {α : Type} {es sorted : List (Scalar × α)} (h : sortByName es = .ok sorted) :
    sorted.Perm es := by
  unfold sortByName at h
  split at h
  · cases h
    exact List.mergeSort_perm es _
  · exact Sorting.sort_perm _ h

end ApiPage
