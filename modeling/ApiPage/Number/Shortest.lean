import ApiPage.Number.Binary64

/-!
# The shortest decimal text of a number

`shortest` finds the fewest decimal digits that read back as the same number, and of those the
nearest to it: on the grid of one digit, of two digits and so on it tests the two grid points beside
the value against the interval of all reals that round to it. `Binary64.text` lays the digits out,
positionally from 1e-4 up to 1e16 and with an exponent outside.
-/

namespace ApiPage

/-- The number `0.d₁d₂… · 10^point`, its digits read as one whole number. -/
structure Digits where
  digits : Nat
  point : Int
  deriving DecidableEq, Repr

namespace Binary64

/-- The least power of ten above a fraction that is not zero, sought upward from `1`. -/
def tensAbove (num den : Nat) : Nat → Nat
  | 0 => 0
  | fuel + 1 => if num < den then 0 else tensAbove num (den * 10) fuel + 1

/-- How many times a fraction below one tenth can grow tenfold and stay below one. -/
def tensBelow (num den : Nat) : Nat → Nat
  | 0 => 0
  | fuel + 1 => if num * 10 < den then tensBelow (num * 10) den fuel + 1 else 0

/-- The `p` with `10^(p-1) ≤ num/den < 10^p`. -/
def pointOf (num den : Nat) : Int :=
  if num < den then -(tensBelow num den 400 : Int) else tensAbove num den 400

/-- The fraction `num / den / 10^k`. -/
def overPowerOfTen (num den : Nat) : Int → Nat × Nat
  | .ofNat k => (num, den * Nat.pow 10 k)
  | .negSucc k => (num * Nat.pow 10 (k + 1), den)

/-- The interval of reals that round to a number, in quarters of its last place: from `low` to
`high` around `value`, all over `den`, with its ends only if `closed`. -/
structure Interval where
  low : Nat
  value : Nat
  high : Nat
  den : Nat
  closed : Bool

/-- The interval of `m · 2^e`: half a place on each side, and a quarter below a power of two. -/
def interval (m : Nat) (e : Int) : Interval :=
  let low := if m = leastSignificand ∧ minExponent < e then 4 * m - 1 else 4 * m - 2
  let scale (n : Nat) : Nat × Nat := ratio n (e - 2)
  ⟨(scale low).1, (scale (4 * m)).1, (scale (4 * m + 2)).1, (scale (4 * m)).2, m % 2 = 0⟩

/-- Does `c` units of `10^k` lie in the interval? -/
def Interval.holds (i : Interval) (k : Int) (c : Nat) : Bool :=
  let (low, den) := overPowerOfTen i.low i.den k
  let (high, _) := overPowerOfTen i.high i.den k
  let x := c * den
  if i.closed then low ≤ x && x ≤ high else low < x && x < high

/-- The grid point of `10^k` that lies in the interval nearest to its value, a tie to the even one. -/
def Interval.gridPoint? (i : Interval) (k : Int) : Option Nat :=
  let (value, den) := overPowerOfTen i.value i.den k
  let below := value / den
  match i.holds k below && below != 0, i.holds k (below + 1) with
  | true, true => some (roundHalfEven value den)
  | true, false => some below
  | false, true => some (below + 1)
  | false, false => none

/-- The first grid with a point in the interval, from the grid of `n` digits on. -/
def Interval.firstGrid (i : Interval) (point : Int) : Nat → Nat → Digits
  | 0, n => ⟨i.value * Nat.pow 10 n / i.den, point⟩
  | fuel + 1, n =>
    match i.gridPoint? (point - n) with
    | some c => ⟨c, point - n + (Nat.toDigits 10 c).length⟩
    | none => i.firstGrid point fuel (n + 1)

/-- The fewest digits that read back as `m · 2^e`, for an `m` that is not zero. -/
def shortest (m : Nat) (e : Int) : Digits :=
  let i := interval m e
  i.firstGrid (pointOf i.value i.den) 17 1

/-- The digits of a number without the zeros at its end. -/
def significant (n : Nat) : List Char :=
  ((Nat.toDigits 10 n).reverse.dropWhile (· = '0')).reverse

/-- Positional notation, with at least one digit after the point. -/
def positional (ds : List Char) (point : Int) : List Char :=
  match point with
  | .negSucc k => '0' :: '.' :: (List.replicate (k + 1) '0' ++ ds)
  | .ofNat k =>
    let whole := if k = 0 then ['0'] else ds.take k ++ List.replicate (k - ds.length) '0'
    let fraction := if ds.length ≤ k then ['0'] else ds.drop k
    whole ++ '.' :: fraction

/-- An exponent with its sign and at least two digits. -/
def exponentText (e : Int) : List Char :=
  let ds := Nat.toDigits 10 e.natAbs
  (if e < 0 then '-' else '+') :: (if ds.length < 2 then '0' :: ds else ds)

/-- Scientific notation; a single digit stands without a point. -/
def scientific (ds : List Char) (point : Int) : List Char :=
  let tail := 'e' :: exponentText (point - 1)
  match ds with
  | [] => tail
  | [d] => d :: tail
  | d :: rest => d :: '.' :: (rest ++ tail)

/-- The text of a number that is not negative. -/
def magnitudeText (m : Nat) (e : Int) : List Char :=
  if m = 0 then ['0', '.', '0']
  else
    let d := shortest m e
    let ds := significant d.digits
    if -4 < d.point ∧ d.point ≤ 16 then positional ds d.point else scientific ds d.point

/-- The text of a number. -/
def text : Binary64 → String
  | .nan => "nan"
  | .infinite negative => if negative then "-inf" else "inf"
  | .finite negative m e =>
    String.ofList (if negative then '-' :: magnitudeText m e else magnitudeText m e)

end Binary64

end ApiPage
