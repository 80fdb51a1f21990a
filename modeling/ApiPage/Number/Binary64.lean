/-!
# Numbers of 64-bit binary floating point

A number is a sign, a significand below 2^53 and an exponent of two; `ofRatio` rounds a fraction to
the nearest one, a tie to the even significand, and all arithmetic goes through it in exact natural
numbers.
-/

namespace ApiPage

/-- A number of 64-bit binary floating point: `significand · 2^exponent`, or none. -/
inductive Binary64
  | nan
  | infinite (negative : Bool)
  | finite (negative : Bool) (significand : Nat) (exponent : Int)
  deriving DecidableEq, Repr

namespace Binary64

/-- The least exponent, that of the numbers nearest to zero. -/
def minExponent : Int := -1074

/-- The greatest exponent. -/
def maxExponent : Int := 971

/-- The least significand of full precision. -/
def leastSignificand : Nat := 1 <<< 52

/-- The number that all significands are below. -/
def significandBound : Nat := 1 <<< 53

/-- Zero with a sign. -/
def zero (negative : Bool) : Binary64 := .finite negative 0 minExponent

/-- The whole number nearest to a quotient, a tie to the even one. -/
def roundHalfEven (num den : Nat) : Nat :=
  let q := num / den
  let r := num % den
  if 2 * r < den then q
  else if den < 2 * r then q + 1
  else if q % 2 = 0 then q else q + 1

/-- The fraction `num / den / 2^e`. -/
def overPowerOfTwo (num den : Nat) : Int → Nat × Nat
  | .ofNat k => (num, den <<< k)
  | .negSucc k => (num <<< (k + 1), den)

/-- The exponent at which the significand of a fraction that is not zero has 53 bits, but never
less than the least. -/
def exponentOf (num den : Nat) : Int :=
  let guess : Int := Nat.log2 num - Nat.log2 den - 53
  let (n, d) := overPowerOfTwo num den guess
  max (if significandBound ≤ n / d then guess + 1 else guess) minExponent

/-- The number nearest to `num / den`, for a positive `den`. -/
def ofRatio (negative : Bool) (num den : Nat) : Binary64 :=
  if num = 0 then zero negative
  else
    let e := exponentOf num den
    let (n, d) := overPowerOfTwo num den e
    let m := roundHalfEven n d
    let (m, e) := if m = significandBound then (leastSignificand, e + 1) else (m, e)
    if maxExponent < e then .infinite negative else .finite negative m e

/-- The number nearest to `digits · 10^power`. Powers far outside the range are settled by the
count of digits. -/
def ofDecimal (negative : Bool) (digits : Nat) (power : Int) : Binary64 :=
  let size : Int := (Nat.toDigits 10 digits).length + power
  if digits = 0 ∨ size < -400 then zero negative
  else if 400 < size then .infinite negative
  else match power with
    | .ofNat k => ofRatio negative (digits * Nat.pow 10 k) 1
    | .negSucc k => ofRatio negative digits (Nat.pow 10 (k + 1))

/-- The exact value of a finite number as a fraction. -/
def ratio (significand : Nat) : Int → Nat × Nat
  | .ofNat k => (significand <<< k, 1)
  | .negSucc k => (significand, 1 <<< (k + 1))

/-- The whole number that a number equals, if it equals one. -/
def toInt? : Binary64 → Option Int
  | .finite negative m e =>
    let (n, d) := ratio m e
    if n % d = 0 then some (if negative then -(n / d : Nat) else (n / d : Nat)) else none
  | _ => none

/-- The two zeros are the only numbers equal to zero. -/
def isZero : Binary64 → Bool
  | .finite _ m _ => m == 0
  | _ => false

/-- Equality of values: the two zeros are equal, and a number that is none equals itself. -/
def sameValue (x y : Binary64) : Bool :=
  x = y || (x.isZero && y.isZero)

/-- The opposite number. -/
def neg : Binary64 → Binary64
  | .nan => .nan
  | .infinite s => .infinite !s
  | .finite s m e => .finite (!s) m e

/-- The product of two numbers that are not negative, rounded. -/
def times : Binary64 → Binary64 → Binary64
  | .finite _ m e, .finite _ k f =>
    let (a, b) := ratio m e
    let (c, d) := ratio k f
    ofRatio false (a * c) (b * d)
  | .finite _ _ _, y => y
  | x, _ => x

/-- The sum of two numbers that are not negative, rounded. -/
def plus : Binary64 → Binary64 → Binary64
  | .finite _ m e, .finite _ k f =>
    let (a, b) := ratio m e
    let (c, d) := ratio k f
    ofRatio false (a * d + c * b) (b * d)
  | .finite _ _ _, y => y
  | x, _ => x

/-- The number that a place of sixty counts: one, sixty and so on. -/
def sixtyTo (place : Nat) : Binary64 := ofRatio false (Nat.pow 60 place) 1

end Binary64

end ApiPage
