/-!
# Binary floating point

The finite non-negative numbers of the 64-bit binary format are the products `mantissa * 2 ^ scale`
with a mantissa below `2 ^ 53` and a scale from -1074 to 971. A number in between goes to the nearer
neighbour, and from the middle to the one with the even mantissa; a number that is too large has
none. All arithmetic is on fractions of natural numbers, so it is exact up to that one rounding.
-/

namespace HtmlWalk.Decimal

/-- The powers of two. -/
def pow2 (n : Nat) : Nat := Nat.pow 2 n

/-- The powers of ten. -/
def pow10 (n : Nat) : Nat := Nat.pow 10 n

/-- A finite non-negative number of the 64-bit binary format. -/
structure Binary64 where
  /-- The mantissa; at least `2 ^ 52` unless the scale is the smallest. -/
  mantissa : Nat
  /-- The exponent of two. -/
  scale : Int
deriving DecidableEq

namespace Binary64

/-- The smallest scale. -/
def minScale : Int := -1074

/-- The largest scale. -/
def maxScale : Int := 971

/-- The fraction with the numerator and the denominator multiplied by powers of two, so that the
value is divided by `2 ^ scale`. -/
def shift (num den : Nat) (scale : Int) : Nat × Nat :=
  (num * pow2 (-scale).toNat, den * pow2 scale.toNat)

/-- The quotient rounded to the nearest natural number, from the middle to the even one. -/
def roundQuotient (num den : Nat) : Nat :=
  let floor := num / den
  let twice := 2 * (num % den)
  if twice < den then floor
  else if den < twice then floor + 1
  else floor + floor % 2

/-- The scale at which a quotient has a mantissa of 53 binary digits. -/
def scaleOf (num den : Nat) : Int :=
  let estimate := (num.log2 : Int) - den.log2 - 52
  let (n, d) := shift num den estimate
  max minScale (if n < pow2 52 * d then estimate - 1 else estimate)

/-- The number nearest to a quotient, unless the quotient is too large. -/
def ofQuotient? (num den : Nat) : Option Binary64 :=
  let scale := scaleOf num den
  let (n, d) := shift num den scale
  let mantissa := roundQuotient n d
  let x : Binary64 := if mantissa = pow2 53 then ⟨pow2 52, scale + 1⟩ else ⟨mantissa, scale⟩
  if maxScale < x.scale then none else some x

/-- The number as a quotient. -/
def toQuotient (x : Binary64) : Nat × Nat :=
  (x.mantissa * pow2 x.scale.toNat, pow2 (-x.scale).toNat)

/-- The number nearest to a product. -/
def mul? (x y : Binary64) : Option Binary64 :=
  let (a, b) := x.toQuotient
  let (c, d) := y.toQuotient
  ofQuotient? (a * c) (b * d)

/-- The number nearest to a quotient of two numbers. -/
def div? (x y : Binary64) : Option Binary64 :=
  let (a, b) := x.toQuotient
  let (c, d) := y.toQuotient
  ofQuotient? (a * d) (b * c)

/-- Zero. -/
def zero : Binary64 := ⟨0, minScale⟩

/-- The number for `significand * 10 ^ exponent`, which is reached by multiplying or dividing by
rounded powers of ten, at most `10 ^ 308` at a time. -/
def ofDecimal? (significand : Nat) (exponent : Int) : Option Binary64 :=
  (ofQuotient? significand 1).bind (go exponent 4)
where
  /-- Divide by `10 ^ 308` as long as the exponent is too small for one step. -/
  go (exponent : Int) : Nat → Binary64 → Option Binary64
    | 0, _ => some zero
    | n + 1, x =>
      if x.mantissa = 0 then some x
      else if 308 < exponent then none
      else if 0 ≤ exponent then (ofQuotient? (pow10 exponent.toNat) 1).bind x.mul?
      else
        let power := min 308 (-exponent).toNat
        match (ofQuotient? (pow10 power) 1).bind x.div? with
        | none => none
        | some y => if -308 ≤ exponent then some y else go (exponent + 308) n y

end Binary64

end HtmlWalk.Decimal
