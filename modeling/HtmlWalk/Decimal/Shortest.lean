import HtmlWalk.Decimal.Binary64

/-!
# Shortest decimals

A binary number is written with the fewest decimal digits that read back as the same number; of
those, with the digits nearest to it. A decimal reads back if it lies between the middles of the
number and its two neighbours; the middles themselves read back if the mantissa is even.

The digits are written positionally between `0.00001` and `10 ^ 16`, and with an exponent beyond,
which always has a sign.
-/

namespace HtmlWalk.Decimal

/-- A decimal `digits * 10 ^ exponent`. -/
structure Digits where
  /-- The digits, as a number. -/
  digits : Nat
  /-- The exponent of ten. -/
  exponent : Int
deriving DecidableEq

namespace Binary64

/-- Four times the number, and the lower and the upper middle, over one denominator. -/
def quarters (x : Binary64) : Nat × Nat × Nat × Nat :=
  let up := pow2 x.scale.toNat
  let below := if x.mantissa = pow2 52 && minScale < x.scale then 1 else 2
  (4 * x.mantissa * up, (4 * x.mantissa - below) * up, (4 * x.mantissa + 2) * up,
    4 * pow2 (-x.scale).toNat)

/-- Whether a decimal reads back as the number. -/
def readsBack (x : Binary64) (d : Digits) : Bool :=
  let (_, low, high, den) := x.quarters
  let value := d.digits * pow10 d.exponent.toNat * den
  let unit := pow10 (-d.exponent).toNat
  let even := x.mantissa % 2 == 0
  (low * unit < value || (even && low * unit == value))
    && (value < high * unit || (even && value == high * unit))

/-- The number of digits before the decimal point: negative for leading zeros after it. -/
def magnitude (x : Binary64) : Int :=
  let (value, _, _, den) := x.quarters
  ((Nat.toDigits 10 (value * pow10 400 / den)).length : Int) - 400

/-- The nearest decimal with so many digits that reads back, if there is one. -/
def ofLength? (x : Binary64) (length : Nat) : Option Digits :=
  let (value, _, _, den) := x.quarters
  let exponent := x.magnitude - length
  let num := value * pow10 (-exponent).toNat
  let den := den * pow10 exponent.toNat
  let floor : Digits := ⟨num / den, exponent⟩
  let next : Digits := ⟨num / den + 1, exponent⟩
  let twice := 2 * (num % den)
  let nextIsNearer := den < twice || (twice == den && floor.digits % 2 == 1)
  match x.readsBack floor, x.readsBack next with
  | true, true => some (if nextIsNearer then next else floor)
  | true, false => some floor
  | false, true => some next
  | false, false => none

/-- The shortest decimal that reads back, without trailing zeros. -/
def shortest (x : Binary64) : Digits :=
  if x.mantissa = 0 then ⟨0, 0⟩
  else trim 20 (((List.range 17).findSome? fun i => x.ofLength? (i + 1)).getD ⟨0, 0⟩)
where
  /-- The decimal with so many trailing zeros at most moved into the exponent. -/
  trim : Nat → Digits → Digits
    | 0, d => d
    | n + 1, d =>
      if d.digits % 10 = 0 && d.digits != 0 then trim n ⟨d.digits / 10, d.exponent + 1⟩ else d

/-- The number in decimal. -/
def toText (x : Binary64) : String :=
  let d := x.shortest
  let digits := Nat.toDigits 10 d.digits
  let zeros (n : Int) := List.replicate n.toNat '0'
  let point := (digits.length : Int) + d.exponent
  String.ofList <|
    if d.digits = 0 then "0.0".toList
    else if 0 ≤ d.exponent && point ≤ 16 then digits ++ zeros d.exponent ++ ".0".toList
    else if 0 < point && point ≤ 16 then
      digits.take point.toNat ++ '.' :: digits.drop point.toNat
    else if -5 < point && point ≤ 0 then "0.".toList ++ zeros (-point) ++ digits
    else
      let fraction := match digits.tail with
        | [] => []
        | tail => '.' :: tail
      let sign := if 0 < point then ['+'] else []
      digits.take 1 ++ fraction ++ 'e' :: sign ++ (toString (point - 1)).toList

end Binary64

end HtmlWalk.Decimal
