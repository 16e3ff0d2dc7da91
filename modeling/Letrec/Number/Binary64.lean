/-!
# Binary floating-point numbers

The finite numbers of the 64-bit binary format, held exactly: a sign, a mantissa below `2 ^ 53` and
a power of two. Decimal fractions are rounded to the nearest of them, ties to an even mantissa.
-/

namespace Letrec.Number

/-- `mantissa * 2 ^ exponent`, negated if `negative`. Numbers made by `Binary64.ofRatio?` have a
mantissa of 53 bits or the least exponent, so that no number has two forms. -/
structure Binary64 where
  negative : Bool
  mantissa : Nat
  exponent : Int
deriving DecidableEq, Repr, Inhabited

namespace Binary64

/-- The exponent of the smallest positive number. -/
def leastExponent : Int := -1074

/-- The largest exponent that goes with a mantissa of 53 bits. -/
def greatestExponent : Int := 971

def isZero (x : Binary64) : Bool := x.mantissa == 0

/-- Numeric equality: the two zeros are equal. -/
def same (x y : Binary64) : Bool :=
  (x.isZero && y.isZero) || x == y

def ratio (x : Binary64) : Nat × Nat :=
  if x.exponent ≥ 0 then (x.mantissa * Nat.pow 2 x.exponent.toNat, 1)
  else (x.mantissa, Nat.pow 2 (-x.exponent).toNat)

def atMost (x y : Binary64) : Bool :=
  let signed (x : Binary64) : Int := if x.negative then -(x.ratio.1 : Int) else x.ratio.1
  signed x * y.ratio.2 ≤ signed y * x.ratio.2

/-- `num / den` to the nearest whole number, ties to even. -/
def roundRatio (num den : Nat) : Nat :=
  let quotient := num / den
  let twice := 2 * (num % den)
  if twice > den || (twice == den && quotient % 2 == 1) then quotient + 1 else quotient

/-- `num / den * 2 ^ (-shift)` as a ratio of whole numbers. -/
def scaled (num den : Nat) (shift : Int) : Nat × Nat :=
  if shift ≥ 0 then (num, den * Nat.pow 2 shift.toNat) else (num * Nat.pow 2 (-shift).toNat, den)

/-- The number nearest to `num / den`; none if that lies beyond the largest finite number. -/
def ofRatio? (negative : Bool) (num den : Nat) : Option Binary64 :=
  if num == 0 then some ⟨negative, 0, leastExponent⟩
  else
    -- the bit length of the quotient is `guess` or `guess + 1`
    let guess : Int := (Nat.log2 num : Int) - (Nat.log2 den : Int)
    let low := max (guess - 53) leastExponent
    let exponent :=
      let (n, d) := scaled num den low
      if n / d ≥ Nat.pow 2 53 then low + 1 else low
    let (n, d) := scaled num den exponent
    let mantissa := roundRatio n d
    let (mantissa, exponent) :=
      if mantissa == Nat.pow 2 53 then (Nat.pow 2 52, exponent + 1) else (mantissa, exponent)
    if exponent > greatestExponent then none else some ⟨negative, mantissa, exponent⟩

/-- The number nearest to `digits * 10 ^ power`. A power far outside the range of the format decides
the answer by itself. -/
def ofDecimal? (negative : Bool) (digits : Nat) (power : Int) : Option Binary64 :=
  if digits == 0 then some ⟨negative, 0, leastExponent⟩
  else
    let size : Int := ((Nat.toDigits 10 digits).length : Int)
    if size + power > 310 then none
    else if size + power < -330 then some ⟨negative, 0, leastExponent⟩
    else if power ≥ 0 then ofRatio? negative (digits * Nat.pow 10 power.toNat) 1
    else ofRatio? negative digits (Nat.pow 10 (-power).toNat)

/-- The number nearest to a whole number below `2 ^ 1024`, and zero for any other. -/
def ofInt (n : Int) : Binary64 :=
  (ofRatio? (n < 0) n.natAbs 1).getD default

def truncate (x : Binary64) : Int :=
  let magnitude : Nat :=
    if x.exponent ≥ 0 then x.mantissa * Nat.pow 2 x.exponent.toNat
    else x.mantissa / Nat.pow 2 (-x.exponent).toNat
  if x.negative then -(magnitude : Int) else magnitude

end Binary64

end Letrec.Number
