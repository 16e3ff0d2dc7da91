import Letrec.Number.Binary64

/-!
# The shortest decimal of a binary number

The fewest digits that read back as the number, and of those the decimal nearest to it, with an even
last digit if two are equally near; and the way such a decimal is laid out.
-/

namespace Letrec.Number

/-- `digits * 10 ^ power`. -/
structure Decimal where
  digits : Nat
  power : Int
deriving DecidableEq, Repr

namespace Decimal

def strip (d : Decimal) : Decimal :=
  if d.digits ≠ 0 ∧ d.digits % 10 = 0 then strip ⟨d.digits / 10, d.power + 1⟩ else d
termination_by d.digits
decreasing_by omega

end Decimal

/-- How a decimal is laid out: by the power of ten of its leading digit, in positional notation or
with an exponent. -/
structure DecimalForm where
  least : Int
  limit : Int
  exponentDigits : Nat
deriving DecidableEq, Repr

namespace Binary64

/-- The power of ten of the leading digit of a positive ratio, found from an estimate at most one
off in either direction. -/
def leadingPower (num den : Nat) : Int :=
  let size : Int := ((Nat.toDigits 10 num).length : Int) - ((Nat.toDigits 10 den).length : Int)
  let reaches (p : Int) : Bool :=
    if p ≥ 0 then num ≥ den * Nat.pow 10 p.toNat else num * Nat.pow 10 (-p).toNat ≥ den
  if reaches size then size else size - 1

def readsBack (x : Binary64) (d : Decimal) : Bool :=
  ofDecimal? x.negative d.digits d.power == some x

/-- The decimal with `count` digits nearest to the number, if it or its neighbour on the other side
of the number reads back. -/
def decimalOf? (x : Binary64) (count : Nat) : Option Decimal :=
  let (num, den) := x.ratio
  let power := leadingPower num den - (count : Int) + 1
  let (n, d) :=
    if power ≥ 0 then (num, den * Nat.pow 10 power.toNat)
    else (num * Nat.pow 10 (-power).toNat, den)
  let below : Decimal := ⟨n / d, power⟩
  let above : Decimal := ⟨n / d + 1, power⟩
  let preferBelow := 2 * (n % d) < d || (2 * (n % d) == d && n / d % 2 == 0)
  let candidates := if preferBelow then [below, above] else [above, below]
  candidates.find? (readsBack x)

def shortestFrom (x : Binary64) : List Nat → Decimal
  | [] => ⟨0, 0⟩
  | count :: more =>
    match x.decimalOf? count with
    | some d => d.strip
    | none => shortestFrom x more

/-- Seventeen digits always suffice. -/
def shortest (x : Binary64) : Decimal :=
  if x.isZero then ⟨0, 0⟩
  else x.shortestFrom [1, 2, 3, 4, 5, 6, 7, 8, 9, 10, 11, 12, 13, 14, 15, 16, 17]

def renderAs (form : DecimalForm) (x : Binary64) : String :=
  let d := x.shortest
  let digits := Nat.toDigits 10 d.digits
  let sign := if x.negative then "-" else ""
  if x.isZero then sign ++ "0"
  else
    let lead : Int := d.power + (digits.length : Int) - 1
    let body :=
      if lead < form.least || lead ≥ form.limit then
        let fraction := if digits.length > 1 then '.' :: digits.drop 1 else []
        let power := Nat.toDigits 10 lead.natAbs
        let padding := List.replicate (form.exponentDigits - power.length) '0'
        String.ofList (digits.take 1 ++ fraction ++
          'e' :: (if lead < 0 then '-' else '+') :: padding ++ power)
      else if d.power ≥ 0 then
        String.ofList (digits ++ List.replicate d.power.toNat '0')
      else if lead ≥ 0 then
        let whole := lead.toNat + 1
        String.ofList (digits.take whole ++ '.' :: digits.drop whole)
      else
        String.ofList ('0' :: '.' :: List.replicate (-lead - 1).toNat '0' ++ digits)
    sign ++ body

/-- Positional notation from `10 ^ -6` up to but not including `10 ^ 21`, and beyond these an
exponent without padding. -/
def render (x : Binary64) : String := x.renderAs ⟨-6, 21, 1⟩

end Binary64

end Letrec.Number
