/-!
# Numerals

Reading whole numbers from text: decimal numerals with a sign, numerals whose first characters name
their base, and the range of 64-bit integers.
-/

namespace Letrec.Number

def digit? (c : Char) : Option Nat :=
  if '0' ≤ c && c ≤ '9' then some (c.toNat - '0'.toNat)
  else if 'a' ≤ c && c ≤ 'f' then some (c.toNat - 'a'.toNat + 10)
  else if 'A' ≤ c && c ≤ 'F' then some (c.toNat - 'A'.toNat + 10)
  else none

def digitsFrom (base : Nat) (value : Nat) : List Char → Option Nat
  | [] => some value
  | c :: rest =>
    match digit? c with
    | some d => if d < base then digitsFrom base (value * base + d) rest else none
    | none => none

def digits? (base : Nat) : List Char → Option Nat
  | [] => none
  | c :: rest => digitsFrom base 0 (c :: rest)

/-- A digit string whose base is ten unless `0x`, `0o`, `0b` or a bare leading `0` says
otherwise. -/
def prefixed? : List Char → Option Nat
  | '0' :: c :: rest =>
    if c == 'x' || c == 'X' then digits? 16 rest
    else if c == 'o' || c == 'O' then digits? 8 rest
    else if c == 'b' || c == 'B' then digits? 2 rest
    else digits? 8 (c :: rest)
  | cs => digits? 10 cs

def signed? (magnitude? : List Char → Option Nat) : List Char → Option Int
  | '-' :: rest => (magnitude? rest).map fun n => -(n : Int)
  | '+' :: rest => (magnitude? rest).map fun n => (n : Int)
  | cs => (magnitude? cs).map fun n => (n : Int)

def fitsInt64 (n : Int) : Bool :=
  Int64.minValue.toInt ≤ n && n ≤ Int64.maxValue.toInt

def int64? (text : String) : Option Int64 :=
  match signed? (digits? 10) text.toList with
  | some n => if fitsInt64 n then some (Int64.ofInt n) else none
  | none => none

/-- Digits that have their sign behind the mark of the base, as in `0b-1`. -/
def innerSigned? : List Char → Option Int
  | '0' :: 'b' :: rest => signed? (digits? 2) rest
  | '0' :: 'o' :: rest => signed? (digits? 8) rest
  | _ => none

/-- A numeral as `prefixed?` reads it: signed within 64 bits, or unsigned within 64 bits. -/
def machineInt? (text : List Char) : Option Int :=
  match signed? prefixed? text with
  | some n =>
    if fitsInt64 n then some n
    else
      match prefixed? text with
      | some m => if m < UInt64.size then some m else none
      | none => none
  | none => (innerSigned? text).filter fitsInt64

end Letrec.Number
