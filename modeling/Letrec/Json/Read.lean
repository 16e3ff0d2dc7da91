import Letrec.Json.Basic
import Letrec.Number.Shortest

/-!
# Reading JSON

The standard grammar and nothing beyond it. Numbers keep their decimal value.
-/

namespace Letrec.Json

structure Literal where
  whole : Bool
  negative : Bool
  value : Number.Decimal
deriving DecidableEq, Repr

def isBlank (c : Char) : Bool := c == ' ' || c == '\t' || c == '\n' || c == '\r'

def skipBlanks (cs : List Char) : List Char := cs.dropWhile isBlank

def hexValue? (a b c d : Char) : Option Nat := do
  let digit (c : Char) : Option Nat :=
    if '0' ≤ c && c ≤ '9' then some (c.toNat - '0'.toNat)
    else if 'a' ≤ c && c ≤ 'f' then some (c.toNat - 'a'.toNat + 10)
    else if 'A' ≤ c && c ≤ 'F' then some (c.toNat - 'A'.toNat + 10)
    else none
  return (((← digit a) * 16 + (← digit b)) * 16 + (← digit c)) * 16 + (← digit d)

def isHighSurrogate (n : Nat) : Bool := 0xd800 ≤ n && n < 0xdc00

def isLowSurrogate (n : Nat) : Bool := 0xdc00 ≤ n && n < 0xe000

/-- What was read, with a replacement character for a high surrogate that has no partner. -/
def settle (text : List Char) : (high : Option Nat) → List Char
  | none => text
  | some _ => '\ufffd' :: text

/-- Adds the unit `code`; a high surrogate waits for the unit after it. -/
def addUnit (text : List Char) (high : Option Nat) (code : Nat) : List Char × Option Nat :=
  if isHighSurrogate code then (settle text high, some code)
  else if isLowSurrogate code then
    match high with
    | some h => (Char.ofNat (0x10000 + (h - 0xd800) * 0x400 + (code - 0xdc00)) :: text, none)
    | none => ('\ufffd' :: text, none)
  else (Char.ofNat code :: settle text high, none)

def simpleEscape? (c : Char) : Option Char :=
  match c with
  | '"' => some '"'
  | '\\' => some '\\'
  | '/' => some '/'
  | 'b' => some '\x08'
  | 'f' => some '\x0c'
  | 'n' => some '\n'
  | 'r' => some '\r'
  | 't' => some '\t'
  | _ => none

/-- The rest of a string after its opening quote; `text` is what was read, reversed, and `high` a
high surrogate just read. -/
def stringFrom? (text : List Char) (high : Option Nat) : List Char → Option (String × List Char)
  | [] => none
  | '"' :: rest => some (String.ofList (settle text high).reverse, rest)
  | '\\' :: 'u' :: a :: b :: c :: d :: rest =>
    match hexValue? a b c d with
    | none => none
    | some code => stringFrom? (addUnit text high code).1 (addUnit text high code).2 rest
  | '\\' :: c :: rest =>
    match simpleEscape? c with
    | some c => stringFrom? (c :: settle text high) none rest
    | none => none
  | c :: rest =>
    if c.toNat < 0x20 || c == '\\' then none else stringFrom? (c :: settle text high) none rest

def natOfDigits (value : Nat) : List Char → Nat
  | [] => value
  | c :: rest => natOfDigits (value * 10 + (c.toNat - '0'.toNat)) rest

def digits? (cs : List Char) : Option (List Char × List Char) :=
  match cs.takeWhile Char.isDigit with
  | [] => none
  | ds => some (ds, cs.dropWhile Char.isDigit)

def exponent? : List Char → Option (Option Int × List Char)
  | mark :: rest =>
    if mark == 'e' || mark == 'E' then
      let (negative, rest) :=
        match rest with
        | '+' :: rest => (false, rest)
        | '-' :: rest => (true, rest)
        | _ => (false, rest)
      (digits? rest).map fun (ds, rest) =>
        let n : Int := natOfDigits 0 ds
        (some (if negative then -n else n), rest)
    else some (none, mark :: rest)
  | [] => some (none, [])

def fraction? : List Char → Option (List Char × List Char)
  | '.' :: rest => digits? rest
  | cs => some ([], cs)

def number? (cs : List Char) : Option (Literal × List Char) := do
  let (negative, cs) :=
    match cs with
    | '-' :: rest => (true, rest)
    | _ => (false, cs)
  let (whole, rest) ←
    match cs with
    | '0' :: rest => some (['0'], rest)
    | _ => digits? cs
  let (fraction, rest) ← fraction? rest
  let (power, rest) ← exponent? rest
  let digits := natOfDigits 0 (whole ++ fraction)
  let value : Number.Decimal := ⟨digits, power.getD 0 - (fraction.length : Int)⟩
  return (⟨fraction.isEmpty && power.isNone, negative, value⟩, rest)

mutual
/-- A value at the front of the text, nested no deeper than `room`; `fuel` bounds the nesting and
the number of parts. -/
def valueFrom? : (fuel room : Nat) → List Char → Option (Json Literal × List Char)
  | 0, _, _ => none
  | fuel + 1, room, cs =>
    match cs with
    | 'n' :: 'u' :: 'l' :: 'l' :: rest => some (.null, rest)
    | 't' :: 'r' :: 'u' :: 'e' :: rest => some (.bool true, rest)
    | 'f' :: 'a' :: 'l' :: 's' :: 'e' :: rest => some (.bool false, rest)
    | '"' :: rest => (stringFrom? [] none rest).map fun (s, rest) => (.string s, rest)
    | '[' :: rest =>
      match room, skipBlanks rest with
      | 0, _ => none
      | _, ']' :: rest => some (.array [], rest)
      | room + 1, rest => (itemsFrom? fuel room [] rest).map fun (items, rest) =>
        (.array items, rest)
    | '\x7b' :: rest =>
      match room, skipBlanks rest with
      | 0, _ => none
      | _, '\x7d' :: rest => some (.object [], rest)
      | room + 1, rest => (fieldsFrom? fuel room [] rest).map fun (fields, rest) =>
        (.object fields, rest)
    | _ => (number? cs).map fun (n, rest) => (.number n, rest)

def itemsFrom? : (fuel room : Nat) → List (Json Literal) → List Char →
    Option (List (Json Literal) × List Char)
  | 0, _, _, _ => none
  | fuel + 1, room, items, cs =>
    match valueFrom? fuel room (skipBlanks cs) with
    | none => none
    | some (item, rest) =>
      match skipBlanks rest with
      | ',' :: rest => itemsFrom? fuel room (item :: items) rest
      | ']' :: rest => some ((item :: items).reverse, rest)
      | _ => none

def fieldsFrom? : (fuel room : Nat) → List (String × Json Literal) → List Char →
    Option (List (String × Json Literal) × List Char)
  | 0, _, _, _ => none
  | fuel + 1, room, fields, cs =>
    match skipBlanks cs with
    | '"' :: rest =>
      match stringFrom? [] none rest with
      | none => none
      | some (key, rest) =>
        match skipBlanks rest with
        | ':' :: rest =>
          match valueFrom? fuel room (skipBlanks rest) with
          | none => none
          | some (value, rest) =>
            match skipBlanks rest with
            | ',' :: rest => fieldsFrom? fuel room ((key, value) :: fields) rest
            | '\x7d' :: rest => some (((key, value) :: fields).reverse, rest)
            | _ => none
        | _ => none
    | _ => none
end

def greatestDepth : Nat := 10000

/-- The value that a whole text writes. Each part of a value takes at least one character, so that
the length of the text is fuel enough. -/
def read? (text : String) : Option (Json Literal) :=
  let cs := skipBlanks text.toList
  match valueFrom? (cs.length + 1) greatestDepth cs with
  | some (value, rest) => if (skipBlanks rest).isEmpty then some value else none
  | none => none

end Letrec.Json
