import Letrec.Json.Read

/-!
# JSON data

Values whose numbers are binary floating-point numbers and whose objects list each key once, in
order. One value is part of another if it is found in it after leaving out fields and trailing
items.
-/

namespace Letrec.Json

abbrev Data := Json Number.Binary64

/-- The value of a literal; none if no finite number is near. -/
def Literal.toBinary64? (n : Literal) : Option Number.Binary64 :=
  Number.Binary64.ofDecimal? n.negative n.value.digits n.value.power

/-- Keeps the last field of each key, and puts the keys in order. -/
def canonicalFields (fields : List (String × α)) : List (String × α) :=
  let step (kept : List (String × α)) (f : String × α) :=
    if kept.any (·.1 == f.1) then kept else f :: kept
  sortFields (fields.reverse.foldl step [])

mutual
def toData? : Json Literal → Option Data
  | .null => some .null
  | .bool b => some (.bool b)
  | .number n => n.toBinary64?.map .number
  | .string s => some (.string s)
  | .array items => (itemsToData? items).map .array
  | .object fields => (fieldsToData? fields).map fun fields => .object (canonicalFields fields)

def itemsToData? : List (Json Literal) → Option (List Data)
  | [] => some []
  | item :: rest =>
    match toData? item, itemsToData? rest with
    | some item, some rest => some (item :: rest)
    | _, _ => none

def fieldsToData? : List (String × Json Literal) → Option (List (String × Data))
  | [] => some []
  | (key, value) :: rest =>
    match toData? value, fieldsToData? rest with
    | some value, some rest => some ((key, value) :: rest)
    | _, _ => none
end

namespace Data

mutual
/-- Objects compare by the fields of `part`, arrays by a leading run, all else by equality. -/
def isPartOf : Data → Data → Bool
  | .object fields, .object whole => fieldsArePartOf fields whole
  | .array items, .array whole => itemsArePartOf items whole
  | .number m, .number n => m.same n
  | .string s, .string t => s == t
  | .bool a, .bool b => a == b
  | .null, .null => true
  | _, _ => false

def itemsArePartOf : List Data → List Data → Bool
  | [], _ => true
  | item :: rest, other :: others => isPartOf item other && itemsArePartOf rest others
  | _ :: _, [] => false

def fieldsArePartOf : List (String × Data) → List (String × Data) → Bool
  | [], _ => true
  | (key, value) :: rest, whole =>
    match field? whole key with
    | some other => isPartOf value other && fieldsArePartOf rest whole
    | none => false
end

def text (value : Data) : String := Json.render Number.Binary64.render value

end Data

end Letrec.Json
