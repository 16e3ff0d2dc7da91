/-!
# Timestamps

A date and a time of day with a zone offset, read after a layout, and the span between two of them.
-/

namespace Letrec.Time

structure Timestamp where
  year : Nat := 0
  month : Nat := 1
  day : Nat := 1
  hour : Nat := 0
  minute : Nat := 0
  second : Nat := 0
  nanosecond : Nat := 0
  /-- Seconds east of the zero meridian, if they are given. -/
  zone : Option Int := none
deriving DecidableEq, Repr

def Timestamp.offset (t : Timestamp) : Int := t.zone.getD 0

/-- A part of a layout. A number that is `padded` has two digits, any other one or two. -/
inductive Field where
  | literal (c : Char)
  | blanks
  | year
  | month (padded : Bool)
  | day (padded : Bool)
  | hour
  | minute (padded : Bool)
  | second (padded : Bool)
  | fraction
  | zone
deriving DecidableEq, Repr

abbrev Layout := List Field

def Layout.date (padded : Bool) : Layout :=
  [.year, .literal '-', .month padded, .literal '-', .day padded]

def Layout.clock (padded : Bool) : Layout :=
  [.hour, .literal ':', .minute padded, .literal ':', .second padded, .fraction]

def Layout.internet : Layout :=
  Layout.date true ++ [.literal 'T'] ++ Layout.clock true ++ [.zone]

def digitValue (c : Char) : Nat := c.toNat - '0'.toNat

/-- One or two digits, or exactly two. -/
def number? (padded : Bool) : List Char → Option (Nat × List Char)
  | a :: b :: rest =>
    if a.isDigit && b.isDigit then some (digitValue a * 10 + digitValue b, rest)
    else if a.isDigit && !padded then some (digitValue a, b :: rest)
    else none
  | [a] => if a.isDigit && !padded then some (digitValue a, []) else none
  | [] => none

def numberBelow? (limit : Nat) (padded : Bool) (cs : List Char) : Option (Nat × List Char) := do
  let (n, rest) ← number? padded cs
  if n < limit then return (n, rest) else none

/-- `count` further digits of a fraction, zeros once the text has none left. -/
def nanoseconds (value : Nat) : (count : Nat) → List Char → Nat
  | 0, _ => value
  | count + 1, c :: rest => nanoseconds (value * 10 + digitValue c) count rest
  | count + 1, [] => nanoseconds (value * 10) count []

/-- `Z`, or a sign and hours and minutes with two digits each. -/
def zone? : List Char → Option (Option Int × List Char)
  | 'Z' :: rest => some (none, rest)
  | sign :: a :: b :: ':' :: c :: d :: rest => do
    let (hours, _) ← number? true [a, b]
    let (minutes, _) ← number? true [c, d]
    let seconds : Int := (hours * 60 + minutes) * 60
    if hours > 24 || minutes > 60 then none
    else if sign == '+' then return (some seconds, rest)
    else if sign == '-' then return (some (-seconds), rest)
    else none
  | _ => none

def Field.read? (field : Field) (t : Timestamp) (cs : List Char) : Option (Timestamp × List Char) :=
  match field with
  | .literal c =>
    match cs with
    | d :: rest => if d == c then some (t, rest) else none
    | [] => none
  | .blanks =>
    match cs with
    | c :: _ => if c == ' ' then some (t, cs.dropWhile (· == ' ')) else none
    | [] => some (t, [])
  | .year =>
    match cs with
    | a :: b :: c :: d :: rest =>
      if [a, b, c, d].all Char.isDigit then
        let value := ((digitValue a * 10 + digitValue b) * 10 + digitValue c) * 10 + digitValue d
        some ({ t with year := value }, rest)
      else none
    | _ => none
  | .month padded => do
    let (value, rest) ← numberBelow? 13 padded cs
    if value == 0 then none else return ({ t with month := value }, rest)
  | .day padded => do
    let (value, rest) ← number? padded cs
    return ({ t with day := value }, rest)
  | .hour => do
    let (value, rest) ← numberBelow? 24 false cs
    return ({ t with hour := value }, rest)
  | .minute padded => do
    let (value, rest) ← numberBelow? 60 padded cs
    return ({ t with minute := value }, rest)
  | .second padded => do
    let (value, rest) ← numberBelow? 60 padded cs
    return ({ t with second := value }, rest)
  | .fraction =>
    match cs with
    | point :: c :: rest =>
      if (point == '.' || point == ',') && c.isDigit then
        let digits := (c :: rest).takeWhile Char.isDigit
        some ({ t with nanosecond := nanoseconds 0 9 digits }, (c :: rest).dropWhile Char.isDigit)
      else some (t, cs)
    | _ => some (t, cs)
  | .zone => do
    let (offset, rest) ← zone? cs
    return ({ t with zone := offset }, rest)

def Layout.readFrom? : Layout → Timestamp → List Char → Option Timestamp
  | [], t, [] => some t
  | [], _, _ :: _ => none
  | field :: more, t, cs => do
    let (t, rest) ← field.read? t cs
    readFrom? more t rest

def isLeapYear (year : Nat) : Bool :=
  year % 4 == 0 && (year % 100 != 0 || year % 400 == 0)

def daysInMonth (year month : Nat) : Nat :=
  if month == 2 then (if isLeapYear year then 29 else 28)
  else if month == 4 || month == 6 || month == 9 || month == 11 then 30
  else 31

/-- Reads all of `text`, and refuses days that the month does not have. -/
def Layout.read? (layout : Layout) (text : String) : Option Timestamp := do
  let t ← layout.readFrom? {} text.toList
  if t.day == 0 || t.day > daysInMonth t.year t.month then none else return t

namespace Timestamp

/-- Days since the first of January of the year zero. -/
def dayNumber (t : Timestamp) : Nat :=
  let leapDays := (t.year + 3) / 4 - (t.year + 99) / 100 + (t.year + 399) / 400
  let months := (List.range (t.month - 1)).map fun m => daysInMonth t.year (m + 1)
  t.year * 365 + leapDays + months.foldl (· + ·) 0 + (t.day - 1)

/-- The date that is `days` after the first of March of the year zero. Years that begin in March end
with the leap day, so that months have the same lengths in all of them. -/
def ofMarchDays (days : Nat) : Timestamp :=
  let era := days / 146097
  let dayOfEra := days % 146097
  let yearOfEra := (dayOfEra - dayOfEra / 1460 + dayOfEra / 36524 - dayOfEra / 146096) / 365
  let dayOfYear := dayOfEra - (365 * yearOfEra + yearOfEra / 4 - yearOfEra / 100)
  let shifted := (5 * dayOfYear + 2) / 153
  let month := if shifted < 10 then shifted + 3 else shifted - 9
  { year := era * 400 + yearOfEra + (if month ≤ 2 then 1 else 0)
    month
    day := dayOfYear - (153 * shifted + 2) / 5 + 1 }

def ofUnix (nanoseconds : Nat) : Timestamp :=
  let seconds := nanoseconds / 1000000000
  { ofMarchDays (seconds / 86400 + 719468) with
    hour := seconds / 3600 % 24
    minute := seconds / 60 % 60
    second := seconds % 60
    nanosecond := nanoseconds % 1000000000 }

/-- Nanoseconds since the first of January of the year zero in the zero zone. -/
def instant (t : Timestamp) : Int :=
  let seconds : Int := ((t.dayNumber * 24 + t.hour) * 60 + t.minute) * 60 + t.second
  (seconds - t.offset) * 1000000000 + t.nanosecond

/-- Nanoseconds from `earlier` to `later`, held within the range of a signed 64-bit number. -/
def nanosecondsBetween (earlier later : Timestamp) : Int :=
  max Int64.minValue.toInt (min Int64.maxValue.toInt (later.instant - earlier.instant))

def millisecondsBetween (earlier later : Timestamp) : Int :=
  (nanosecondsBetween earlier later).tdiv 1000000

def pad (width n : Nat) : String :=
  let digits := Nat.toDigits 10 n
  String.ofList (List.replicate (width - digits.length) '0' ++ digits)

def render (t : Timestamp) : String :=
  let date := pad 4 t.year ++ "-" ++ pad 2 t.month ++ "-" ++ pad 2 t.day
  let clock := pad 2 t.hour ++ ":" ++ pad 2 t.minute ++ ":" ++ pad 2 t.second
  let digits := ((pad 9 t.nanosecond).toList.reverse.dropWhile (· == '0')).reverse
  let fraction := if digits.isEmpty then "" else String.ofList ('.' :: digits)
  let minutes := t.offset.natAbs / 60
  let zone :=
    if t.offset == 0 then "Z"
    else (if t.offset < 0 then "-" else "+") ++ pad 2 (minutes / 60) ++ ":" ++ pad 2 (minutes % 60)
  date ++ "T" ++ clock ++ fraction ++ zone

end Timestamp

end Letrec.Time
