import Letrec.Number.Numeral
import Letrec.Number.Shortest
import Letrec.Text.Basic
import Letrec.Time.Timestamp

/-!
# What scalars mean

The tag of a node says what kind of value it is meant to be. The tags of the core schema have a
short form; a tag of any other name is kept as it is. A plain scalar without a tag is null, a truth
value, a number, a point in time or a text, by the way it is written.
-/

namespace Letrec.Yaml

-- ---------------------------------------------------------------------------
-- Kinds of nodes
-- ---------------------------------------------------------------------------

inductive Tag where
  | null
  | bool
  | int
  | float
  | timestamp
  | str
  | binary
  | merge
  | seq
  | map
  | other (name : Text.Loose)
deriving DecidableEq, Repr

namespace Tag

instance : Inhabited Tag := ⟨.other {}⟩

def core : List Tag := [.null, .bool, .int, .float, .timestamp, .str, .binary, .merge, .seq, .map]

def name : Tag → Text.Loose
  | .null => "!!null"
  | .bool => "!!bool"
  | .int => "!!int"
  | .float => "!!float"
  | .timestamp => "!!timestamp"
  | .str => "!!str"
  | .binary => "!!binary"
  | .merge => "!!merge"
  | .seq => "!!seq"
  | .map => "!!map"
  | .other name => name

def coreHead : Text.Loose := "tag:yaml.org,2002:"

def short (name : Text.Loose) : Text.Loose :=
  if coreHead.glyphs.isPrefixOf name.glyphs then
    ("!!" : Text.Loose) ++ ⟨name.glyphs.drop coreHead.glyphs.length⟩
  else name

/-- The tag of a name that is written in full or in short. -/
def ofName (name : Text.Loose) : Tag :=
  (core.find? (·.name = short name)).getD (.other (short name))

end Tag

-- ---------------------------------------------------------------------------
-- Scalars
-- ---------------------------------------------------------------------------

inductive Scalar where
  | null
  | bool (value : Bool)
  | int (value : Int)
  | float (value : Number.Binary64)
  | infinity (negative : Bool)
  | notANumber
  | timestamp (value : Time.Timestamp)
  | text (value : String)
  | binary (bytes : List UInt8)
deriving DecidableEq, Repr

namespace Scalar

def tag : Scalar → Tag
  | .null => .null
  | .bool _ => .bool
  | .int _ => .int
  | .float _ | .infinity _ | .notANumber => .float
  | .timestamp _ => .timestamp
  | .text _ => .str
  | .binary _ => .binary

def word? (text : String) : Option Scalar :=
  match text with
  | "" | "~" | "null" | "Null" | "NULL" => some .null
  | "true" | "True" | "TRUE" => some (.bool true)
  | "false" | "False" | "FALSE" => some (.bool false)
  | ".nan" | ".NaN" | ".NAN" => some .notANumber
  | ".inf" | ".Inf" | ".INF" | "+.inf" | "+.Inf" | "+.INF" => some (.infinity false)
  | "-.inf" | "-.Inf" | "-.INF" => some (.infinity true)
  | _ => none

def timestampLayouts : List Time.Layout :=
  let date := Time.Layout.date false
  let clock := Time.Layout.clock false
  [date ++ [.literal 'T'] ++ clock ++ [.zone], date ++ [.literal 't'] ++ clock ++ [.zone],
    date ++ [.blanks] ++ clock, date]

/-- A date that starts with a year of four digits, perhaps with a time of day. -/
def timestamp? (text : String) : Option Time.Timestamp :=
  let cs := text.toList
  if (cs.takeWhile Char.isDigit).length = 4 && (cs.drop 4).head? == some '-' then
    timestampLayouts.findSome? (·.read? text)
  else none

def exponent? : List Char → Option Int
  | [] => some 0
  | mark :: rest =>
    if mark == 'e' || mark == 'E' then Number.signed? (Number.digits? 10) rest else none

def decimal? (cs : List Char) : Option Number.Decimal := do
  let whole := cs.takeWhile Char.isDigit
  let rest := cs.drop whole.length
  let (fraction, rest) :=
    match rest with
    | '.' :: rest => (rest.takeWhile Char.isDigit, rest.dropWhile Char.isDigit)
    | _ => ([], rest)
  let digits ← Number.digits? 10 (whole ++ fraction)
  let power ← exponent? rest
  return ⟨digits, power - (fraction.length : Int)⟩

def float? (cs : List Char) : Option Number.Binary64 := do
  let (negative, cs) :=
    match cs with
    | '-' :: rest => (true, rest)
    | '+' :: rest => (false, rest)
    | _ => (false, cs)
  let d ← decimal? cs
  Number.Binary64.ofDecimal? negative d.digits d.power

/-- Whether each underscore stands between two digits. -/
def separatesDigits (afterDigit : Bool) : List Char → Bool
  | [] => true
  | '_' :: c :: rest => afterDigit && c.isDigit && separatesDigits true rest
  | ['_'] => false
  | c :: rest => separatesDigits c.isDigit rest

/-- A number that starts with a digit or a sign; underscores in it play no part. -/
def number? (text : String) : Option Scalar :=
  let cs := text.toList.filter (· != '_')
  match Number.machineInt? cs with
  | some n => some (.int n)
  | none => (float? cs).map .float

/-- What a text means; it may be a date only if `dates`. -/
def ofText (dates : Bool) (text : String) : Scalar :=
  match word? text with
  | some value => value
  | none =>
    match text.toList with
    | [] => .null
    | c :: rest =>
      if c == '.' then
        match float? (text.toList.filter (· != '_')) with
        | some x => if separatesDigits false (c :: rest) then .float x else .text text
        | none => .text text
      else if c.isDigit || c == '+' || c == '-' then
        match if dates then timestamp? text else none with
        | some t => .timestamp t
        | none => (number? text).getD (.text text)
      else .text text

def ofPlain (text : String) : Scalar := ofText true text

end Scalar

-- ---------------------------------------------------------------------------
-- Scalars as keys
-- ---------------------------------------------------------------------------

namespace Scalar

/-- Whether a zone that is so many seconds away is in use: whole hours, from 12 to the west to 14 to
the east. -/
def isCommonZone (offset : Int) : Bool :=
  offset % 3600 = 0 && -12 * 3600 ≤ offset && offset ≤ 14 * 3600

/-- Whether two scalars are one key. The two zeros are; nothing is the same as what is not a number,
and no points in time outside the common zones are the same. -/
def isSameKey : Scalar → Scalar → Bool
  | .float x, .float y => x.same y
  | .notANumber, _ => false
  | .timestamp s, .timestamp t => s == t && isCommonZone s.offset
  | key, other => key == other

def keyKind : Scalar → Nat
  | .null => 0
  | .bool _ => 1
  | .float _ | .infinity _ | .notANumber => 2
  | .int n => if Number.fitsInt64 n then 3 else 5
  | .text _ | .binary _ => 4
  | .timestamp _ => 6

def bytes : Scalar → List UInt8
  | .text s => s.toUTF8.toList
  | .binary bytes => bytes
  | _ => []

def zoneKind : Option Int → Nat
  | none => 0
  | some offset => if offset = 0 then 1 else 2

/-- Whether a key may be listed before another: false before true, numbers by size with what is not
a number in front, texts by their bytes, points in time by the fraction of the second first. -/
def isListedBefore (key other : Scalar) : Bool :=
  match key, other with
  | .bool x, .bool y => !x || y
  | .float x, .float y => x.atMost y
  | .notANumber, .float _ | .notANumber, .infinity _ | .infinity true, .float _ |
      .float _, .infinity false
  | .infinity true, .infinity _ => true
  | .float _, .notANumber | .infinity _, .notANumber | .float _, .infinity true |
      .infinity false, .float _
  | .infinity false, .infinity true => false
  | .int m, .int n => m ≤ n
  | .text _, .text _ | .text _, .binary _ | .binary _, .text _ | .binary _, .binary _ =>
    !(other.bytes < key.bytes)
  | .timestamp s, .timestamp t =>
    s.nanosecond < t.nanosecond || (s.nanosecond == t.nanosecond &&
      (s.instant < t.instant || (s.instant == t.instant && zoneKind s.zone ≤ zoneKind t.zone)))
  | _, _ => key.keyKind ≤ other.keyKind

end Scalar

end Letrec.Yaml
