import Letrec.Json.Data
import Letrec.Text.Basic
import Letrec.Text.Quoted
import Letrec.Yaml.Scalar

/-!
# Documents with a known shape

A schema says what a document should hold, a datum is what it holds, and a misfit is one way in
which the two differ. In messages a datum that cannot be a key is shown as a literal, with the keys
of its mappings in order.
-/

namespace Letrec

namespace Yaml

inductive Schema where
  | any
  | bool
  | int (name : String)
  | text
  | optional (value : Schema)
  | list (item : Schema)
  | table
  | pairs
  | record (name : String) (fields : List (String × Schema))
deriving Repr, Inhabited

namespace Schema

def name : Schema → String
  | .any => "interface \x7b\x7d"
  | .bool => "bool"
  | .int name => name
  | .text => "string"
  | .optional value => "*" ++ value.name
  | .list item => "[]" ++ item.name
  | .table => "map[string]interface \x7b\x7d"
  | .pairs => "map[interface \x7b\x7d]interface \x7b\x7d"
  | .record name _ => name

def required : Schema → Schema
  | .optional value => value.required
  | schema => schema

/-- Whether null is a value of its own; for any other schema it stands for no value at all. -/
def takesNull : Schema → Bool
  | .any | .optional _ | .list _ | .table | .pairs => true
  | .bool | .int _ | .text | .record .. => false

end Schema

/-- What a document holds. A record and a table have texts for keys. -/
inductive Datum where
  | scalar (value : Scalar)
  | list (items : List Datum)
  | mapping (byText : Bool) (entries : List (Scalar × Datum))
deriving Repr, Inhabited

namespace Datum

abbrev null : Datum := .scalar .null

def text (s : String) : Datum := .scalar (.text s)

def entries : Datum → List (Scalar × Datum)
  | .mapping _ entries => entries
  | .scalar _ | .list _ => []

def field (d : Datum) (name : String) : Datum := (d.entries.lookup (.text name)).getD null

def isNull : Datum → Bool
  | .scalar .null => true
  | _ => false

def toBool : Datum → Bool
  | .scalar (.bool b) => b
  | _ => false

def toInt? : Datum → Option Int
  | .scalar (.int n) => some n
  | _ => none

def toText : Datum → String
  | .scalar (.text s) => s
  | .scalar (.binary bytes) => (Text.Loose.ofBytes bytes).shown
  | _ => ""

def toTexts : Datum → List String
  | .list items => items.map toText
  | _ => []

def put (key : Scalar) (value : Datum) : List (Scalar × Datum) → List (Scalar × Datum)
  | [] => [(key, value)]
  | (k, v) :: rest => if k.isSameKey key then (key, value) :: rest else (k, v) :: put key value rest

/-- A scalar as JSON, which has no infinite numbers and no zones a day away. -/
def scalarToData? : Scalar → Option Json.Data
  | .null => some .null
  | .bool b => some (.bool b)
  | .int n => some (.number (Number.Binary64.ofInt n))
  | .float x => some (.number x)
  | .infinity _ | .notANumber => none
  | .timestamp t => if t.offset.natAbs < 86400 then some (.string t.render) else none
  | .text s => some (.string s)
  | .binary bytes => some (.string (Text.Loose.ofBytes bytes).shown)

mutual
/-- A datum as JSON. There is none if a mapping has keys that are no texts; of two keys that are
shown alike, the one listed later counts. -/
def toData? : Datum → Option Json.Data
  | .scalar value => scalarToData? value
  | .list items => do return .array (← itemsToData? items)
  | .mapping byText entries => do
    let fields ← entriesToData? entries
    let listed := fields.mergeSort fun a b => a.1.isListedBefore b.1
    if byText then
      return .object (Json.canonicalFields (listed.map fun f => ((scalar f.1).toText, f.2)))
    else none

def itemsToData? : List Datum → Option (List Json.Data)
  | [] => some []
  | item :: rest => do
    let first ← toData? item
    let others ← itemsToData? rest
    return first :: others

def entriesToData? : List (Scalar × Datum) → Option (List (Scalar × Json.Data))
  | [] => some []
  | (key, value) :: rest => do
    let first ← toData? value
    let others ← entriesToData? rest
    return (key, first) :: others
end

end Datum

inductive Misfit where
  | wrongKind (line : Nat) (tag : Tag) (text schema : String)
  | unknownField (line : Nat) (name : Text.Loose) (schema : String)
  | repeatedField (line : Nat) (name schema : String)
  | repeatedKey (line : Nat) (key : String) (firstLine : Nat)
deriving DecidableEq, Repr

namespace Misfit

/-- A text of more than ten bytes is cut after seven. -/
def excerpt (text : String) : Text.Loose :=
  if text.utf8ByteSize > 10 then Text.Loose.takeBytes 7 text ++ "..." else text

def message : Misfit → Text.Loose
  | .wrongKind line tag text schema =>
    let shown : Text.Loose :=
      if tag = .seq || tag = .map then text else " \x60" ++ excerpt text ++ "\x60"
    "line " ++ toString line ++ ": cannot unmarshal " ++ tag.name ++ shown ++ " into " ++ schema
  | .unknownField line name schema =>
    "line " ++ toString line ++ ": field " ++ name ++ " not found in type " ++ schema
  | .repeatedField line name schema =>
    "line " ++ toString line ++ ": field " ++ name ++ " already set in type " ++ schema
  | .repeatedKey line key firstLine =>
    "line " ++ toString line ++ ": mapping key " ++ Text.quoted key ++
      " already defined at line " ++ toString firstLine

end Misfit

inductive Unfit where
  | misfits (found : List Misfit)
  | wrongTag (found : Tag) (text : String) (wanted : Tag)
  | containsItself (anchor : String)
  | tooManyAliases
  | notBase64
  | notMergeable
  | collectionAsKey (key : String)
  | endless
deriving DecidableEq, Repr

def Unfit.message : Unfit → Text.Loose
  | .misfits found =>
    "yaml: unmarshal errors:\n  " ++ Text.Loose.intercalate "\n  " (found.map Misfit.message)
  | .wrongTag found text wanted =>
    "yaml: cannot decode " ++ found.name ++ " \x60" ++ text ++ "\x60 as a " ++ wanted.name
  | .containsItself anchor => "yaml: anchor '" ++ anchor ++ "' value contains itself"
  | .tooManyAliases => "yaml: document contains excessive aliasing"
  | .notBase64 => "yaml: !!binary value contains invalid base64 data"
  | .notMergeable => "yaml: map merge requires map or sequence of maps as the value"
  | .collectionAsKey key => "yaml: invalid map key: " ++ key
  | .endless => "yaml: document without end"

end Yaml

-- ---------------------------------------------------------------------------
-- Data in messages
-- ---------------------------------------------------------------------------

def Time.monthNames : List String :=
  ["January", "February", "March", "April", "May", "June", "July", "August", "September", "October",
    "November", "December"]

/-- A zone at no distance is that of the place itself. -/
def Time.Timestamp.literal (t : Timestamp) : String :=
  let zone :=
    match t.zone with
    | none => "time.UTC"
    | some offset => if offset = 0 then "time.Local" else "time.Location(\"\")"
  let month := "time." ++ monthNames.getD (t.month - 1) ""
  let numbers := [t.day, t.hour, t.minute, t.second, t.nanosecond].map toString
  "time.Date(" ++ String.intercalate ", " ([toString t.year, month] ++ numbers ++ [zone]) ++ ")"

namespace Yaml

/-- A number beyond the signed range of 64 bits is shown in hexadecimal, and a fraction with an
exponent from a million on and below `10 ^ -4`. -/
def Scalar.literal : Scalar → String
  | .null => "interface \x7b\x7d(nil)"
  | .bool b => if b then "true" else "false"
  | .int n =>
    if Number.fitsInt64 n then toString n else "0x" ++ String.ofList (Nat.toDigits 16 n.natAbs)
  | .float x => x.renderAs ⟨-4, 6, 2⟩
  | .infinity negative => if negative then "-Inf" else "+Inf"
  | .notANumber => "NaN"
  | .timestamp t => t.literal
  | .text s => Text.quoted s
  | .binary bytes => (Text.Loose.ofBytes bytes).quoted

namespace Datum

mutual
def literal : Datum → String
  | .scalar value => value.literal
  | .list items => "[]interface \x7b\x7d\x7b" ++ String.intercalate ", " (literals items) ++ "\x7d"
  | .mapping byText entries =>
    let listed := (entryLiterals entries).mergeSort fun a b => a.1.isListedBefore b.1
    (if byText then Schema.table.name else Schema.pairs.name) ++ "\x7b" ++
      String.intercalate ", " (listed.map fun e => e.1.literal ++ ":" ++ e.2) ++ "\x7d"

def literals : List Datum → List String
  | [] => []
  | item :: rest => literal item :: literals rest

def entryLiterals : List (Scalar × Datum) → List (Scalar × String)
  | [] => []
  | (key, value) :: rest => (key, literal value) :: entryLiterals rest
end

end Datum

end Yaml

end Letrec
