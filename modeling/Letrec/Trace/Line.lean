import Letrec.Json.Read
import Letrec.Text.Basic

/-!
# Lines of a trace

A trace file holds one JSON object a line. Lines that are no events are passed over, and a line that
is too long ends the trace.
-/

namespace Letrec.Trace

structure Line where
  event : String := ""
  runId : String := ""
  time : String := ""
  data : List (String × String) := []
deriving DecidableEq, Repr, Inhabited

/-- A letter without regard to case. The long s counts as an s. -/
def foldCase (c : Char) : Char := if c == 'ſ' then 's' else c.toLower

def isKey (name key : String) : Bool :=
  name == key || key.toList.map foldCase == name.toList.map foldCase

/-- A text; null leaves the field as it is. -/
def textFrom (held : String) : Json Json.Literal → Option String
  | .string s => some s
  | .null => some held
  | _ => none

def putData (key value : String) : List (String × String) → List (String × String)
  | [] => [(key, value)]
  | (k, v) :: rest => if k = key then (key, value) :: rest else (k, v) :: putData key value rest

/-- Texts by name; null is an empty text. -/
def dataFrom (held : List (String × String)) :
    List (String × Json Json.Literal) → Option (List (String × String))
  | [] => some held
  | (key, value) :: rest => do
    let text ← textFrom "" value
    dataFrom (putData key text held) rest

/-- Takes in the fields of an object, later ones over earlier ones. -/
def fieldsFrom (l : Line) : List (String × Json Json.Literal) → Option Line
  | [] => some l
  | (key, value) :: rest => do
    if isKey "event" key then fieldsFrom { l with event := ← textFrom l.event value } rest
    else if isKey "runId" key then fieldsFrom { l with runId := ← textFrom l.runId value } rest
    else if isKey "ts" key then fieldsFrom { l with time := ← textFrom l.time value } rest
    else if isKey "data" key then
      match value with
      | .object entries => fieldsFrom { l with data := ← dataFrom l.data entries } rest
      | .null => fieldsFrom { l with data := [] } rest
      | _ => none
    else fieldsFrom l rest

def Line.ofText? (text : String) : Option Line := do
  match ← Json.read? text with
  | .object fields => fieldsFrom {} fields
  | .null => return {}
  | _ => none

def lengthLimit : Nat := 65536

/-- The lines before the first one that is too long, without a carriage return at their ends; `line`
is the current line, reversed, and `size` its length. -/
def linesFrom (line : List UInt8) (size : Nat) : List UInt8 → List (List UInt8)
  | [] => if size = 0 then [] else [finish line]
  | byte :: rest =>
    if byte = 10 then finish line :: linesFrom [] 0 rest
    else if size + 1 ≥ lengthLimit then []
    else linesFrom (byte :: line) (size + 1) rest
where
  finish (line : List UInt8) : List UInt8 :=
    match line with
    | 13 :: rest => rest.reverse
    | _ => line.reverse

def linesOf (bytes : ByteArray) : List Line :=
  (linesFrom [] 0 bytes.toList).filterMap fun line =>
    let text := Text.trim (Text.ofBytes ⟨line.toArray⟩)
    if text = "" then none else Line.ofText? text

end Letrec.Trace
