import Letrec.Expr.Basic
import Letrec.Json.Basic

/-!
# Diagnostics

A message about a program, with a code, a place and a hint; its two printed forms, and the exit
status that goes with a code.
-/

namespace Letrec

inductive Code where
  | decode
  | ast
  | unbound
  | type
  | budget
  | file
  | config
  | other (name : String)
deriving DecidableEq, Repr

namespace Code

def name : Code → String
  | .decode => "E_DECODE"
  | .ast => "E_AST"
  | .unbound => "E_UNBOUND"
  | .type => "E_TYPE"
  | .budget => "E_BUDGET"
  | .file => "E_IO"
  | .config => "E_CONFIG"
  | .other name => name

def named : List Code := [.decode, .ast, .unbound, .type, .budget, .file, .config]

def ofName (name : String) : Code := (named.find? (·.name == name)).getD (.other name)

/-- 1 for files and settings, 2 for programs that cannot be read, 3 for limits, 4 for all else. -/
def exitStatus : Code → Nat
  | .file | .config => 1
  | .decode | .ast => 2
  | .budget => 3
  | .unbound | .type | .other _ => 4

end Code

structure Diagnostic where
  code : Code
  message : String
  span : Option Span := none
  hint : String := ""
deriving DecidableEq, Repr

namespace Diagnostic

def spanJson (s : Span) : Json Int :=
  .object [("file", .string s.file), ("line", .number s.line), ("col", .number s.col)]

/-- A place or hint that is missing is left out. -/
def toJson (d : Diagnostic) : Json Int :=
  let place := d.span.toList.map fun s => ("span", spanJson s)
  let hint := if d.hint = "" then [] else [("hint", .string d.hint)]
  .object ([("code", .string d.code.name), ("message", .string d.message)] ++ place ++ hint)

def place (d : Diagnostic) : String :=
  match d.span with
  | none => "<unknown>"
  | some s =>
    (if s.file = "" then "<tree>" else s.file) ++ ":" ++ toString s.line ++ ":" ++ toString s.col

def pretty (d : Diagnostic) : String :=
  "error[" ++ d.code.name ++ "]: " ++ d.message ++ "\n  --> " ++ d.place ++
    (if d.hint = "" then "" else "\n  hint: " ++ d.hint)

def render (isPretty : Bool) (d : Diagnostic) : String :=
  if isPretty then d.pretty else d.toJson.text

/-- A JSON array, or the human form with an empty line between two messages. -/
def renderAll (isPretty : Bool) (ds : List Diagnostic) : String :=
  if isPretty then String.intercalate "\n\n" (ds.map pretty) else (Json.array (ds.map toJson)).text

def summary (ds : List Diagnostic) : String :=
  String.intercalate "; " (ds.map fun d => d.code.name ++ ": " ++ d.message)

end Diagnostic

end Letrec
