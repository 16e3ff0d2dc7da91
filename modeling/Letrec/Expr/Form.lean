import Letrec.Diagnostic
import Letrec.Expr.Basic
import Letrec.Number.Numeral
import Letrec.Text.Quoted
import Letrec.Yaml.Graph

/-!
# Expressions as document nodes

A node of a document stands for an expression if it is a mapping of one entry whose key names the
kind of the expression. This module reads one such node; its sub-expressions are nodes again.
-/

namespace Letrec.Expr

open Yaml (Graph)

/-- One layer of an expression, with nodes for its sub-expressions. -/
inductive Form where
  | const (value : Int64)
  | var (name : String)
  | diff (left right : Nat)
  | zeroTest (operand : Nat)
  | ifThenElse (test yes no : Nat)
  | letIn (name : String) (value body : Nat)
  | letRec (name param : String) (procBody body : Nat)
  | proc (param : String) (body : Nat)
  | call (operator operand : Nat)
deriving DecidableEq, Repr

def Form.children : Form → List Nat
  | .const _ | .var _ => []
  | .diff left right => [left, right]
  | .zeroTest operand => [operand]
  | .ifThenElse test yes no => [test, yes, no]
  | .letIn _ value body => [value, body]
  | .letRec _ _ procBody body => [procBody, body]
  | .proc _ body => [body]
  | .call operator operand => [operator, operand]

inductive Flaw where
  | notAnExpression
  | unknownKind (key : String)
  | constNoScalar
  | constNoInteger (text : String)
  | noList (kind : String) (count : Nat)
  | noFields (kind : String) (names : List String)
  | unknownField (name kind : String)
  | duplicateField (name kind : String)
  | missingField (name kind : String)
  | noName (role : String)
  | recursiveAlias
deriving DecidableEq, Repr

namespace Flaw

def kinds : List String := ["const", "var", "diff", "zero", "if", "let", "letrec", "proc", "call"]

def message : Flaw → String
  | .notAnExpression => "expected an expression node"
  | .unknownKind key => "unknown node kind '" ++ key ++ "'"
  | .constNoScalar => "const expects an integer"
  | .constNoInteger text => "const expects an integer, got " ++ Text.quoted text
  | .noList kind count => kind ++ " expects a list of " ++ toString count ++ " expressions"
  | .noFields kind names =>
    kind ++ " expects a mapping with fields " ++ String.intercalate ", " names
  | .unknownField name kind => "unknown field '" ++ name ++ "' in " ++ kind
  | .duplicateField name kind => "duplicate field '" ++ name ++ "' in " ++ kind
  | .missingField name kind => "missing field '" ++ name ++ "' in " ++ kind
  | .noName role => role ++ " must be a non-empty string"
  | .recursiveAlias => "recursive alias"

def hint : Flaw → String
  | .notAnExpression => "write a node as a mapping with one key, e.g. \x7bconst: 1\x7d"
  | .unknownKind _ => "node kinds: " ++ String.intercalate ", " kinds
  | _ => ""

end Flaw

/-- A flaw and the node that has it. -/
abbrev Finding := Flaw × Nat

def listOf (g : Graph) (i : Nat) (kind : String) (count : Nat) : Except (List Finding) (List Nat) :=
  let i := g.follow i
  match (g.node i).shape with
  | .sequence items => if items.length = count then .ok items else .error [(.noList kind count, i)]
  | _ => .error [(.noList kind count, i)]

/-- Unknown and repeated keys, in document order; `seen` holds the keys before. -/
def keyFindings (g : Graph) (kind : String) (names seen : List String) :
    List (Nat × Nat) → List Finding
  | [] => []
  | (key, _) :: rest =>
    let name := (g.node key).text
    if name ∉ names then (.unknownField name kind, key) :: keyFindings g kind names seen rest
    else if name ∈ seen then (.duplicateField name kind, key) :: keyFindings g kind names seen rest
    else keyFindings g kind names (name :: seen) rest

def field? (g : Graph) (entries : List (Nat × Nat)) (name : String) : Option Nat :=
  (entries.find? fun e => (g.node e.1).text == name).map Prod.snd

/-- The values of a mapping that holds each of the named fields once and no other. -/
def fieldsOf (g : Graph) (i : Nat) (kind : String) (names : List String) :
    Except (List Finding) (List Nat) :=
  let i := g.follow i
  match (g.node i).shape with
  | .mapping entries =>
    let missing := names.filter fun name => (field? g entries name).isNone
    let findings :=
      keyFindings g kind names [] entries ++ missing.map fun name => (.missingField name kind, i)
    if findings.isEmpty then .ok (names.filterMap (field? g entries)) else .error findings
  | _ => .error [(.noFields kind names, i)]

/-- A name, which is a text that is not empty. What is no name is found wanting and read as the
empty text. -/
def nameOf (g : Graph) (i : Nat) (role : String) : String × List Finding :=
  let i := g.follow i
  match (g.node i).shape with
  | .scalar text =>
    if (g.node i).tag = .str && text ≠ "" then (text, []) else ("", [(.noName role, i)])
  | _ => ("", [(.noName role, i)])

def constOf (g : Graph) (i : Nat) : Except (List Finding) Form :=
  let i := g.follow i
  match (g.node i).shape with
  | .scalar text =>
    match Number.int64? text with
    | some value => .ok (.const value)
    | none => .error [(.constNoInteger text, i)]
  | _ => .error [(.constNoScalar, i)]

/-- The form a node stands for and what is wrong with its names, or what is wrong with its shape. -/
def formOf (g : Graph) (i : Nat) : Except (List Finding) (Form × List Finding) :=
  match (g.node i).shape with
  | .mapping [(key, value)] => do
    match (g.node key).text with
    | "const" => return (← constOf g value, [])
    | "var" =>
      let (name, findings) := nameOf g value "var"
      return (.var name, findings)
    | "diff" =>
      match ← listOf g value "diff" 2 with
      | [left, right] => return (.diff left right, [])
      | _ => .error []
    | "zero" => return (.zeroTest value, [])
    | "if" =>
      match ← listOf g value "if" 3 with
      | [test, yes, no] => return (.ifThenElse test yes no, [])
      | _ => .error []
    | "let" =>
      match ← fieldsOf g value "let" ["name", "value", "body"] with
      | [name, bound, body] =>
        let (name, findings) := nameOf g name "let name"
        return (.letIn name bound body, findings)
      | _ => .error []
    | "letrec" =>
      match ← fieldsOf g value "letrec" ["name", "param", "proc", "body"] with
      | [name, param, procBody, body] =>
        let (name, findings) := nameOf g name "letrec name"
        let (param, more) := nameOf g param "letrec param"
        return (.letRec name param procBody body, findings ++ more)
      | _ => .error []
    | "proc" =>
      match ← fieldsOf g value "proc" ["param", "body"] with
      | [param, body] =>
        let (param, findings) := nameOf g param "proc param"
        return (.proc param body, findings)
      | _ => .error []
    | "call" =>
      match ← listOf g value "call" 2 with
      | [operator, operand] => return (.call operator operand, [])
      | _ => .error []
    | other => .error [(.unknownKind other, key)]
  | _ => .error [(.notAnExpression, i)]

end Letrec.Expr
