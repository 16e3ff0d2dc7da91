import Letrec.Expr.Form
import Letrec.Yaml.Document

/-!
# Reading expressions

The expression a document stands for. A node is read once, however many aliases refer to it, so that
what is shared in the document is shared in the tree; a node inside itself is refused.
-/

namespace Letrec.Expr

open Yaml (Graph)

structure Decoding where
  done : Std.HashMap Nat Expr := {}
  findings : Array Finding := #[]

abbrev Decode := StateM Decoding

namespace Decode

def report (findings : List Finding) : Decode Unit :=
  modify fun s => { s with findings := s.findings ++ findings.toArray }

def originOf (g : Graph) (tree : Nat) (file : String) (i : Nat) : Origin :=
  { id := ⟨tree, i⟩, span := ⟨file, (g.node i).line, (g.node i).column⟩ }

def assemble (origin : Origin) (child : Nat → Decode Expr) : Form → Decode Expr
  | .const value => return .const origin value
  | .var name => return .var origin name
  | .diff left right => return .diff origin (← child left) (← child right)
  | .zeroTest operand => return .zeroTest origin (← child operand)
  | .ifThenElse test yes no => return .ifThenElse origin (← child test) (← child yes) (← child no)
  | .letIn name value body => return .letIn origin name (← child value) (← child body)
  | .letRec name param procBody body =>
    return .letRec origin name param (← child procBody) (← child body)
  | .proc param body => return .proc origin param (← child body)
  | .call operator operand => return .call origin (← child operator) (← child operand)

def node (g : Graph) (tree : Nat) (file : String) :
    (fuel : Nat) → (path : List Nat) → Nat → Decode Expr
  | 0, _, _ => return .absent
  | fuel + 1, path, i => do
    let i := g.follow i
    match (← get).done[i]? with
    | some e => return e
    | none =>
      if i ∈ path then
        report [(.recursiveAlias, i)]
        return .absent
      else
        let e ←
          match formOf g i with
          | .error findings =>
            report findings
            pure .absent
          | .ok (form, findings) =>
            report findings
            assemble (originOf g tree file i) (node g tree file fuel (i :: path)) form
        modify fun s => { s with done := s.done.insert i e }
        return e

end Decode

def Finding.toDiagnostic (g : Graph) (file : String) (f : Finding) : Diagnostic :=
  { code := .ast, message := f.1.message, hint := f.1.hint
    span := some ⟨file, (g.node f.2).line, (g.node f.2).column⟩ }

/-- The expression at the root of a graph. No path is longer than the number of nodes. -/
def decode (g : Graph) (tree : Nat) (file : String) : Except (List Diagnostic) Expr :=
  let (e, s) := (Decode.node g tree file (g.nodes.size + 1) [] g.root).run {}
  if s.findings.isEmpty then .ok e
  else .error (s.findings.toList.map (Finding.toDiagnostic g file))

def ofText (source : Yaml.Source) (tree : Nat) (file : String) : Except (List Diagnostic) Expr :=
  match Yaml.read source with
  | .error problem =>
    .error [{ code := .decode, message := "cannot decode " ++ file ++ ": " ++ problem.message }]
  | .ok none => .error [{ code := .decode, message := file ++ ": empty document" }]
  | .ok (some g) => decode g tree file

end Letrec.Expr
