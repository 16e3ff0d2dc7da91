import Letrec.Expr.Basic
import Letrec.Text.Basic
import Letrec.Yaml.Emit

/-!
# Writing expressions

Expressions the way textbooks write them, over several lines or on one, and the document that stands
for an expression.
-/

namespace Letrec.Expr

-- ---------------------------------------------------------------------------
-- Textbook notation
-- ---------------------------------------------------------------------------

def indentation (depth : Nat) : String := String.ofList (List.replicate (2 * depth) ' ')

/-- The lines of an expression, all but the first indented to `depth`. -/
def layout (depth : Nat) : Expr → String
  | .const _ value => toString value.toInt
  | .var _ name => name
  | .diff _ left right => "-(" ++ left.layout depth ++ ", " ++ right.layout depth ++ ")"
  | .zeroTest _ operand => "zero?(" ++ operand.layout depth ++ ")"
  | .ifThenElse _ test yes no =>
    "if " ++ test.layout (depth + 1) ++
      "\n" ++ indentation (depth + 1) ++ "then " ++ yes.layout (depth + 1) ++
      "\n" ++ indentation (depth + 1) ++ "else " ++ no.layout (depth + 1)
  | .letIn _ name value body =>
    "let " ++ name ++ " = " ++ value.layout (depth + 1) ++
      "\n" ++ indentation depth ++ "in " ++ body.layout depth
  | .letRec _ name param procBody body =>
    "letrec " ++ name ++ "(" ++ param ++ ") = " ++ procBody.layout (depth + 1) ++
      "\n" ++ indentation depth ++ "in " ++ body.layout depth
  | .proc _ param body => "proc (" ++ param ++ ") " ++ body.layout (depth + 1)
  | .call _ operator operand => "(" ++ operator.layout depth ++ " " ++ operand.layout depth ++ ")"
  | .absent => "<nil>"

def format (e : Expr) : String := e.layout 0 ++ "\n"

/-- On one line: the words of the layout with one blank between them. -/
def inline (e : Expr) : String := String.intercalate " " (Text.words (e.layout 0))

-- ---------------------------------------------------------------------------
-- Documents
-- ---------------------------------------------------------------------------

open Yaml (Tree)

inductive EncodeError where
  | absent
  | missing (field kind : String)
deriving DecidableEq, Repr

def EncodeError.message : EncodeError → String
  | .absent => "codec: nil expression"
  | .missing field kind => "codec: missing " ++ field ++ " in " ++ kind

def leaf (kind : String) (value : Tree) : Tree := .mapping true [(Tree.str kind, value)]

def encode : Expr → Except EncodeError Tree
  | .const _ value => .ok (leaf "const" (.scalar .int (toString value.toInt)))
  | .var _ name => .ok (leaf "var" (Tree.str name))
  | .diff _ left right => do
    return Tree.single "diff" (.sequence [← left.encode, ← right.encode])
  | .zeroTest _ operand => do
    return Tree.single "zero" (← operand.encode)
  | .ifThenElse _ test yes no => do
    return Tree.single "if" (.sequence [← test.encode, ← yes.encode, ← no.encode])
  | .letIn _ name value body => do
    let value ← field "value" "let" value value.encode
    let body ← field "body" "let" body body.encode
    return record "let" [("name", Tree.str name), ("value", value), ("body", body)]
  | .letRec _ name param procBody body => do
    let procBody ← field "proc" "letrec" procBody procBody.encode
    let body ← field "body" "letrec" body body.encode
    return record "letrec"
      [("name", Tree.str name), ("param", Tree.str param), ("proc", procBody), ("body", body)]
  | .proc _ param body => do
    let body ← field "body" "proc" body body.encode
    return record "proc" [("param", Tree.str param), ("body", body)]
  | .call _ operator operand => do
    return Tree.single "call" (.sequence [← operator.encode, ← operand.encode])
  | .absent => .error .absent
where
  /-- The document of a field, which is reported by name if it is missing. -/
  field (name kind : String) (e : Expr) (encoded : Except EncodeError Tree) :
    Except EncodeError Tree :=
    match e with
    | .absent => .error (.missing name kind)
    | _ => encoded
  record (kind : String) (fields : List (String × Tree)) : Tree :=
    Tree.single kind (.mapping false (fields.map fun (key, value) => (Tree.str key, value)))

def toText (e : Expr) : Except EncodeError String := do return (← e.encode).render 2

end Letrec.Expr
