import Letrec.Diagnostic
import Letrec.Evaluation.Event
import Letrec.Value

/-!
# How a run can fail
-/

namespace Letrec

inductive Failure where
  | unbound (name : String) (span : Option Span)
  | mismatch (expected actual : Kind) (span : Option Span)
  | exceeded (limit : Limit) (bound : Int) (span : Option Span)
  | noExpression
  | cancelled
  /-- A name was looked up where there is no environment at all. -/
  | noEnvironment
  | outOfFuel
deriving DecidableEq, Repr

namespace Failure

def message : Failure → String
  | .unbound name _ => "unbound variable '" ++ name ++ "'"
  | .mismatch expected actual _ => "expected " ++ expected.name ++ ", got " ++ actual.name
  | .exceeded limit bound _ => limit.message bound
  | .noExpression => "evaluator: nil expression"
  | .cancelled => "evaluation interrupted: context canceled"
  | .noEnvironment => "evaluator: nil environment"
  | .outOfFuel => "evaluator: nesting too deep"

def code? : Failure → Option Code
  | .unbound .. => some .unbound
  | .mismatch .. => some .type
  | .exceeded .. => some .budget
  | _ => none

def span? : Failure → Option Span
  | .unbound _ span => span
  | .mismatch _ _ span => span
  | .exceeded _ _ span => span
  | _ => none

/-- Says where it happened, unless that is known already. -/
def located (place : Span) : Failure → Failure
  | .unbound name none => .unbound name place.known?
  | .mismatch expected actual none => .mismatch expected actual place.known?
  | .exceeded limit bound none => .exceeded limit bound place.known?
  | f => f

def diagnostic? (f : Failure) : Option Diagnostic :=
  f.code?.map fun code => { code, message := f.message, span := f.span? }

end Failure

/-- The value of a name, that of its innermost frame. -/
def Env.lookup : Env → String → Except Failure Value
  | .empty, x => .error (.unbound x none)
  | .absent, _ => .error .noEnvironment
  | .bind _ name value tail, x => if name = x then .ok value else tail.lookup x
  | .recur stamp name param body tail, x =>
    if name = x then .ok (.closure param body (.recur stamp name param body tail))
    else tail.lookup x

namespace Value

def asInt : Value → Except Failure Int64
  | .int n => .ok n
  | v => .error (.mismatch .int v.kind none)

def asBool : Value → Except Failure Bool
  | .bool b => .ok b
  | v => .error (.mismatch .bool v.kind none)

def asClosure : Value → Except Failure (String × Expr × Env)
  | .closure param body env => .ok (param, body, env)
  | v => .error (.mismatch .closure v.kind none)

end Value

end Letrec
