import Letrec.Expr.Decode
import Letrec.Expr.Encode
import Letrec.Prelude
import Letrec.Scope

/-!
# Programs

What can be done with a program text: check it, run it, write it in textbook notation or in
canonical form.
-/

namespace Letrec

structure Settings where
  prelude : Prelude := .empty
  limits : Limits := {}
  runId : String := "cli"
  tracing : Bool := false
  /-- The run is cancelled while this event is reported, counted from one; zero is before the
  run. -/
  cancelAt : Option Nat := none
  clock : Nat → Int := fun _ => 0

structure Program where
  bytes : ByteArray
  file : String

/-- Why there is no result of a run at all. -/
inductive Refusal where
  | diagnostics (ds : List Diagnostic)
  | prelude (failure : PreludeFailure)

def Refusal.message : Refusal → String
  | .diagnostics ds => Diagnostic.summary ds
  | .prelude failure => failure.message

namespace Settings

/-- How the evaluator is set up: the prelude is evaluated in runs numbered from one on. -/
def setup (s : Settings) : Setup :=
  { limits := s.limits, tracing := s.tracing, runId := s.runId, clock := s.clock
    cancelled := fun _ events => s.cancelAt.any (· ≤ events) }

/-- Checks an expression and evaluates it in the environment of the prelude. -/
def evaluate (s : Settings) (e : Expr) : Except Refusal Outcome :=
  match e.scopeErrors s.prelude.names with
  | [] =>
    match s.prelude.env 1 with
    | .error failure => .error (.prelude failure)
    | .ok env => .ok (executeWithin s.setup e env)
  | ds => .error (.diagnostics ds)

end Settings

namespace Program

def read (p : Program) : Except (List Diagnostic) Expr :=
  Expr.ofText (Yaml.Source.ofBytes p.bytes) 1 p.file

def check (s : Settings) (p : Program) : List Diagnostic :=
  match p.read with
  | .error ds => ds
  | .ok e => e.scopeErrors s.prelude.names

def run (s : Settings) (p : Program) : Except Refusal Outcome :=
  match p.read with
  | .error ds => .error (.diagnostics ds)
  | .ok e => s.evaluate e

def format (p : Program) : Except (List Diagnostic) String := p.read.map Expr.format

def encode (p : Program) : Except (List Diagnostic) (Except Expr.EncodeError String) :=
  p.read.map Expr.toText

end Program

end Letrec
