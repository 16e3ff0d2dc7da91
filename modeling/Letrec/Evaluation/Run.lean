import Letrec.Evaluation.Event
import Letrec.Evaluation.Failure

/-!
# Evaluation

The value of an expression in an environment, with steps and nesting counted, limits enforced and
events reported. Evaluation recurses on `fuel`, a bound on the nesting; the limits of a run give a
bound that is never reached.
-/

namespace Letrec

structure Setup where
  limits : Limits := {}
  tracing : Bool := false
  runId : String := ""
  /-- Whether the run is found cancelled at a step before which so many events were reported. -/
  cancelled : (step events : Nat) → Bool := fun _ _ => false
  clock : Nat → Int := fun _ => 0
  /-- The number of the run, for the stamps of its frames. -/
  run : Nat := 0

structure Usage where
  steps : Nat := 0
  maxDepth : Nat := 0
  events : Array Event := #[]
deriving DecidableEq, Repr, Inhabited

def Usage.count (u : Usage) (depth : Nat) : Usage :=
  { u with steps := u.steps + 1, maxDepth := max u.maxDepth depth }

abbrev Run := ExceptT Failure (StateM Usage)

namespace Run

def emit (setup : Setup) (what : Happening) (span : Option Span) : Run Unit :=
  if setup.tracing then modify fun u => { u with events := u.events.push ⟨what, setup.runId, span⟩ }
  else pure ()

def exceed (setup : Setup) (limit : Limit) (bound : Int) (span : Option Span) : Run α := do
  emit setup (.budgetExceeded limit) span
  throw (.exceeded limit bound span)

/-- The steps at which the clock and the cancellation are looked at. -/
def isCheckPoint (step : Nat) : Bool := step % 1024 == 1

def isCancelled (setup : Setup) (u : Usage) : Bool := setup.cancelled u.steps u.events.size

inductive Halt where
  | exceeded (limit : Limit) (bound : Int)
  | cancelled
deriving DecidableEq, Repr

def passed? (limit : Limit) (bound : Option Int) (used : Nat) : Option Halt :=
  bound.bind fun b => if (used : Int) > b then some (.exceeded limit b) else none

def interruption? (setup : Setup) (u : Usage) : Option Halt :=
  if isCheckPoint u.steps then
    (setup.limits.timeMs.bind fun b =>
      if setup.clock u.steps ≥ b then some (.exceeded .time b) else none).or
    (if isCancelled setup u then some .cancelled else none)
  else none

/-- Why a step that has been counted is not taken, steps before depth and depth before time. -/
def halt? (setup : Setup) (depth : Nat) (u : Usage) : Option Halt :=
  ((passed? .steps setup.limits.maxSteps u.steps).or
    (passed? .depth setup.limits.maxDepth depth)).or
    (interruption? setup u)

def enter (setup : Setup) (depth : Nat) (e : Expr) : Run Unit := do
  modify (·.count depth)
  match halt? setup depth (← get) with
  | none => pure ()
  | some (.exceeded limit bound) => exceed setup limit bound e.span.known?
  | some .cancelled => throw .cancelled

def located (place : Span) : Except Failure α → Run α
  | .ok a => pure a
  | .error f => throw (f.located place)

/-- What comes of `body`, be it a failure. A lack of fuel is no end of it and passes through. -/
def attempt (body : Run α) : Run (Except Failure α) := ExceptT.mk do
  match ← body.run with
  | .error .outOfFuel => return .error .outOfFuel
  | result => return .ok result

def conclude : Except Failure α → Run α
  | .ok a => pure a
  | .error f => throw f

/-- Runs `body` between the two events of a call, whatever comes of it. -/
def call (setup : Setup) (param : String) (depth : Nat) (span : Option Span) (body : Run Value) :
    Run Value := do
  emit setup (.callStart param depth) span
  let result ← attempt body
  emit setup (.callEnd param depth) span
  conclude result

def eval (setup : Setup) : (fuel : Nat) → (depth : Nat) → Expr → Env → Run Value
  | 0, _, _, _ => throw .outOfFuel
  | fuel + 1, depth, e, env => do
    let depth := depth + 1
    enter setup depth e
    let stamp : Stamp := ⟨setup.run, (← get).steps⟩
    match e with
    | .const _ n => return .int n
    | .var o x => located o.span (env.lookup x)
    | .diff _ left right =>
      let m ← located left.span (← eval setup fuel depth left env).asInt
      let n ← located right.span (← eval setup fuel depth right env).asInt
      return .int (m - n)
    | .zeroTest _ operand =>
      let n ← located operand.span (← eval setup fuel depth operand env).asInt
      return .bool (n == 0)
    | .ifThenElse _ test yes no =>
      let b ← located test.span (← eval setup fuel depth test env).asBool
      if b then eval setup fuel depth yes env else eval setup fuel depth no env
    | .letIn _ x value body =>
      let v ← eval setup fuel depth value env
      eval setup fuel depth body (env.extend stamp x v)
    | .letRec o f x procBody body =>
      emit setup (.letrecBind f x) o.span.known?
      eval setup fuel depth body (env.extendRec stamp f x procBody)
    | .proc _ x body => return .closure x body env
    | .call o operator operand =>
      let (param, body, closed) ← located operator.span
        (← eval setup fuel depth operator env).asClosure
      let v ← eval setup fuel depth operand env
      call setup param depth o.span.known?
        (eval setup fuel depth body (closed.extend stamp param v))
    | .absent => throw .noExpression

end Run

structure Outcome where
  result : Except Failure Value
  usage : Usage

/-- Evaluates an expression as `setup` says, from its first event to its last. -/
def execute (setup : Setup) (fuel : Nat) (e : Expr) (env : Env) : Outcome :=
  let whole : Run Value := do
    Run.emit setup .runStart e.span.known?
    let result ← Run.attempt (Run.eval setup fuel 0 e env.orEmpty)
    Run.emit setup .runEnd e.span.known?
    Run.conclude result
  let (result, usage) := whole.run.run {}
  ⟨result, usage⟩

def executeWithin (setup : Setup) (e : Expr) (env : Env) : Outcome :=
  execute setup setup.limits.fuel e env

/-- The value of an expression, without limits and events, as far as the fuel goes. -/
def evalFor (fuel run : Nat) (e : Expr) (env : Env) : Except Failure Value :=
  ((Run.eval { run } fuel 0 e env).run.run {}).1

def eval (run : Nat) (e : Expr) (env : Env) : Except Failure Value :=
  evalFor Limits.plentyOfFuel run e env

def apply (run : Nat) (param : String) (body : Expr) (env : Env) (arg : Value) :
    Except Failure Value :=
  eval run body (env.extend ⟨run, 0⟩ param arg)

end Letrec
