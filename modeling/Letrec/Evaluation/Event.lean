import Letrec.Diagnostic

/-!
# Limits and events of a run

What bounds a run, what it reports while it goes on, and the line of a trace file that an event is
written to.
-/

namespace Letrec

-- ---------------------------------------------------------------------------
-- Limits
-- ---------------------------------------------------------------------------

/-- Bounds on the number of steps, the depth of nesting and the time of a run; a missing one does
not bound. -/
structure Limits where
  maxSteps : Option Int := none
  maxDepth : Option Int := none
  timeMs : Option Int := none
deriving DecidableEq, Repr, Inhabited

inductive Limit where
  | steps
  | depth
  | time
deriving DecidableEq, Repr

namespace Limit

def name : Limit → String
  | .steps => "maxSteps"
  | .depth => "maxDepth"
  | .time => "timeMs"

def message (limit : Limit) (bound : Int) : String :=
  match limit with
  | .steps => "step budget exceeded (max " ++ toString bound ++ ")"
  | .depth => "depth budget exceeded (max " ++ toString bound ++ ")"
  | .time => "time budget exceeded (" ++ toString bound ++ "ms)"

end Limit

namespace Limits

/-- Enough for every run of fewer than `2 ^ 63` steps: each level of nesting takes a step of
its own. -/
def plentyOfFuel : Nat := Nat.pow 2 63

/-- Enough for the nesting of every run within the limits, and for the step that passes them. -/
def fuel (l : Limits) : Nat :=
  match l.maxSteps, l.maxDepth with
  | none, none => plentyOfFuel
  | some m, none => m.toNat + 1
  | none, some d => d.toNat + 1
  | some m, some d => min (m.toNat + 1) (d.toNat + 1)

end Limits

-- ---------------------------------------------------------------------------
-- Events
-- ---------------------------------------------------------------------------

inductive Happening where
  | runStart
  | runEnd
  | callStart (param : String) (depth : Nat)
  | callEnd (param : String) (depth : Nat)
  | letrecBind (name param : String)
  | budgetExceeded (limit : Limit)
deriving DecidableEq, Repr

namespace Happening

def name : Happening → String
  | .runStart => "run_start"
  | .runEnd => "run_end"
  | .callStart .. => "call_start"
  | .callEnd .. => "call_end"
  | .letrecBind .. => "letrec_bind"
  | .budgetExceeded _ => "budget_exceeded"

/-- What is known about it, by name, in the order of the names. -/
def data : Happening → List (String × String)
  | .runStart | .runEnd => []
  | .callStart param depth => [("depth", toString depth), ("param", param)]
  | .callEnd param depth => [("depth", toString depth), ("param", param)]
  | .letrecBind name param => [("param", param), ("proc", name)]
  | .budgetExceeded limit => [("limit", limit.name)]

end Happening

structure Event where
  what : Happening
  runId : String
  span : Option Span
deriving DecidableEq, Repr

namespace Event

def toJson (time : String) (e : Event) : Json Int :=
  let place := e.span.toList.map fun s => ("span", Diagnostic.spanJson s)
  let data :=
    match e.what.data with
    | [] => []
    | fields => [("data", .object (fields.map fun (key, value) => (key, .string value)))]
  .object ([("ts", .string time), ("runId", .string e.runId), ("event", .string e.what.name)] ++
    place ++ data)

end Event

end Letrec
