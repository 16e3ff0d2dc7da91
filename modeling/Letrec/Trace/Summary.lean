import Letrec.Evaluation.Event
import Letrec.Number.Numeral
import Letrec.Time.Timestamp
import Letrec.Trace.Line

/-!
# Summary of a trace
-/

namespace Letrec.Trace

structure Summary where
  runId : String := ""
  events : Nat := 0
  calls : Nat := 0
  callsByParam : List (String × Nat) := []
  letrecBinds : Nat := 0
  maxCallDepth : Int := 0
  budgetExceeded : Nat := 0
  startTime : String := ""
  endTime : String := ""
deriving DecidableEq, Repr, Inhabited

namespace Summary

def count (name : String) : List (String × Nat) → List (String × Nat)
  | [] => [(name, 1)]
  | (k, n) :: rest => if k = name then (k, n + 1) :: rest else (k, n) :: count name rest

def addCall (s : Summary) (data : List (String × String)) : Summary :=
  let depth : Int :=
    match Number.int64? ((data.lookup "depth").getD "") with
    | some n => n.toInt
    | none => 0
  { s with
    calls := s.calls + 1
    callsByParam :=
      match data.lookup "param" with
      | some param => count param s.callsByParam
      | none => s.callsByParam
    maxCallDepth := max depth s.maxCallDepth }

def add (s : Summary) (l : Line) : Summary :=
  let s := { s with events := s.events + 1, runId := if s.runId = "" then l.runId else s.runId }
  match l.event with
  | "run_start" => { s with startTime := if s.startTime = "" then l.time else s.startTime }
  | "run_end" => { s with endTime := l.time }
  | "call_start" => s.addCall l.data
  | "letrec_bind" => { s with letrecBinds := s.letrecBinds + 1 }
  | "budget_exceeded" => { s with budgetExceeded := s.budgetExceeded + 1 }
  | _ => s

def ofLines (lines : List Line) : Summary := lines.foldl add {}

def ofBytes (bytes : ByteArray) : Summary := ofLines (linesOf bytes)

/-- Milliseconds from start to end, zero unless both are known. -/
def duration (s : Summary) : Int :=
  match Time.Layout.internet.read? s.startTime, Time.Layout.internet.read? s.endTime with
  | some start, some finish => Time.Timestamp.millisecondsBetween start finish
  | _, _ => 0

def byParam (s : Summary) : List (String × Nat) := Json.sortFields s.callsByParam

def toJson (s : Summary) : Json Int :=
  let time (key value : String) : List (String × Json Int) :=
    if value = "" then [] else [(key, .string value)]
  .object
    ([ ("runId", .string s.runId),
      ("totalEvents", .number s.events),
      ("calls", .number s.calls),
      ("callsByParam", .object (s.byParam.map fun (param, n) => (param, .number n))),
      ("letrecBinds", .number s.letrecBinds),
      ("maxCallDepth", .number s.maxCallDepth),
      ("budgetExceeded", .number s.budgetExceeded) ] ++
      time "startTime" s.startTime ++ time "endTime" s.endTime ++
        [("durationMs", .number s.duration)])

def toText (s : Summary) : String :=
  let param (entry : String × Nat) : String :=
    "  proc (" ++ entry.1 ++ "): " ++ toString entry.2 ++ "\n"
  "Run: " ++ s.runId ++ "\n" ++
    "Events: " ++ toString s.events ++ "\n" ++
    "Calls: " ++ toString s.calls ++ " (max depth " ++ toString s.maxCallDepth ++ ")\n" ++
    String.join (s.byParam.map param) ++
    "Letrec bindings: " ++ toString s.letrecBinds ++ "\n" ++
    (if s.budgetExceeded > 0 then
      "Budget exceeded: " ++ toString s.budgetExceeded ++ "\n" else "") ++
    (if s.duration > 0 then "Duration: " ++ toString s.duration ++ "ms\n" else "")

end Summary

end Letrec.Trace
