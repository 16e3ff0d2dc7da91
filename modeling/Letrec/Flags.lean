import Letrec.Config
import Letrec.Number.Numeral
import Letrec.Text.Quoted

/-!
# Options of a run

The arguments of the commands that run or check a program.
-/

namespace Letrec

structure Flags where
  file : String := ""
  pretty : Bool := false
  prelude : Bool := false
  trace : String := ""
  limits : Limits := {}
deriving DecidableEq, Repr, Inhabited

inductive FlagError where
  | noTraceFile
  | noValue (flag : String)
  | invalidValue (flag value : String)
  | unknown (flag : String)
deriving DecidableEq, Repr

def FlagError.message : FlagError → String
  | .noTraceFile => "--trace needs a file"
  | .noValue flag => flag ++ " needs a value"
  | .invalidValue flag value => flag ++ ": invalid value " ++ Text.quoted value
  | .unknown flag => "unknown flag " ++ flag

def Limit.ofFlag? (arg : String) : Option Limit :=
  match arg with
  | "--max-steps" => some .steps
  | "--max-depth" => some .depth
  | "--time-ms" => some .time
  | _ => none

def Limits.set (l : Limits) (limit : Limit) (bound : Int) : Limits :=
  match limit with
  | .steps => { l with maxSteps := some bound }
  | .depth => { l with maxDepth := some bound }
  | .time => { l with timeMs := some bound }

def Limits.orElse (l other : Limits) : Limits :=
  { maxSteps := l.maxSteps <|> other.maxSteps
    maxDepth := l.maxDepth <|> other.maxDepth
    timeMs := l.timeMs <|> other.timeMs }

namespace Flags

/-- A dash alone is a file, the standard input. -/
def looksLikeFlag (arg : String) : Bool := arg.toList.head? == some '-' && arg != "-"

def bound? (value : String) : Option Int :=
  match Number.int64? value with
  | some n => if n.toInt < 0 then none else some n.toInt
  | none => none

/-- Reads arguments one after the other; later ones win over earlier ones. -/
def parseFrom (f : Flags) : List String → Except FlagError Flags
  | [] => .ok f
  | arg :: rest =>
    if arg = "--pretty" then parseFrom { f with pretty := true } rest
    else if arg = "--prelude" then parseFrom { f with prelude := true } rest
    else if arg = "--trace" then
      match rest with
      | [] => .error .noTraceFile
      | path :: rest => parseFrom { f with trace := path } rest
    else
      match Limit.ofFlag? arg with
      | some limit =>
        match rest with
        | [] => .error (.noValue arg)
        | value :: rest =>
          match bound? value with
          | some bound => parseFrom { f with limits := f.limits.set limit bound } rest
          | none => .error (.invalidValue arg value)
      | none =>
        if looksLikeFlag arg then .error (.unknown arg) else parseFrom { f with file := arg } rest

def parse (args : List String) : Except FlagError Flags := parseFrom {} args

/-- The settings in force: options win over the configuration file. -/
def applyTo (f : Flags) (c : Config) : Config :=
  { prelude := f.prelude || c.prelude
    pretty := f.pretty || c.pretty
    limits := f.limits.orElse c.limits }

end Flags

end Letrec
