import Letrec.Flags
import Letrec.Help
import Letrec.Trace.Summary

/-!
# Commands

What the command line can be asked to do. A command looks at its arguments, asks the host for files,
and ends with an exit status and with text for the two output streams.
-/

namespace Letrec

structure Report where
  status : Nat := 0
  output : String := ""
  errors : String := ""
deriving DecidableEq, Repr, Inhabited

namespace Report

def success (output : String) : Report := { output }

def misuse (errors : String) : Report := { status := 1, errors }

def invalid (errors : String) : Report := { status := 2, errors }

def failed (errors : String) : Report := { status := 4, errors }

def diagnostics (pretty : Bool) (ds : List Diagnostic) : String :=
  Diagnostic.renderAll pretty ds ++ "\n"

def unreadable (pretty : Bool) (file : String) : Report :=
  misuse (diagnostics pretty [{ code := .file, message := "cannot read file: " ++ file }])

/-- A diagnostic whose message may hold stray bytes, which are shown in each form in its own way. -/
def badConfig (pretty : Bool) (e : ConfigError) : Report :=
  let code := Code.config
  if pretty then misuse (diagnostics true [{ code, message := e.message.shown }])
  else
    let fields := [("code", Json.renderString code.name), ("message", Json.renderLoose e.message)]
    misuse ("[" ++ Json.objectText fields ++ "]\n")

def ofFailure (pretty : Bool) (message : String) (f : Failure) : Report :=
  match f.diagnostic? with
  | some d => { status := d.code.exitStatus, errors := diagnostics pretty [d] }
  | none => failed (message ++ "\n")

def ofRun (pretty : Bool) : Except Refusal Outcome → Report
  | .error (.diagnostics ds) => invalid (diagnostics pretty ds)
  | .error (.prelude f) => ofFailure pretty f.message f.failure
  | .ok outcome =>
    match outcome.result with
    | .error f => ofFailure pretty f.message f
    | .ok v => success ((if pretty then v.text else v.toJson.text) ++ "\n")

end Report

namespace Command

variable {m : Type → Type} [Monad m]

/-- The text of a file, or of the standard input for a dash. -/
def readProgram (host : Host m) (pretty : Bool) (file : String) : m (Except Report Program) := do
  if file = "-" then return .ok ⟨← host.input, "<stdin>"⟩
  match ← host.read file with
  | .ok bytes => return .ok ⟨bytes, file⟩
  | .error _ => return .error (.unreadable pretty file)

structure Task where
  program : Program
  config : Config
  trace : String

def prepare (host : Host m) (usage : String) (args : List String) : m (Except Report Task) := do
  match Flags.parse args with
  | .error e => return .error (.misuse (e.message ++ "\n" ++ usage ++ "\n"))
  | .ok flags =>
    if flags.file = "" then return .error (.misuse (usage ++ "\n"))
    match ← Config.load host with
    | .error e => return .error (.badConfig flags.pretty e)
    | .ok (config, _) =>
      let config := flags.applyTo config
      match ← readProgram host config.pretty flags.file with
      | .error report => return .error report
      | .ok program => return .ok ⟨program, config, flags.trace⟩

def Task.settings (t : Task) : Settings :=
  { prelude := if t.config.prelude then .standard else .empty
    limits := t.config.limits
    tracing := t.trace != "" }

def traceText (start finish : String) (events : List Event) : String :=
  let line (e : Event) : String :=
    let time :=
      match e.what with
      | .runStart => start
      | _ => finish
    (e.toJson time).text ++ "\n"
  String.join (events.map line)

def eventsOf : Except Refusal Outcome → List Event
  | .ok outcome => outcome.usage.events.toList
  | .error _ => []

def runUsage : String :=
  "usage: letrec run <file> [--pretty] [--prelude] [--max-steps N] [--max-depth N] " ++
    "[--time-ms N] [--trace <out.jsonl>]"

def runTask (host : Host m) (t : Task) : m (Except Refusal Outcome) := do
  let runId ← host.freshRunId
  host.timed fun clock => t.program.run { t.settings with runId, clock }

def run (host : Host m) (args : List String) : m Report := do
  match ← prepare host runUsage args with
  | .error report => return report
  | .ok task =>
    let pretty := task.config.pretty
    if task.trace = "" then return .ofRun pretty (← runTask host task)
    match ← host.write task.trace .empty with
    | .error _ =>
      let message := "cannot write trace: " ++ task.trace
      return .misuse (Report.diagnostics pretty [{ code := .file, message }])
    | .ok () =>
      let start ← host.now
      let result ← runTask host task
      let finish ← host.now
      let _ ← host.write task.trace (traceText start finish (eventsOf result)).toUTF8
      return .ofRun pretty result

def checkUsage : String := "usage: letrec check <file> [--pretty] [--prelude]"

def check (host : Host m) (args : List String) : m Report := do
  match ← prepare host checkUsage args with
  | .error report => return report
  | .ok task =>
    let pretty := task.config.pretty
    match task.program.check task.settings with
    | [] => return .success (if pretty then "No errors found.\n" else "[]\n")
    | ds => return .invalid (Report.diagnostics pretty ds)

def lastPlain (isPlain : String → Bool) (args : List String) : String :=
  ((args.filter isPlain).getLast?).getD ""

def convert (host : Host m) (name : String) (form : Program → Except Report String)
    (args : List String) : m Report := do
  let overwrite := args.contains "--write"
  let file := lastPlain (fun arg => !Flags.looksLikeFlag arg) args
  if file = "" || (overwrite && file = "-") then
    return .misuse ("usage: letrec " ++ name ++ " <file> [--write]\n")
  match ← readProgram host false file with
  | .error report => return report
  | .ok program =>
    match form program with
    | .error report => return report
    | .ok text =>
      if overwrite then
        match ← host.write file text.toUTF8 with
        | .ok () => return {}
        | .error e => return .misuse ("error writing file: " ++ e.message file ++ "\n")
      else return .success text

def format (p : Program) : Except Report String :=
  match p.format with
  | .ok text => .ok text
  | .error ds => .error (.invalid (Report.diagnostics false ds))

def encode (p : Program) : Except Report String :=
  match p.encode with
  | .ok (.ok text) => .ok text
  | .ok (.error e) => .error (.invalid (e.message ++ "\n"))
  | .error ds => .error (.invalid (Report.diagnostics false ds))

/-- Whether a summary is to be written for human readers: the last option that says so. -/
def wantsText (args : List String) : Bool :=
  (args.filter fun arg => arg = "--json" || arg = "--text").getLast? == some "--text"

def startsWithDash (arg : String) : Bool := arg.toList.head? == some '-'

def trace (host : Host m) (args : List String) : m Report := do
  let file := lastPlain (fun arg => !startsWithDash arg) args
  if file = "" then return .misuse "usage: letrec trace <file.jsonl> [--json|--text]\n"
  let report (bytes : ByteArray) : Report :=
    let summary := Trace.Summary.ofBytes bytes
    .success (if wantsText args then summary.toText else summary.toJson.text ++ "\n")
  match ← host.read file with
  | .ok bytes => return report bytes
  | .error .isDirectory => return report .empty
  | .error _ => return .unreadable false file

def demoProgram : Expr :=
  let node (index : Nat) : Origin := ⟨⟨1, index⟩, .zero⟩
  .letIn (node 2) "x" (.const (node 0) 69) (.var (node 1) "x")

def demo : Report := .ofRun true (Settings.evaluate {} demoProgram)

def config (host : Host m) : m Report := do
  match ← Config.load host with
  | .error e => return .badConfig false e
  | .ok (c, path) =>
    let source := if path = "" then "defaults" else path
    return .success ("# source: " ++ source ++ "\n" ++ c.toText)

def help (args : List String) : Report :=
  let query := lastPlain (fun arg => !startsWithDash arg) args
  if args.contains "--index" then
    if query = "prelude" then .success Help.preludeIndex
    else .misuse "error: --index is only supported for the prelude topic\n"
  else if query = "" then .success Help.quickReference
  else
    match Help.find query with
    | .ok topic => .success topic.text
    | .error e => .misuse (e.message ++ "\nAvailable topics: " ++ Help.topicNames ++ "\n")

def usage : String :=
  "usage: letrec <command> [options]\n" ++
    "commands: run, check, fmt, encode, trace, demo, config, help\n"

def execute (host : Host m) : List String → m Report
  | [] => return .misuse usage
  | command :: args =>
    match command with
    | "run" => run host args
    | "check" => check host args
    | "fmt" => convert host "fmt" format args
    | "encode" => convert host "encode" encode args
    | "trace" => trace host args
    | "demo" => return demo
    | "config" => config host
    | "help" | "--help" | "-h" => return help args
    | _ => return .misuse ("Unknown command: " ++ command ++ "\n")

end Command

end Letrec
