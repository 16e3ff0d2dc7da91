import Letrec.Host
import Letrec.Yaml.Document
import Letrec.Yaml.Fit

/-!
# Scenarios

A directory with a program and a description of what a command should do with it.
-/

namespace Letrec

structure Scenario where
  command : List String
  tags : Option (List String)
  exitStatus : Int
  outputJson : Yaml.Datum
  outputText : String
  errorsContain : String
  errorsSubset : Yaml.Datum

inductive ScenarioError where
  | file (path : String) (error : FileError)
  | text (directory : String) (problem : Yaml.Problem)
  | shape (directory : String) (reason : Yaml.Unfit)
  | noDocument (directory : String)
  | noCommand (directory : String)
deriving DecidableEq, Repr

def ScenarioError.message : ScenarioError → String
  | .file path error => error.message path
  | .text directory problem => directory ++ ": " ++ problem.message
  | .shape directory reason => directory ++ ": " ++ reason.message.shown
  | .noDocument directory => directory ++ ": EOF"
  | .noCommand directory => directory ++ ": empty cmd"

namespace Scenario

def fileName : String := "scenario.yaml"

def schema : Yaml.Schema :=
  .record "testutil.Scenario"
    [ ("cmd", .list .text),
      ("meta", .optional (.record "testutil.ScenarioMeta" [("tags", .list .text)])),
      ("expect", .record "testutil.ExpectedResult"
        [ ("exitCode", .int "int"),
          ("stdoutJson", .any),
          ("stdoutText", .text),
          ("stderrContains", .text),
          ("stderrJsonSubset", .list .table) ]) ]

def ofDatum (d : Yaml.Datum) : Scenario :=
  let about := d.field "meta"
  let expect := d.field "expect"
  { command := (d.field "cmd").toTexts
    tags := if about.isNull then none else some (about.field "tags").toTexts
    exitStatus := (expect.field "exitCode").toInt?.getD 0
    outputJson := expect.field "stdoutJson"
    outputText := (expect.field "stdoutText").toText
    errorsContain := (expect.field "stderrContains").toText
    errorsSubset := expect.field "stderrJsonSubset" }

def ofSource (directory : String) (source : Yaml.Source) : Except ScenarioError Scenario := do
  match Yaml.read source with
  | .error problem => throw (.text directory problem)
  | .ok none => throw (.noDocument directory)
  | .ok (some g) =>
    match g.fit schema with
    | .error reason => throw (.shape directory reason)
    | .ok d =>
      let s := ofDatum d
      if s.command.isEmpty then throw (.noCommand directory) else return s

variable {m : Type → Type} [Monad m]

def load (host : Host m) (directory : String) : m (Except ScenarioError Scenario) := do
  let path := Path.join [directory, fileName]
  match ← host.read path with
  | .ok bytes => return ofSource directory (.ofBytes bytes)
  | .error .isDirectory =>
    return .error (.text directory { fault := .unreadable (FileError.isDirectory.message path) })
  | .error error => return .error (.file path error)

def list (host : Host m) (root : String) : m (Except FileError (List String)) := do
  match ← host.list root with
  | .error error => return .error error
  | .ok entries =>
    let folders := (entries.filter Prod.snd).map fun e => Path.join [root, e.1]
    let found ← folders.filterM fun folder => do
      match ← host.read (Path.join [folder, fileName]) with
      | .ok _ | .error .isDirectory => return true
      | .error _ => return false
    return .ok found

/-- The program a scenario is about, with its name; both are empty if its command names none. -/
def readProgram (host : Host m) (directory : String) (s : Scenario) :
    m (Except String Program) := do
  match s.command with
  | _ :: file :: _ =>
    let path := Path.join [directory, file]
    match ← host.read path with
    | .ok bytes => return .ok ⟨bytes, file⟩
    | .error error => return .error (error.message path)
  | _ => return .ok ⟨.empty, ""⟩

end Scenario

end Letrec
