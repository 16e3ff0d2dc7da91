import Letrec.Host
import Letrec.Yaml.Document
import Letrec.Yaml.Emit
import Letrec.Yaml.Fit

/-!
# Configuration files

Settings for all runs in a directory, or of a user.
-/

namespace Letrec

structure Config where
  prelude : Bool := false
  pretty : Bool := false
  limits : Limits := {}
deriving DecidableEq, Repr, Inhabited

inductive ConfigError where
  | file (path : String) (error : FileError)
  | text (path : String) (problem : Yaml.Problem)
  | shape (path : String) (reason : Yaml.Unfit)
  | negative (path : String) (limit : Limit)
deriving DecidableEq, Repr

namespace ConfigError

def path : ConfigError → String
  | .file path _ | .text path _ | .shape path _ | .negative path _ => path

def message : ConfigError → Text.Loose
  | .file path error => error.message path
  | .text path problem => "config: parse " ++ path ++ ": " ++ problem.message
  | .shape path reason => "config: parse " ++ path ++ ": " ++ reason.message
  | .negative path limit =>
    "config: " ++ path ++ ": budget." ++ limit.name ++ " must not be negative"

end ConfigError

namespace Config

def schema : Yaml.Schema :=
  let limit : Yaml.Schema := .optional (.int "int64")
  .record "config.Config"
    [ ("prelude", .bool),
      ("pretty", .bool),
      ("budget", .record "config.Budget" [("maxDepth", limit), ("maxSteps", limit),
        ("timeMs", limit)]) ]

def ofDatum (d : Yaml.Datum) : Config :=
  let budget := d.field "budget"
  { prelude := (d.field "prelude").toBool
    pretty := (d.field "pretty").toBool
    limits :=
      { maxSteps := (budget.field "maxSteps").toInt?
        maxDepth := (budget.field "maxDepth").toInt?
        timeMs := (budget.field "timeMs").toInt? } }

def negativeLimit? (c : Config) : Option Limit :=
  let isNegative (bound : Option Int) : Bool := bound.any (· < 0)
  if isNegative c.limits.maxDepth then some .depth
  else if isNegative c.limits.maxSteps then some .steps
  else if isNegative c.limits.timeMs then some .time
  else none

/-- The settings in a document; none at all are the default ones. -/
def ofSource (path : String) (source : Yaml.Source) : Except ConfigError Config := do
  match Yaml.read source with
  | .error problem => throw (.text path problem)
  | .ok none => return {}
  | .ok (some g) =>
    match g.fit schema with
    | .error reason => throw (.shape path reason)
    | .ok d =>
      let c := ofDatum d
      match c.negativeLimit? with
      | some limit => throw (.negative path limit)
      | none => return c

/-- A file of settings; a missing file is none. -/
def ofFile (path : String) : Except FileError ByteArray → Except ConfigError (Option Config)
  | .ok bytes => (ofSource path (.ofBytes bytes)).map some
  | .error .missing => .ok none
  | .error .isDirectory =>
    .error (.text path { fault := .unreadable (FileError.isDirectory.message path) })
  | .error error => .error (.file path error)

def candidates (directory : String) (home : Option String) : List String :=
  Path.join [directory, ".letrec.yaml"] :: home.toList.map fun h =>
    Path.join [h, ".letrec", "config.yaml"]

variable {m : Type → Type} [Monad m]

/-- The settings of the first of these files that is there, and its path. -/
def loadFirst (host : Host m) : List String → m (Except ConfigError (Config × String))
  | [] => return .ok ({}, "")
  | path :: rest => do
    match ofFile path (← host.read path) with
    | .error e => return .error e
    | .ok (some c) => return .ok (c, path)
    | .ok none => loadFirst host rest

/-- The settings in force, and the path of the file they come from; no path if they are the default
ones. -/
def load (host : Host m) : m (Except ConfigError (Config × String)) :=
  loadFirst host (candidates host.directory host.home)

def toTree (c : Config) : Yaml.Tree :=
  let bool (b : Bool) : Yaml.Tree := .scalar .bool (if b then "true" else "false")
  let limit (name : String) (bound : Option Int) : List (Yaml.Tree × Yaml.Tree) :=
    bound.toList.map fun n => (.str name, .scalar .int (toString n))
  let budget :=
    limit "maxDepth" c.limits.maxDepth ++ limit "maxSteps" c.limits.maxSteps ++
      limit "timeMs" c.limits.timeMs
  .mapping false
    [ (.str "prelude", bool c.prelude),
      (.str "pretty", bool c.pretty),
      (.str "budget", .mapping budget.isEmpty budget) ]

def toText (c : Config) : String := c.toTree.render 4

end Config

end Letrec
