import Letrec.Program

/-!
# Files and hosts

Paths, why a file cannot be used, a tree of files as a value, and what the commands need from the
system they run on.
-/

namespace Letrec

-- ---------------------------------------------------------------------------
-- Files
-- ---------------------------------------------------------------------------

inductive FileError where
  | missing
  | notDirectory
  | isDirectory
  | nameTooLong
  | invalidPath
  | other (reason : String)
deriving DecidableEq, Repr

/-- What is said about a file that cannot be used. A directory can be opened, but not read. -/
def FileError.message (path : String) : FileError → String
  | .missing => "open " ++ path ++ ": no such file or directory"
  | .notDirectory => "open " ++ path ++ ": not a directory"
  | .isDirectory => "read " ++ path ++ ": is a directory"
  | .nameTooLong => "open " ++ path ++ ": file name too long"
  | .invalidPath => "open " ++ path ++ ": invalid argument"
  | .other reason => "open " ++ path ++ ": " ++ reason

namespace Path

/-- The parts of a path between slashes; an absolute path starts with an empty part. -/
def partsFrom (part : List Char) : List Char → List String
  | [] => [String.ofList part.reverse]
  | c :: rest =>
    if c = '/' then String.ofList part.reverse :: partsFrom [] rest else partsFrom (c :: part) rest

def parts (path : String) : List String := partsFrom [] path.toList

def maxPartSize : Nat := 255

def maxSize : Nat := 4095

def isAbsolute (path : String) : Bool := path.toList.head? == some '/'

/-- One part after others, latest first: `.` stays, `..` goes back unless there is nothing to go
back to. -/
def push (absolute : Bool) (before : List String) (part : String) : List String :=
  if part = "" || part = "." then before
  else if part = ".." then
    match before with
    | [] => if absolute then [] else [".."]
    | last :: rest => if last = ".." then ".." :: before else rest
  else part :: before

def clean (path : String) : String :=
  let absolute := isAbsolute path
  let kept := ((parts path).foldl (push absolute) []).reverse
  let text := String.intercalate "/" kept
  if absolute then "/" ++ text else if text = "" then "." else text

/-- Paths one after the other; empty ones play no part. -/
def join (paths : List String) : String :=
  match paths.filter (· != "") with
  | [] => ""
  | given => clean (String.intercalate "/" given)

end Path

inductive Entry where
  | folder
  | file (content : ByteArray)

/-- A tree of files: entries by the parts of their absolute paths. A folder on the way to an entry
need not be listed. -/
structure Files where
  entries : List (List String × Entry) := []

namespace Files

def get? (fs : Files) (path : List String) : Option Entry :=
  match fs.entries.lookup path with
  | some entry => some entry
  | none => if path = [] || fs.entries.any fun e => path.isPrefixOf e.1 then some .folder else none

/-- Goes along a path part by part; all parts but the last must be folders. -/
def walk (fs : Files) (here : List String) : List String → Except FileError (List String)
  | [] => .ok here
  | part :: rest =>
    match fs.get? here with
    | none => .error .missing
    | some (.file _) => .error .notDirectory
    | some .folder =>
      if part = "" || part = "." then walk fs here rest
      else if part = ".." then walk fs here.dropLast rest
      else if part.utf8ByteSize > Path.maxPartSize then .error .nameTooLong
      else walk fs (here ++ [part]) rest

def locate (fs : Files) (directory path : String) : Except FileError (List String) :=
  if path.toList.contains '\x00' then .error .invalidPath
  else if path = "" then .error .missing
  else if path.utf8ByteSize > Path.maxSize then .error .nameTooLong
  else
    let start := if Path.isAbsolute path then [] else (Path.parts directory).filter (· != "")
    fs.walk start (Path.parts path)

def read (fs : Files) (directory path : String) : Except FileError ByteArray := do
  match fs.get? (← fs.locate directory path) with
  | none => throw .missing
  | some .folder => throw .isDirectory
  | some (.file content) => return content

def put (path : List String) (entry : Entry) :
    List (List String × Entry) → List (List String × Entry)
  | [] => [(path, entry)]
  | e :: rest => if e.1 = path then (path, entry) :: rest else e :: put path entry rest

def write (fs : Files) (directory path : String) (content : ByteArray) :
    Except FileError Files := do
  let place ← fs.locate directory path
  match fs.get? place with
  | some .folder => throw .isDirectory
  | _ => return ⟨put place (.file content) fs.entries⟩

def list (fs : Files) (directory path : String) : Except FileError (List (String × Bool)) := do
  let place ← fs.locate directory path
  match fs.get? place with
  | none => throw .missing
  | some (.file _) => throw .notDirectory
  | some .folder =>
    let inside := fs.entries.filterMap fun e =>
      if place.isPrefixOf e.1 then (e.1.drop place.length).head? else none
    let names := (inside.mergeSort fun a b => !(b < a)).eraseDups
    return names.map fun name =>
      (name, match fs.get? (place ++ [name]) with
        | some .folder => true
        | _ => false)

end Files

-- ---------------------------------------------------------------------------
-- Hosts
-- ---------------------------------------------------------------------------

structure Host (m : Type → Type) where
  directory : String
  home : Option String
  input : m ByteArray
  read : String → m (Except FileError ByteArray)
  write : String → ByteArray → m (Except FileError Unit)
  list : String → m (Except FileError (List (String × Bool)))
  now : m String
  freshRunId : m String
  /-- A run under a clock of the host, which tells for each step the milliseconds since the
  start. -/
  timed : ((Nat → Int) → Except Refusal Outcome) → m (Except Refusal Outcome)

/-- A host with files of its own, on which no time passes. -/
def Files.host (directory : String) (home : Option String) (input : ByteArray)
    (time runId : String) : Host (StateM Files) where
  directory
  home
  input := pure input
  read path := do return (← get).read directory path
  write path content := do
    match (← get).write directory path content with
    | .ok fs =>
      set fs
      return .ok ()
    | .error e => return .error e
  list path := do return (← get).list directory path
  now := pure time
  freshRunId := pure runId
  timed run := pure (run fun _ => 0)

end Letrec
