import Letrec.Command
import Std.Time.DateTime.Timestamp

/-!
# The command line

The host that the system provides.
-/

namespace Letrec.Main

def fileErrorOf : IO.Error → FileError
  | .noFileOrDirectory .. => .missing
  | .inappropriateType .. => .notDirectory
  | .invalidArgument _ code _ => if code = 36 then .nameTooLong else .invalidPath
  | .permissionDenied .. => .other "permission denied"
  | e => .other (toString e)

def isDirectory (path : String) : IO Bool := do
  ((← IO.currentDir) / path).isDir

def readFile (path : String) : IO (Except FileError ByteArray) := do
  if path = "" then return .error .missing
  if ← isDirectory path then return .error .isDirectory
  try
    return .ok (← IO.FS.readBinFile path)
  catch e => return .error (fileErrorOf e)

def writeFile (path : String) (content : ByteArray) : IO (Except FileError Unit) := do
  try
    IO.FS.writeBinFile path content
    return .ok ()
  catch e => return .error (fileErrorOf e)

def listFolder (path : String) : IO (Except FileError (List (String × Bool))) := do
  try
    let entries ← ((← IO.currentDir) / path).readDir
    let named ← entries.toList.mapM fun e => do return (e.fileName, ← e.path.isDir)
    return .ok (named.mergeSort fun a b => !(b.1 < a.1))
  catch e => return .error (fileErrorOf e)

partial def readAll (stream : IO.FS.Stream) (bytes : ByteArray) : IO ByteArray := do
  let more ← stream.read 65536
  if more.isEmpty then return bytes else readAll stream (bytes ++ more)

def unixNanoseconds : IO Nat := do
  return (← Std.Time.Timestamp.now).toNanosecondsSinceUnixEpoch.val.toNat

def digit36 (n : Nat) : Char :=
  if n < 10 then Char.ofNat (n + '0'.toNat) else Char.ofNat (n - 10 + 'a'.toNat)

def base36 (n : Nat) : String :=
  if n < 36 then String.singleton (digit36 n)
  else base36 (n / 36) ++ String.singleton (digit36 (n % 36))
termination_by n

/-- Lets a run go on until it ends by itself or its time is over: whenever it has used up the steps
that it was given, it is made once more with twice as many. -/
partial def timedRun (start bound : Nat) (run : (Nat → Int) → Except Refusal Outcome) :
    IO (Except Refusal Outcome) := do
  let outcome := run fun step => if step ≤ bound then 0 else 2 ^ 62
  match outcome with
  | .ok { result := .error (.exceeded .time limit _), .. } =>
    let elapsed : Int := (← IO.monoMsNow) - start
    if elapsed ≥ limit then return outcome else timedRun start (2 * bound) run
  | _ => return outcome

def host : IO (Host IO) := do
  let directory ← IO.currentDir
  let home ← IO.getEnv "HOME"
  return {
    directory := directory.toString
    home := home.filter (· != "")
    input := do readAll (← IO.getStdin) .empty
    read := readFile
    write := writeFile
    list := listFolder
    now := do return (Time.Timestamp.ofUnix (← unixNanoseconds)).render
    freshRunId := do return "run-" ++ base36 (← unixNanoseconds)
    timed := fun run => do timedRun (← IO.monoMsNow) 65536 run
  }

end Letrec.Main

def main (args : List String) : IO UInt32 := do
  let report ← Letrec.Command.execute (← Letrec.Main.host) args
  IO.print report.output
  IO.eprint report.errors
  return report.status.toUInt32
