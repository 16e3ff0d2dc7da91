import Letrec.Expr.Encode
import Letrec.Prelude

/-!
# Help

The quick reference, the topics with their texts, and the list of predefined names.
-/

namespace Letrec.Help

structure Topic where
  name : String
  lines : List String
deriving DecidableEq, Repr

def ofLines (lines : List String) : String := String.join (lines.map (· ++ "\n"))

def Topic.text (t : Topic) : String := ofLines t.lines

def syntaxTopic : Topic :=
  ⟨"syntax",
    [ "Node kinds:",
      "",
      "  const: 5                                    integer literal",
      "  var: x                                      variable reference",
      "  diff: [<expr>, <expr>]                      left minus right",
      "  zero: <expr>                                true when the operand is 0",
      "  if: [<cond>, <then>, <else>]                cond must be a boolean",
      "  let: \x7bname: x, value: <expr>, body: <expr>\x7d",
      "  letrec: \x7bname: f, param: n, proc: <expr>, body: <expr>\x7d",
      "  proc: \x7bparam: x, body: <expr>\x7d",
      "  call: [<operator>, <operand>]",
      "",
      "Unknown kinds, unknown or missing fields and wrong list lengths are E_AST." ]⟩

def valuesTopic : Topic :=
  ⟨"values",
    [ "Values are integers, booleans and procedures.",
      "",
      "  int        64-bit signed, printed as a JSON number",
      "  bool       produced by zero?, printed as true or false",
      "  procedure  printed as \x7b\"proc\":\x7b\"param\":\"x\"\x7d\x7d",
      "",
      "diff and zero? need integers, if needs a boolean and call needs a",
      "procedure. Anything else fails with E_TYPE." ]⟩

def scopeTopic : Topic :=
  ⟨"scope",
    [ "Scoping is lexical. A procedure remembers the environment it was",
      "created in, and a call evaluates the body there with the parameter bound.",
      "",
      "let binds one name in its body only. letrec binds a single procedure",
      "that can call itself; its name is visible in both the procedure body and",
      "the letrec body, its parameter in the procedure body only.",
      "",
      "Inner bindings shadow outer ones. Referring to a name that no enclosing",
      "form binds is E_UNBOUND, reported by check before evaluation." ]⟩

def preludeTopic : Topic :=
  ⟨"prelude",
    [ "With --prelude (or prelude: true in .letrec.yaml) programs start in an",
      "environment of predefined names instead of the empty one.",
      "",
      "Run 'letrec help prelude --index' for the list." ]⟩

def budgetTopic : Topic :=
  ⟨"budget",
    [ "Resource limits for run:",
      "",
      "  --max-steps N   stop after N evaluation steps",
      "  --max-depth N   stop when nesting exceeds N",
      "  --time-ms N     stop after N milliseconds",
      "",
      "The same limits can be set under budget: in .letrec.yaml as maxSteps,",
      "maxDepth and timeMs. Exceeding a limit is E_BUDGET and exit code 3." ]⟩

def diagnosticsTopic : Topic :=
  ⟨"diagnostics",
    [ "Diagnostic codes:",
      "",
      "  E_DECODE   the file is not valid YAML",
      "  E_AST      the tree is malformed",
      "  E_UNBOUND  reference to an unbound variable",
      "  E_TYPE     operand of the wrong kind",
      "  E_BUDGET   a resource limit was exceeded",
      "  E_IO       a file could not be read or written",
      "  E_CONFIG   the config file is invalid",
      "",
      "Exit codes: 0 ok, 1 usage or I/O, 2 decode or check, 3 budget, 4 runtime.",
      "Diagnostics are JSON lines on stderr; --pretty prints them for humans." ]⟩

def examplesTopic : Topic :=
  ⟨"examples",
    [ "Doubling by repeated subtraction, as a tree:",
      "",
      "  letrec:",
      "    name: double",
      "    param: x",
      "    proc:",
      "      if:",
      "        - zero: \x7bvar: x\x7d",
      "        - \x7bconst: 0\x7d",
      "        - diff:",
      "            - call: [\x7bvar: double\x7d, \x7bdiff: [\x7bvar: x\x7d, \x7bconst: 1\x7d]\x7d]",
      "            - \x7bconst: -2\x7d",
      "    body:",
      "      call: [\x7bvar: double\x7d, \x7bconst: 6\x7d]",
      "",
      "which 'letrec fmt' prints as:",
      "",
      "  letrec double(x) = if zero?(x)",
      "      then 0",
      "      else -((double -(x, 1)), -2)",
      "  in (double 6)",
      "",
      "and 'letrec run' evaluates to 12." ]⟩

def topics : List Topic :=
  [syntaxTopic, valuesTopic, scopeTopic, preludeTopic, budgetTopic, diagnosticsTopic, examplesTopic]

def topicNames : String := String.intercalate ", " (topics.map Topic.name)

def version : String := "v0.1"

def quickReference : String :=
  ofLines (
    [ "LETREC " ++ version ++ " quick reference",
      "",
      "Programs are expression trees written as YAML (or JSON).",
      "Each node is a mapping with exactly one key naming its kind.",
      "",
      "  letrec run <file>     evaluate and print the value as JSON",
      "  letrec check <file>   decode and check scope without evaluating",
      "  letrec fmt <file>     print in textbook notation",
      "  letrec encode <file>  rewrite in canonical tree form",
      "  letrec trace <jsonl>  summarize a trace written by run --trace",
      "  letrec demo           evaluate let x = 69 in x",
      "  letrec config         show the active configuration",
      "",
      "Topics: " ++ topicNames,
      "Run 'letrec help <topic>' for details." ])

inductive NoTopic where
  | unknown (query : String)
  | ambiguous (query : String) (names : List String)
deriving DecidableEq, Repr

def NoTopic.message : NoTopic → String
  | .unknown query => "unknown help topic '" ++ query ++ "'"
  | .ambiguous query names =>
    "ambiguous help topic '" ++ query ++ "': " ++ String.intercalate ", " names

/-- The topic of that name, or the only one whose name starts with `query`. -/
def find (query : String) : Except NoTopic Topic :=
  match topics.find? (·.name == query) with
  | some topic => .ok topic
  | none =>
    match topics.filter fun t => query != "" && query.toList.isPrefixOf t.name.toList with
    | [topic] => .ok topic
    | [] => .error (.unknown query)
    | several => .error (.ambiguous query ((several.map Topic.name).mergeSort fun a b => !(b < a)))

def padRight (width : Nat) (s : String) : String :=
  s ++ String.ofList (List.replicate (width - s.length) ' ')

def preludeIndex : String :=
  let ds := Prelude.standard.definitions
  let entry (d : Definition) : String :=
    "  " ++ padRight 6 d.name ++ " = " ++ d.expr.inline ++ "\n" ++
      (if d.doc = "" then "" else "           " ++ d.doc ++ "\n")
  String.join (ds.map entry) ++ "Total: " ++ toString ds.length ++ " definitions\n"

end Letrec.Help
