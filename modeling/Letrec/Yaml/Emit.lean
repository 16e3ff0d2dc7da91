import Letrec.Text.Quoted
import Letrec.Yaml.Cursor
import Letrec.Yaml.Graph

/-!
# Writing documents

Trees as text: collections as indented blocks, or within one line where that is asked for, and
scalars plain, in single quotes, in double quotes or as a literal block, whichever reads back.
-/

namespace Letrec.Yaml

namespace Style

def isPrintable (c : Char) : Bool :=
  let code := c.toNat
  code == 0x0a || (0x20 ≤ code && code ≤ 0x7e) || (0xa0 ≤ code && code ≤ 0xfffd && code != 0xfeff)

def isSpecial (c : Char) : Bool := !isPrintable c && c != '\t'

def hasPair (p q : Char → Bool) : List Char → Bool
  | a :: b :: rest => (p a && q b) || hasPair p q (b :: rest)
  | _ => false

def isSpace (c : Char) : Bool := c == ' '

def startsWith (p : Char → Bool) (cs : List Char) : Bool := cs.head?.any p

def endsWith (p : Char → Bool) (cs : List Char) : Bool := cs.getLast?.any p

def isFollowedByBlank (rest : List Char) : Bool := rest.head?.all isBlank

def startsIndicator (flow : Bool) : List Char → Bool
  | [] => false
  | c :: rest =>
    if c ∈ ['#', ',', '[', ']', '\x7b', '\x7d', '&', '*', '!', '|', '>', '\'', '"', '%', '@',
      '\x60'] then true
    else if c == '?' || c == ':' then flow || isFollowedByBlank rest
    else c == '-' && isFollowedByBlank rest

def holdsIndicator (flow : Bool) (before : Char) : List Char → Bool
  | [] => false
  | c :: rest =>
    (flow && c ∈ [',', '?', '[', ']', '\x7b', '\x7d', ':']) ||
      (c == ':' && isFollowedByBlank rest) ||
      (c == '#' && (isBlank before || isBreak before)) || holdsIndicator flow c rest

def hasIndicator (flow : Bool) (cs : List Char) : Bool :=
  ['-', '-', '-'].isPrefixOf cs || ['.', '.', '.'].isPrefixOf cs || startsIndicator flow cs ||
    match cs with
    | [] => false
    | c :: rest => holdsIndicator flow c rest

def allowsPlain (flow : Bool) (cs : List Char) : Bool :=
  !(cs.any fun c => isBreak c || c == '\t' || isSpecial c) && !startsWith isSpace cs &&
    !endsWith isSpace cs && !hasIndicator flow cs

def allowsSingle (cs : List Char) : Bool :=
  !(cs.any fun c => c == '\t' || isSpecial c) && !hasPair isBreak isSpace cs &&
    !hasPair isSpace isBreak cs

def allowsLiteral (cs : List Char) : Bool :=
  !cs.any isSpecial && !endsWith isSpace cs && !hasPair isSpace isBreak cs

def escaped (always : Bool) (c : Char) : List Char :=
  if !always && isPrintable c && !isBreak c && c != '"' && c != '\\' then [c]
  else
    let code (digits : Nat) := (Text.hex digits c.toNat).map Char.toUpper
    '\\' ::
      match c with
      | '\x00' => ['0']
      | '\x07' => ['a']
      | '\x08' => ['b']
      | '\t' => ['t']
      | '\n' => ['n']
      | '\x0b' => ['v']
      | '\x0c' => ['f']
      | '\r' => ['r']
      | '\x1b' => ['e']
      | '"' => ['"']
      | '\\' => ['\\']
      | '\x85' => ['N']
      | '\xa0' => ['_']
      | '\u2028' => ['L']
      | '\u2029' => ['P']
      | _ =>
        if c.toNat ≤ 0xff then 'x' :: code 2
        else if c.toNat ≤ 0xffff then 'u' :: code 4
        else 'U' :: code 8

/-- Behind a byte order mark at its start, all of a text is escaped. -/
def doubleQuoted (cs : List Char) : List Char :=
  '"' :: cs.flatMap (escaped (cs.head? == some '\ufeff')) ++ ['"']

/-- The text between single quotes; a line that follows a break is indented. -/
def singleFrom (indent : Nat) (afterBreak : Bool) : List Char → List Char
  | [] => []
  | c :: rest =>
    if isBreak c then c :: singleFrom indent true rest
    else
      (if afterBreak then List.replicate indent ' ' else []) ++
        (if c == '\'' then ['\''] else []) ++ c :: singleFrom indent false rest

def singleQuoted (indent : Nat) (cs : List Char) : List Char :=
  '\'' :: singleFrom indent false cs ++ ['\'']

/-- The indicators of a literal block: the indentation, if the text itself starts with white space,
and what becomes of its last line breaks. -/
def literalHeader (step : Nat) (cs : List Char) : String :=
  let hint := if startsWith (fun c => isSpace c || isBreak c) cs then toString step else ""
  let chomp :=
    match cs.reverse with
    | [] => "-"
    | [c] => if isBreak c then "+" else "-"
    | c :: d :: _ => if !isBreak c then "-" else if isBreak d then "+" else ""
  "|" ++ hint ++ chomp

end Style

structure Page where
  text : String := ""
  fresh : Bool := true

namespace Page

def put (s : String) (p : Page) : Page := { text := p.text ++ s, fresh := false }

def newline (p : Page) : Page := { text := p.text ++ "\n", fresh := true }

def startLine (p : Page) : Page := if p.fresh then p else p.newline

def indent (n : Nat) (p : Page) : Page := p.startLine.put (String.ofList (List.replicate n ' '))

def literal (n : Nat) (afterBreak : Bool) : List Char → Page → Page
  | [], p => p
  | c :: rest, p =>
    if c == '\n' then literal n true rest p.newline
    else if isBreak c then literal n true rest { p.put (String.ofList [c]) with fresh := true }
    else
      let p := if afterBreak then p.indent n else p
      literal n false rest (p.put (String.ofList [c]))

/-- Writes a scalar whose further lines are indented by `own`. A text that would be read as
something else than a text is quoted. -/
def scalar (step : Nat) (flow : Bool) (own : Nat) (tag : Tag) (text : String) (p : Page) : Page :=
  let cs := text.toList
  let double := p.put (String.ofList (Style.doubleQuoted cs))
  if '\n' ∈ cs then
    if !flow && Style.allowsLiteral cs then
      (p.put (Style.literalHeader step cs)).literal own true cs
    else double
  else if tag = .str && (Scalar.ofPlain text).tag ≠ .str then double
  else if Style.allowsPlain flow cs then p.put text
  else if Style.allowsSingle cs then p.put (String.ofList (Style.singleQuoted own cs))
  else double

end Page

namespace Tree

def nested (step n : Nat) : Nat := step * ((n + step) / step)

def isBlock : Tree → Bool
  | .scalar .. => false
  | .sequence items => !items.isEmpty
  | .mapping inline entries => !inline && !entries.isEmpty

mutual
/-- Writes a tree whose lines are indented by `own`, from the column where it starts. -/
def write (step : Nat) (flow : Bool) (own : Nat) : Tree → Page → Page
  | .scalar tag text, p => p.scalar step flow own tag text
  | .sequence items, p =>
    if flow || items.isEmpty then (writeInlineItems step own true items (p.put "[")).put "]"
    else writeItems step own true items p
  | .mapping inline entries, p =>
    if flow || inline || entries.isEmpty then
      (writeInlineEntries step own true entries (p.put "\x7b")).put "\x7d"
    else writeEntries step own true entries p

def writeInlineItems (step own : Nat) (first : Bool) : List Tree → Page → Page
  | [], p => p
  | item :: rest, p =>
    let p := if first then p else p.put ", "
    writeInlineItems step own false rest (write step true (nested step own) item p)

def writeInlineEntries (step own : Nat) (first : Bool) : List (Tree × Tree) → Page → Page
  | [], p => p
  | (key, value) :: rest, p =>
    let p := if first then p else p.put ", "
    let p := (write step true (nested step own) key p).put ": "
    writeInlineEntries step own false rest (write step true (nested step own) value p)

def writeItems (step own : Nat) (first : Bool) : List Tree → Page → Page
  | [], p => p
  | item :: rest, p =>
    let p := (if first then p else p.indent own).put "- "
    writeItems step own false rest (write step false (own + 2) item p)

def writeEntries (step own : Nat) (first : Bool) : List (Tree × Tree) → Page → Page
  | [], p => p
  | (key, value) :: rest, p =>
    let p := if first then p else p.indent own
    let p := (write step false own key p).put ":"
    let p := if value.isBlock then p.indent (nested step own) else p.put " "
    writeEntries step own false rest (write step false (nested step own) value p)
end

def render (step : Nat) (t : Tree) : String :=
  (t.write step false (if t.isBlock then 0 else step) {}).startLine.text

end Tree

end Letrec.Yaml
