import Letrec.Yaml.Cursor

/-!
# Block scalars

The indented lines after `|`, kept as they are, or after `>`, folded.
-/

namespace Letrec.Yaml.BlockScalar

inductive Chomp where
  | strip
  | clip
  | keep
deriving DecidableEq, Repr

structure Header where
  chomp : Chomp := .clip
  /-- The indentation beyond that of the parent, if it is given. -/
  hint : Option Nat := none
deriving DecidableEq, Repr

def chomp? (c : Char) : Option Chomp :=
  if c == '+' then some .keep else if c == '-' then some .strip else none

def readHint (start : Mark) (c : Char) : Lex Nat := do
  if c == '0' then Lex.fail .zeroIndentation start
  Lex.pass 1
  return c.toNat - '0'.toNat

def readHeader (start : Mark) : Lex Header := do
  match (← Lex.look 1).head? with
  | none => return {}
  | some c =>
    match chomp? c with
    | some chomp =>
      Lex.pass 1
      match (← Lex.look 1).head? with
      | some d =>
        if d.isDigit then return { chomp, hint := ← readHint start d } else return { chomp }
      | none => return { chomp }
    | none =>
      if c.isDigit then
        let hint ← readHint start c
        match (← Lex.look 1).head?.bind chomp? with
        | some chomp =>
          Lex.pass 1
          return { chomp, hint }
        | none => return { hint }
      else return {}

/-- The deepest column reached by the spaces of the empty lines and of the first line with text. -/
def deepest (start : Mark) (greatest : Nat) (p : Place) : List Char → Except Problem Nat
  | [] => return max greatest p.mark.column
  | '\r' :: '\n' :: rest => do
    let p ← p.want 2 ('\r' :: '\n' :: rest)
    let q ← p.pastHalf.pastBreak.want 1 rest
    deepest start (max greatest p.mark.column) q rest
  | c :: rest => do
    if c == ' ' then
      let p ← (p.past c).want 1 rest
      deepest start greatest p rest
    else if c == '\t' then throw (.inText .tabAsIndentation start p.mark)
    else if isBreak c then
      let p ← p.want 2 (c :: rest)
      let q ← p.pastBreak.want 1 rest
      deepest start (max greatest p.mark.column) q rest
    else return max greatest p.mark.column

/-- The lines read so far, latest character first. -/
structure Lines where
  text : List Char := []
  /-- The break after the last line with text. -/
  last : Option Char := none
  more : List Char := []
  indented : Bool := false
deriving DecidableEq, Repr

namespace Lines

/-- Begins a line with text. Folding joins two lines that do not start with a blank. -/
def begin (folded : Bool) (c : Char) (b : Lines) : Lines :=
  let joined :=
    if folded && !b.indented && !isBlank c && b.last == some '\n' then
      if b.more.isEmpty then [' '] else []
    else b.last.toList
  { text := c :: b.more ++ joined ++ b.text, indented := isBlank c }

def addBreak (inLine : Bool) (c : Char) (b : Lines) : Lines :=
  if inLine then { b with last := some c } else { b with more := c :: b.more }

def finish (chomp : Chomp) (b : Lines) : String :=
  let tail :=
    match chomp with
    | .strip => []
    | .clip => b.last.toList
    | .keep => b.more ++ b.last.toList
  String.ofList (tail ++ b.text).reverse

end Lines

def linesFrom (start : Mark) (folded : Bool) (indent : Nat) (inLine : Bool) (b : Lines)
    (p : Place) : List Char → Except Problem (Lines × Cursor)
  | [] => do
    let p ← if inLine then p.want 2 [] else pure p
    return (b, { toPlace := p, rest := [] })
  | '\r' :: '\n' :: rest => do
    let p ← p.want 2 ('\r' :: '\n' :: rest)
    let p ← p.pastHalf.pastBreak.want 1 rest
    linesFrom start folded indent false (b.addBreak inLine '\n') p rest
  | c :: rest => do
    if isBreak c then
      let p ← p.want 2 (c :: rest)
      let p ← p.pastBreak.want 1 rest
      linesFrom start folded indent false (b.addBreak inLine (breakText c)) p rest
    else if inLine then
      let p ← (p.past c).want 1 rest
      linesFrom start folded indent true { b with text := c :: b.text } p rest
    else if p.mark.column < indent && c == ' ' then
      let p ← (p.past c).want 1 rest
      linesFrom start folded indent false b p rest
    else if p.mark.column < indent && c == '\t' then throw (.inText .tabAsIndentation start p.mark)
    else if p.mark.column == indent then
      let p ← (p.past c).want 1 rest
      linesFrom start folded indent true (b.begin folded c) p rest
    else return (b, { toPlace := p, rest := c :: rest })

/-- A block scalar, from its indicator on, below a parent whose content starts at `margin`. -/
def read (margin : Nat) : Lex String := do
  let begun ← get
  let start := begun.mark
  Lex.pass 1
  let header ← readHeader start
  Lex.lineEnd start
  let _ ← Lex.look 1
  let body ← get
  let indent ←
    match header.hint with
    | some hint => pure (margin - 1 + hint)
    | none => do
      let column ← deepest start 0 body.toPlace body.rest
      pure (max column (max margin 1))
  let folded := begun.rest.head? == some '>'
  let lines ← (fun c => linesFrom start folded indent false {} c.toPlace c.rest : Lex Lines)
  return lines.finish header.chomp

end Letrec.Yaml.BlockScalar
