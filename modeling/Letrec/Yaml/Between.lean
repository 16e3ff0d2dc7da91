import Letrec.Yaml.Cursor

/-!
# White space and comments

What stands between two tokens. A comment that is indented like a block can mark the end of that
block, so it is remembered where comments stand and how far they reach.
-/

namespace Letrec.Yaml

structure Remark where
  start : Mark
  /-- How far what stands before them reaches back. -/
  since : Nat
  stop : Nat
deriving DecidableEq, Repr

structure Remarks where
  found : List Remark := []
  /-- Where the comment lines start that may still go on. -/
  start : Option Mark := none
  since : Nat := 0
  /-- The line of a comment that belongs to what stands before it. -/
  footLine : Option Nat := none
  dense : Bool := false
  afterEmpty : Bool := false
deriving DecidableEq, Repr

structure Surroundings where
  flow : Bool
  column : Nat
  afterValue : Bool
  origin : Mark

namespace Remarks

def begin (s : Surroundings) (p : Place) (r : Remarks) : Remarks :=
  let behind := if p.breaks = 0 && p.mark.column > 1 then 2 else 1
  { r with
    start := some { p.mark with column := p.mark.column + 1 }
    since := s.origin.index
    footLine := if s.origin.column = 0 then none else some (p.mark.line + behind - p.breaks)
    dense := p.breaks ≤ 1
    afterEmpty := false }

def split (stop : Nat) (r : Remarks) : Remarks :=
  match r.start with
  | none => r
  | some start =>
    { r with found := ⟨start, r.since, stop⟩ :: r.found, start := none, since := stop }

/-- An empty line ends comments below a token or left of the block, if no other line was empty. -/
def emptyLine (s : Surroundings) (stop : Nat) (r : Remarks) : Remarks :=
  let ends (start : Mark) : Bool :=
    (r.footLine == some start.line && !s.afterValue) || start.column ≤ s.column
  if !r.afterEmpty && r.dense && r.start.any ends then r.split stop else r

/-- Something left of the block ends comments that start in another column. -/
def dedent (s : Surroundings) (column stop : Nat) (r : Remarks) : Remarks :=
  if column ≤ s.column && r.start.any (·.column != column) then r.split stop else r

def resume (at_ : Mark) (r : Remarks) : Remarks :=
  { r with start := r.start <|> some at_, afterEmpty := false }

end Remarks

namespace Between

def horizon : Nat := 512

/-- What follows the `peek` characters behind a comment is not one. The second half of a line break
that takes several bytes is seen as something in the first column. -/
def atHalf (s : Surroundings) (here : List Char) (peek : Nat) (r : Remarks) (p : Place) :
    Place × Remarks :=
  if horizon ≤ peek then (p, r.split (p.mark.index + peek - 1))
  else
    let (p, ok) := p.glance (peek + 1) here
    let stop := p.mark.index + peek
    (p, if ok then (r.dedent s 1 stop).split (stop - 1) else r.split (stop - 1))

/-- Looks for another comment, from `peek` characters behind the end of a comment line on. Says how
far it is away, or completes the comments. -/
def survey (s : Surroundings) (here : List Char) (peek line column : Nat) (r : Remarks)
    (p : Place) : List Char → Place × Remarks × Option Nat
  | [] =>
    if horizon ≤ peek then (p, r.split (p.mark.index + peek - 1), none)
    else
      let (p, ok) := p.glance (peek + 1) here
      let stop := p.mark.index + peek
      (p, (if ok then r.emptyLine s stop else r).split (stop - 1), none)
  | c :: rest =>
    if horizon ≤ peek then (p, r.split (p.mark.index + peek - 1), none)
    else
      let (p, ok) := p.glance (peek + 1) here
      let stop := p.mark.index + peek
      if !ok then (p, r.split (stop - 1), none)
      else if isBlank c then survey s here (peek + 1) line (column + 1) r p rest
      else if s.flow && (c == ']' || c == '\x7d') then (p, r.split stop, none)
      else if isBreak c then
        let r := { r.emptyLine s stop with dense := false, afterEmpty := true }
        if c == '\n' || c == '\r' then survey s here (peek + 1) (line + 1) 0 r p rest
        else
          let (p, r) := atHalf s here (peek + 1) r p
          (p, r, none)
      else
        let r := r.dedent s (column + 1) stop
        if c == '#' then (p, r.resume ⟨stop, line, column + 1⟩, some peek)
        else (p, r.split (stop - 1), none)

def surveyLine (s : Surroundings) (r : Remarks) (p : Place) :
    List Char → Place × Remarks × Option Nat
  | [] => survey s [] 1 p.mark.line 0 r p []
  | c :: rest =>
    if c == '\n' || c == '\r' then survey s (c :: rest) 1 p.mark.line 0 r p rest
    else
      let (p, r) := atHalf s (c :: rest) 1 r p
      (p, r, none)

inductive Way where
  | lineStart
  | blanks
  | comment
  | toComment (count : Nat)
  | lineFeed
deriving DecidableEq, Repr

def Way.toNext (count : Nat) : Way := if count = 0 then .comment else .toComment count

structure Arrival where
  keyAllowed : Bool
  remarks : List Remark

/-- Passes on. A line break in a block allows a key, and where one is allowed a tab is no white
space. At the start of a line one character is passed over if the text at hand was fetched in front
of a byte order mark. -/
def passFrom (s : Surroundings) (way : Way) (keyAllowed : Bool) (r : Remarks) (p : Place) :
    List Char → Except Problem (Arrival × Cursor)
  | [] => do
    let arrive (r : Remarks) (p : Place) : Except Problem (Arrival × Cursor) :=
      return (⟨keyAllowed, r.found⟩, { toPlace := p, rest := [] })
    match way with
    | .lineStart =>
      let p ← p.want 1 []
      let p := if p.mark.column = 0 && p.marked then p.past '\x00' else p
      arrive r (← p.want 1 [])
    | .comment =>
      let (p, r, _) := surveyLine s r (← p.want 1 []) []
      arrive r p
    | _ => arrive r p
  | c :: rest => do
    let blank (p : Place) : Except Problem (Arrival × Cursor) := do
      if c == ' ' || (c == '\t' && (s.flow || !keyAllowed)) then
        passFrom s .blanks keyAllowed r (← (p.past c).want 1 rest) rest
      else if c == '#' then passFrom s .comment keyAllowed (r.begin s p) (p.past c) rest
      else if isHalfBreak c rest then
        let p ← p.want 2 (c :: rest)
        passFrom s .lineFeed (keyAllowed || !s.flow) r p.pastHalf rest
      else if isBreak c then
        let p ← p.want 2 (c :: rest)
        passFrom s .lineStart (keyAllowed || !s.flow) r p.pastBreak rest
      else return (⟨keyAllowed, r.found⟩, { toPlace := p, rest := c :: rest })
    match way with
    | .lineStart =>
      let p ← p.want 1 (c :: rest)
      if p.mark.column = 0 && p.marked then
        passFrom s .blanks keyAllowed r (← (p.past c).want 1 rest) rest
      else blank p
    | .blanks => blank p
    | .lineFeed => passFrom s .lineStart keyAllowed r p.pastBreak rest
    | .toComment count =>
      passFrom s (.toNext (count - 1)) keyAllowed r (p.pastAny c rest) rest
    | .comment =>
      let p ← p.want 1 (c :: rest)
      if !isBreak c then passFrom s .comment keyAllowed r (p.past c) rest
      else
        match surveyLine s r p (c :: rest) with
        | (p, r, none) =>
          let p ← p.want 2 (c :: rest)
          if isHalfBreak c rest then passFrom s .lineFeed (keyAllowed || !s.flow) r p.pastHalf rest
          else passFrom s .lineStart (keyAllowed || !s.flow) r p.pastBreak rest
        | (p, r, some count) =>
          passFrom s (.toNext (count - 1)) keyAllowed r (p.pastAny c rest) rest

def pass (s : Surroundings) (keyAllowed : Bool) : Lex Arrival :=
  fun c => passFrom s .lineStart keyAllowed {} c.toPlace c.rest

def commentAhead (here : List Char) (peek : Nat) (p : Place) : List Char → Place × Option Nat
  | [] => if horizon ≤ peek then (p, none) else ((p.glance (peek + 1) here).1, none)
  | c :: rest =>
    if horizon ≤ peek then (p, none)
    else
      let (p, ok) := p.glance (peek + 1) here
      if ok && isBlank c then commentAhead here (peek + 1) p rest
      else (p, if ok && c == '#' then some peek else none)

def lineComment : Lex Unit := do
  let c ← get
  if c.breaks = 0 then
    let (p, blanks) := commentAhead c.rest 0 c.toPlace c.rest
    set { c with toPlace := p }
    match blanks with
    | none => pure ()
    | some count =>
      Lex.pass count
      let _ ← Lex.passWhile (!isBreak ·)

end Between

end Letrec.Yaml
