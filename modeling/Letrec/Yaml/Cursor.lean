import Letrec.Yaml.Source

/-!
# Reading on in a text

Classes of characters, and a cursor that knows its line and column and how much of the text behind
it is at hand.
-/

namespace Letrec.Yaml

def isBlank (c : Char) : Bool := c == ' ' || c == '\t'

def isBreak (c : Char) : Bool :=
  c == '\n' || c == '\r' || c == '\x85' || c == '\u2028' || c == '\u2029'

def breakText (c : Char) : Char := if c == '\u2028' || c == '\u2029' then c else '\n'

def isHalfBreak (c : Char) (rest : List Char) : Bool := c == '\r' && rest.head? == some '\n'

def isWordChar (c : Char) : Bool := c.isAlphanum || c == '_' || c == '-'

def startsBlank : List Char → Bool
  | [] => true
  | c :: _ => isBlank c || isBreak c

def startsBreak : List Char → Bool
  | [] => true
  | c :: _ => isBreak c

/-- `---` or `...` standing alone. -/
def startsDocument : List Char → Bool
  | '-' :: '-' :: '-' :: rest => startsBlank rest
  | '.' :: '.' :: '.' :: rest => startsBlank rest
  | _ => false

/-- A place in a text. Of the characters behind it, those of some windows are at hand. -/
structure Place where
  mark : Mark := {}
  /-- The line breaks passed since anything but blanks. -/
  breaks : Nat := 0
  ready : Nat := 0
  /-- Whether the characters at hand were fetched in front of a byte order mark. -/
  marked : Bool := false
  /-- The numbers of characters of the windows to come. -/
  windows : List Nat := []
  /-- What is wrong behind those windows, and how many characters stand before it. -/
  fault : Option (Nat × Fault) := none
  /-- What was found to be wrong by looking ahead and is still to be told. -/
  untold : Option Fault := none

namespace Place

def fetch (count ready : Nat) : List Nat → Nat × List Nat
  | [] => (ready, [])
  | n :: windows => if count ≤ ready then (ready, n :: windows) else fetch count (ready + n) windows

/-- Sees to it that `count` of the characters in `rest` are at hand. The end of the text counts as
one more character whenever it is met. -/
def load (count : Nat) (rest : List Char) (p : Place) : Place × Option Fault :=
  if count ≤ p.ready then (p, none)
  else
    let (ready, windows) := fetch count p.ready p.windows
    let p := { p with ready, windows, marked := rest.head? == some '\ufeff' }
    if count ≤ ready then (p, none)
    else
      match p.fault with
      | none => ({ p with ready := ready + 1 }, none)
      | some (n, fault) => ({ p with ready := ready + n, fault := some (0, fault) }, some fault)

def want (count : Nat) (rest : List Char) (p : Place) : Except Problem Place :=
  match p.load count rest with
  | (p, none) => .ok p
  | (_, some fault) => .error { fault }

/-- As `load`, where one can do without the characters; says whether they are at hand. -/
def glance (count : Nat) (rest : List Char) (p : Place) : Place × Bool :=
  match p.load count rest with
  | (p, none) => (p, true)
  | (p, some fault) => ({ p with untold := some fault }, false)

def past (c : Char) (p : Place) : Place :=
  { p with
    mark := ⟨p.mark.index + 1, p.mark.line, p.mark.column + 1⟩
    breaks := if isBlank c then p.breaks else 0
    ready := p.ready - 1 }

def pastHalf (p : Place) : Place :=
  { p with mark := { p.mark with index := p.mark.index + 1 }, ready := p.ready - 1 }

def pastBreak (p : Place) : Place :=
  { p with
    mark := ⟨p.mark.index + 1, p.mark.line + 1, 0⟩, breaks := p.breaks + 1, ready := p.ready - 1 }

def pastAny (c : Char) (rest : List Char) (p : Place) : Place :=
  if isHalfBreak c rest then p.pastHalf else if isBreak c then p.pastBreak else p.past c

end Place

structure Cursor extends Place where
  rest : List Char

def Cursor.ofSource (source : Source) : Cursor :=
  { rest := source.text
    windows := source.windows.map List.length
    fault := source.fault.map fun (window, fault) => (window.length, fault) }

abbrev Lex := StateT Cursor (Except Problem)

namespace Lex

def fail (fault : Fault) (start : Mark) : Lex α := do throw (.inText fault start (← get).mark)

def look (count : Nat) : Lex (List Char) := do
  let c ← get
  set { c with toPlace := ← c.want count c.rest }
  return c.rest

def pass : (count : Nat) → Lex Unit
  | 0 => pure ()
  | count + 1 => do
    modify fun c =>
      match c.rest with
      | [] => c
      | ch :: rest => { toPlace := c.past ch, rest }
    pass count

def passFrom (test : Char → Bool) (passed : List Char) (p : Place) :
    List Char → Except Problem (List Char × Cursor)
  | [] => do return (passed.reverse, { toPlace := ← p.want 1 [], rest := [] })
  | c :: rest => do
    let p ← p.want 1 (c :: rest)
    if test c then passFrom test (c :: passed) (p.past c) rest
    else return (passed.reverse, { toPlace := p, rest := c :: rest })

def passWhile (test : Char → Bool) : Lex (List Char) := fun c => passFrom test [] c.toPlace c.rest

def passBreak : Lex Unit := do
  let c ← get
  match c.rest with
  | [] => pure ()
  | ch :: rest =>
    if isBreak ch then
      let p ← c.want 2 c.rest
      if isHalfBreak ch rest then
        set ({ toPlace := p.pastHalf.pastBreak, rest := rest.drop 1 } : Cursor)
      else set ({ toPlace := p.pastBreak, rest } : Cursor)

def lineEnd (start : Mark) : Lex Unit := do
  let _ ← passWhile isBlank
  if (← get).rest.head? == some '#' then
    let _ ← passWhile (!isBreak ·)
  if startsBreak (← get).rest then passBreak
  else fail .commentOrBreak start

end Lex

end Letrec.Yaml
