import Letrec.Number.Numeral
import Letrec.Yaml.Cursor

/-!
# Plain and quoted scalars

White space inside a scalar that runs over several lines is folded: blanks at the end of a line and
at the start of the next are left out, a single line break becomes a space, and of several the first
is left out.
-/

namespace Letrec.Yaml

-- ---------------------------------------------------------------------------
-- Folding
-- ---------------------------------------------------------------------------

/-- The blanks and line breaks since the last character of text, latest first. -/
inductive Gap where
  | blanks (passed : List Char)
  /-- The first line break, unless it was escaped, and the ones after it. -/
  | breaks (first : Option Char) (more : List Char)
deriving DecidableEq, Repr

namespace Gap

def empty : Gap := .blanks []

def isEmpty : Gap → Bool
  | .blanks [] => true
  | _ => false

def hasBreak : Gap → Bool
  | .blanks _ => false
  | .breaks .. => true

def addBlank (c : Char) : Gap → Gap
  | .blanks passed => .blanks (c :: passed)
  | .breaks first more => .breaks first more

def addBreak (c : Char) : Gap → Gap
  | .blanks _ => .breaks (some (breakText c)) []
  | .breaks first more => .breaks first (breakText c :: more)

def text : Gap → List Char
  | .blanks passed => passed
  | .breaks none more => more
  | .breaks (some '\n') [] => [' ']
  | .breaks (some '\n') more => more
  | .breaks (some c) more => more ++ [c]

end Gap

-- ---------------------------------------------------------------------------
-- Plain scalars
-- ---------------------------------------------------------------------------

structure PlainScalar where
  text : String
  /-- Whether line breaks were passed after the last character of the text. -/
  endsLine : Bool
deriving DecidableEq, Repr

namespace PlainScalar

def isEnd (flow : Bool) (c : Char) (rest : List Char) : Bool :=
  (c == ':' && startsBlank rest) ||
    (flow && (c == ',' || c == '?' || c == '[' || c == ']' || c == '\x7b' || c == '\x7d'))

/-- What ends a plain scalar after white space: a document indicator or a comment. -/
def isEndAfterGap (column : Nat) (c : Char) (rest : List Char) : Bool :=
  (column == 0 && startsDocument (c :: rest)) || c == '#'

def readFrom (start : Mark) (flow : Bool) (margin : Nat) (text : List Char) (gap : Gap)
    (p : Place) : List Char → Except Problem (PlainScalar × Cursor)
  | [] => do
    let p ← if gap.isEmpty || (!flow && p.mark.column < margin) then pure p else p.want 4 []
    return (⟨String.ofList text.reverse, gap.hasBreak⟩, { toPlace := p, rest := [] })
  | '\r' :: '\n' :: rest => do
    let p ← p.want 2 ('\r' :: '\n' :: rest)
    let p ← p.pastHalf.pastBreak.want 1 rest
    readFrom start flow margin text (gap.addBreak '\n') p rest
  | c :: rest => do
    if isBreak c then
      let p ← p.want 2 (c :: rest)
      let p ← p.pastBreak.want 1 rest
      readFrom start flow margin text (gap.addBreak c) p rest
    else if isBlank c then
      if c == '\t' && gap.hasBreak && p.mark.column < margin then
        throw (.inText .tabBeforeText start p.mark)
      else
        let p ← (p.past c).want 1 rest
        readFrom start flow margin text (gap.addBlank c) p rest
    else
      let outside := !gap.isEmpty && !flow && p.mark.column < margin
      let p ← if gap.isEmpty || outside then pure p else p.want 4 (c :: rest)
      if outside || isEnd flow c rest || (!gap.isEmpty && isEndAfterGap p.mark.column c rest) then
        return (⟨String.ofList text.reverse, gap.hasBreak⟩, { toPlace := p, rest := c :: rest })
      else
        let p ← (p.past c).want 2 rest
        readFrom start flow margin (c :: gap.text ++ text) .empty p rest

/-- A plain scalar; in a block its further lines start at `margin` or beyond. -/
def read (flow : Bool) (margin : Nat) : Lex PlainScalar := fun c => do
  readFrom c.mark flow margin [] .empty (← c.want 4 c.rest) c.rest

end PlainScalar

-- ---------------------------------------------------------------------------
-- Quoted scalars
-- ---------------------------------------------------------------------------

namespace QuotedScalar

/-- Makes sure that a document indicator would be seen, at the first character after a gap. -/
def resume (gap : Gap) (rest : List Char) (p : Place) : Except Problem Place :=
  if gap.isEmpty then pure p else p.want 4 rest

def singleFrom (start : Mark) (text : List Char) (gap : Gap) (p : Place) :
    List Char → Except Problem (String × Cursor)
  | [] => throw (.inText .endOfStream start p.mark)
  | '\'' :: '\'' :: rest => do
    let p ← resume gap ('\'' :: '\'' :: rest) p
    let p ← ((p.past '\'').past '\'').want 2 rest
    singleFrom start ('\'' :: gap.text ++ text) .empty p rest
  | '\r' :: '\n' :: rest => do
    let p ← p.want 2 ('\r' :: '\n' :: rest)
    let p ← p.pastHalf.pastBreak.want 1 rest
    singleFrom start text (gap.addBreak '\n') p rest
  | c :: rest => do
    if isBreak c then
      let p ← p.want 2 (c :: rest)
      let p ← p.pastBreak.want 1 rest
      singleFrom start text (gap.addBreak c) p rest
    else if isBlank c then
      let p ← (p.past c).want 1 rest
      singleFrom start text (gap.addBlank c) p rest
    else
      let p ← resume gap (c :: rest) p
      if p.mark.column == 0 && startsDocument (c :: rest) then
        throw (.inText .documentIndicator start p.mark)
      else if c == '\'' then
        return (String.ofList (gap.text ++ text).reverse, { toPlace := p.past c, rest })
      else
        let p ← (p.past c).want 2 rest
        singleFrom start (c :: gap.text ++ text) .empty p rest

def simpleEscape? (c : Char) : Option Char :=
  match c with
  | '0' => some '\x00'
  | 'a' => some '\x07'
  | 'b' => some '\x08'
  | 't' => some '\t'
  | '\t' => some '\t'
  | 'n' => some '\n'
  | 'v' => some '\x0b'
  | 'f' => some '\x0c'
  | 'r' => some '\r'
  | 'e' => some '\x1b'
  | ' ' => some ' '
  | '"' => some '"'
  | '\'' => some '\''
  | '\\' => some '\\'
  | 'N' => some '\x85'
  | '_' => some '\xa0'
  | 'L' => some '\u2028'
  | 'P' => some '\u2029'
  | _ => none

def codeLength? (c : Char) : Option Nat :=
  match c with
  | 'x' => some 2
  | 'u' => some 4
  | 'U' => some 8
  | _ => none

def codeChar (count : Nat) (cs : List Char) : Except Fault Char :=
  if (cs.take count).length < count then .error .hexNumber
  else
    match Number.digits? 16 (cs.take count) with
    | none => .error .hexNumber
    | some code =>
      if (0xd800 ≤ code && code ≤ 0xdfff) || code > 0x10ffff then .error .escapeCode
      else .ok (Char.ofNat code)

/-- The gap that an escaped line break opens, unless the closing quote follows. -/
def escapedGap (rest : List Char) : Gap :=
  if rest.head? == some '"' then .empty else .breaks none []

/-- Reads on inside double quotes. The next `skip` characters are digits of an escape that was read
already. -/
def doubleFrom (start : Mark) (skip : Nat) (text : List Char) (gap : Gap) (p : Place) :
    List Char → Except Problem (String × Cursor)
  | [] => throw (.inText .endOfStream start p.mark)
  | '\r' :: '\n' :: rest => do
    let p ← p.want 2 ('\r' :: '\n' :: rest)
    let p ← p.pastHalf.pastBreak.want 1 rest
    doubleFrom start 0 text (gap.addBreak '\n') p rest
  | ['\\'] => do
    let p ← resume gap ['\\'] p
    throw (.inText .unknownEscape start p.mark)
  | '\\' :: '\r' :: '\n' :: rest => do
    let p ← resume gap ('\\' :: '\r' :: '\n' :: rest) p
    let p ← p.want 3 ('\\' :: '\r' :: '\n' :: rest)
    let p ← (p.past '\\').pastHalf.pastBreak.want 1 rest
    doubleFrom start 0 (gap.text ++ text) (escapedGap rest) p rest
  | '\\' :: c :: rest => do
    let p ← resume gap ('\\' :: c :: rest) p
    if isBreak c then
      let p ← p.want 3 ('\\' :: c :: rest)
      let p ← (p.past '\\').pastBreak.want 1 rest
      doubleFrom start 0 (gap.text ++ text) (escapedGap rest) p rest
    else
      match simpleEscape? c, codeLength? c with
      | some e, _ =>
        let p ← ((p.past '\\').past c).want 2 rest
        doubleFrom start 0 (e :: gap.text ++ text) .empty p rest
      | none, some length =>
        let p ← ((p.past '\\').past c).want length rest
        match codeChar length rest with
        | .error fault => throw (.inText fault start p.mark)
        | .ok e => doubleFrom start length (e :: gap.text ++ text) .empty p rest
      | none, none => throw (.inText .unknownEscape start p.mark)
  | c :: rest => do
    match skip with
    | skip + 1 =>
      let p ← if skip = 0 then (p.past c).want 2 rest else pure (p.past c)
      doubleFrom start skip text gap p rest
    | 0 =>
      if isBreak c then
        let p ← p.want 2 (c :: rest)
        let p ← p.pastBreak.want 1 rest
        doubleFrom start 0 text (gap.addBreak c) p rest
      else if isBlank c then
        let p ← (p.past c).want 1 rest
        doubleFrom start 0 text (gap.addBlank c) p rest
      else
        let p ← resume gap (c :: rest) p
        if p.mark.column == 0 && startsDocument (c :: rest) then
          throw (.inText .documentIndicator start p.mark)
        else if c == '"' then
          return (String.ofList (gap.text ++ text).reverse, { toPlace := p.past c, rest })
        else
          let p ← (p.past c).want 2 rest
          doubleFrom start 0 (c :: gap.text ++ text) .empty p rest

def read : Lex String := fun c => do
  match c.rest with
  | '"' :: rest => doubleFrom c.mark 0 [] .empty (← (c.past '"').want 4 rest) rest
  | quote :: rest => singleFrom c.mark [] .empty (← (c.past quote).want 4 rest) rest
  | [] => throw (.inText .endOfStream c.mark c.mark)

end QuotedScalar

end Letrec.Yaml
