import Letrec.Yaml.Between
import Letrec.Yaml.Lexeme.Block
import Letrec.Yaml.Lexeme.Tag
import Letrec.Yaml.Lexeme.Scalar

/-!
# The tokens of a text

Tokens are found one after the other. A key without `?` shows only at its `:`, so what may turn out
to be one is remembered, and the token that announces it is put in front of it later. Indentation
turns into tokens that open and close blocks.
-/

namespace Letrec.Yaml

-- ---------------------------------------------------------------------------
-- Tokens
-- ---------------------------------------------------------------------------

inductive ScalarStyle where
  | plain
  | quoted
deriving DecidableEq, Repr

inductive TokenKind where
  | streamStart
  | streamEnd
  | directive (d : Directive)
  | documentStart
  | documentEnd
  | blockSequenceStart
  | blockMappingStart
  | blockEnd
  | flowSequenceStart
  | flowSequenceEnd
  | flowMappingStart
  | flowMappingEnd
  | blockEntry
  | flowEntry
  | key
  | value
  | alias (name : String)
  | anchor (name : String)
  | tag (text : TagText)
  | scalar (text : String) (style : ScalarStyle)
deriving DecidableEq, Repr

structure Token where
  kind : TokenKind
  start : Mark
  stop : Mark
deriving DecidableEq, Repr

-- ---------------------------------------------------------------------------
-- The tokens of a text
-- ---------------------------------------------------------------------------

/-- What may turn out to be a key at one level of flow collections. -/
structure KeySlot where
  possible : Bool := false
  /-- Whether nothing but a key can stand here. -/
  required : Bool := false
  number : Nat := 0
  mark : Mark := {}
deriving DecidableEq, Repr

/-- A key stands on one line, and its `:` at most 1024 characters behind its start. -/
def KeySlot.check (slot : KeySlot) (now : Mark) : Except Problem Bool :=
  if !slot.possible then .ok false
  else if slot.mark.line < now.line || slot.mark.index + 1024 < now.index then
    if slot.required then .error (.inText .missingColon slot.mark now) else .ok false
  else .ok true

structure Tokens where
  cursor : Cursor
  found : Array Token := #[]
  taken : Nat := 0
  /-- The least column of the content of the current block. -/
  margin : Nat := 0
  /-- The margins of the blocks around it, innermost first. -/
  margins : List Nat := []
  keyAllowed : Bool := true
  slot : KeySlot := {}
  /-- The slots of the flow collections around the current place, innermost first. -/
  slots : List KeySlot := []
  /-- The numbers of tokens that wait until it is known whether they start a key, each with the
  number of flow collections around it. -/
  awaited : List (Nat × Nat) := []

def Tokens.ofSource (source : Source) : Tokens :=
  { cursor := .ofSource source }

abbrev Scan := StateT Tokens (Except Problem)

namespace Scan

def depthLimit : Nat := 10000

def mark : Scan Mark := do return (← get).cursor.mark

def inFlow : Scan Bool := do return !(← get).slots.isEmpty

def fail (fault : Fault) (context : Mark) : Scan α := do throw (.inText fault context (← mark))

def lexeme (read : Lex α) : Scan α := do
  let s ← get
  let (value, cursor) ← read s.cursor
  set { s with cursor }
  return value

def tell : Scan Unit := do
  match (← get).cursor.untold with
  | some fault => throw { fault }
  | none => pure ()

def allowKey (allowed : Bool) : Scan Unit := modify fun s => { s with keyAllowed := allowed }

def emit (kind : TokenKind) (start stop : Mark) : Scan Unit :=
  modify fun s => { s with found := s.found.push ⟨kind, start, stop⟩ }

/-- Puts a token in front of the one with the given number, or last if that one has been taken. -/
def insert (number : Nat) (kind : TokenKind) (at_ : Mark) : Scan Unit :=
  modify fun s =>
    let token : Token := ⟨kind, at_, at_⟩
    if number < s.taken then { s with found := s.found.push token }
    else { s with found := s.found.insertIdxIfInBounds number token }

def settle (number : Nat) : Scan Unit :=
  modify fun s => { s with awaited := s.awaited.filter (·.1 != number) }

def removeKey : Scan Unit := do
  let slot := (← get).slot
  if slot.possible then
    if slot.required then fail .missingColon slot.mark
    modify fun s => { s with slot := { slot with possible := false } }
    settle slot.number

def saveKey : Scan Unit := do
  let s ← get
  if s.keyAllowed then
    let required := s.slots.isEmpty && s.margin == s.cursor.mark.column + 1
    removeKey
    let slot : KeySlot :=
      { possible := true, required, number := s.found.size, mark := s.cursor.mark }
    settle slot.number
    modify fun s =>
      { s with slot, awaited := (slot.number, s.slots.length) :: s.awaited.filter (s.taken ≤ ·.1) }

def openFlow : Scan Unit := do
  modify fun s =>
    { s with slots := s.slot :: s.slots, slot := { number := s.found.size, mark := s.cursor.mark } }
  let s ← get
  if s.slots.length > depthLimit then fail .tooDeep s.slot.mark

def closeFlow : Scan Unit := do
  let s ← get
  match s.slots with
  | [] => pure ()
  | slot :: slots =>
    settle s.slot.number
    modify fun s => { s with slot, slots }

/-- Opens a block at `column`, unless it lies in one already. The token goes in front of the one
with the given number, or last. -/
def openBlock (column : Nat) (number : Option Nat) (kind : TokenKind) (at_ : Mark) : Scan Unit := do
  let s ← get
  if s.slots.isEmpty && s.margin ≤ column then
    set { s with margins := s.margin :: s.margins, margin := column + 1 }
    if s.margins.length + 1 > depthLimit then fail .tooDeep s.slot.mark
    insert (number.getD s.found.size) kind at_

/-- Where a block with this margin ends: at `at_`, or at the first of the comments before it that
are indented like the block and have nothing else between them. -/
def blockEndFrom (margin stop : Nat) (at_ : Mark) : List Remark → Mark
  | [] => at_
  | remark :: earlier =>
    if remark.stop < stop then at_
    else
      blockEndFrom margin remark.since
        (if remark.start.column = margin then remark.start else at_) earlier

def closeFrom (least : Nat) (remarks : List Remark) (at_ : Mark) (margin : Nat)
    (found : Array Token) : List Nat → Nat × List Nat × Array Token
  | [] => (margin, [], found)
  | outer :: margins =>
    if margin > least then
      let at_ := blockEndFrom margin at_.index at_ remarks
      closeFrom least remarks at_ outer (found.push ⟨.blockEnd, at_, at_⟩) margins
    else (margin, outer :: margins, found)

def closeBlocks (least : Nat) (remarks : List Remark) (at_ : Mark) : Scan Unit :=
  modify fun s =>
    if s.slots.isEmpty then
      let at_ := { at_ with index := at_.index - 1 }
      let (margin, margins, found) := closeFrom least remarks at_ s.margin s.found s.margins
      { s with margin, margins, found }
    else s

def indicator (kind : TokenKind) (count : Nat) : Scan Unit := do
  let start ← mark
  lexeme (Lex.pass count)
  emit kind start (← mark)

def streamEnd (remarks : List Remark) : Scan Unit := do
  modify fun s =>
    let m := s.cursor.mark
    if m.column = 0 then s
    else { s with cursor.mark := ⟨m.index, m.line + 1, 0⟩ }
  closeBlocks 0 remarks (← mark)
  removeKey
  allowKey false
  emit .streamEnd (← mark) (← mark)

def directive (remarks : List Remark) : Scan Unit := do
  closeBlocks 0 remarks (← mark)
  removeKey
  allowKey false
  let start ← mark
  let d ← lexeme Directive.read
  emit (.directive d) start start

def documentIndicator (kind : TokenKind) (remarks : List Remark) : Scan Unit := do
  closeBlocks 0 remarks (← mark)
  removeKey
  allowKey false
  indicator kind 3

def flowStart (kind : TokenKind) : Scan Unit := do
  saveKey
  openFlow
  allowKey true
  indicator kind 1

def flowEnd (kind : TokenKind) : Scan Unit := do
  removeKey
  closeFlow
  allowKey false
  indicator kind 1

def flowEntry : Scan Unit := do
  removeKey
  allowKey true
  indicator .flowEntry 1

def blockEntry : Scan Unit := do
  let s ← get
  let here := s.cursor.mark
  if s.slots.isEmpty then
    if !s.keyAllowed then fail .entryNotAllowed here
    openBlock here.column none .blockSequenceStart here
  removeKey
  allowKey true
  indicator .blockEntry 1

def key : Scan Unit := do
  let s ← get
  let here := s.cursor.mark
  if s.slots.isEmpty then
    if !s.keyAllowed then fail .keyNotAllowed here
    openBlock here.column none .blockMappingStart here
  removeKey
  allowKey s.slots.isEmpty
  indicator .key 1

def value : Scan Unit := do
  let s ← get
  let here := s.cursor.mark
  if ← s.slot.check here then
    insert s.slot.number .key s.slot.mark
    openBlock s.slot.mark.column (some s.slot.number) .blockMappingStart s.slot.mark
    modify fun s => { s with slot := { s.slot with possible := false } }
    settle s.slot.number
    allowKey false
  else
    modify fun s => { s with slot := { s.slot with possible := false } }
    if s.slots.isEmpty then
      if !s.keyAllowed then fail .valueNotAllowed here
      openBlock here.column none .blockMappingStart here
    allowKey s.slots.isEmpty
  indicator .value 1

def readName : Lex String := do
  let start := (← get).mark
  Lex.pass 1
  let name ← Lex.passWhile isWordChar
  let rest := (← get).rest
  let ends :=
    startsBlank rest || (rest.head?.any fun c => c ∈ ['?', ':', ',', ']', '\x7d', '%', '@', '\x60'])
  if name.isEmpty || !ends then Lex.fail .anchorName start
  return String.ofList name

def reference (kind : String → TokenKind) : Scan Unit := do
  saveKey
  allowKey false
  let start ← mark
  let name ← lexeme readName
  emit (kind name) start (← mark)

def tag : Scan Unit := do
  saveKey
  allowKey false
  let start ← mark
  let text ← lexeme TagText.read
  emit (.tag text) start (← mark)

def blockScalar : Scan Unit := do
  removeKey
  allowKey true
  let start ← mark
  let text ← lexeme (BlockScalar.read (← get).margin)
  emit (.scalar text .quoted) start (← mark)

def quotedScalar : Scan Unit := do
  saveKey
  allowKey false
  let start ← mark
  let text ← lexeme QuotedScalar.read
  emit (.scalar text .quoted) start (← mark)

def plainScalar : Scan Unit := do
  saveKey
  allowKey false
  let start ← mark
  let s ← get
  let scalar ← lexeme (PlainScalar.read (!s.slots.isEmpty) s.margin)
  emit (.scalar scalar.text .plain) start (← mark)
  if scalar.endsLine then allowKey true

def isIndicator (c : Char) : Bool :=
  c ∈ ['-', '?', ':', ',', '[', ']', '\x7b', '\x7d', '#', '&', '*', '!', '|', '>', '\'', '"', '%',
    '@', '\x60']

def startsPlain (flow : Bool) (c : Char) (rest : List Char) : Bool :=
  !(isBlank c || isBreak c || isIndicator c) ||
    (c == '-' && !(rest.head?.any isBlank)) ||
    (!flow && (c == '?' || c == ':') && !startsBlank rest)

def content (c : Char) (rest : List Char) : Scan Unit := do
  let flow ← inFlow
  let alone := flow || startsBlank rest
  match c with
  | '[' => flowStart .flowSequenceStart
  | '\x7b' => flowStart .flowMappingStart
  | ']' => flowEnd .flowSequenceEnd
  | '\x7d' => flowEnd .flowMappingEnd
  | ',' => flowEntry
  | '*' => reference .alias
  | '&' => reference .anchor
  | '!' => tag
  | '\'' => quotedScalar
  | '"' => quotedScalar
  | _ =>
    if c == '-' && startsBlank rest then blockEntry
    else if c == '?' && alone then key
    else if c == ':' && alone then value
    else if (c == '|' || c == '>') && !flow then blockScalar
    else if startsPlain flow c rest then plainScalar
    else fail .noToken (← mark)

def lineComment : Scan Unit := do
  if !((← get).found.back?.any (·.kind == .blockEntry)) then lexeme Between.lineComment

def afterValue (found : Array Token) : Bool :=
  let last := if found.back?.any (·.kind == .flowEntry) then found.pop.back? else found.back?
  last.any (·.kind == .value)

def passGap : Scan (List Remark) := do
  let s ← get
  let around : Surroundings :=
    { flow := !s.slots.isEmpty, column := s.margin - 1, afterValue := afterValue s.found
      origin := s.cursor.mark }
  let arrival ← lexeme (Between.pass around s.keyAllowed)
  allowKey arrival.keyAllowed
  return arrival.remarks

def fetch : Scan Unit := do
  let _ ← lexeme (Lex.look 1)
  let start ← mark
  if (← get).found.isEmpty then emit .streamStart start start
  else
    let remarks ← passGap
    closeBlocks ((← mark).column + 1) remarks start
    match ← lexeme (Lex.look 4) with
    | [] => streamEnd remarks
    | c :: rest =>
      let column := (← mark).column
      if column == 0 && c == '%' then directive remarks
      else if column == 0 && startsDocument (c :: rest) then
        documentIndicator (if c == '-' then .documentStart else .documentEnd) remarks
      else
        content c rest
        lineComment

def slotAt (depth : Nat) : Scan KeySlot := do
  let s ← get
  return (s.slot :: s.slots).getD (s.slots.length - depth) {}

def clearSlot (depth : Nat) : Scan Unit :=
  modify fun s =>
    match (s.slot :: s.slots).modify (s.slots.length - depth) ({ · with possible := false }) with
    | [] => s
    | slot :: slots => { s with slot, slots }

/-- Whether the next token may still turn out to be a key. What the slot holds by now decides. -/
def headAwaited : Scan Bool := do
  let s ← get
  match s.awaited.find? (·.1 == s.taken) with
  | none => return false
  | some (_, depth) =>
    if ← (← slotAt depth).check s.cursor.mark then return true
    else
      clearSlot depth
      return false

/-- Finds tokens until there are three and the first is settled; each takes at least one character
until the end, and after 1024 characters nothing is awaited any more. -/
def fill : (fuel : Nat) → Scan Unit
  | 0 => pure ()
  | fuel + 1 => do
    let s ← get
    if s.found.size < s.taken + 3 then
      fetch
      fill fuel
    else if ← headAwaited then
      fetch
      fill fuel

def peek : Scan Token := do
  fill 1100
  let s ← get
  return s.found.getD s.taken ⟨.streamEnd, s.cursor.mark, s.cursor.mark⟩

def skip : Scan Unit := modify fun s => { s with taken := s.taken + 1 }

end Scan

end Letrec.Yaml
