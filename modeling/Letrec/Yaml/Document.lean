import Letrec.Yaml.Tokens
import Letrec.Yaml.Graph
import Std.Data.HashMap

/-!
# Documents

The first document of a stream, as a node graph. Only as many tokens are looked at as its end
requires.
-/

namespace Letrec.Yaml

inductive Expected where
  | blockEntry
  | indentlessEntry
  | blockKey
  | blockValue
  | flowEntry (first : Bool)
  | flowKey (first : Bool)
  | flowValue
  /-- The value of a key that no `:` follows. -/
  | flowNoValue
  /-- Inside a mapping of one entry, written without braces in a flow sequence. -/
  | pairKey
  | pairValue
  | pairEnd
deriving DecidableEq, Repr

structure Frame where
  next : Expected
  start : Mark
  node : Nat
  items : List Nat := []
deriving DecidableEq, Repr

structure Builder where
  /-- Tag handles and what they stand for. -/
  handles : List (String × Text.Loose) := []
  nodes : Array Node := #[]
  anchors : Std.HashMap String Nat := {}
  frames : List Frame := []

abbrev Build := StateT Builder Scan

namespace Build

def fail (fault : Fault) (context place : Mark) : Build α := throw (.inTokens fault context place)

def addNode (tag : Tag) (shape : Shape) (at_ : Mark) (anchor : Option String) : Build Nat := do
  let id := (← get).nodes.size
  modify fun s =>
    let frames :=
      match s.frames with
      | [] => []
      | f :: outer => { f with items := id :: f.items } :: outer
    let anchors :=
      match anchor with
      | some name => s.anchors.insert name id
      | none => s.anchors
    { s with nodes := s.nodes.push ⟨tag, shape, at_.line + 1, at_.column + 1⟩, anchors, frames }
  return id

def emptyScalar (at_ : Mark) : Build Unit := do
  let _ ← addNode .null (.scalar "") at_ none

def expect (next : Expected) : Build Unit :=
  modify fun s =>
    match s.frames with
    | [] => s
    | f :: outer => { s with frames := { f with next } :: outer }

def openFrame (next : Expected) (start : Mark) (node : Nat) : Build Unit :=
  modify fun s => { s with frames := ⟨next, start, node, []⟩ :: s.frames }

def pairUp : List Nat → List (Nat × Nat)
  | key :: value :: rest => (key, value) :: pairUp rest
  | _ => []

def closeFrame (shape : List Nat → Shape) : Build Unit :=
  modify fun s =>
    match s.frames with
    | [] => s
    | f :: outer =>
      { s with
        frames := outer
        nodes := s.nodes.modify f.node fun n => { n with shape := shape f.items.reverse } }

def closeSequence : Build Unit := closeFrame .sequence

def closeMapping : Build Unit := closeFrame fun items => .mapping (pairUp items)

structure Properties where
  start : Mark
  anchor : Option String := none
  tag : Option (TagText × Mark) := none

def properties : Build Properties := do
  let token ← Scan.peek
  match token.kind with
  | .anchor name =>
    Scan.skip
    let next ← Scan.peek
    match next.kind with
    | .tag text =>
      Scan.skip
      let _ ← Scan.peek
      return { start := token.start, anchor := name, tag := some (text, next.start) }
    | _ => return { start := token.start, anchor := name }
  | .tag text =>
    Scan.skip
    let next ← Scan.peek
    match next.kind with
    | .anchor name =>
      Scan.skip
      let _ ← Scan.peek
      return { start := token.start, anchor := name, tag := some (text, token.start) }
    | _ => return { start := token.start, tag := some (text, token.start) }
  | _ => return { start := token.start }

/-- The name of the tag in full, empty if there is none. -/
def tagName (p : Properties) : Build Text.Loose := do
  match p.tag with
  | none => return {}
  | some (text, at_) =>
    if text.handle = "" then return text.suffix
    else
      match (← get).handles.lookup text.handle with
      | some head => return head ++ text.suffix
      | none => fail .tagHandle p.start at_

/-- A name that says nothing is as good as none. -/
def isGiven (name : Text.Loose) : Bool := name ≠ {} && name ≠ "!"

/-- The tag of a scalar: its own, or the one its text has. -/
def scalarTag (name : Text.Loose) (text : String) (style : ScalarStyle) : Tag :=
  if isGiven name then .ofName name
  else if style = .quoted then .str
  else if text = "<<" then .merge
  else (Scalar.ofPlain text).tag

def collectionTag (name : Text.Loose) (default : Tag) : Tag :=
  if isGiven name then .ofName name else default

def node (block indentless : Bool) : Build Unit := do
  let token ← Scan.peek
  match token.kind with
  | .alias name =>
    Scan.tell
    match (← get).anchors[name]? with
    | none => throw { fault := .unknownAnchor name }
    | some target =>
      let _ ← addNode (.other {}) (.alias name target) token.start none
      Scan.skip
  | _ =>
    let p ← properties
    let tag ← tagName p
    let token ← Scan.peek
    let sequence (next : Expected) : Build Unit := do
      openFrame next token.start
        (← addNode (collectionTag tag .seq) (.sequence []) p.start p.anchor)
    let mapping (next : Expected) : Build Unit := do
      openFrame next token.start (← addNode (collectionTag tag .map) (.mapping []) p.start p.anchor)
    match token.kind, block with
    | .scalar text style, _ =>
      let _ ← addNode (scalarTag tag text style) (.scalar text) p.start p.anchor
      Scan.skip
    | .flowSequenceStart, _ =>
      Scan.skip
      sequence (.flowEntry true)
    | .flowMappingStart, _ =>
      Scan.skip
      mapping (.flowKey true)
    | .blockSequenceStart, true =>
      Scan.skip
      sequence .blockEntry
    | .blockMappingStart, true =>
      Scan.skip
      mapping .blockKey
    | kind, _ =>
      if kind = .blockEntry && indentless then sequence .indentlessEntry
      else if p.anchor.isSome || tag ≠ {} then
        let _ ← addNode (scalarTag tag "" .plain) (.scalar "") p.start p.anchor
      else fail .nodeContent p.start token.start

def step (f : Frame) : Build Unit := do
  let token ← Scan.peek
  match f.next with
  | .blockEntry =>
    match token.kind with
    | .blockEntry =>
      Scan.skip
      let next ← Scan.peek
      if next.kind = .blockEntry || next.kind = .blockEnd then emptyScalar token.stop
      else node true false
    | .blockEnd =>
      Scan.skip
      closeSequence
    | _ => fail .blockEntry f.start token.start
  | .indentlessEntry =>
    if token.kind = .blockEntry then
      Scan.skip
      let next ← Scan.peek
      if next.kind ∈ [.blockEntry, .key, .value, .blockEnd] then emptyScalar token.stop
      else node true false
    else closeSequence
  | .blockKey =>
    match token.kind with
    | .key =>
      Scan.skip
      expect .blockValue
      let next ← Scan.peek
      if next.kind ∈ [.key, .value, .blockEnd] then emptyScalar token.stop
      else node true true
    | .blockEnd =>
      Scan.skip
      closeMapping
    | _ => fail .blockKey f.start token.start
  | .blockValue =>
    expect .blockKey
    if token.kind = .value then
      Scan.skip
      let next ← Scan.peek
      if next.kind ∈ [.key, .value, .blockEnd] then emptyScalar token.stop
      else node true true
    else emptyScalar token.start
  | .flowEntry first =>
    if token.kind = .flowSequenceEnd then
      Scan.skip
      closeSequence
    else
      if !first then
        if token.kind = .flowEntry then Scan.skip
        else fail .flowSequenceEnd f.start token.start
      let next ← Scan.peek
      expect (.flowEntry false)
      match next.kind with
      | .key =>
        Scan.skip
        openFrame .pairKey next.start (← addNode .map (.mapping []) next.start none)
      | .flowSequenceEnd =>
        Scan.skip
        closeSequence
      | _ => node false false
  | .pairKey =>
    expect .pairValue
    if token.kind ∈ [.value, .flowEntry, .flowSequenceEnd] then
      Scan.skip
      emptyScalar token.stop
    else node false false
  | .pairValue =>
    expect .pairEnd
    if token.kind = .value then
      Scan.skip
      let next ← Scan.peek
      if next.kind ∈ [.flowEntry, .flowSequenceEnd] then emptyScalar token.start
      else node false false
    else emptyScalar token.start
  | .pairEnd => closeMapping
  | .flowKey first =>
    if token.kind = .flowMappingEnd then
      Scan.skip
      closeMapping
    else
      if !first then
        if token.kind = .flowEntry then Scan.skip
        else fail .flowMappingEnd f.start token.start
      let next ← Scan.peek
      match next.kind with
      | .key =>
        Scan.skip
        expect .flowValue
        let after ← Scan.peek
        if after.kind ∈ [.value, .flowEntry, .flowMappingEnd] then emptyScalar after.start
        else node false false
      | .flowMappingEnd =>
        Scan.skip
        closeMapping
      | _ =>
        expect .flowNoValue
        node false false
  | .flowNoValue =>
    expect (.flowKey false)
    emptyScalar token.start
  | .flowValue =>
    expect (.flowKey false)
    if token.kind = .value then
      Scan.skip
      let next ← Scan.peek
      if next.kind ∈ [.flowEntry, .flowMappingEnd] then emptyScalar next.start
      else node false false
    else emptyScalar token.start

def steps : (fuel : Nat) → Build Unit
  | 0 => throw { fault := .unfinished }
  | fuel + 1 => do
    match (← get).frames with
    | [] => pure ()
    | f :: _ =>
      step f
      Scan.tell
      steps fuel

def directives : (fuel : Nat) → (hasVersion : Bool) → Build Unit
  | 0, _ => throw { fault := .unfinished }
  | fuel + 1, hasVersion => do
    let token ← Scan.peek
    match token.kind with
    | .directive (.version major minor) =>
      if hasVersion then fail .duplicateVersion {} token.start
      if major != 1 || minor != 1 then fail .incompatibleVersion {} token.start
      Scan.skip
      directives fuel true
    | .directive (.tag handle head) =>
      if ((← get).handles.lookup handle).isSome then fail .duplicateTagHandle {} token.start
      modify fun s => { s with handles := s.handles ++ [(handle, head)] }
      Scan.skip
      directives fuel hasVersion
    | _ => pure ()

def defaultHandles : List (String × Text.Loose) := [("!", ↑"!"), ("!!", Tag.coreHead)]

def isDocumentEdge (kind : TokenKind) : Bool :=
  match kind with
  | .directive _ | .documentStart | .documentEnd | .streamEnd => true
  | _ => false

def document (fuel : Nat) : Build Bool := do
  let _ ← Scan.peek
  Scan.skip
  Scan.tell
  let first ← Scan.peek
  if first.kind = .streamEnd then
    Scan.tell
    return false
  let explicit := isDocumentEdge first.kind && first.kind != .documentEnd
  if explicit then
    directives fuel false
    let token ← Scan.peek
    if token.kind != .documentStart then fail .documentStart {} token.start
    Scan.skip
  modify fun s => { s with handles := s.handles ++ defaultHandles }
  Scan.tell
  let token ← Scan.peek
  if explicit && isDocumentEdge token.kind then emptyScalar token.start
  else node true false
  Scan.tell
  steps fuel
  let _ ← Scan.peek
  Scan.tell
  return true

end Build

/-- The first document of a stream, if it has one. A character gives rise to a few steps at most. -/
def read (source : Source) : Except Problem (Option Graph) := do
  let fuel := 16 * source.text.length + 64
  let ((found, built), _) ← ((Build.document fuel).run {}).run (Tokens.ofSource source)
  return if found then some ⟨built.nodes, 0⟩ else none

end Letrec.Yaml
