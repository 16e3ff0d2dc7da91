import Letrec.Number.Numeral
import Letrec.Text.Basic
import Letrec.Yaml.Cursor

/-!
# Tags and directives
-/

namespace Letrec.Yaml

-- ---------------------------------------------------------------------------
-- Tags
-- ---------------------------------------------------------------------------

/-- A tag as it is written: a handle, empty for a verbatim tag, and what follows it. -/
structure TagText where
  handle : String
  suffix : Text.Loose
deriving DecidableEq, Repr

namespace TagText

def isUriChar (c : Char) : Bool :=
  isWordChar c || c ∈ [';', '/', '?', ':', '@', '&', '=', '+', '$', ',', '.', '!', '~', '*',
    '\'', '(', ')', '[', ']', '%']

/-- The number of bytes announced by the first byte of a character. -/
def octetWidth (octet : Nat) : Nat :=
  if octet < 0x80 then 1
  else if octet / 32 = 6 then 2
  else if octet / 16 = 14 then 3
  else if octet / 8 = 30 then 4
  else 0

/-- Reads on in a URI; `pending` escaped bytes of a character are still to come, and `bytes` holds
what was read, latest first. -/
def uriFrom (start : Mark) (pending : Nat) (bytes : List UInt8) (p : Place) :
    List Char → Except Problem (List UInt8 × Cursor)
  | '%' :: a :: b :: rest => do
    let p ← p.want 3 ('%' :: a :: b :: rest)
    let more ←
      match Number.digits? 16 [a, b], pending with
      | none, _ => throw (.inText .uriOctet start p.mark)
      | some octet, 0 =>
        match octetWidth octet with
        | 0 => throw (.inText .uriLeadingOctet start p.mark)
        | more + 1 => pure (octet, more)
      | some octet, more + 1 =>
        if octet / 64 = 2 then pure (octet, more)
        else throw (.inText .uriTrailingOctet start p.mark)
    let p := ((p.past '%').past a).past b
    let p ← if more.2 = 0 then p.want 1 rest else pure p
    uriFrom start more.2 (more.1.toUInt8 :: bytes) p rest
  | c :: rest => do
    if pending > 0 || c == '%' then
      let p ← p.want 3 (c :: rest)
      throw (.inText .uriOctet start p.mark)
    else if isUriChar c then
      let p ← (p.past c).want 1 rest
      uriFrom start 0 (c.toNat.toUInt8 :: bytes) p rest
    else return (bytes, { toPlace := p, rest := c :: rest })
  | [] => do
    if pending > 0 then
      let p ← p.want 3 []
      throw (.inText .uriOctet start p.mark)
    else return (bytes, { toPlace := p, rest := [] })

/-- A URI, which may be empty only after a `head`. -/
def readUri (start : Mark) (head : String) : Lex Text.Loose := do
  let _ ← Lex.look 1
  let bytes ← (fun c => uriFrom start 0 [] c.toPlace c.rest : Lex (List UInt8))
  if bytes.isEmpty && head = "" then Lex.fail .tagUri start
  else return (String.ofList (head.toList.drop 1) : Text.Loose) ++ Text.Loose.ofBytes bytes.reverse

def readHandle (start : Mark) : Lex String := do
  if (← Lex.look 1).head? != some '!' then Lex.fail .tagMark start
  Lex.pass 1
  let word ← Lex.passWhile isWordChar
  if (← get).rest.head? == some '!' then
    Lex.pass 1
    return String.ofList ('!' :: word ++ ['!'])
  else return String.ofList ('!' :: word)

def isHandle (text : String) : Bool := text.length > 1 && text.toList.getLast? == some '!'

def readBody (start : Mark) : Lex TagText := do
  if ((← Lex.look 2).drop 1).head? == some '<' then
    Lex.pass 2
    let suffix ← readUri start ""
    if (← get).rest.head? != some '>' then Lex.fail .verbatimEnd start
    Lex.pass 1
    return ⟨"", suffix⟩
  else
    let head ← readHandle start
    if isHandle head then return ⟨head, ← readUri start ""⟩
    else
      let suffix ← readUri start head
      return if suffix = {} then ⟨"", "!"⟩ else ⟨"!", suffix⟩

def read : Lex TagText := do
  let start := (← get).mark
  let tag ← readBody start
  if startsBlank (← Lex.look 1) then return tag else Lex.fail .tagEnd start

end TagText

-- ---------------------------------------------------------------------------
-- Directives
-- ---------------------------------------------------------------------------

inductive Directive where
  | version (major minor : Nat)
  | tag (handle : String) (head : Text.Loose)
deriving DecidableEq, Repr

namespace Directive

def nextDigit : Lex (Option Char) := do return (← Lex.look 1).head?.filter Char.isDigit

def readDigits (start : Mark) : (left : Nat) → Lex (List Char)
  | 0 => do
    if (← nextDigit).isSome then Lex.fail .versionLength start
    return []
  | left + 1 => do
    match ← nextDigit with
    | none => return []
    | some c =>
      Lex.pass 1
      return c :: (← readDigits start left)

def readNumber (start : Mark) : Lex Nat := do
  match Number.digits? 10 (← readDigits start 2) with
  | some n => return n
  | none => Lex.fail .versionNumber start

def readVersion (start : Mark) : Lex Directive := do
  let _ ← Lex.passWhile isBlank
  let major ← readNumber start
  if (← get).rest.head? != some '.' then Lex.fail .versionPoint start
  Lex.pass 1
  return .version major (← readNumber start)

def readTag (start : Mark) : Lex Directive := do
  let _ ← Lex.passWhile isBlank
  let handle ← TagText.readHandle start
  if handle ≠ "!" && !TagText.isHandle handle then Lex.fail .tagMark start
  if !((← Lex.look 1).head?.any isBlank) then Lex.fail .directiveBlank start
  let _ ← Lex.passWhile isBlank
  let head ← TagText.readUri start ""
  if startsBlank (← Lex.look 1) then return .tag handle head else Lex.fail .tagEnd start

def read : Lex Directive := do
  let start := (← get).mark
  Lex.pass 1
  let name ← Lex.passWhile isWordChar
  if name.isEmpty then Lex.fail .directiveName start
  if !startsBlank (← get).rest then Lex.fail .directiveNameEnd start
  let d ←
    if name == ['Y', 'A', 'M', 'L'] then readVersion start
    else if name == ['T', 'A', 'G'] then readTag start
    else Lex.fail .unknownDirective start
  Lex.lineEnd start
  return d

end Directive

end Letrec.Yaml
