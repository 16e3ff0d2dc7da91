/-!
# Texts

The text a sequence of bytes stands for, the white space that divides a text into words and lines,
and bytes written in base 64. A byte that is not part of well-formed UTF-8 is stray; where only
characters can stand, a replacement character is shown for it.
-/

namespace Letrec.Text

-- ---------------------------------------------------------------------------
-- Bytes
-- ---------------------------------------------------------------------------

def firstChar? : List UInt8 → Option (Char × Nat)
  | [] => none
  | a :: rest =>
    let follow (b : UInt8) : Option Nat := if b.toNat / 64 = 2 then some (b.toNat % 64) else none
    if a < 0x80 then some (Char.ofNat a.toNat, 1)
    else
      match rest with
      | [] => none
      | b :: rest => do
        let y ← follow b
        if 0xc2 ≤ a && a < 0xe0 then
          return (Char.ofNat (a.toNat % 32 * 64 + y), 2)
        match rest with
        | [] => none
        | c :: rest =>
          let z ← follow c
          let wide := (a.toNat % 16 * 64 + y) * 64 + z
          if 0xe0 ≤ a && a < 0xf0 then
            if wide < 0x800 || (0xd800 ≤ wide && wide < 0xe000) then none
            else return (Char.ofNat wide, 3)
          else
            match rest with
            | [] => none
            | d :: _ =>
              let w ← follow d
              let widest := ((a.toNat % 8 * 64 + y) * 64 + z) * 64 + w
              if 0xf0 ≤ a && a < 0xf5 && 0x10000 ≤ widest && widest < 0x110000 then
                return (Char.ofNat widest, 4)
              else none

inductive Glyph where
  | char (c : Char)
  | stray (byte : UInt8)
deriving DecidableEq, Repr

/-- A text in which stray bytes may stand. -/
structure Loose where
  glyphs : List Glyph := []
deriving DecidableEq, Repr

namespace Loose

instance : Append Loose := ⟨fun s t => ⟨s.glyphs ++ t.glyphs⟩⟩

instance : Coe String Loose := ⟨fun s => ⟨s.toList.map .char⟩⟩

/-- Reads bytes after passing over the first `skip` of them. -/
def glyphsOf (skip : Nat) : List UInt8 → List Glyph
  | [] => []
  | byte :: rest =>
    match skip with
    | skip + 1 => glyphsOf skip rest
    | 0 =>
      match firstChar? (byte :: rest) with
      | some (c, size) => .char c :: glyphsOf (size - 1) rest
      | none => .stray byte :: glyphsOf 0 rest

def ofBytes (bytes : List UInt8) : Loose := ⟨glyphsOf 0 bytes⟩

/-- The first `size` bytes of a text; of a character cut in two stray bytes are left. -/
def takeBytes (size : Nat) (text : String) : Loose := ofBytes (text.toUTF8.toList.take size)

def shown (s : Loose) : String :=
  String.ofList (s.glyphs.map fun
    | .char c => c
    | .stray _ => '\ufffd')

def intercalate (separator : Loose) : List Loose → Loose
  | [] => {}
  | [s] => s
  | s :: rest => s ++ separator ++ intercalate separator rest

end Loose

def ofBytes (bytes : ByteArray) : String :=
  match String.fromUTF8? bytes with
  | some text => text
  | none => (Loose.ofBytes bytes.toList).shown

-- ---------------------------------------------------------------------------
-- White space
-- ---------------------------------------------------------------------------

/-- Tab to carriage return, the space, next line, and the separators of the `Z` categories. -/
def isSpace (c : Char) : Bool :=
  let code := c.toNat
  (0x09 ≤ code && code ≤ 0x0d) || code == 0x20 || code == 0x85 || code == 0xa0 || code == 0x1680 ||
    (0x2000 ≤ code && code ≤ 0x200a) || code == 0x2028 || code == 0x2029 || code == 0x202f ||
    code == 0x205f || code == 0x3000

/-- The maximal runs of characters that are not white space; `word` is the current run, reversed. -/
def wordsFrom (word : List Char) : List Char → List (List Char)
  | [] => if word.isEmpty then [] else [word.reverse]
  | c :: rest =>
    if isSpace c then
      if word.isEmpty then wordsFrom [] rest else word.reverse :: wordsFrom [] rest
    else wordsFrom (c :: word) rest

def words (text : String) : List String :=
  (wordsFrom [] text.toList).map String.ofList

/-- The text without the white space at its two ends. -/
def trim (text : String) : String :=
  String.ofList ((text.toList.dropWhile isSpace).reverse.dropWhile isSpace).reverse

/-- The lines between newlines; a newline at the end opens no further line. -/
def linesFrom (line : List Char) : List Char → List (List Char)
  | [] => if line.isEmpty then [] else [line.reverse]
  | c :: rest => if c = '\n' then line.reverse :: linesFrom [] rest else linesFrom (c :: line) rest

def lines (text : String) : List String :=
  (linesFrom [] text.toList).map String.ofList

-- ---------------------------------------------------------------------------
-- Base 64
-- ---------------------------------------------------------------------------

def sextet? (c : Char) : Option Nat :=
  if 'A' ≤ c && c ≤ 'Z' then some (c.toNat - 'A'.toNat)
  else if 'a' ≤ c && c ≤ 'z' then some (c.toNat - 'a'.toNat + 26)
  else if '0' ≤ c && c ≤ '9' then some (c.toNat - '0'.toNat + 52)
  else if c == '+' then some 62
  else if c == '/' then some 63
  else none

/-- Groups of four characters; only the last group may be padded, and nothing follows it. -/
def base64Groups? : List Char → Option (List UInt8)
  | [] => some []
  | [a, b, '=', '='] => do
    let n := (← sextet? a) * 64 + (← sextet? b)
    return [(n / 16).toUInt8]
  | [a, b, c, '='] => do
    let n := ((← sextet? a) * 64 + (← sextet? b)) * 64 + (← sextet? c)
    return [(n / 1024).toUInt8, (n / 4).toUInt8]
  | a :: b :: c :: d :: rest => do
    let n := (((← sextet? a) * 64 + (← sextet? b)) * 64 + (← sextet? c)) * 64 + (← sextet? d)
    let bytes ← base64Groups? rest
    return (n / 65536).toUInt8 :: (n / 256).toUInt8 :: n.toUInt8 :: bytes
  | _ => none

/-- Reads base 64; line breaks play no part. -/
def base64? (text : String) : Option ByteArray :=
  (base64Groups? (text.toList.filter fun c => c != '\n' && c != '\r')).map fun bytes =>
    ⟨bytes.toArray⟩

end Letrec.Text
