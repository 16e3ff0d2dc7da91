import Letrec.Yaml.Problem

/-!
# The characters of a byte stream

A stream is UTF-8, or UTF-16 if it starts with a byte order mark that says so. It is read window by
window. A window that holds anything but the characters of a text cannot be read, but the characters
in front of the fault are known by then.
-/

namespace Letrec.Yaml

structure Source where
  windows : List (List Char)
  /-- The characters of the window that cannot be read, up to what is wrong with it. -/
  fault : Option (List Char × Fault) := none
deriving DecidableEq, Repr

namespace Source

inductive Next where
  | char (c : Char) (width : Nat)
  | wrong (fault : Fault) (width : Nat)
  | short (fault : Fault)

def isAllowed (code : Nat) : Bool :=
  code == 0x09 || code == 0x0a || code == 0x0d || (0x20 ≤ code && code ≤ 0x7e) || code == 0x85 ||
    (0xa0 ≤ code && code ≤ 0xd7ff) || (0xe000 ≤ code && code ≤ 0xfffd) ||
    (0x10000 ≤ code && code ≤ 0x10ffff)

def Next.ofCode (code width : Nat) : Next :=
  if isAllowed code then .char (Char.ofNat code) width else .wrong .controlCharacter width

/-- Adds six bits for each of `count` trailing bytes. -/
def trailing (code : Nat) : (count : Nat) → List UInt8 → Except Fault Nat
  | 0, _ => .ok code
  | _ + 1, [] => .error .incompleteSequence
  | count + 1, b :: rest =>
    if b.toNat / 64 = 2 then trailing (code * 64 + b.toNat % 64) count rest
    else .error .trailingOctet

/-- The number of bytes of a character with this leading byte, zero if there is none. -/
def widthOf (leading : UInt8) : Nat :=
  if leading < 0x80 then 1
  else if 0xc0 ≤ leading && leading < 0xe0 then 2
  else if 0xe0 ≤ leading && leading < 0xf0 then 3
  else if 0xf0 ≤ leading && leading < 0xf8 then 4
  else 0

def leastCode (width : Nat) : Nat :=
  match width with
  | 2 => 0x80
  | 3 => 0x800
  | 4 => 0x10000
  | _ => 0

def utf8 (leading : UInt8) (rest : List UInt8) : Next :=
  match widthOf leading with
  | 0 => .wrong .leadingOctet 1
  | width + 1 =>
    if (rest.take width).length < width then .short .incompleteSequence
    else
      let bits := if width = 0 then leading.toNat else leading.toNat % Nat.pow 2 (6 - width)
      match trailing bits width rest with
      | .error fault => .wrong fault (width + 1)
      | .ok code =>
        if code < leastCode (width + 1) then .wrong .sequenceLength (width + 1)
        else if (0xd800 ≤ code && code ≤ 0xdfff) ||
          code > 0x10ffff then .wrong .noCharacter (width + 1)
        else Next.ofCode code (width + 1)

def utf16 (littleEndian : Bool) (first : UInt8) (rest : List UInt8) : Next :=
  let unit (a b : UInt8) : Nat :=
    if littleEndian then a.toNat + b.toNat * 256 else a.toNat * 256 + b.toNat
  match rest with
  | [] => .short .incompleteUnit
  | second :: rest =>
    let code := unit first second
    if code / 0x400 = 0x37 then .wrong .strayLowSurrogate 2
    else if code / 0x400 = 0x36 then
      match rest with
      | a :: b :: _ =>
        let low := unit a b
        if low / 0x400 = 0x37 then Next.ofCode (0x10000 + code % 0x400 * 0x400 + low % 0x400) 4
        else .wrong .missingLowSurrogate 4
      | _ => .short .incompletePair
    else Next.ofCode code 2

def windowSize : Nat := 512

/-- Reads on after the windows `done`, the last one first, and the characters `window` of the
current one, reversed. The window has `room` bytes left, and `skip` bytes of the last character are
still to be passed over. -/
def readFrom (next : UInt8 → List UInt8 → Next) (done : List (List Char)) (window : List Char)
    (room skip : Nat) : List UInt8 → Source
  | [] => { windows := (window.reverse :: done).reverse }
  | byte :: rest =>
    match skip with
    | skip + 1 => readFrom next done window room skip rest
    | 0 =>
      match next byte rest with
      | .short fault => { windows := (window.reverse :: done).reverse, fault := some ([], fault) }
      | .wrong fault width =>
        if width ≤ room then { windows := done.reverse, fault := some (window.reverse, fault) }
        else { windows := (window.reverse :: done).reverse, fault := some ([], fault) }
      | .char c width =>
        if width ≤ room then readFrom next done (c :: window) (room - width) (width - 1) rest
        else readFrom next (window.reverse :: done) [c] (windowSize - width) (width - 1) rest

def ofByteList : List UInt8 → Source
  | 0xff :: 0xfe :: rest => readFrom (utf16 true) [] [] (windowSize - 2) 0 rest
  | 0xfe :: 0xff :: rest => readFrom (utf16 false) [] [] (windowSize - 2) 0 rest
  | 0xef :: 0xbb :: 0xbf :: rest => readFrom utf8 [] [] (windowSize - 3) 0 rest
  | bytes => readFrom utf8 [] [] windowSize 0 bytes

def ofBytes (bytes : ByteArray) : Source := ofByteList bytes.toList

def text (s : Source) : List Char := s.windows.flatten ++ s.fault.elim [] (·.1)

end Source

end Letrec.Yaml
