import Letrec.Text.Quoted

/-!
# JSON values and their text

Values over any kind of number, written without blanks. Strings are escaped so that they are safe
inside markup as well.
-/

namespace Letrec

inductive Json (ν : Type) where
  | null
  | bool (b : Bool)
  | number (n : ν)
  | string (s : String)
  | array (items : List (Json ν))
  | object (fields : List (String × Json ν))
deriving Repr, Inhabited

namespace Json

def escapedChar (c : Char) : List Char :=
  match c with
  | '"' => ['\\', '"']
  | '\\' => ['\\', '\\']
  | '\x08' => ['\\', 'b']
  | '\x0c' => ['\\', 'f']
  | '\n' => ['\\', 'n']
  | '\r' => ['\\', 'r']
  | '\t' => ['\\', 't']
  | _ =>
    if c.toNat < 0x20 || c == '<' || c == '>' || c == '&' || c == '\u2028' || c == '\u2029' then
      '\\' :: 'u' :: Text.hex 4 c.toNat
    else [c]

def renderString (s : String) : String :=
  String.ofList ('"' :: s.toList.flatMap escapedChar ++ ['"'])

/-- A string with an escaped replacement character for each stray byte. -/
def renderLoose (s : Text.Loose) : String :=
  let escaped (g : Text.Glyph) : List Char :=
    match g with
    | .char c => escapedChar c
    | .stray _ => '\\' :: 'u' :: Text.hex 4 0xfffd
  String.ofList ('"' :: s.glyphs.flatMap escaped ++ ['"'])

mutual
def render (number : ν → String) : Json ν → String
  | .null => "null"
  | .bool b => if b then "true" else "false"
  | .number n => number n
  | .string s => renderString s
  | .array items => "[" ++ String.intercalate "," (renderItems number items) ++ "]"
  | .object fields => "\x7b" ++ String.intercalate "," (renderFields number fields) ++ "\x7d"

def renderItems (number : ν → String) : List (Json ν) → List String
  | [] => []
  | item :: rest => render number item :: renderItems number rest

def renderFields (number : ν → String) : List (String × Json ν) → List String
  | [] => []
  | (key, value) :: rest =>
    (renderString key ++ ":" ++ render number value) :: renderFields number rest
end

def text (value : Json Int) : String := value.render toString

def objectText (fields : List (String × String)) : String :=
  "\x7b" ++ String.intercalate "," (fields.map fun f => renderString f.1 ++ ":" ++ f.2) ++ "\x7d"

def sortFields (fields : List (String × α)) : List (String × α) :=
  fields.mergeSort fun a b => !(b.1 < a.1)

/-- The field of a key, the last one given if the key is repeated. -/
def field? (fields : List (String × α)) (key : String) : Option α :=
  (fields.reverse.find? fun f => f.1 == key).map Prod.snd

end Json

end Letrec
