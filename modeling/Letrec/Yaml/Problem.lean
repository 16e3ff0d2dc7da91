/-!
# What can be wrong with a YAML text
-/

namespace Letrec.Yaml

/-- A place between two characters; all three counts start at zero. -/
structure Mark where
  index : Nat := 0
  line : Nat := 0
  column : Nat := 0
deriving DecidableEq, Repr, Inhabited

inductive Fault where
  -- bytes that are not the characters of a text
  | unreadable (reason : String)
  | leadingOctet
  | incompleteSequence
  | trailingOctet
  | sequenceLength
  | noCharacter
  | incompleteUnit
  | incompletePair
  | strayLowSurrogate
  | missingLowSurrogate
  | controlCharacter
  -- characters that are not tokens
  | noToken
  | missingColon
  | valueNotAllowed
  | keyNotAllowed
  | entryNotAllowed
  | endOfStream
  | documentIndicator
  | unknownEscape
  | hexNumber
  | escapeCode
  | zeroIndentation
  | commentOrBreak
  | tabAsIndentation
  | tabBeforeText
  | anchorName
  | verbatimEnd
  | tagUri
  | tagMark
  | tagEnd
  | uriOctet
  | uriLeadingOctet
  | uriTrailingOctet
  | directiveName
  | directiveNameEnd
  | unknownDirective
  | directiveBlank
  | versionNumber
  | versionPoint
  | versionLength
  | tooDeep
  -- tokens that are not a document
  | nodeContent
  | blockKey
  | blockEntry
  | flowSequenceEnd
  | flowMappingEnd
  | documentStart
  | tagHandle
  | duplicateVersion
  | duplicateTagHandle
  | incompatibleVersion
  | unknownAnchor (name : String)
  | unfinished
deriving DecidableEq, Repr

def Fault.message : Fault → String
  | .unreadable reason => "input error: " ++ reason
  | .leadingOctet => "invalid leading UTF-8 octet"
  | .incompleteSequence => "incomplete UTF-8 octet sequence"
  | .trailingOctet => "invalid trailing UTF-8 octet"
  | .sequenceLength => "invalid length of a UTF-8 sequence"
  | .noCharacter => "invalid Unicode character"
  | .incompleteUnit => "incomplete UTF-16 character"
  | .incompletePair => "incomplete UTF-16 surrogate pair"
  | .strayLowSurrogate => "unexpected low surrogate area"
  | .missingLowSurrogate => "expected low surrogate area"
  | .controlCharacter => "control characters are not allowed"
  | .noToken => "found character that cannot start any token"
  | .missingColon => "could not find expected ':'"
  | .valueNotAllowed => "mapping values are not allowed in this context"
  | .keyNotAllowed => "mapping keys are not allowed in this context"
  | .entryNotAllowed => "block sequence entries are not allowed in this context"
  | .endOfStream => "found unexpected end of stream"
  | .documentIndicator => "found unexpected document indicator"
  | .unknownEscape => "found unknown escape character"
  | .hexNumber => "did not find expected hexdecimal number"
  | .escapeCode => "found invalid Unicode character escape code"
  | .zeroIndentation => "found an indentation indicator equal to 0"
  | .commentOrBreak => "did not find expected comment or line break"
  | .tabAsIndentation => "found a tab character where an indentation space is expected"
  | .tabBeforeText => "found a tab character that violates indentation"
  | .anchorName => "did not find expected alphabetic or numeric character"
  | .verbatimEnd => "did not find the expected '>'"
  | .tagUri => "did not find expected tag URI"
  | .tagMark => "did not find expected '!'"
  | .tagEnd => "did not find expected whitespace or line break"
  | .uriOctet => "did not find URI escaped octet"
  | .uriLeadingOctet => "found an incorrect leading UTF-8 octet"
  | .uriTrailingOctet => "found an incorrect trailing UTF-8 octet"
  | .directiveName => "could not find expected directive name"
  | .directiveNameEnd => "found unexpected non-alphabetical character"
  | .unknownDirective => "found unknown directive name"
  | .directiveBlank => "did not find expected whitespace"
  | .versionNumber => "did not find expected version number"
  | .versionPoint => "did not find expected digit or '.' character"
  | .versionLength => "found extremely long version number"
  | .tooDeep => "exceeded max depth of 10000"
  | .nodeContent => "did not find expected node content"
  | .blockKey => "did not find expected key"
  | .blockEntry => "did not find expected '-' indicator"
  | .flowSequenceEnd => "did not find expected ',' or ']'"
  | .flowMappingEnd => "did not find expected ',' or '\x7d'"
  | .documentStart => "did not find expected <document start>"
  | .tagHandle => "found undefined tag handle"
  | .duplicateVersion => "found duplicate %YAML directive"
  | .duplicateTagHandle => "found duplicate %TAG directive"
  | .incompatibleVersion => "found incompatible YAML document"
  | .unknownAnchor name => "unknown anchor '" ++ name ++ "' referenced"
  | .unfinished => "unknown problem parsing YAML content"

structure Problem where
  fault : Fault
  line : Nat := 0
deriving DecidableEq, Repr

namespace Problem

def laterLine (context place : Mark) : Nat :=
  if context.line = 0 then place.line else context.line

/-- A fault found among characters: the line where the lexeme starts, or else that of the fault
itself, counted from one; no line if both are the first. -/
def inText (fault : Fault) (context place : Mark) : Problem :=
  match laterLine context place with
  | 0 => { fault }
  | line => { fault, line := line + 1 }

/-- A fault found among tokens: as `inText`, counted from zero. -/
def inTokens (fault : Fault) (context place : Mark) : Problem :=
  { fault, line := laterLine context place }

def message (p : Problem) : String :=
  "yaml: " ++ (if p.line = 0 then "" else "line " ++ toString p.line ++ ": ") ++ p.fault.message

end Problem

end Letrec.Yaml
