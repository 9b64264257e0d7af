import Stepwise.Json.Number
import Stepwise.Text.Hidden

/-!
# What is wrong with a JSON text

A fault has a cause and a place.  Places are counted in the bytes of UTF-8, and
a fault remembers how many bytes lie behind its place, because that is what a
reader still knows when it fails.
-/

namespace Stepwise.Json

/-! ## Causes -/

/-- A value of another type than the one expected. -/
inductive Found where
  | null
  | boolean (b : Bool)
  | integer (n : Int)
  | real (x : Binary64)
  | text (cs : List Char)
  | sequence
  | map
deriving DecidableEq

/-- The type expected. -/
inductive Expected where
  | map
  | number
deriving DecidableEq

/-- What is wrong. -/
inductive Cause where
  | endInValue
  | endInObject
  | endInText
  | trailingCharacters
  | keyNotText
  | missingComma
  | trailingComma
  | missingColon
  | notAValue
  | misspelledWord
  | invalidNumber
  | numberOutOfRange
  | controlCharacter
  | invalidEscape
  /-- A low surrogate on its own, or something else after a high one. -/
  | loneSurrogate
  /-- A high surrogate that no escape follows. -/
  | unfinishedPair
  | wrongType (found : Found) (expected : Expected)
deriving DecidableEq

/-- A cause, and how many bytes of the text lie behind its place. -/
structure Fault where
  cause : Cause
  behind : Nat
deriving DecidableEq

/-! ## Places -/

/-- The number of bytes of a text in UTF-8. -/
def byteCount : List Char → Nat
  | [] => 0
  | c :: cs => c.utf8Size + byteCount cs

/-- A fault at the place where `rest` is left. -/
def Fault.here (cause : Cause) (rest : List Char) : Fault := ⟨cause, byteCount rest⟩

/-- A fault `bytes` bytes into `rest`, or at its end if it is shorter. -/
def Fault.into (bytes : Nat) (cause : Cause) (rest : List Char) : Fault :=
  ⟨cause, byteCount rest - bytes⟩

/-- The line, from 1, and the number of bytes before the place in that line, of
the place `ahead` bytes into the text, when the text begins at `line` and
`column`. -/
def place (line column ahead : Nat) : List Char → Nat × Nat
  | [] => (line, column)
  | c :: cs =>
      if ahead < c.utf8Size then (line, column + ahead)
      else if c = '\n' then place (line + 1) 0 (ahead - 1) cs
      else place line (column + c.utf8Size) (ahead - c.utf8Size) cs

/-! ## Messages -/

/-- A character as it stands in the message about a text. -/
def showChar (c : Char) : List Char :=
  if c = '"' then ['\\', '"']
  else if c = '\\' then ['\\', '\\']
  else if c = '\n' then ['\\', 'n']
  else if c = '\r' then ['\\', 'r']
  else if c = '\t' then ['\\', 't']
  else if c = '\x00' then ['\\', '0']
  else if Text.isHidden c then
    ['\\', 'u', '\x7b'] ++ Nat.toDigits 16 c.toNat ++ ['\x7d']
  else [c]

/-- What a value of another type is called. -/
def Found.message : Found → String
  | .null => "null"
  | .boolean b => "boolean `" ++ (if b then "true" else "false") ++ "`"
  | .integer n => "integer `" ++ toString n ++ "`"
  | .real x => "floating point `" ++ .ofList (ofNumber x) ++ "`"
  | .text cs => "string \"" ++ .ofList (cs.flatMap showChar) ++ "\""
  | .sequence => "sequence"
  | .map => "map"

/-- What the type expected is called. -/
def Expected.message : Expected → String
  | .map => "a map"
  | .number => "f64"

/-- The wording of a cause. -/
def Cause.message : Cause → String
  | .endInValue => "EOF while parsing a value"
  | .endInObject => "EOF while parsing an object"
  | .endInText => "EOF while parsing a string"
  | .trailingCharacters => "trailing characters"
  | .keyNotText => "key must be a string"
  | .missingComma => "expected `,` or `\x7d`"
  | .trailingComma => "trailing comma"
  | .missingColon => "expected `:`"
  | .notAValue => "expected value"
  | .misspelledWord => "expected ident"
  | .invalidNumber => "invalid number"
  | .numberOutOfRange => "number out of range"
  | .controlCharacter => "control character (\\u0000-\\u001F) found while parsing a string"
  | .invalidEscape => "invalid escape"
  | .loneSurrogate => "lone leading surrogate in hex escape"
  | .unfinishedPair => "unexpected end of hex escape"
  | .wrongType found expected =>
      "invalid type: " ++ found.message ++ ", expected " ++ expected.message

/-- The message about a fault in `text`: its cause and its place. -/
def Fault.message (fault : Fault) (text : List Char) : String :=
  let (line, column) := place 1 0 (byteCount text - fault.behind) text
  fault.cause.message ++ " at line " ++ toString line ++ " column " ++ toString column

end Stepwise.Json
