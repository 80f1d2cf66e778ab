import ScriptDepot.Json
import ScriptDepot.Number.Shortest
/-!
# Writing JSON

The written text is ASCII on one line.  Two spacings are in use: a blank after each comma and colon
for replies, and none for the names derived from values.
-/

namespace ScriptDepot

namespace Json

structure Spacing where
  comma : Text
  colon : Text

def spaced : Spacing := ⟨", ", ": "⟩

def compact : Spacing := ⟨",", ":"⟩

def unicodeEscape (unit : Nat) : Text := '\\' :: 'u' :: Text.hex 4 unit

/-- One code point of a string: printable ASCII stands for itself, but for the quote and the
backslash, and a code point above U+FFFF is written as its two surrogates. -/
def escape (c : CodePoint) : Text :=
  if c = '"' ∨ c = '\\' then ['\\', c]
  else if 0x20 ≤ c.val ∧ c.val ≤ 0x7E then [c]
  else if c = '\n' then ['\\', 'n']
  else if c = '\r' then ['\\', 'r']
  else if c = '\t' then ['\\', 't']
  else if c.val = 0x0C then ['\\', 'f']
  else if c.val = 0x08 then ['\\', 'b']
  else if c.val < 0x10000 then unicodeEscape c.val
  else
    let n := c.val - 0x10000
    unicodeEscape (0xD800 + n / 0x400) ++ unicodeEscape (0xDC00 + n % 0x400)

def writeString (t : Text) : Text := "\"" ++ t.flatMap escape ++ "\""

def writeNumber (x : Binary64) : Text := x.text "Infinity" "NaN"

mutual

def write (spacing : Spacing) : Json → Text
  | .null => "null"
  | .bool true => "true"
  | .bool false => "false"
  | .int n => Text.ofInt n
  | .float x => writeNumber x
  | .str t => writeString t
  | .arr items => "[" ++ writeItems spacing items ++ "]"
  | .obj members => "\x7b" ++ writeMembers spacing members ++ "\x7d"

def writeItems (spacing : Spacing) : List Json → Text
  | [] => []
  | [v] => write spacing v
  | v :: rest => write spacing v ++ spacing.comma ++ writeItems spacing rest

def writeMembers (spacing : Spacing) : List (Text × Json) → Text
  | [] => []
  | [(k, v)] => writeString k ++ spacing.colon ++ write spacing v
  | (k, v) :: rest =>
    writeString k ++ spacing.colon ++ write spacing v ++ spacing.comma ++
      writeMembers spacing rest

end

end Json

end ScriptDepot
