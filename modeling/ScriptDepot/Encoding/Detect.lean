import ScriptDepot.Encoding.Utf8
import ScriptDepot.Encoding.Wide
/-!
# The encoding of a byte frame

A byte-order mark decides; without one, the places of the zero bytes among the first four do, since
a JSON text starts with ASCII.
-/

namespace ScriptDepot

namespace Encoding

structure Detected where
  encoding : Encoding
  mark : Nat
deriving DecidableEq

def ofZeros : Bytes → Encoding
  | [a, b] => if a = 0 then .utf16be else if b = 0 then .utf16le else .utf8
  | a :: b :: c :: d :: _ =>
    if a = 0 then (if b ≠ 0 then .utf16be else .utf32be)
    else if b = 0 then (if c ≠ 0 ∨ d ≠ 0 then .utf16le else .utf32le)
    else .utf8
  | _ => .utf8

def detect (bytes : Bytes) : Detected :=
  if [0x00, 0x00, 0xFE, 0xFF].isPrefixOf bytes then ⟨.utf32be, 4⟩
  else if [0xFF, 0xFE, 0x00, 0x00].isPrefixOf bytes then ⟨.utf32le, 4⟩
  else if [0xFE, 0xFF].isPrefixOf bytes then ⟨.utf16be, 2⟩
  else if [0xFF, 0xFE].isPrefixOf bytes then ⟨.utf16le, 2⟩
  else if [0xEF, 0xBB, 0xBF].isPrefixOf bytes then ⟨.utf8, 3⟩
  else ⟨ofZeros bytes, 0⟩

def decode (encoding : Encoding) (position : Nat) (bytes : Bytes) : Except DecodeFault Text :=
  match encoding with
  | .utf8 => Utf8.decode .surrogates bytes
  | .utf16le => Utf16.decode .little position bytes
  | .utf16be => Utf16.decode .big position bytes
  | .utf32le => Utf32.decode .little position bytes
  | .utf32be => Utf32.decode .big position bytes

end Encoding

/-- The text of a byte frame.  Surrogates pass; positions in UTF-16 and UTF-32 count the mark. -/
def Text.ofFrameBytes (bytes : Bytes) : Except DecodeFault Text :=
  let found := Encoding.detect bytes
  found.encoding.decode found.mark (bytes.drop found.mark)

end ScriptDepot
