import ScriptDepot.Encoding
/-!
# UTF-16 and UTF-32

Units of two or four bytes in either byte order.  A surrogate that is not half of a pair is read as
it is; what remains as a fault is a unit cut short, and a number past the last code point.
-/

namespace ScriptDepot

inductive ByteOrder where
  | little
  | big
deriving DecidableEq

namespace Utf16

def encoding : ByteOrder → Encoding
  | .little => .utf16le
  | .big => .utf16be

def unit (order : ByteOrder) (a b : UInt8) : Nat :=
  match order with
  | .little => a.toNat + 0x100 * b.toNat
  | .big => 0x100 * a.toNat + b.toNat

def units (order : ByteOrder) (position : Nat) : Bytes → Except DecodeFault Text
  | [] => .ok []
  | [a] => .error ⟨encoding order, a, position, position + 1, .truncated⟩
  | a :: b :: rest => do
    let others ← units order (position + 2) rest
    return CodePoint.ofNat (unit order a b) :: others

/-- Joins each high surrogate with the low one right after it. -/
def joinPairs : Text → Text
  | [] => []
  | [c] => [c]
  | c :: d :: rest =>
    if c.isHigh && d.isLow then CodePoint.join c d :: joinPairs rest
    else c :: joinPairs (d :: rest)

def decode (order : ByteOrder) (position : Nat) (bytes : Bytes) : Except DecodeFault Text :=
  joinPairs <$> units order position bytes

end Utf16

namespace Utf32

def encoding : ByteOrder → Encoding
  | .little => .utf32le
  | .big => .utf32be

def unit (order : ByteOrder) (a b c d : UInt8) : Nat :=
  match order with
  | .little => a.toNat + 0x100 * b.toNat + 0x10000 * c.toNat + 0x1000000 * d.toNat
  | .big => 0x1000000 * a.toNat + 0x10000 * b.toNat + 0x100 * c.toNat + d.toNat

def decode (order : ByteOrder) (position : Nat) : Bytes → Except DecodeFault Text
  | [] => .ok []
  | a :: b :: c :: d :: rest =>
    let n := unit order a b c d
    if n < 0x110000 then do
      let others ← decode order (position + 4) rest
      return CodePoint.ofNat n :: others
    else .error ⟨encoding order, a, position, position + 4, .outOfRange⟩
  | a :: rest => .error ⟨encoding order, a, position, position + 1 + rest.length, .truncated⟩

end Utf32

end ScriptDepot
