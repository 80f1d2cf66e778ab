import ScriptDepot.Text
/-!
# Faults of encoding and decoding

A byte string that is not text in its encoding, and a text that has no bytes in an encoding, are
reported by the first range that stands in the way.
-/

namespace ScriptDepot

inductive Encoding where
  | utf8
  | utf16le
  | utf16be
  | utf32le
  | utf32be
deriving DecidableEq

namespace Encoding

def name : Encoding → Text
  | .utf8 => "utf-8"
  | .utf16le => "utf-16-le"
  | .utf16be => "utf-16-be"
  | .utf32le => "utf-32-le"
  | .utf32be => "utf-32-be"

end Encoding

inductive DecodeReason where
  | badStart
  | badContinuation
  | endOfData
  | truncated
  | outOfRange
deriving DecidableEq

namespace DecodeReason

def text : DecodeReason → Text
  | .badStart => "invalid start byte"
  | .badContinuation => "invalid continuation byte"
  | .endOfData => "unexpected end of data"
  | .truncated => "truncated data"
  | .outOfRange => "code point not in range(0x110000)"

end DecodeReason

/-- The bytes from `start` up to `stop`, the first of which is `first`, are not text. -/
structure DecodeFault where
  encoding : Encoding
  first : UInt8
  start : Nat
  stop : Nat
  reason : DecodeReason
deriving DecidableEq

namespace DecodeFault

def message (f : DecodeFault) : Text :=
  "'" ++ f.encoding.name ++ "' codec can't decode byte" ++
    (if f.stop = f.start + 1 then
      " 0x" ++ Text.hex 2 f.first.toNat ++ " in position " ++ Text.ofNat f.start
    else
      "s in position " ++ Text.ofNat f.start ++ "-" ++ Text.ofNat (f.stop - 1)) ++
    ": " ++ f.reason.text

end DecodeFault

/-- The code points from `start` up to `stop`, the first of which is `first`, are surrogates, which
UTF-8 cannot hold. -/
structure EncodeFault where
  first : CodePoint
  start : Nat
  stop : Nat
deriving DecidableEq

namespace EncodeFault

def message (f : EncodeFault) : Text :=
  "'utf-8' codec can't encode character" ++
    (if f.stop = f.start + 1 then
      " '\\u" ++ Text.hex 4 f.first.val ++ "' in position " ++ Text.ofNat f.start
    else
      "s in position " ++ Text.ofNat f.start ++ "-" ++ Text.ofNat (f.stop - 1)) ++
    ": surrogates not allowed"

end EncodeFault

end ScriptDepot
