import ScriptDepot.Encoding
/-!
# Why a text is not JSON
-/

namespace ScriptDepot

namespace Json

inductive Mistake where
  | expectedValue
  | extraData
  | expectedKey
  | expectedColon
  | expectedComma
  | unterminated
  | controlCharacter
  | badEscape
  | badUnicodeEscape
  | byteOrderMark
deriving DecidableEq

namespace Mistake

def text : Mistake → Text
  | .expectedValue => "Expecting value"
  | .extraData => "Extra data"
  | .expectedKey => "Expecting property name enclosed in double quotes"
  | .expectedColon => "Expecting ':' delimiter"
  | .expectedComma => "Expecting ',' delimiter"
  | .unterminated => "Unterminated string starting at"
  | .controlCharacter => "Invalid control character at"
  | .badEscape => "Invalid \\escape"
  | .badUnicodeEscape => "Invalid \\uXXXX escape"
  | .byteOrderMark => "Unexpected UTF-8 BOM (decode using utf-8-sig)"

end Mistake

structure Place where
  index : Nat
  line : Nat
  column : Nat
deriving DecidableEq

namespace Place

/-- The place right after `before`.  Only a line feed ends a line. -/
def after (before : Text) : Place :=
  { index := before.length
    line := before.count ('\n' : CodePoint) + 1
    column := (before.reverse.takeWhile (· ≠ ('\n' : CodePoint))).length + 1 }

def text (p : Place) : Text :=
  "line " ++ Text.ofNat p.line ++ " column " ++ Text.ofNat p.column ++
    " (char " ++ Text.ofNat p.index ++ ")"

end Place

inductive Malformed where
  | mistake (mistake : Mistake) (place : Place)
  | constant (name : Text)
  | longInteger (digits : Nat)
  | undecodable (fault : DecodeFault)
deriving DecidableEq

namespace Malformed

def message : Malformed → Text
  | .mistake m p => m.text ++ ": " ++ p.text
  | .constant name => name ++ " is not valid JSON"
  | .longInteger n =>
    "Exceeds the limit (" ++ Text.ofNat Text.maxDigits ++
      " digits) for integer string conversion: value has " ++ Text.ofNat n ++
      " digits; use sys.set_int_max_str_digits() to increase the limit"
  | .undecodable f => f.message

end Malformed

/-- Why reading failed: the input is not JSON, or its brackets nest too deeply to tell. -/
inductive ReadFault where
  | malformed (fault : Malformed)
  | tooDeep
deriving DecidableEq

end Json

end ScriptDepot
