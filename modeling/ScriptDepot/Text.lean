/-!
# Text as code points

Script names, messages and file names may hold surrogate code points on their own: a JSON escape
can spell one, and a file name that is not UTF-8 is read with one surrogate per stray byte.  Text
is therefore a list of code points rather than a list of characters.
-/

namespace ScriptDepot

/-- A Unicode code point, surrogates included. -/
structure CodePoint where
  val : Nat
  isLt : val < 0x110000
deriving DecidableEq

abbrev Text := List CodePoint

abbrev Bytes := List UInt8

namespace CodePoint

@[ext] theorem ext {c d : CodePoint} (h : c.val = d.val) : c = d := by
  cases c; cases d; simp_all

def ofChar (c : Char) : CodePoint :=
  ⟨c.toNat, by
    have := c.valid
    simp only [Char.toNat, UInt32.isValidChar, Nat.isValidChar] at *
    omega⟩

instance : Coe Char CodePoint := ⟨ofChar⟩

/-- The code point with number `n`; numbers past the last code point give U+FFFD. -/
def ofNat (n : Nat) : CodePoint :=
  if h : n < 0x110000 then ⟨n, h⟩ else ⟨0xFFFD, by decide⟩

@[simp] theorem val_ofNat {n : Nat} (h : n < 0x110000) : (ofNat n).val = n := by
  simp [ofNat, h]

@[simp] theorem ofNat_val (c : CodePoint) : ofNat c.val = c := by
  simp [ofNat, c.isLt]

def isHigh (c : CodePoint) : Bool := 0xD800 ≤ c.val && c.val < 0xDC00

def isLow (c : CodePoint) : Bool := 0xDC00 ≤ c.val && c.val < 0xE000

def isSurrogate (c : CodePoint) : Bool := 0xD800 ≤ c.val && c.val < 0xE000

def join (high low : CodePoint) : CodePoint :=
  ofNat (0x10000 + (high.val - 0xD800) * 0x400 + (low.val - 0xDC00))

def hexDigit (d : Nat) : CodePoint := ofNat (if d < 10 then 0x30 + d else 0x57 + d)

def toChar (c : CodePoint) : Char := Char.ofNat c.val

end CodePoint

namespace Text

def ofString (s : String) : Text := s.toList.map CodePoint.ofChar

instance : Coe String Text := ⟨ofString⟩

def hex : (width n : Nat) → Text
  | 0, _ => []
  | width + 1, n => hex width (n / 16) ++ [CodePoint.hexDigit (n % 16)]

@[simp] theorem length_hex (width n : Nat) : (hex width n).length = width := by
  induction width generalizing n with
  | zero => rfl
  | succ width ih => simp [hex, ih]

def ofNat (n : Nat) : Text := (Nat.toDigits 10 n).map CodePoint.ofChar

def ofInt : Int → Text
  | .ofNat n => ofNat n
  | .negSucc n => '-' :: ofNat (n + 1)

def maxDigits : Nat := 4300

def join (separator : Text) : List Text → Text
  | [] => []
  | [t] => t
  | t :: rest => t ++ separator ++ join separator rest

/-- Whether every code point is a character, so that the text has a UTF-8 form. -/
def isScalar (t : Text) : Bool := t.all (!·.isSurrogate)

def spellSurrogates (t : Text) : Text :=
  t.flatMap fun c => if c.isSurrogate then '\\' :: 'u' :: hex 4 c.val else [c]

end Text

end ScriptDepot
