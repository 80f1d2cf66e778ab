import ScriptDepot.Encoding
/-!
# UTF-8

The writer gives every code point its bytes, surrogates included.  The reader takes one byte at a
time: between two characters it waits for a lead byte, and inside one it knows the range in which
the next continuation byte has to lie.  What it does with bytes that are not UTF-8, and with a
spelled-out surrogate, is the caller's choice.
-/

namespace ScriptDepot

namespace Utf8

/-- What becomes of bytes outside UTF-8. -/
inductive Policy where
  -- a fault, and so is a spelled-out surrogate
  | strict
  -- a fault, but a spelled-out surrogate is read as that surrogate
  | surrogates
  -- each byte `b` becomes the surrogate U+DC00 + `b`, as in file names
  | escape
deriving DecidableEq

def encodePoint (c : CodePoint) : Bytes :=
  let n := c.val
  if n < 0x80 then [n.toUInt8]
  else if n < 0x800 then [(0xC0 + n / 0x40).toUInt8, (0x80 + n % 0x40).toUInt8]
  else if n < 0x10000 then
    [(0xE0 + n / 0x1000).toUInt8, (0x80 + n / 0x40 % 0x40).toUInt8, (0x80 + n % 0x40).toUInt8]
  else
    [(0xF0 + n / 0x40000).toUInt8, (0x80 + n / 0x1000 % 0x40).toUInt8,
      (0x80 + n / 0x40 % 0x40).toUInt8, (0x80 + n % 0x40).toUInt8]

/-- A character of which some bytes are read and `left` are still to come. -/
structure Pending where
  start : Nat
  lead : UInt8
  -- the bytes after the lead, last first
  seen : Bytes
  bits : Nat
  left : Nat
  -- the range of the next byte
  low : Nat
  high : Nat

namespace Pending

def isSurrogate (p : Pending) : Bool :=
  p.lead = 0xED && p.seen.any (0xA0 ≤ ·.toNat)

def fault (p : Pending) : DecodeFault :=
  { encoding := .utf8, first := p.lead, start := p.start
    stop := p.start + if p.isSurrogate then 1 else p.seen.length + 1
    reason := .badContinuation }

def faultAtEnd (p : Pending) (stop : Nat) : DecodeFault :=
  if p.isSurrogate then p.fault else { p.fault with stop := stop, reason := .endOfData }

def escaped (p : Pending) : Text :=
  (p.seen ++ [p.lead]).map fun b => CodePoint.ofNat (0xDC00 + b.toNat)

end Pending

structure State where
  -- last first
  done : Text
  position : Nat
  pending : Option Pending

namespace State

def start : State := ⟨[], 0, none⟩

def await (s : State) (b : UInt8) (bits left low high : Nat) : State :=
  { s with
    position := s.position + 1
    pending := some ⟨s.position, b, [], bits, left, low, high⟩ }

def lead (policy : Policy) (s : State) (b : UInt8) : Except DecodeFault State :=
  let n := b.toNat
  if n < 0x80 then
    .ok { s with done := CodePoint.ofNat n :: s.done, position := s.position + 1 }
  else if 0xC2 ≤ n ∧ n < 0xE0 then .ok (s.await b (n - 0xC0) 1 0x80 0xBF)
  else if n = 0xE0 then .ok (s.await b 0 2 0xA0 0xBF)
  -- behind this lead a surrogate would be spelled out from 0xA0 on
  else if n = 0xED then
    .ok (s.await b 0xD 2 0x80 (if policy = .surrogates then 0xBF else 0x9F))
  else if 0xE0 ≤ n ∧ n < 0xF0 then .ok (s.await b (n - 0xE0) 2 0x80 0xBF)
  else if n = 0xF0 then .ok (s.await b 0 3 0x90 0xBF)
  else if n = 0xF4 then .ok (s.await b 4 3 0x80 0x8F)
  else if 0xF0 ≤ n ∧ n < 0xF4 then .ok (s.await b (n - 0xF0) 3 0x80 0xBF)
  else if policy = .escape then
    .ok { s with done := CodePoint.ofNat (0xDC00 + n) :: s.done, position := s.position + 1 }
  else .error ⟨.utf8, b, s.position, s.position + 1, .badStart⟩

def step (policy : Policy) (s : State) (b : UInt8) : Except DecodeFault State :=
  match s.pending with
  | none => s.lead policy b
  | some p =>
    if p.low ≤ b.toNat ∧ b.toNat ≤ p.high then
      let bits := p.bits * 0x40 + (b.toNat - 0x80)
      if p.left ≤ 1 then
        .ok ⟨CodePoint.ofNat bits :: s.done, s.position + 1, none⟩
      else
        .ok { s with
          position := s.position + 1
          pending := some { p with
            seen := b :: p.seen, bits := bits, left := p.left - 1, low := 0x80, high := 0xBF } }
    else if policy = .escape then
      lead policy { s with done := p.escaped ++ s.done, pending := none } b
    else .error p.fault

def finish (policy : Policy) (s : State) : Except DecodeFault Text :=
  match s.pending with
  | none => .ok s.done.reverse
  | some p =>
    if policy = .escape then .ok (p.escaped ++ s.done).reverse
    else .error (p.faultAtEnd s.position)

end State

def decode (policy : Policy) (bytes : Bytes) : Except DecodeFault Text :=
  bytes.foldlM (State.step policy) State.start >>= State.finish policy

end Utf8

namespace Text

def utf8 (t : Text) : Bytes := t.flatMap Utf8.encodePoint

def firstSurrogates (t : Text) : Option (Nat × Text) :=
  let before := t.takeWhile (!·.isSurrogate)
  match t.drop before.length with
  | [] => none
  | rest => some (before.length, rest.takeWhile (·.isSurrogate))

def encode (t : Text) : Except EncodeFault Bytes :=
  match t.firstSurrogates with
  | some (start, first :: rest) => .error ⟨first, start, start + rest.length + 1⟩
  | _ => .ok t.utf8

end Text

namespace CodePoint

def isEscapedByte (c : CodePoint) : Bool := 0xDC80 ≤ c.val && c.val ≤ 0xDCFF

def fileBytes (c : CodePoint) : Bytes :=
  if c.isEscapedByte then [(c.val - 0xDC00).toUInt8] else Utf8.encodePoint c

end CodePoint

namespace Text

/-- Where the first surrogate that stands for no byte is, with the surrogates that follow it. -/
def fileFault : Nat → Text → Option EncodeFault
  | _, [] => none
  | i, c :: rest =>
    if c.isSurrogate && !c.isEscapedByte then
      some ⟨c, i, i + 1 + (rest.takeWhile (·.isSurrogate)).length⟩
    else fileFault (i + 1) rest

def fileBytes (t : Text) : Except EncodeFault Bytes :=
  match fileFault 0 t with
  | some f => .error f
  | none => .ok (t.flatMap CodePoint.fileBytes)

/-- The text of a file name's bytes; every byte string has one. -/
def ofFileBytes (b : Bytes) : Text :=
  match Utf8.decode .escape b with
  | .ok t => t
  | .error _ => []

end Text

end ScriptDepot
