import ScriptDepot.Json
import ScriptDepot.Json.Fault
import ScriptDepot.Ledger
import ScriptDepot.Encoding.Detect
/-!
# Reading JSON

Each reader takes a text and gives what it read together with the rest of the text, or stops at
some rest.  A value is read by recursion on the nesting that is still allowed; the loops over the
items of an array and the members of an object are bounded by the length of the whole text, which
they can never use up because each round reads at least one code point.
-/

namespace ScriptDepot

namespace Json

inductive Constants where
  | refuse
  | accept
deriving DecidableEq

def nestingLimit : Nat := 990

namespace Reader

/-- Why a reader stopped; a mistake stands at the start of the given rest. -/
inductive Stop where
  | mistake (mistake : Mistake) (rest : Text)
  | constant (name : Text)
  | longInteger (digits : Nat)
  | tooDeep

abbrev Result (α : Type) := Except Stop (α × Text)

def Result.map {α β : Type} (f : α → β) : Result α → Result β
  | .error stop => .error stop
  | .ok (a, rest) => .ok (f a, rest)

def eat? (c : CodePoint) : Text → Option Text
  | [] => none
  | d :: rest => if d = c then some rest else none

def isSpace (c : CodePoint) : Bool :=
  c = ' ' || c = '\t' || c = '\n' || c = '\r'

def skip (s : Text) : Text := s.dropWhile isSpace

def isDigit (c : CodePoint) : Bool := 0x30 ≤ c.val && c.val ≤ 0x39

def natural (digits : Text) : Nat := digits.foldl (fun n c => 10 * n + (c.val - 0x30)) 0

def hexValue? (c : CodePoint) : Option Nat :=
  if isDigit c then some (c.val - 0x30)
  else if 0x61 ≤ c.val ∧ c.val ≤ 0x66 then some (c.val - 0x57)
  else if 0x41 ≤ c.val ∧ c.val ≤ 0x46 then some (c.val - 0x37)
  else none

def hex4? (a b c d : CodePoint) : Option CodePoint := do
  let a ← hexValue? a
  let b ← hexValue? b
  let c ← hexValue? c
  let d ← hexValue? d
  return CodePoint.ofNat (0x1000 * a + 0x100 * b + 0x10 * c + d)

def escaped? (c : CodePoint) : Option CodePoint :=
  if c = '"' || c = '\\' || c = '/' then some c
  else if c = 'b' then some (CodePoint.ofNat 0x08)
  else if c = 'f' then some (CodePoint.ofNat 0x0C)
  else if c = 'n' then some '\n'
  else if c = 'r' then some '\r'
  else if c = 't' then some '\t'
  else none

structure Piece where
  point : CodePoint
  numbered : Bool

/-- Reads a string after its opening quote.  `opening` is the text from that quote on, `done` what
is read so far, last first.  Four digits have to be followed by something. -/
def pieces (opening : Text) (done : List Piece) : Text → Result (List Piece)
  | [] => .error (.mistake .unterminated opening)
  | c :: rest =>
    if c = '"' then .ok (done.reverse, rest)
    else if c = '\\' then
      match rest with
      | [] => .error (.mistake .unterminated opening)
      | e :: rest =>
        if e = 'u' then
          match rest with
          | w :: x :: y :: z :: tail =>
            match hex4? w x y z with
            | some d =>
              if tail = [] then .error (.mistake .badUnicodeEscape (e :: rest))
              else pieces opening (⟨d, true⟩ :: done) tail
            | none => .error (.mistake .badUnicodeEscape (e :: rest))
          | _ => .error (.mistake .badUnicodeEscape (e :: rest))
        else
          match escaped? e with
          | some d => pieces opening (⟨d, false⟩ :: done) rest
          | none => .error (.mistake .badEscape (c :: e :: rest))
    else if c.val < 0x20 then .error (.mistake .controlCharacter (c :: rest))
    else pieces opening (⟨c, false⟩ :: done) rest
termination_by structural s => s

/-- The text of a string: two surrogates spelled by their numbers side by side, a high and a low
one, are one code point. -/
def joinPieces : List Piece → Text
  | [] => []
  | [p] => [p.point]
  | p :: q :: rest =>
    if p.numbered && p.point.isHigh && q.numbered && q.point.isLow then
      CodePoint.join p.point q.point :: joinPieces rest
    else p.point :: joinPieces (q :: rest)

def string (quote : CodePoint) (rest : Text) : Result Text :=
  (pieces (quote :: rest) [] rest).map joinPieces

def whole? (s : Text) : Option (Text × Text) :=
  match s with
  | [] => none
  | c :: rest =>
    if c = '0' then some ([c], rest)
    else if isDigit c then some (s.takeWhile isDigit, s.dropWhile isDigit)
    else none

def fraction (s : Text) : Text × Text :=
  match s with
  | [] => ([], s)
  | c :: rest =>
    let digits := rest.takeWhile isDigit
    if c = '.' ∧ digits ≠ [] then (digits, rest.dropWhile isDigit) else ([], s)

def exponentSign (s : Text) : Bool × Text :=
  match s with
  | [] => (false, s)
  | c :: rest => if c = '-' then (true, rest) else if c = '+' then (false, rest) else (false, s)

def exponent (s : Text) : Option Int × Text :=
  match s with
  | [] => (none, s)
  | c :: rest =>
    if c = 'e' ∨ c = 'E' then
      let (negative, rest) := exponentSign rest
      let digits := rest.takeWhile isDigit
      if digits = [] then (none, s)
      else
        let n : Int := natural digits
        (some (if negative then -n else n), rest.dropWhile isDigit)
    else (none, s)

-- `start` is the text from the sign on.
def digits (start : Text) (negative : Bool) (s : Text) : Result Json :=
  match whole? s with
  | none => .error (.mistake .expectedValue start)
  | some (whole, rest) =>
    let (fraction, rest) := fraction rest
    let (exponent, rest) := exponent rest
    if fraction = [] ∧ exponent = none then
      if Text.maxDigits < whole.length then .error (.longInteger whole.length)
      else
        let n : Int := natural whole
        .ok (.int (if negative then -n else n), rest)
    else
      let d : Decimal := ⟨natural (whole ++ fraction), exponent.getD 0 - fraction.length⟩
      .ok (.float (Binary64.ofDecimal negative d), rest)

def number (s : Text) : Result Json :=
  match s with
  | [] => .error (.mistake .expectedValue s)
  | c :: rest => if c = '-' then digits s true rest else digits s false s

def after? (word s : Text) : Option Text :=
  if word.isPrefixOf s then some (s.drop word.length) else none

def words : List (Text × Json) :=
  [("null", .null), ("true", .bool true), ("false", .bool false)]

def constants : List (Text × Binary64) :=
  [("NaN", .nan), ("Infinity", .infinite false), ("-Infinity", .infinite true)]

def word? {α : Type} (s : Text) : List (Text × α) → Option (Text × α × Text)
  | [] => none
  | (word, a) :: others =>
    match after? word s with
    | some rest => some (word, a, rest)
    | none => word? s others

def scalar (policy : Constants) (s : Text) : Result Json :=
  match word? s words with
  | some (_, v, rest) => .ok (v, rest)
  | none =>
    match word? s constants with
    | some (name, x, rest) =>
      match policy with
      | .refuse => .error (.constant name)
      | .accept => .ok (.float x, rest)
    | none => number s

def items (item : Text → Result Json) : (rounds : Nat) → Text → Result (List Json)
  | 0, _ => .error .tooDeep
  | rounds + 1, s =>
    match item s with
    | .error stop => .error stop
    | .ok (v, rest) =>
      match skip rest with
      | [] => .error (.mistake .expectedComma [])
      | c :: rest =>
        if c = ']' then .ok ([v], rest)
        else if c = ',' then
          match items item rounds (skip rest) with
          | .error stop => .error stop
          | .ok (vs, rest) => .ok (v :: vs, rest)
        else .error (.mistake .expectedComma (c :: rest))

def array (item : Text → Result Json) (rounds : Nat) (s : Text) : Result Json :=
  match eat? ']' (skip s) with
  | some rest => .ok (.arr [], rest)
  | none => (items item rounds (skip s)).map .arr

def key (s : Text) : Result Text :=
  match s with
  | [] => .error (.mistake .expectedKey s)
  | c :: rest =>
    if c = '"' then
      match string c rest with
      | .error stop => .error stop
      | .ok (k, rest) =>
        match skip rest with
        | [] => .error (.mistake .expectedColon [])
        | c :: rest =>
          if c = ':' then .ok (k, skip rest) else .error (.mistake .expectedColon (c :: rest))
    else .error (.mistake .expectedKey s)

def members (item : Text → Result Json) : (rounds : Nat) → Text → Result (List (Text × Json))
  | 0, _ => .error .tooDeep
  | rounds + 1, s =>
    match key s with
    | .error stop => .error stop
    | .ok (k, rest) =>
      match item rest with
      | .error stop => .error stop
      | .ok (v, rest) =>
        match skip rest with
        | [] => .error (.mistake .expectedComma [])
        | c :: rest =>
          if c = '}' then .ok ([(k, v)], rest)
          else if c = ',' then
            match members item rounds (skip rest) with
            | .error stop => .error stop
            | .ok (ms, rest) => .ok ((k, v) :: ms, rest)
          else .error (.mistake .expectedComma (c :: rest))

/-- The object with these members: a repeated key keeps its first place and its last value. -/
def collect (members : List (Text × Json)) : Json :=
  .obj (Ledger.ofList members).entries

def object (item : Text → Result Json) (rounds : Nat) (s : Text) : Result Json :=
  match eat? '}' (skip s) with
  | some rest => .ok (.obj [], rest)
  | none => (members item rounds (skip s)).map collect

/-- Reads a value whose items are read by `item`, or which may have no items at all. -/
def valueWith (policy : Constants) (rounds : Nat) (item : Option (Text → Result Json))
    (s : Text) : Result Json :=
  match s with
  | [] => .error (.mistake .expectedValue s)
  | c :: rest =>
    if c = '"' then (string c rest).map .str
    else if c = '{' then
      match item with
      | none => .error .tooDeep
      | some item => object item rounds rest
    else if c = '[' then
      match item with
      | none => .error .tooDeep
      | some item => array item rounds rest
    else scalar policy s

def value (policy : Constants) (rounds : Nat) : (depth : Nat) → Text → Result Json
  | 0 => valueWith policy rounds none
  | depth + 1 => valueWith policy rounds (some (value policy rounds depth))

end Reader

def Reader.Stop.fault (s : Text) : Reader.Stop → ReadFault
  | .mistake m rest => .malformed (.mistake m (.after (s.take (s.length - rest.length))))
  | .constant name => .malformed (.constant name)
  | .longInteger n => .malformed (.longInteger n)
  | .tooDeep => .tooDeep

def readDocument (policy : Constants) (s : Text) : Except ReadFault Json :=
  match Reader.value policy (s.length + 1) nestingLimit (Reader.skip s) with
  | .error stop => .error (stop.fault s)
  | .ok (v, rest) =>
    match Reader.skip rest with
    | [] => .ok v
    | rest => .error (Reader.Stop.fault s (.mistake .extraData rest))

/-- Reads a text; a byte-order mark in front is refused. -/
def readText (policy : Constants) (s : Text) : Except ReadFault Json :=
  match s with
  | [] => readDocument policy s
  | c :: _ =>
    if c.val = 0xFEFF then .error (Reader.Stop.fault s (.mistake .byteOrderMark s))
    else readDocument policy s

def readBytes (policy : Constants) (bytes : Bytes) : Except ReadFault Json :=
  match Text.ofFrameBytes bytes with
  | .error fault => .error (.malformed (.undecodable fault))
  | .ok s => readDocument policy s

end Json

end ScriptDepot
