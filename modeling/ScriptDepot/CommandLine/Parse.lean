import ScriptDepot.CommandLine.Grammar
/-!
# Reading a command line

Options take effect in the order in which they stand, and the first that fails or ends the program
decides.  Words fill the open places for arguments from left to right; what is left over is handed
back.
-/

namespace ScriptDepot

namespace CommandLine

inductive Halt where
  | help
  | complaint (complaint : Complaint)

/-- What an option, with its value, does to the state `σ`.  One that takes no value gets nothing. -/
abbrev Effect (κ σ : Type) := Flag κ → Given Text → σ → Except Halt σ

/-- Takes apart what follows a one-letter option in its token: its value or, when it takes none,
further one-letter options, of which only the last may have a value. -/
def cluster {κ : Type} (flags : List (Flag κ)) (f : Flag κ) (value : Text) :
    Except Complaint (List (Flag κ × Given Text)) :=
  if f.takesValue then .ok [(f, given value)]
  else
    match value with
    | [] => .error (.ignoredArgument f.label value)
    | c :: rest =>
      match named? flags [dash, c] with
      | none => .error (.ignoredArgument f.label value)
      | some next =>
        match rest with
        | [] =>
          if next.takesValue then .error (.expectedArgument next.label)
          else .ok [(f, .nothing), (next, .nothing)]
        | d :: tail =>
          match cluster flags next (d :: tail) with
          | .error c => .error c
          | .ok options => .ok ((f, .nothing) :: options)
termination_by structural value

def attached {κ : Type} (flags : List (Flag κ)) (found : Found κ) (value : Text) :
    Except Complaint (List (Flag κ × Given Text)) :=
  if (found.name.drop 1).head? = some dash then
    if found.flag.takesValue then .ok [(found.flag, given value)]
    else .error (.ignoredArgument found.flag.label value)
  else cluster flags found.flag value

def enact {κ σ : Type} (effect : Effect κ σ) :
    List (Flag κ × Given Text) → σ → Except Halt σ
  | [], s => .ok s
  | (f, value) :: rest, s =>
    match effect f value s with
    | .error h => .error h
    | .ok s => enact effect rest s

/-- Lets the option of a token take effect, with the following word as its value if it needs one.
Tells whether that word was taken. -/
def consume {κ σ : Type} (flags : List (Flag κ)) (effect : Effect κ σ) (found : Found κ)
    (next : Option (Token κ)) (s : σ) : Except Halt (σ × Bool) :=
  match found.attached with
  | some value =>
    match attached flags found value with
    | .error c => .error (.complaint c)
    | .ok options =>
      match enact effect options s with
      | .error h => .error h
      | .ok s => .ok (s, false)
  | none =>
    if found.flag.takesValue then
      match next with
      | some ⟨value, .word⟩ =>
        match effect found.flag (.value value) s with
        | .error h => .error h
        | .ok s => .ok (s, true)
      | _ => .error (.complaint (.expectedArgument found.flag.label))
    else
      match effect found.flag .nothing s with
      | .error h => .error h
      | .ok s => .ok (s, false)

inductive Before where
  -- an option, or nothing
  | open
  -- a word that filled a place, or one for which no place was left
  | filled
  | spilled
deriving DecidableEq

structure Filled where
  values : List (Given Text)
  extras : List Text
deriving DecidableEq

-- The words stand after a separator and its first word, where a double dash is a word too.
def fillBack : (places : Nat) → List Text → Filled
  | _, [] => ⟨[], []⟩
  | 0, words => ⟨[], words⟩
  | places + 1, w :: rest =>
    let others := fillBack places rest
    { others with values := given w :: others.values }

/-- Fills places from the separator on.  The separator goes with the word before it, if that filled
a place, or else with the word after it, if that fills one. -/
def fillFromSeparator (places : Nat) (before : Before) (words : List Text) : Filled :=
  match before, places, words with
  | .filled, places, words => fillBack places words
  | .open, places + 1, w :: rest =>
    let others := fillBack places rest
    { others with values := .value w :: others.values }
  | _, _, words => ⟨[], doubleDash :: words⟩

structure Reading (σ : Type) where
  state : σ
  filled : Filled

namespace Reading

def fill {σ : Type} (r : Reading σ) (value : Text) : Reading σ :=
  { r with filled := { r.filled with values := .value value :: r.filled.values } }

def spill {σ : Type} (r : Reading σ) (token : Text) : Reading σ :=
  { r with filled := { r.filled with extras := token :: r.filled.extras } }

end Reading

def readArguments {κ σ : Type} (flags : List (Flag κ)) (effect : Effect κ σ)
    (back : Option (List Text)) :
    (places : Nat) → Before → List (Token κ) → σ → Except Halt (Reading σ)
  | places, before, [], s =>
    match back with
    | none => .ok ⟨s, ⟨[], []⟩⟩
    | some words => .ok ⟨s, fillFromSeparator places before words⟩
  | places, _, ⟨t, .unknown⟩ :: rest, s =>
    (·.spill t) <$> readArguments flags effect back places .open rest s
  | 0, _, ⟨t, .word⟩ :: rest, s =>
    (·.spill t) <$> readArguments flags effect back 0 .spilled rest s
  | places + 1, _, ⟨t, .word⟩ :: rest, s =>
    (·.fill t) <$> readArguments flags effect back places .filled rest s
  | places, _, ⟨_, .option found⟩ :: rest, s =>
    match rest with
    | [] =>
      match consume flags effect found none s with
      | .error h => .error h
      | .ok (s, _) => readArguments flags effect back places .open [] s
    | next :: tail =>
      match consume flags effect found (some next) s with
      | .error h => .error h
      | .ok (s, true) => readArguments flags effect back places .open tail s
      | .ok (s, false) => readArguments flags effect back places .open (next :: tail) s
termination_by structural _ _ tokens => tokens

structure Heading (σ : Type) where
  state : σ
  command : Option (Text × List Text)
  extras : List Text

def backTexts : Option (List Text) → List Text
  | none => []
  | some words => doubleDash :: words

/-- Reads options up to the first word, which is the command.  A separator in front of a word is
itself the command. -/
def readHeading {κ σ : Type} (flags : List (Flag κ)) (effect : Effect κ σ)
    (back : Option (List Text)) : List (Token κ) → σ → Except Halt (Heading σ)
  | [], s =>
    match back with
    | some (w :: rest) => .ok ⟨s, some (doubleDash, w :: rest), []⟩
    | back => .ok ⟨s, none, backTexts back⟩
  | ⟨t, .word⟩ :: rest, s => .ok ⟨s, some (t, rest.map (·.text) ++ backTexts back), []⟩
  | ⟨t, .unknown⟩ :: rest, s =>
    (fun h => { h with extras := t :: h.extras }) <$> readHeading flags effect back rest s
  | ⟨_, .option found⟩ :: rest, s =>
    match rest with
    | [] =>
      match consume flags effect found none s with
      | .error h => .error h
      | .ok (s, _) => readHeading flags effect back [] s
    | next :: tail =>
      match consume flags effect found (some next) s with
      | .error h => .error h
      | .ok (s, true) => readHeading flags effect back tail s
      | .ok (s, false) => readHeading flags effect back (next :: tail) s
termination_by structural tokens => tokens

end CommandLine

end ScriptDepot
