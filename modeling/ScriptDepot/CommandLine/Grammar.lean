import ScriptDepot.Text.Quoted
import ScriptDepot.Text.Integer
import ScriptDepot.Given
/-!
# Options on a command line

A token that starts with a dash is an option when the grammar knows it: by its name, by its name
followed by an equals sign and a value, or by a beginning that only one long name has.  Other tokens
are words.  After a lone double dash there are only words.
-/

namespace ScriptDepot

namespace CommandLine

structure Flag (κ : Type) where
  key : κ
  names : List Text
  takesValue : Bool

namespace Flag

def label {κ : Type} (f : Flag κ) : Text := Text.join "/" f.names

end Flag

structure Found (κ : Type) where
  flag : Flag κ
  name : Text
  -- a value in the same token: after an equals sign, or right after a one-letter name
  attached : Option Text

inductive Kind (κ : Type) where
  | word
  | option (found : Found κ)
  -- written like an option, but none that the grammar knows
  | unknown

structure Token (κ : Type) where
  text : Text
  kind : Kind κ

structure Line (κ : Type) where
  front : List (Token κ)
  back : Option (List Text)

inductive Complaint where
  | ambiguous (token : Text) (names : List Text)
  | expectedArgument (option : Text)
  | ignoredArgument (option value : Text)
  | invalidInteger (option value : Text)
  | invalidChoice (argument value : Text) (choices : List Text)
  | required (names : List Text)
  | unrecognized (tokens : List Text)
deriving DecidableEq

namespace Complaint

def text : Complaint → Text
  | .ambiguous token names =>
    "ambiguous option: " ++ token ++ " could match " ++ Text.join ", " names
  | .expectedArgument option => "argument " ++ option ++ ": expected one argument"
  | .ignoredArgument option value =>
    "argument " ++ option ++ ": ignored explicit argument " ++ value.quoted
  | .invalidInteger option value =>
    "argument " ++ option ++ ": invalid int value: " ++ value.quoted
  | .invalidChoice argument value choices =>
    "argument " ++ argument ++ ": invalid choice: " ++ value.quoted ++ " (choose from " ++
      Text.join ", " (choices.map (·.quoted)) ++ ")"
  | .required names => "the following arguments are required: " ++ Text.join ", " names
  | .unrecognized tokens => "unrecognized arguments: " ++ Text.join " " tokens

end Complaint

def dash : CodePoint := '-'

def allNames {κ : Type} (flags : List (Flag κ)) : List (Flag κ × Text) :=
  flags.flatMap fun f => f.names.map fun name => (f, name)

def named? {κ : Type} (flags : List (Flag κ)) (name : Text) : Option (Flag κ) :=
  ((allNames flags).find? (·.2 = name)).map Prod.fst

def splitEquals (t : Text) : Text × Option Text :=
  match t.dropWhile (· ≠ ('=' : CodePoint)) with
  | [] => (t, none)
  | _ :: value => (t.takeWhile (· ≠ ('=' : CodePoint)), some value)

/-- The options that a token may abbreviate.  A token with two dashes is cut at its equals sign; in
one with a single dash a value may follow the letter. -/
def candidates {κ : Type} (flags : List (Flag κ)) (t : Text) : List (Found κ) :=
  match t with
  | _ :: second :: rest =>
    if second = dash then
      let (start, attached) := splitEquals t
      (allNames flags).filterMap fun (f, name) =>
        if start.isPrefixOf name then some ⟨f, name, attached⟩ else none
    else
      (allNames flags).filterMap fun (f, name) =>
        if name = t.take 2 then some ⟨f, name, some rest⟩
        else if t.isPrefixOf name then some ⟨f, name, none⟩
        else none
  | _ => []

/-- Whether a token is a dash and a decimal number, perhaps with a line feed at the end. -/
def isNegativeNumber (t : Text) : Bool :=
  match t with
  | [] => false
  | c :: rest =>
    let isDigit := fun (d : CodePoint) => d.digit?.isSome
    let rest := if rest.getLast? = some ('\n' : CodePoint) then rest.dropLast else rest
    let fraction := rest.dropWhile isDigit
    c = dash &&
      match fraction with
      | [] => rest ≠ []
      | point :: digits => point = '.' && digits ≠ [] && digits.all isDigit

def classify {κ : Type} (flags : List (Flag κ)) (t : Text) : Except Complaint (Kind κ) :=
  if t.head? ≠ some dash then .ok .word
  else
    match named? flags t with
    | some f => .ok (.option ⟨f, t, none⟩)
    | none =>
      if t.length = 1 then .ok .word
      else
        let (start, attached) := splitEquals t
        match attached, named? flags start with
        | some value, some f => .ok (.option ⟨f, start, some value⟩)
        | _, _ =>
          match candidates flags t with
          | [found] => .ok (.option found)
          | [] =>
            if isNegativeNumber t || t.contains (' ' : CodePoint) then .ok .word else .ok .unknown
          | several => .error (.ambiguous t (several.map (·.name)))

def doubleDash : Text := "--"

/-- What a text gives in the place of a value: itself, but a double dash gives nothing. -/
def given (t : Text) : Given Text := if t = doubleDash then .nothing else .value t

def scan {κ : Type} (flags : List (Flag κ)) : List Text → Except Complaint (Line κ)
  | [] => .ok ⟨[], none⟩
  | t :: rest =>
    if t = doubleDash then .ok ⟨[], some rest⟩
    else
      match classify flags t with
      | .error c => .error c
      | .ok kind =>
        match scan flags rest with
        | .error c => .error c
        | .ok line => .ok { line with front := ⟨t, kind⟩ :: line.front }

end CommandLine

end ScriptDepot
