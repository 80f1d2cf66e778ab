import ScriptDepot.Failure
import ScriptDepot.Ledger
import ScriptDepot.Encoding.Utf8
/-!
# Paths

A path is cleaned up when it is read: repeated slashes, single dots and a slash at the end vanish.
Two dots stay, since only the system can tell where they lead.  Exactly two slashes in front stay
two.  A tilde in front stands for a home folder, which the system has to know.
-/

namespace ScriptDepot

def splitOn {α : Type} [DecidableEq α] (separator : α) : List α → List (List α)
  | [] => [[]]
  | a :: rest =>
    if a = separator then [] :: splitOn separator rest
    else
      match splitOn separator rest with
      | [] => [[a]]
      | first :: others => (a :: first) :: others

/-- The bytes by which the system knows a text: a path, or the name of a user. -/
def Text.systemBytes (t : Text) : Except Breakdown Bytes :=
  match t.fileBytes with
  | .error fault => .error (.unencodable fault)
  | .ok bytes => if bytes.contains 0 then .error .nulInPath else .ok bytes

/-- The home folders that the system knows: that of whoever runs the program, and those of its users
by name. -/
structure Homes where
  own : Text
  users : List (Bytes × Text)

def Homes.find (homes : Homes) (user : Text) : Except Breakdown Text :=
  if user = [] then .ok homes.own
  else do
    match Assoc.get? (← user.systemBytes) homes.users with
    | some folder => .ok folder
    | none => .error .noHome

inductive Anchor where
  | relative
  | root
  | doubleRoot
deriving DecidableEq

namespace Anchor

def text : Anchor → Text
  | .relative => []
  | .root => "/"
  | .doubleRoot => "//"

end Anchor

structure Path where
  anchor : Anchor
  parts : List Text
deriving DecidableEq

namespace Path

def components (t : Text) : List Text :=
  (splitOn ('/' : CodePoint) t).filter fun part => part ≠ [] ∧ part ≠ ("." : Text)

def parse (t : Text) : Path :=
  let slashes := (t.takeWhile (· = ('/' : CodePoint))).length
  let anchor :=
    if slashes = 0 then Anchor.relative else if slashes = 2 then .doubleRoot else .root
  ⟨anchor, components t⟩

/-- The path of `key` as seen from `folder`; an absolute key stands for itself. -/
def append (folder : Path) (key : Text) : Path :=
  let p := parse key
  if p.anchor = .relative then ⟨folder.anchor, folder.parts ++ p.parts⟩ else p

def child (folder : Path) (name : Text) : Path := ⟨folder.anchor, folder.parts ++ [name]⟩

def parent (p : Path) : Path := ⟨p.anchor, p.parts.dropLast⟩

def text (p : Path) : Text :=
  match p.anchor, p.parts with
  | .relative, [] => "."
  | anchor, parts => anchor.text ++ Text.join "/" parts

/-- A file name up to its last dot, unless that is its first or last code point. -/
def stem (name : Text) : Text :=
  let after := name.reverse.takeWhile (· ≠ ('.' : CodePoint))
  let before := name.take (name.length - after.length - 1)
  if after = [] ∨ before = [] then name else before

def bytes (p : Path) : Except Breakdown Bytes := p.text.systemBytes

/-- The home folder that the first component `~…` of a path stands for.  Slashes at its end are
dropped. -/
def homeOf (homes : Homes) (first : Text) : Except Breakdown Text := do
  let folder ← homes.find (first.drop 1)
  let folder := (folder.reverse.dropWhile (· = ('/' : CodePoint))).reverse
  let folder : Text := if folder = [] then "/" else folder
  if folder.head? = some ('~' : CodePoint) then .error .noHome else .ok folder

def expandHome (homes : Homes) (p : Path) : Except Breakdown Path :=
  match p.anchor, p.parts with
  | .relative, first :: rest =>
    if first.head? = some ('~' : CodePoint) then do
      let folder := parse (← homeOf homes first)
      return ⟨folder.anchor, folder.parts ++ rest⟩
    else .ok p
  | _, _ => .ok p

end Path

end ScriptDepot
