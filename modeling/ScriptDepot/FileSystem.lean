import ScriptDepot.Path
import ScriptDepot.Ledger
import ScriptDepot.Ascending
/-!
# The file system

Files and folders without links.  A location is the list of names that lead from the root folder to
a node; the file system maps locations to nodes.  Each operation takes a path as raw bytes, walks it
from the root or from the working folder, and either fails and leaves everything as it was or has
its whole effect.

There are no permissions: the program may read, write and search everything.  The one thing that can
be denied to it is to enumerate folders.
-/

namespace ScriptDepot

/-- The names from the root folder down; the empty one is the root folder itself. -/
abbrev Location := List Bytes

inductive Node where
  | file (content : Bytes)
  | folder
deriving DecidableEq

structure FileSystem where
  /-- All nodes but the root folder. -/
  nodes : Ledger Location Node
  here : Location
  /-- Whether folders can be enumerated. -/
  listable : Bool := true

namespace FileSystem

def maxName : Nat := 255

def maxPath : Nat := 4095

def node? (fs : FileSystem) (l : Location) : Option Node :=
  if l = [] then some .folder else fs.nodes.get? l

def isFolderAt (fs : FileSystem) (l : Location) : Bool := fs.node? l = some .folder

/-- The names of a path.  Nothing between two slashes, and a single dot, name nothing. -/
def names (path : Bytes) : List Bytes :=
  (splitOn 0x2F path).filter fun name => name ≠ [] ∧ name ≠ [0x2E]

/-- Follows names from a location.  All but the last have to lead to folders; there may be no node
yet where the last one leads. -/
def walk (fs : FileSystem) (l : Location) : List Bytes → Except OsError Location
  | [] => .ok l
  | name :: rest =>
    if !fs.isFolderAt l then .error .notFolder
    else if name = [0x2E, 0x2E] then fs.walk l.dropLast rest
    else if maxName < name.length then .error .nameTooLong
    else if rest = [] then .ok (l ++ [name])
    else if fs.node? (l ++ [name]) = none then .error .noEntry
    else fs.walk (l ++ [name]) rest

def locate (fs : FileSystem) (path : Bytes) : Except OsError Location :=
  if maxPath < path.length then .error .nameTooLong
  else if path = [] then .error .noEntry
  else fs.walk (if path.head? = some 0x2F then [] else fs.here) (names path)

def find (fs : FileSystem) (path : Bytes) : Except OsError Node := do
  match fs.node? (← fs.locate path) with
  | none => .error .noEntry
  | some node => .ok node

def readFile (fs : FileSystem) (path : Bytes) : Except OsError Bytes := do
  match ← fs.find path with
  | .folder => .error .isFolder
  | .file content => .ok content

def isFolder (fs : FileSystem) (path : Bytes) : Except OsError Bool := do
  match ← fs.find path with
  | .folder => .ok true
  | .file _ => .ok false

def set (fs : FileSystem) (l : Location) (node : Node) : FileSystem :=
  { fs with nodes := fs.nodes.put l node }

def writeFile (fs : FileSystem) (path content : Bytes) : Except OsError FileSystem := do
  let l ← fs.locate path
  if fs.isFolderAt l then .error .isFolder else .ok (fs.set l (.file content))

def makeFolder (fs : FileSystem) (path : Bytes) : Except OsError FileSystem := do
  let l ← fs.locate path
  match fs.node? l with
  | some _ => .error .exists
  | none => .ok (fs.set l .folder)

def nameIn (l : Location) (m : Location) : Option Bytes :=
  if m ≠ [] ∧ m.dropLast = l then m.getLast? else none

def entriesAt (fs : FileSystem) (l : Location) : List Bytes :=
  Ascending.sort (Ascending.lexLe UInt8.toNat) (fs.nodes.keys.filterMap (nameIn l))

def enumerate (fs : FileSystem) (path : Bytes) : Except OsError (List Bytes) := do
  let l ← fs.locate path
  match fs.node? l with
  | none => .error .noEntry
  | some (.file _) => .error .notFolder
  | some .folder => .ok (fs.entriesAt l)

def remove (fs : FileSystem) (path : Bytes) : Except OsError FileSystem := do
  let l ← fs.locate path
  match fs.node? l with
  | none => .error .noEntry
  | some _ => .ok { fs with nodes := fs.nodes.filter fun m => !l.isPrefixOf m }

end FileSystem

def Path.act {α : Type} (p : Path) (f : Bytes → Except OsError α) : Except Breakdown α := do
  match f (← p.bytes) with
  | .error e => .error (.os ⟨e, p.text⟩)
  | .ok a => .ok a

/-- The names in the folder of a path.  Where nothing can be enumerated the path is not looked at.
-/
def Path.enumerate (p : Path) (fs : FileSystem) : Except Breakdown (List Bytes) :=
  if fs.listable then p.act fs.enumerate else .error (.os ⟨.denied, p.text⟩)

/-- Whether a path is known to lead to a folder.  What cannot be a path leads nowhere, but a name
that is too long is a fault. -/
def Path.isFolder (p : Path) (fs : FileSystem) : Except Breakdown Bool :=
  match p.act fs.isFolder with
  | .ok b => .ok b
  | .error (.os ⟨.noEntry, _⟩) => .ok false
  | .error (.os ⟨.notFolder, _⟩) => .ok false
  | .error (.os fault) => .error (.os fault)
  | .error _ => .ok false

def Path.makeOne (p : Path) (fs : FileSystem) : Except Breakdown FileSystem :=
  match p.act fs.makeFolder with
  | .ok fs => .ok fs
  | .error (.os fault) =>
    if fault.error = .noEntry then .error (.os fault)
    else do if ← p.isFolder fs then .ok fs else .error (.os fault)
  | .error b => .error b

def Path.makeFolders (p : Path) (fs : FileSystem) : Except Breakdown FileSystem :=
  climb (p.parts.length + 1) p
where
  /-- Makes a folder, at most `levels - 1` missing ones above it first. -/
  climb : (levels : Nat) → Path → Except Breakdown FileSystem
    | 0, p => p.makeOne fs
    | levels + 1, p =>
      match p.makeOne fs with
      | .error (.os ⟨.noEntry, path⟩) =>
        if p.parts = [] then .error (.os ⟨.noEntry, path⟩)
        else do p.makeOne (← climb levels p.parent)
      | r => r

end ScriptDepot
