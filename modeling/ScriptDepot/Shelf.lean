import ScriptDepot.FileSystem
import ScriptDepot.Log
/-!
# Shelves

A shelf keeps byte strings under names: in memory, in the order in which the names were first put,
or as the files of one folder, where a name is a path from that folder.
-/

namespace ScriptDepot

inductive Shelf where
  | memory (scripts : Ledger Text Bytes)
  | folder (root : Path) (files : FileSystem)

namespace Shelf

/-- The shelf on the files of a folder, which `~` may start from a home folder.  With `create` the
folder is made when it is missing. -/
def onFolder (homes : Homes) (root : Text) (create : Bool) (files : FileSystem) :
    Except Breakdown Shelf := do
  let root ← (Path.parse root).expandHome homes
  if create then return .folder root (← root.makeFolders files) else return .folder root files

def get (shelf : Shelf) (name : Text) : Except Failure Bytes :=
  match shelf with
  | .memory scripts =>
    match scripts.get? name with
    | some bytes => .ok bytes
    | none => .error (Refusal.notFound name)
  | .folder root files =>
    let path := root.append name
    match path.act files.readFile with
    | .ok bytes => .ok bytes
    | .error (.os fault) =>
      if fault.error = .noEntry then .error (Refusal.notFound name)
      else .error (Refusal.storage (.cannotRead path.text fault))
    | .error b => .error b

def put (shelf : Shelf) (name : Text) (bytes : Bytes) : Except Failure Shelf :=
  match shelf with
  | .memory scripts => .ok (.memory (scripts.put name bytes))
  | .folder root files =>
    let path := root.append name
    match path.act (files.writeFile · bytes) with
    | .ok files => .ok (.folder root files)
    | .error (.os fault) => .error (Refusal.storage (.cannotWrite path.text fault))
    | .error b => .error b

def putLog (shelf : Shelf) (name : Text) (bytes : Bytes) : List Log.Record :=
  match shelf with
  | .memory _ => []
  | .folder root _ =>
    [{ level := .debug, origin := .shelf
       text := "Wrote " ++ Text.ofNat bytes.length ++ " bytes to " ++ (root.append name).text }]

def putLogged (shelf : Shelf) (name : Text) (bytes : Bytes) : Act Shelf :=
  match shelf.put name bytes with
  | .ok after => ⟨.ok after, shelf.putLog name bytes⟩
  | .error e => ⟨.error e, []⟩

def entries (root : Path) (files : FileSystem) : Except Failure (List Bytes) :=
  match root.enumerate files with
  | .ok names => .ok names
  | .error (.os fault) => .error (Refusal.storage (.cannotEnumerate root.text fault))
  | .error b => .error b

def count (shelf : Shelf) : Except Failure Nat :=
  match shelf with
  | .memory scripts => .ok scripts.size
  | .folder root files =>
    match entries root files with
    | .ok names => .ok names.length
    | .error e => .error e

/-- What an entry of a folder is listed as: its stem, unless that is not text. -/
def listedName (entry : Bytes) : Option Text :=
  let stem := Path.stem (Text.ofFileBytes entry)
  if stem.isScalar then some stem else none

def skipped (root : Path) (entry : Bytes) : Log.Record :=
  { level := .warning, origin := .shelf
    text := "Skipping undecodable script entry: PosixPath(" ++
      (root.child (Text.ofFileBytes entry)).text.quoted ++ ")" }

def keys (shelf : Shelf) : Act (List Text) :=
  match shelf with
  | .memory scripts => pure scripts.keys
  | .folder root files =>
    match root.isFolder files with
    | .error b => .fail b
    | .ok false => .fail (Refusal.notFolder root.text)
    | .ok true =>
      match entries root files with
      | .error e => .fail e
      | .ok names =>
        { outcome := .ok (names.filterMap listedName)
          log := (names.filter (listedName · = none)).map (skipped root) }

def isAvailable (shelf : Shelf) : Except Failure Bool :=
  match shelf with
  | .memory _ => .ok true
  | .folder root files =>
    match root.isFolder files with
    | .ok b => .ok b
    | .error b => .error b

def root? : Shelf → Option Text
  | .memory _ => none
  | .folder root _ => some root.text

def label : Shelf → Text
  | .memory scripts => "MemoryBackend(" ++ Text.ofNat scripts.size ++ " items)"
  | .folder root _ => "DirectoryBackend(" ++ root.text.quoted ++ ")"

end Shelf

end ScriptDepot
