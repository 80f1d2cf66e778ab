import ScriptDepot.FileSystem
/-!
# All nodes around the working folder

The nodes below the folder that holds the working folder, each with its path from the working
folder.
-/

namespace ScriptDepot

namespace FileSystem

def shownPath (fs : FileSystem) (l : Location) : Option Bytes :=
  let folder := fs.here.dropLast
  if fs.here.isPrefixOf l then
    if l = fs.here then none else some (joinSlash (l.drop fs.here.length))
  else if folder.isPrefixOf l ∧ l ≠ folder then
    some (joinSlash ([0x2E, 0x2E] :: l.drop folder.length))
  else none
where
  joinSlash : List Bytes → Bytes
    | [] => []
    | [name] => name
    | name :: rest => name ++ [0x2F] ++ joinSlash rest

/-- The paths of all shown nodes with the contents of the files; the path of a folder ends in a
slash.  In ascending order of the bytes of the paths. -/
def listing (fs : FileSystem) : List (Bytes × Option Bytes) :=
  let shown := fs.nodes.entries.filterMap fun (l, node) =>
    (fs.shownPath l).map fun path =>
      match node with
      | .file content => (path, some content)
      | .folder => (path ++ [0x2F], none)
  Ascending.sort (fun a b => Ascending.lexLe UInt8.toNat a.1 b.1) shown

end FileSystem

end ScriptDepot
