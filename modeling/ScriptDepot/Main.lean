import ScriptDepot.Console.Footprint
/-!
# The program

Fetches the part of the file system that the command line needs, runs it, prints what the run
printed and writes the files that it changed.  The endpoint answers on standard input and output:
every line is a frame of one connection.
-/

namespace ScriptDepot

namespace Main

def shown (t : Text) : String := String.ofList (t.map CodePoint.toChar)

def nameString (name : Bytes) : String := (String.fromUTF8? ⟨name.toArray⟩).getD ""

def nameBytes (name : String) : Bytes := name.toUTF8.toList

def pathString (l : Location) : String := "/" ++ "/".intercalate (l.map nameString)

def entries? (l : Location) : IO (Option (List Bytes)) := do
  try
    let folder ← IO.FS.realPath (pathString l)
    let entries ← folder.readDir
    return some (entries.toList.map fun e => nameBytes e.fileName)
  catch _ => return none

def content? (l : Location) : IO (Option Bytes) := do
  try
    return some (← IO.FS.readBinFile (pathString l)).toList
  catch _ => return none

def fetch (fs : FileSystem) (l : Location) : IO FileSystem := do
  if l = [] then return fs
  else if (← entries? l).isSome then return fs.set l .folder
  else
    match ← content? l with
    | some content => return fs.set l (.file content)
    | none => return fs

/-- Takes over the names in the folder at a location, as empty files where nothing is known yet. -/
def fetchEntries (fs : FileSystem) (l : Location) : IO FileSystem := do
  let missing := ((← entries? l).getD []).filter fun name => fs.node? (l ++ [name]) = none
  return missing.foldl (fun fs name => fs.set (l ++ [name]) (.file [])) fs

def snapshot (here : Location) (folder : Option Path) (frames : List Frame)
    (request : Option CommandLine.Request) : IO FileSystem := do
  let fs ← (FileSystem.stops [] here).foldlM fetch ⟨.empty, here, true⟩
  match folder, request with
  | some folder, some request =>
    let stops := folder.stops here
    let others := (Console.paths folder frames request).flatMap (·.stops here)
    let fs ← (stops ++ others).foldlM fetch fs
    fetchEntries fs (stops.getLast?.getD here)
  | _, _ => return fs

def writeBack (before after : FileSystem) : IO Unit :=
  after.nodes.entries.forM fun (l, node) => do
    if before.nodes.get? l ≠ some node then
      match node with
      | .file content => IO.FS.writeBinFile (pathString l) ⟨content.toArray⟩
      | .folder => IO.FS.createDir (pathString l)

def environment : IO Environment :=
  Config.variableNames.filterMapM fun name => do
    return (← IO.getEnv (shown name)).map fun value => (name, Text.ofString value)

/-- The users of the system and their home folders. -/
def users : IO (List (Bytes × Text)) := do
  try
    let lines := splitOn 0x0A (← IO.FS.readBinFile "/etc/passwd").toList
    return lines.filterMap fun line =>
      match splitOn 0x3A line with
      | [name, _, _, _, _, folder, _] => some (name, Text.ofFileBytes folder)
      | _ => none
  catch _ => return []

def framesOf (input : Bytes) : List Frame :=
  ((splitOn 0x0A input).filter (· ≠ [])).map fun line =>
    match Utf8.decode .strict line with
    | .ok t => .text t
    | .error _ => .bytes line

end Main

end ScriptDepot

open ScriptDepot ScriptDepot.Main in
def main (args : List String) : IO UInt32 := do
  let arguments := args.map Text.ofString
  let env ← environment
  let homes : Homes := ⟨Text.ofString ((← IO.getEnv "HOME").getD ""), ← users⟩
  let request := Console.request? arguments
  let input : Bytes ←
    if request.any Console.readsInput then
      pure (← (← IO.getStdin).readBinToEnd).toList
    else pure []
  let frames := framesOf input
  let here := FileSystem.names (nameBytes (← IO.currentDir).toString)
  let files ← snapshot here (Console.folder? env homes arguments) frames request
  let run := Console.run
    { env := env, homes := homes, stdin := input, files := files, bind := fun _ _ => none
      connections := [⟨.other (.str "stdin"), frames, false⟩], interrupted := false } arguments
  IO.print (shown run.stdout)
  for service in run.service do
    for reply in service.replies.flatten do
      IO.println (shown reply)
  IO.eprint (shown (run.stderrText Failure.text))
  writeBack files run.files
  match run.ending with
  | .exit code => return code.toUInt32
  | .broken breakdown =>
    IO.eprintln (shown (Text.spellSurrogates breakdown.text))
    return 1
