import ScriptDepot.Console
/-!
# What a run needs to see

The places of the file system that a run may look at, and whether it reads standard input.  They
follow from the arguments, the environment and the frames, so all of them can be fetched before the
run starts.
-/

namespace ScriptDepot

namespace Frame

def names (frame : Frame) : List Text :=
  let payload : Except Failure Payload := do
    let message ← Message.ofFrame frame
    Payload.ofData (← Command.ofName message.what) message.data
  match payload with
  | .ok (.name name) => [name]
  | .ok (.newScript script) => [script.name]
  | _ => []

end Frame

namespace FileSystem

/-- The locations that names pass from a location on, the last one being where they lead. -/
def stops (l : Location) : List Bytes → List Location
  | [] => []
  | name :: rest =>
    let next := if name = [0x2E, 0x2E] then l.dropLast else l ++ [name]
    next :: stops next rest

end FileSystem

namespace Path

def stops (here : Location) (p : Path) : List Location :=
  match p.bytes with
  | .error _ => []
  | .ok bytes =>
    FileSystem.stops (if p.anchor = .relative then here else []) (FileSystem.names bytes)

end Path

namespace Console

def readsInput : CommandLine.Request → Bool
  | .serve => true
  | .save _ file => file = .value [CommandLine.dash]
  | _ => false

def request? (arguments : List Text) : Option CommandLine.Request :=
  match CommandLine.parse arguments with
  | .ok ⟨_, request⟩ => request
  | .error _ => none

def folder? (env : Environment) (homes : Homes) (arguments : List Text) : Option Path := do
  let invocation ← (CommandLine.parse arguments).toOption
  let config ← (Config.resolve env invocation.options.overrides).toOption
  let folder ← config.scriptsDir.value?
  ((Path.parse folder).expandHome homes).toOption

def paths (folder : Path) (frames : List Frame) : CommandLine.Request → List Path
  | .list => []
  | .get name => [folder.append name]
  | .save name file => folder.append name :: (file.value?.map Path.parse).toList
  | .dispatch message => (Frame.names (.text message)).map folder.append
  | .serve => (frames.flatMap Frame.names).map folder.append

end Console

end ScriptDepot
