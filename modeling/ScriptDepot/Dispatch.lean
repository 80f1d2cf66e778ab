import ScriptDepot.Store
import ScriptDepot.Message
import ScriptDepot.Json.Display
/-!
# Answering a message
-/

namespace ScriptDepot

def peerName (peer : Option Text) : Text :=
  match peer with
  | some (c :: rest) => c :: rest
  | _ => "-"

namespace Store

def received (command : Command) (peer : Option Text) (data : Json) : Log.Record :=
  { level := .info, origin := .dispatcher
    text := "public " ++ command.name ++ " from " ++ peerName peer ++ ": " ++ data.display }

/-- The script under a name, which has to be JSON. -/
def fetch (store : Store) (name : Text) : Except Failure Json :=
  match store.load name with
  | .error e => .error e
  | .ok text =>
    match Json.readText .refuse text with
    | .ok v => .ok v
    | .error (.malformed fault) => .error (Refusal.script name fault)
    | .error .tooDeep => .error Breakdown.tooDeep

def perform (store : Store) (command : Command) (payload : Payload) : Act (Response × Store) :=
  match command, payload with
  | .listScripts, _ => do
    let names ← store.list
    return (⟨"scriptlist", .arr (names.map .str)⟩, store)
  | .getScript, .name name => do
    let script ← Act.ofExcept (store.fetch name)
    return (⟨"script", script⟩, store)
  | .saveScript, .newScript new => do
    let store ← store.save new.name new.script
    return (⟨"script written!", .null⟩, store)
  | _, _ => return (⟨"no script specified!", .null⟩, store)

def dispatch (store : Store) (message : Message) (peer : Option Text) :
    Act (Response × Store) := do
  let command ← Act.ofExcept (Command.ofName message.what)
  if !message.data.isNull then Act.note (received command peer message.data)
  let payload ← Act.ofExcept (Payload.ofData command message.data)
  store.perform command payload

end Store

end ScriptDepot
