import ScriptDepot.Failure
import ScriptDepot.Json.Reader
import ScriptDepot.Json.Writer
/-!
# Messages, payloads and responses

A client sends a JSON object whose `what` names a command and whose `data` is its argument.  What
comes back is a JSON object with `what` and `content`.
-/

namespace ScriptDepot

namespace Json

def member? (key : Text) : Json → Option Json
  | .obj members => Assoc.get? key members
  | _ => none

end Json

inductive Frame where
  | text (text : Text)
  | bytes (bytes : Bytes)

namespace Frame

def read (policy : Json.Constants) : Frame → Except Json.ReadFault Json
  | .text t => Json.readText policy t
  | .bytes b => Json.readBytes policy b

end Frame

structure Message where
  what : Text
  data : Json

namespace Message

def make (what data : Json) : Except Failure Message :=
  match what with
  | .str (c :: rest) => .ok ⟨c :: rest, data⟩
  | _ => .error (Refusal.message .badWhat)

def ofJson : Json → Except Failure Message
  | .obj members =>
    match Assoc.get? ("what" : Text) members with
    | none => .error (Refusal.message .missingWhat)
    | some what => make what ((Assoc.get? ("data" : Text) members).getD .null)
  | v => .error (Refusal.message (.notObject v.typeName))

def ofFrame (frame : Frame) : Except Failure Message :=
  match frame.read .refuse with
  | .ok v => ofJson v
  | .error (.malformed fault) => .error (Refusal.message (.unreadable fault))
  | .error .tooDeep => .error Breakdown.tooDeep

end Message

structure SignedMessage where
  user : Text
  password : Text
  what : Text

/-- A description that keeps the password to itself. -/
def SignedMessage.label (m : SignedMessage) : Text :=
  "Message(uid=" ++ m.user.quoted ++ ", what=" ++ m.what.quoted ++ ")"

inductive Command where
  | getScript
  | saveScript
  | listScripts
deriving DecidableEq

namespace Command

def name : Command → Text
  | .getScript => "getscript"
  | .saveScript => "savescript"
  | .listScripts => "getscriptlist"

def all : List Command := [.getScript, .saveScript, .listScripts]

def ofName (what : Text) : Except Failure Command :=
  match all.find? (·.name = what) with
  | some c => .ok c
  | none => .error (Refusal.unknownCommand what)

end Command

structure NewScript where
  name : Text
  script : Text
deriving DecidableEq

namespace NewScript

def field (members : List (Text × Json)) (key : Text) : Except Failure Text :=
  match Assoc.get? key members with
  | none => .error (Refusal.payload (.missing key))
  | some (.str t) => .ok t
  | some _ => .error (Refusal.payload (.notString key))

def ofJson : Json → Except Failure NewScript
  | .obj members => do
    let name ← field members "name"
    let script ← field members "script"
    if name = [] then .error (Refusal.payload .emptyName) else .ok ⟨name, script⟩
  | v => .error (Refusal.payload (.notObject v.typeName))

end NewScript

/-- The name that a value looks up: a string itself, any other value by its compact text. -/
def scriptName : Json → Text
  | .str t => t
  | v => v.write Json.compact

inductive Payload where
  | nothing
  | name (name : Text)
  | newScript (script : NewScript)
deriving DecidableEq

def Payload.ofData (command : Command) (data : Json) : Except Failure Payload :=
  if data.isNull then .ok .nothing
  else
    match command with
    | .listScripts => .ok .nothing
    | .getScript => .ok (.name (scriptName data))
    | .saveScript =>
      match NewScript.ofJson data with
      | .ok script => .ok (.newScript script)
      | .error e => .error e

structure Response where
  what : Text
  content : Json

namespace Response

def toJson (r : Response) : Json := .obj [("what", .str r.what), ("content", r.content)]

/-- The text that is sent; JSON has none for a number that is not finite. -/
def encode (r : Response) : Except Failure Text :=
  if r.content.isFinite then .ok (r.toJson.write Json.spaced) else .error Breakdown.notFinite

def label (r : Response) : Text := "ServerResponse<" ++ r.what ++ ">"

end Response

def errorReply (message : Text) : Text :=
  Json.write Json.spaced (Response.toJson ⟨"error", .str message⟩)

end ScriptDepot
