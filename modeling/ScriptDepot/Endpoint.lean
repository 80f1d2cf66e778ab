import ScriptDepot.Dispatch
import ScriptDepot.Config
/-!
# The endpoint

Every frame gets exactly one reply, whatever it holds: a refusal is answered in its own words, and a
breakdown by a fixed reply.  Connections are played one after another, frame by frame.
-/

namespace ScriptDepot

namespace Store

def receive (store : Store) (frame : Frame) (peer : Option Text) : Act (Response × Store) := do
  store.dispatch (← Act.ofExcept (Message.ofFrame frame)) peer

def failed (peer : Option Text) : Failure → Log.Record
  | .refusal r =>
    { level := .info, origin := .endpoint
      text := "public request from " ++ peerName peer ++ " failed: " ++ r.text }
  | .breakdown b =>
    { level := .error, origin := .endpoint
      text := "Unhandled error while dispatching frame from " ++ peerName peer
      cause := some b }

def failureReply : Failure → Text
  | .refusal r => errorReply r.text
  | .breakdown _ => errorReply "internal server error"

/-- The reply to a frame, and the store after it.  What was done before the response turns out to be
one that cannot be written stays done. -/
def handle (store : Store) (frame : Frame) (peer : Option Text) : Logged (Text × Store) :=
  let done := store.receive frame peer
  match done.outcome with
  | .error e => ⟨(failureReply e, store), done.log ++ [failed peer e]⟩
  | .ok (response, after) =>
    match response.encode with
    | .error e => ⟨(failureReply e, after), done.log ++ [failed peer e]⟩
    | .ok text => ⟨(text, after), done.log⟩

def handleAll (store : Store) (peer : Option Text) : List Frame → Logged (List Text × Store)
  | [] => pure ([], store)
  | frame :: rest => do
    let (reply, store) ← store.handle frame peer
    let (replies, store) ← store.handleAll peer rest
    return (reply :: replies, store)

end Store

inductive Address where
  | parts (parts : List Json)
  | other (value : Json)

namespace Address

def name : Address → Text
  | .parts (host :: port :: _) => host.display ++ ":" ++ port.display
  | .parts [part] => "(" ++ part.literal ++ ",)"
  | .parts [] => "()"
  | .other v => v.display

end Address

/-- A connection as it turns out: what it sends, and whether it breaks off at the end. -/
structure Connection where
  address : Address
  frames : List Frame
  dropped : Bool

namespace Connection

def note (text : Text) : Logged Unit := .note { level := .info, origin := .endpoint, text := text }

def serve (store : Store) (c : Connection) : Logged (List Text × Store) := do
  let peer := c.address.name
  note ("Client connected: " ++ peer)
  let (replies, store) ← store.handleAll (some peer) c.frames
  if c.dropped then note ("Client " ++ peer ++ " dropped: no close frame received or sent")
  note ("Client disconnected: " ++ peer)
  return (replies, store)

def serveAll (store : Store) : List Connection → Logged (List (List Text) × Store)
  | [] => pure ([], store)
  | c :: rest => do
    let (replies, store) ← c.serve store
    let (others, store) ← serveAll store rest
    return (replies :: others, store)

end Connection

namespace Config

def shown : Given Text → Text
  | .value t => t
  | .nothing => "[]"

def listening (c : Config) : Log.Record :=
  { level := .info, origin := .endpoint
    text := "Public script endpoint listening on ws://" ++ shown c.host ++ ":" ++
      Text.ofNat c.port ++ " (scripts: " ++ shown c.scriptsDir ++ ", cap " ++
      Text.ofNat c.maxScripts ++ ")" }

def serve (c : Config) (store : Store) (connections : List Connection) :
    Logged (List (List Text) × Store) := do
  Logged.note c.listening
  Connection.serveAll store connections

end Config

end ScriptDepot
