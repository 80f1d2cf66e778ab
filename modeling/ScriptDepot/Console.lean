import ScriptDepot.CommandLine.Invocation
import ScriptDepot.Endpoint
/-!
# Running a command line

A run gets everything from outside at once: the arguments, the environment, standard input, the file
system and, for the endpoint, whether it can be bound and the connections that will come in.  What
it prints, how it ends and the file system it leaves are its result.
-/

namespace ScriptDepot

namespace Text

def endLine (t : Text) : Text := if t.getLast? = some ('\n' : CodePoint) then t else t ++ "\n"

/-- The text with each carriage return, with a line feed after it or without, as a line feed. -/
def normalizeNewlines : Text → Text
  | [] => []
  | [c] => if c = '\r' then ['\n'] else [c]
  | c :: d :: rest =>
    if c = '\r' then
      if d = '\n' then '\n' :: normalizeNewlines rest
      else '\n' :: normalizeNewlines (d :: rest)
    else c :: normalizeNewlines (d :: rest)

end Text

namespace Console

structure Surroundings where
  env : Environment
  homes : Homes
  stdin : Bytes
  files : FileSystem
  /-- What keeps the endpoint from being bound to a host and a port, if anything does. -/
  bind : Given Text → Nat → Option BindFault
  connections : List Connection
  /-- Whether the endpoint is interrupted after the last connection, or just returns. -/
  interrupted : Bool

inductive Notice where
  | record (record : Log.Record)
  | line (text : Text)

namespace Notice

def text (trace : Failure → Text) : Notice → Text
  | .record r =>
    let line : Text := "[" ++ r.level.name ++ "] " ++ r.text
    match r.cause with
    | none => line ++ "\n"
    | some e => line.endLine ++ trace e ++ "\n"
  | .line t => t ++ "\n"

end Notice

inductive Ending where
  | exit (code : Nat)
  | broken (breakdown : Breakdown)
deriving DecidableEq

structure Service where
  host : Given Text
  port : Nat
  replies : List (List Text)

structure Run where
  ending : Ending
  stdout : Text
  stderr : List Notice
  files : FileSystem
  service : Option Service

/-- What a subcommand did so far: what it printed and logged, and the files it left; then either it
is done or it failed. -/
structure Progress where
  outcome : Except Failure Unit
  printed : Text := []
  log : List Log.Record := []
  files : FileSystem
  service : Option Service := none

/-- Prints lines one after another.  Standard output takes no surrogate. -/
def print (lines : List Text) (p : Progress) : Progress :=
  match lines with
  | [] => p
  | line :: rest =>
    match line.encode with
    | .error fault => { p with outcome := .error (Breakdown.unencodable fault) }
    | .ok _ => print rest { p with printed := p.printed ++ line ++ "\n" }

def filesOf (store : Store) (files : FileSystem) : FileSystem :=
  match store.shelf with
  | .folder _ files => files
  | .memory _ => files

def after {α : Type} (work : Act α) (files : FileSystem) (next : α → Progress) : Progress :=
  match work.outcome with
  | .error e => { outcome := .error e, log := work.log, files := files }
  | .ok a =>
    let p := next a
    { p with log := work.log ++ p.log }

def list (store : Store) (files : FileSystem) : Progress :=
  after store.list files fun names =>
    let lines : List Text :=
      if names = [] then ["0 scripts stored."]
      else
        Ascending.sort (Ascending.lexLe CodePoint.val) names ++
          [Text.ofNat names.length ++ "/" ++ Text.ofInt store.cap ++ " scripts stored."]
    print lines { outcome := .ok (), files := files }

def get (store : Store) (files : FileSystem) (name : Text) : Progress :=
  after (Act.ofExcept (store.load name)) files fun text =>
    print [text] { outcome := .ok (), files := files }

/-- The text of a file, or of standard input for a dash.  Standard input is taken to be strict UTF-8
like a file, whatever the locale. -/
def source (s : Surroundings) (file : Given Text) : Except Failure Text :=
  match file with
  | .nothing => .error (Breakdown.withheld .path)
  | .value file =>
    let bytes :=
      if file = [CommandLine.dash] then .ok s.stdin else (Path.parse file).act s.files.readFile
    match bytes with
    | .error b => .error b
    | .ok bytes =>
      match Utf8.decode .strict bytes with
      | .ok text => .ok text.normalizeNewlines
      | .error fault => .error (Breakdown.undecodable fault)

def save (s : Surroundings) (store : Store) (name : Text) (file : Given Text) : Progress :=
  let work : Act Store := do
    let text ← Act.ofExcept (source s file)
    let store ← store.save name text
    Act.note
      { level := .info, origin := .console
        text := "Saved script " ++ name.quoted ++ " from " ++ file.value?.getD [] }
    return store
  after work s.files fun store =>
    print ["Saved → " ++ name] { outcome := .ok (), files := filesOf store s.files }

def dispatch (store : Store) (files : FileSystem) (message : Text) : Progress :=
  after (store.receive (.text message) none) files fun (response, store) =>
    let files := filesOf store files
    match response.encode with
    | .error e => { outcome := .error e, files := files }
    | .ok text => print [text] { outcome := .ok (), files := files }

def shutDown : Log.Record :=
  { level := .info, origin := .endpoint, text := "Shutting down public script endpoint" }

def serve (s : Surroundings) (config : Config) (store : Store) : Progress :=
  match s.bind config.host config.port with
  | some fault => { outcome := .error (Breakdown.unbound fault), files := s.files }
  | none =>
    let served := config.serve store s.connections
    { outcome := .ok ()
      log := served.log ++ if s.interrupted then [shutDown] else []
      files := filesOf served.value.2 s.files
      service := some ⟨config.host, config.port, served.value.1⟩ }

def perform (s : Surroundings) (options : CommandLine.Options) (request : CommandLine.Request) :
    Progress :=
  let opened : Except Failure (Config × Store) := do
    let config ← Config.resolve s.env options.overrides
    return (config, ← config.openStore s.homes s.files)
  match opened with
  | .error e => { outcome := .error e, files := s.files }
  | .ok (config, store) =>
    match request with
    | .serve => serve s config store
    | .list => list store s.files
    | .get name => get store s.files name
    | .save name file => save s store name file
    | .dispatch message => dispatch store s.files message

def failed (request : CommandLine.Request) (r : Refusal) : Log.Record :=
  { level := .debug, origin := .console, text := request.subcommand.name ++ " failed"
    cause := some r }

def conclude (request : CommandLine.Request) :
    Except Failure Unit → Ending × List Notice
  | .ok () => (.exit 0, [])
  | .error (.refusal r) => (.exit 1, [.record (failed request r), .line ("Error: " ++ r.text)])
  | .error (.breakdown b) =>
    match b.reported? with
    | some text => (.exit 1, [.line ("Error: " ++ text)])
    | none => (.broken b, [])

def isShown (debug : Bool) : Notice → Bool
  | .record r => debug || r.level ≠ .debug
  | .line _ => true

def run (s : Surroundings) (arguments : List Text) : Run :=
  match CommandLine.parse arguments with
  | .error e =>
    { ending := .exit e.code
      stdout := e.stdout
      stderr := e.report.toList.map Notice.line
      files := s.files
      service := none }
  | .ok ⟨_, none⟩ =>
    { ending := .exit 0
      stdout := CommandLine.manual.help
      stderr := []
      files := s.files
      service := none }
  | .ok ⟨options, some request⟩ =>
    let p := perform s options request
    let (ending, notices) := conclude request p.outcome
    { ending := ending
      stdout := p.printed
      stderr := (p.log.map Notice.record ++ notices).filter (isShown options.debug)
      files := p.files
      service := p.service }

/-- What a run wrote to standard error, which takes no surrogate either and gets its number. -/
def Run.stderrText (r : Run) (trace : Failure → Text) : Text :=
  Text.spellSurrogates (r.stderr.flatMap (·.text trace))

end Console

end ScriptDepot
