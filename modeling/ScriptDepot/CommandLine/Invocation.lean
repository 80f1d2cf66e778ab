import ScriptDepot.CommandLine.Parse
import ScriptDepot.Config
/-!
# The command line of the program
-/

namespace ScriptDepot

namespace CommandLine

inductive Key where
  | help
  | dir
  | max
  | debug
  | host
  | port
  | serializeSaves
deriving DecidableEq

structure Options where
  overrides : Overrides := {}
  debug : Bool := false
deriving DecidableEq

def integerValue (f : Flag Key) (value : Given Text) : Except Halt (Given Int) :=
  match value with
  | .nothing => .ok .nothing
  | .value t =>
    match t.integer? with
    | some n => .ok (.value n)
    | none => .error (.complaint (.invalidInteger f.label t))

/-- What the options do.  A later one takes the place of an earlier one. -/
def effect : Effect Key Options := fun f value o =>
  match f.key with
  | .help => .error .help
  | .dir => .ok { o with overrides := { o.overrides with scriptsDir := some value } }
  | .max =>
    match integerValue f value with
    | .error h => .error h
    | .ok n => .ok { o with overrides := { o.overrides with maxScripts := some n } }
  | .debug => .ok { o with debug := true }
  | .host => .ok { o with overrides := { o.overrides with host := some value } }
  | .port =>
    match integerValue f value with
    | .error h => .error h
    | .ok n => .ok { o with overrides := { o.overrides with port := some n } }
  | .serializeSaves => .ok { o with overrides := { o.overrides with serializeSaves := some true } }

inductive Subcommand where
  | serve
  | list
  | get
  | save
  | dispatch
deriving DecidableEq

structure Manual where
  program : Text
  usage : Text
  details : Text

namespace Manual

def help (m : Manual) : Text := m.usage ++ "\n" ++ m.details

end Manual

def helpFlag : Flag Key := ⟨.help, ["-h", "--help"], false⟩

def globalFlags : List (Flag Key) :=
  [helpFlag, ⟨.dir, ["--dir"], true⟩, ⟨.max, ["--max"], true⟩, ⟨.debug, ["--debug"], false⟩]

def manual : Manual where
  program := "script-server"
  usage :=
    "usage: script-server [-h] [--dir PATH] [--max N] [--debug]\n" ++
    "                     \x7bserve,list,get,save,dispatch\x7d ...\n"
  details :=
    "Public script store endpoint for the bot server\n" ++
    "\n" ++
    "positional arguments:\n" ++
    "  \x7bserve,list,get,save,dispatch\x7d\n" ++
    "    serve               Run the public WebSocket endpoint\n" ++
    "    list                List stored script names\n" ++
    "    get                 Print a stored script\n" ++
    "    save                Store a script from a file\n" ++
    "    dispatch            Run one public JSON message\n" ++
    "\n" ++
    "options:\n" ++
    "  -h, --help            show this help message and exit\n" ++
    "  --dir PATH            Scripts directory (default: $SCRIPT_SERVER_DIR or\n" ++
    "                        ./scripts)\n" ++
    "  --max N               Maximum number of stored scripts (default: 500)\n" ++
    "  --debug               Enable verbose debug logging\n"

namespace Subcommand

def name : Subcommand → Text
  | .serve => "serve"
  | .list => "list"
  | .get => "get"
  | .save => "save"
  | .dispatch => "dispatch"

def all : List Subcommand := [.serve, .list, .get, .save, .dispatch]

def ofName? (name : Text) : Option Subcommand := all.find? (·.name = name)

def flags : Subcommand → List (Flag Key)
  | .serve =>
    [helpFlag, ⟨.host, ["--host"], true⟩, ⟨.port, ["--port"], true⟩,
      ⟨.serializeSaves, ["--serialize-saves"], false⟩]
  | _ => [helpFlag]

def places : Subcommand → List Text
  | .serve => []
  | .list => []
  | .get => ["NAME"]
  | .save => ["NAME", "FILE"]
  | .dispatch => ["JSON"]

def manual : Subcommand → Manual
  | .serve =>
    { program := "script-server serve"
      usage :=
        "usage: script-server serve [-h] [--host ADDR] [--port PORT]\n" ++
        "                           [--serialize-saves]\n"
      details :=
        "options:\n" ++
        "  -h, --help         show this help message and exit\n" ++
        "  --host ADDR        Bind address\n" ++
        "  --port PORT        Bind port\n" ++
        "  --serialize-saves  Serialize count-and-write so concurrent saves respect the\n" ++
        "                     cap\n" }
  | .list =>
    { program := "script-server list"
      usage := "usage: script-server list [-h]\n"
      details :=
        "options:\n" ++
        "  -h, --help  show this help message and exit\n" }
  | .get =>
    { program := "script-server get"
      usage := "usage: script-server get [-h] NAME\n"
      details :=
        "positional arguments:\n" ++
        "  NAME        Script name\n" ++
        "\n" ++
        "options:\n" ++
        "  -h, --help  show this help message and exit\n" }
  | .save =>
    { program := "script-server save"
      usage := "usage: script-server save [-h] NAME FILE\n"
      details :=
        "positional arguments:\n" ++
        "  NAME        Script name\n" ++
        "  FILE        Source file, or - for stdin\n" ++
        "\n" ++
        "options:\n" ++
        "  -h, --help  show this help message and exit\n" }
  | .dispatch =>
    { program := "script-server dispatch"
      usage := "usage: script-server dispatch [-h] JSON\n"
      details :=
        "positional arguments:\n" ++
        "  JSON        e.g. '\x7b\"what\": \"getscriptlist\"\x7d'\n" ++
        "\n" ++
        "options:\n" ++
        "  -h, --help  show this help message and exit\n" }

end Subcommand

inductive Request where
  | serve
  | list
  | get (name : Text)
  | save (name : Text) (file : Given Text)
  | dispatch (message : Text)
deriving DecidableEq

namespace Request

def subcommand : Request → Subcommand
  | .serve => .serve
  | .list => .list
  | .get _ => .get
  | .save _ _ => .save
  | .dispatch _ => .dispatch

end Request

structure Invocation where
  options : Options
  request : Option Request
deriving DecidableEq

inductive Exit where
  | help (manual : Manual)
  | misuse (manual : Manual) (complaint : Complaint)

namespace Exit

def code : Exit → Nat
  | .help _ => 0
  | .misuse _ _ => 2

def stdout : Exit → Text
  | .help m => m.help
  | .misuse _ _ => []

/-- What is written to standard error, but for the last line feed. -/
def report : Exit → Option Text
  | .help _ => none
  | .misuse m c => some (m.usage ++ m.program ++ ": error: " ++ c.text)

end Exit

def Halt.exit (m : Manual) : Halt → Exit
  | .help => .help m
  | .complaint c => .misuse m c

def requestOf (c : Subcommand) (values : List (Given Text)) : Except Exit Request :=
  match c, values with
  | .serve, _ => .ok .serve
  | .list, _ => .ok .list
  | .get, .value name :: _ => .ok (.get name)
  | .save, .value name :: file :: _ => .ok (.save name file)
  | .dispatch, .value message :: _ => .ok (.dispatch message)
  | c, values => .error (.misuse c.manual (.required (c.places.drop values.length)))

/-- Reads the arguments of a subcommand: the options, the request, and the tokens left over. -/
def parseArguments (c : Subcommand) (options : Options) (arguments : List Text) :
    Except Exit (Options × Request × List Text) :=
  match scan c.flags arguments with
  | .error complaint => .error (.misuse c.manual complaint)
  | .ok line =>
    match readArguments c.flags effect line.back c.places.length .open line.front options with
    | .error h => .error (h.exit c.manual)
    | .ok r =>
      match requestOf c r.filled.values with
      | .error e => .error e
      | .ok request => .ok (r.state, request, r.filled.extras)

def refuseExtras (extras : List Text) (i : Invocation) : Except Exit Invocation :=
  if extras = [] then .ok i else .error (.misuse manual (.unrecognized extras))

def parse (arguments : List Text) : Except Exit Invocation :=
  match scan globalFlags arguments with
  | .error complaint => .error (.misuse manual complaint)
  | .ok line =>
    match readHeading globalFlags effect line.back line.front {} with
    | .error h => .error (h.exit manual)
    | .ok heading =>
      match heading.command with
      | none => refuseExtras heading.extras ⟨heading.state, none⟩
      | some (name, arguments) =>
        match Subcommand.ofName? name with
        | none =>
          .error (.misuse manual
            (.invalidChoice "subcommand" name (Subcommand.all.map (·.name))))
        | some c =>
          match parseArguments c heading.state arguments with
          | .error e => .error e
          | .ok (options, request, extras) =>
            refuseExtras (heading.extras ++ extras) ⟨options, some request⟩

end CommandLine

end ScriptDepot
