import ScriptDepot.Store
import ScriptDepot.Text.Integer
import ScriptDepot.Given
/-!
# Configuration

Settings come from the environment, with defaults for what is not set there, and may be overridden
one by one.  A configuration is a group of settings in range; it is checked before and after it is
overridden.
-/

namespace ScriptDepot

structure Settings where
  scriptsDir : Given Text := .value "scripts"
  maxScripts : Given Int := .value 500
  host : Given Text := .value "127.0.0.1"
  port : Given Int := .value 8765
  serializeSaves : Bool := false
deriving DecidableEq

def maxPort : Nat := 65535

/-- Settings in range.  The folder and the host are not looked at before they are used. -/
structure Config where
  scriptsDir : Given Text
  maxScripts : Nat
  host : Given Text
  port : Nat
  serializeSaves : Bool
  port_le : port ≤ maxPort
deriving DecidableEq

/-- Checks the number of scripts first, then the port. -/
def Settings.check (s : Settings) : Except Failure Config :=
  match s.maxScripts with
  | .nothing => .error (Breakdown.withheld .maxScripts)
  | .value maxScripts =>
    if maxScripts < 0 then .error (Refusal.config .negativeMax)
    else
      match s.port with
      | .nothing => .error (Breakdown.withheld .port)
      | .value port =>
        if h : 0 ≤ port ∧ port ≤ maxPort then
          .ok
            { scriptsDir := s.scriptsDir
              maxScripts := maxScripts.toNat
              host := s.host
              port := port.toNat
              serializeSaves := s.serializeSaves
              port_le := by omega }
        else .error (Refusal.config (.portOutOfRange port))

abbrev Environment := List (Text × Text)

namespace Environment

def value? (env : Environment) (name : Text) : Option Text :=
  match Assoc.get? name env with
  | some (c :: rest) => some (c :: rest)
  | _ => none

def text (env : Environment) (name : Text) (default : Given Text) : Given Text :=
  match env.value? name with
  | none => default
  | some value => .value value

def integer (env : Environment) (name : Text) (default : Given Int) : Except Failure (Given Int) :=
  match env.value? name with
  | none => .ok default
  | some value =>
    match value.integer? with
    | some n => .ok (.value n)
    | none => .error (Refusal.config (.notInteger name value))

end Environment

namespace Text

def lowerAscii (t : Text) : Text :=
  t.map fun c => if 0x41 ≤ c.val ∧ c.val ≤ 0x5A then CodePoint.ofNat (c.val + 0x20) else c

/-- Whether a text switches something on.  No letter outside ASCII has one of these in lower
case. -/
def isOn (t : Text) : Bool :=
  ["1", "true", "yes", "on"].any fun word => (t.trim (·.isBlank)).lowerAscii = Text.ofString word

end Text

namespace Config

def settings (c : Config) : Settings :=
  ⟨c.scriptsDir, .value c.maxScripts, c.host, .value c.port, c.serializeSaves⟩

def variableNames : List Text :=
  ["SCRIPT_SERVER_DIR", "SCRIPT_SERVER_MAX_SCRIPTS", "SCRIPT_SERVER_HOST", "SCRIPT_SERVER_PORT",
    "SCRIPT_SERVER_SERIALIZE_SAVES"]

def ofEnvironment (env : Environment) : Except Failure Config := do
  let defaults : Settings := {}
  let maxScripts ← env.integer "SCRIPT_SERVER_MAX_SCRIPTS" defaults.maxScripts
  let port ← env.integer "SCRIPT_SERVER_PORT" defaults.port
  Settings.check
    { scriptsDir := env.text "SCRIPT_SERVER_DIR" defaults.scriptsDir
      maxScripts := maxScripts
      host := env.text "SCRIPT_SERVER_HOST" defaults.host
      port := port
      serializeSaves := ((env.value? "SCRIPT_SERVER_SERIALIZE_SAVES").getD []).isOn }

end Config

structure Overrides where
  scriptsDir : Option (Given Text) := none
  maxScripts : Option (Given Int) := none
  host : Option (Given Text) := none
  port : Option (Given Int) := none
  serializeSaves : Option Bool := none
deriving DecidableEq

def Overrides.apply (o : Overrides) (s : Settings) : Settings :=
  { scriptsDir := o.scriptsDir.getD s.scriptsDir
    maxScripts := o.maxScripts.getD s.maxScripts
    host := o.host.getD s.host
    port := o.port.getD s.port
    serializeSaves := o.serializeSaves.getD s.serializeSaves }

namespace Config

def resolve (env : Environment) (o : Overrides) : Except Failure Config := do
  let config ← ofEnvironment env
  (o.apply config.settings).check

def openStore (c : Config) (homes : Homes) (files : FileSystem) : Except Failure Store :=
  match c.scriptsDir with
  | .nothing => .error (Breakdown.withheld .path)
  | .value folder =>
    match Shelf.onFolder homes folder false files with
    | .ok shelf => .ok ⟨shelf, c.maxScripts, c.serializeSaves⟩
    | .error b => .error b

end Config

end ScriptDepot
