import ScriptDepot.Json.Fault
import ScriptDepot.Text.Quoted
/-!
# What can go wrong

A refusal is reported to whoever asked, in its own words.  A breakdown is anything else: the
endpoint answers it with one fixed reply, and the command line does not answer it at all, operating
system faults apart.
-/

namespace ScriptDepot

inductive OsError where
  | noEntry
  | denied
  | exists
  | notFolder
  | isFolder
  | nameTooLong
deriving DecidableEq

namespace OsError

def number : OsError → Nat
  | .noEntry => 2
  | .denied => 13
  | .exists => 17
  | .notFolder => 20
  | .isFolder => 21
  | .nameTooLong => 36

def text : OsError → Text
  | .noEntry => "No such file or directory"
  | .denied => "Permission denied"
  | .exists => "File exists"
  | .notFolder => "Not a directory"
  | .isFolder => "Is a directory"
  | .nameTooLong => "File name too long"

end OsError

structure OsFault where
  error : OsError
  path : Text
deriving DecidableEq

def OsFault.message (f : OsFault) : Text :=
  "[Errno " ++ Text.ofNat f.error.number ++ "] " ++ f.error.text ++ ": " ++ f.path.quoted

inductive ConfigFault where
  | notInteger (setting value : Text)
  | negativeMax
  | portOutOfRange (port : Int)
deriving DecidableEq

namespace ConfigFault

def message : ConfigFault → Text
  | .notInteger setting value => setting ++ " must be an integer, got " ++ value.quoted
  | .negativeMax => "max_scripts must be >= 0"
  | .portOutOfRange port => "port out of range: " ++ Text.ofInt port

end ConfigFault

inductive MessageFault where
  | unreadable (fault : Json.Malformed)
  | notObject (type : Text)
  | missingWhat
  | badWhat
deriving DecidableEq

namespace MessageFault

def message : MessageFault → Text
  | .unreadable fault => "invalid json: " ++ fault.message
  | .notObject type => "expected a JSON object, got " ++ type
  | .missingWhat => "missing field `what`"
  | .badWhat => "PublicMessage.what must be a non-empty string"

end MessageFault

inductive PayloadFault where
  | notObject (type : Text)
  | missing (field : Text)
  | notString (field : Text)
  | emptyName
deriving DecidableEq

namespace PayloadFault

def message : PayloadFault → Text
  | .notObject type => "savescript payload must be an object, got " ++ type
  | .missing field => "savescript payload: missing field `" ++ field ++ "`"
  | .notString field => "savescript payload: `" ++ field ++ "` must be a string"
  | .emptyName => "savescript payload: `name` must not be empty"

end PayloadFault

inductive StorageFault where
  | cannotRead (path : Text) (fault : OsFault)
  | cannotWrite (path : Text) (fault : OsFault)
  | cannotEnumerate (path : Text) (fault : OsFault)
  | notText (name : Text)
deriving DecidableEq

namespace StorageFault

def message : StorageFault → Text
  | .cannotRead path fault => "cannot read " ++ path ++ ": " ++ fault.message
  | .cannotWrite path fault => "cannot write " ++ path ++ ": " ++ fault.message
  | .cannotEnumerate path fault => "cannot enumerate " ++ path ++ ": " ++ fault.message
  | .notText name => "script " ++ name.quoted ++ " is not UTF-8 text"

end StorageFault

/-- A failure that is reported in its own words. -/
inductive Refusal where
  | config (fault : ConfigFault)
  | message (fault : MessageFault)
  | unknownCommand (what : Text)
  | payload (fault : PayloadFault)
  | script (name : Text) (fault : Json.Malformed)
  | notFound (name : Text)
  | storage (fault : StorageFault)
  | notFolder (path : Text)
  | full (count : Nat) (limit : Int)
deriving DecidableEq

inductive Needed where
  | path
  | maxScripts
  | port
deriving DecidableEq

/-- Why the endpoint cannot be bound: the system does not let it, for a reason that it gives, or the
attempt fails in some other way. -/
inductive BindFault where
  | system (text : Text)
  | other (text : Text)
deriving DecidableEq

/-- A failure that nobody foresaw where it arises. -/
inductive Breakdown where
  | tooDeep
  | notFinite
  | nulInPath
  | unencodable (fault : EncodeFault)
  | undecodable (fault : DecodeFault)
  | os (fault : OsFault)
  | noHome
  | withheld (what : Needed)
  | unbound (fault : BindFault)
deriving DecidableEq

inductive Failure where
  | refusal (refusal : Refusal)
  | breakdown (breakdown : Breakdown)
deriving DecidableEq

def Refusal.text : Refusal → Text
  | .config fault => fault.message
  | .message fault => fault.message
  | .unknownCommand what => "invalid 'what' code:'" ++ what ++ "'"
  | .payload fault => fault.message
  | .script name fault => "script " ++ name.quoted ++ " is not valid JSON: " ++ fault.message
  | .notFound name => "no script named " ++ name.quoted
  | .storage fault => fault.message
  | .notFolder path => path ++ " is not a directory!"
  | .full _ _ => "too many scripts, can't save!"

def Needed.text : Needed → Text
  | .path => "expected str, bytes or os.PathLike object, not list"
  | .maxScripts => "'<' not supported between instances of 'list' and 'int'"
  | .port => "'<=' not supported between instances of 'int' and 'list'"

def Breakdown.text : Breakdown → Text
  | .tooDeep => "maximum recursion depth exceeded"
  | .notFinite => "Out of range float values are not JSON compliant"
  | .nulInPath => "embedded null byte"
  | .unencodable fault => fault.message
  | .undecodable fault => fault.message
  | .os fault => fault.message
  | .noHome => "Could not determine home directory."
  | .withheld what => what.text
  | .unbound (.system text) => text
  | .unbound (.other text) => text

/-- What the command line reports of a breakdown: a fault of the system, and nothing else. -/
def Breakdown.reported? : Breakdown → Option Text
  | .os fault => some fault.message
  | .unbound (.system text) => some text
  | _ => none

def Failure.text : Failure → Text
  | .refusal r => r.text
  | .breakdown b => b.text

instance : Coe Refusal Failure := ⟨.refusal⟩

instance : Coe Breakdown Failure := ⟨.breakdown⟩

theorem bind_eq_ok {ε α β : Type} {x : Except ε α} {f : α → Except ε β} {b : β} :
    x >>= f = .ok b ↔ ∃ a, x = .ok a ∧ f a = .ok b := by
  cases x with
  | error e => exact ⟨fun h => (nomatch h), fun ⟨_, h, _⟩ => (nomatch h)⟩
  | ok a => exact ⟨fun h => ⟨a, rfl, h⟩, by rintro ⟨_, ⟨⟩, h⟩; exact h⟩

end ScriptDepot
