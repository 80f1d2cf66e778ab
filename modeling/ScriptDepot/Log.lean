import ScriptDepot.Failure
/-!
# Log records

Work that may fail gives its outcome together with what it logged on the way; what was logged
before a failure stays logged.
-/

namespace ScriptDepot

namespace Log

inductive Level where
  | debug
  | info
  | warning
  | error
deriving DecidableEq

namespace Level

def name : Level → Text
  | .debug => "DEBUG"
  | .info => "INFO"
  | .warning => "WARNING"
  | .error => "ERROR"

end Level

inductive Origin where
  | shelf
  | store
  | dispatcher
  | endpoint
  | console
deriving DecidableEq

/-- One log record; `cause` is the failure whose trace goes with it. -/
structure Record where
  level : Level
  origin : Origin
  text : Text
  cause : Option Failure := none
deriving DecidableEq

end Log

structure Logged (α : Type) where
  value : α
  log : List Log.Record

namespace Logged

instance : Monad Logged where
  pure a := ⟨a, []⟩
  bind x f := let y := f x.value; ⟨y.value, x.log ++ y.log⟩

@[simp] theorem value_pure {α : Type} (a : α) : (pure a : Logged α).value = a := rfl

@[simp] theorem log_pure {α : Type} (a : α) : (pure a : Logged α).log = [] := rfl

@[simp] theorem value_bind {α β : Type} (x : Logged α) (f : α → Logged β) :
    (x >>= f).value = (f x.value).value := rfl

@[simp] theorem log_bind {α β : Type} (x : Logged α) (f : α → Logged β) :
    (x >>= f).log = x.log ++ (f x.value).log := rfl

def note (r : Log.Record) : Logged Unit := ⟨(), [r]⟩

end Logged

structure Act (α : Type) where
  outcome : Except Failure α
  log : List Log.Record

namespace Act

def ofExcept {α : Type} (outcome : Except Failure α) : Act α := ⟨outcome, []⟩

instance : Monad Act where
  pure a := ⟨.ok a, []⟩
  bind x f :=
    match x.outcome with
    | .error e => ⟨.error e, x.log⟩
    | .ok a => let y := f a; ⟨y.outcome, x.log ++ y.log⟩

def note (r : Log.Record) : Act Unit := ⟨.ok (), [r]⟩

def fail {α : Type} (e : Failure) : Act α := ⟨.error e, []⟩

@[simp] theorem outcome_pure {α : Type} (a : α) : (pure a : Act α).outcome = .ok a := rfl

@[simp] theorem outcome_note (r : Log.Record) : (note r).outcome = .ok () := rfl

@[simp] theorem outcome_fail {α : Type} (e : Failure) : (fail e : Act α).outcome = .error e := rfl

@[simp] theorem outcome_ofExcept {α : Type} (x : Except Failure α) :
    (ofExcept x).outcome = x := rfl

@[simp] theorem outcome_bind {α β : Type} (x : Act α) (f : α → Act β) :
    (x >>= f).outcome = x.outcome >>= fun a => (f a).outcome := by
  cases x with
  | mk outcome log => cases outcome <;> rfl

end Act

end ScriptDepot
