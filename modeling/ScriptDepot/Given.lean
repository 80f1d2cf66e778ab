/-!
# Values that may be withheld

An option or an argument can stand on a command line with nothing in the place of its value.  It
then counts as given, but whatever needs the value fails.
-/

namespace ScriptDepot

/-- What stands in the place of a value. -/
inductive Given (α : Type) where
  | value (a : α)
  | nothing
deriving DecidableEq

namespace Given

def value? {α : Type} : Given α → Option α
  | .value a => some a
  | .nothing => none

end Given

end ScriptDepot
