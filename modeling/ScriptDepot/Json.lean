import ScriptDepot.Text
import ScriptDepot.Number.Binary64
/-!
# JSON values

Integers are exact and of any size, other numbers are doubles, and the members of an object keep
the order in which their keys first appeared.
-/

namespace ScriptDepot

inductive Json where
  | null
  | bool (value : Bool)
  | int (value : Int)
  | float (value : Binary64)
  | str (value : Text)
  | arr (items : List Json)
  | obj (members : List (Text × Json))

namespace Json

def typeName : Json → Text
  | .null => "NoneType"
  | .bool _ => "bool"
  | .int _ => "int"
  | .float _ => "float"
  | .str _ => "str"
  | .arr _ => "list"
  | .obj _ => "dict"

def isNull : Json → Bool
  | .null => true
  | _ => false

mutual

def isFinite : Json → Bool
  | .float x => x.isFinite
  | .arr items => isFiniteItems items
  | .obj members => isFiniteMembers members
  | _ => true

def isFiniteItems : List Json → Bool
  | [] => true
  | v :: rest => isFinite v && isFiniteItems rest

def isFiniteMembers : List (Text × Json) → Bool
  | [] => true
  | (_, v) :: rest => isFinite v && isFiniteMembers rest

end

end Json

end ScriptDepot
