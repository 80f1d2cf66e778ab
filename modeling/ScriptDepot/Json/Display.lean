import ScriptDepot.Json
import ScriptDepot.Number.Shortest
import ScriptDepot.Text.Quoted
/-!
# Values in log lines

Log lines show a string as it is, and any other value with its strings quoted.
-/

namespace ScriptDepot

namespace Json

mutual

def literal : Json → Text
  | .null => "None"
  | .bool true => "True"
  | .bool false => "False"
  | .int n => Text.ofInt n
  | .float x => x.text "inf" "nan"
  | .str t => t.quoted
  | .arr items => "[" ++ literalItems items ++ "]"
  | .obj members => "\x7b" ++ literalMembers members ++ "\x7d"

def literalItems : List Json → Text
  | [] => []
  | [v] => literal v
  | v :: rest => literal v ++ ", " ++ literalItems rest

def literalMembers : List (Text × Json) → Text
  | [] => []
  | [(k, v)] => k.quoted ++ ": " ++ literal v
  | (k, v) :: rest => k.quoted ++ ": " ++ literal v ++ ", " ++ literalMembers rest

end

def display : Json → Text
  | .str t => t
  | v => literal v

end Json

end ScriptDepot
