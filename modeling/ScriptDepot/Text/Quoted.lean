import ScriptDepot.Text.Printable
/-!
# Quoted text

Names in error messages and log lines stand between quotes: single ones, or double ones when the
text has a single quote and no double one.
-/

namespace ScriptDepot

namespace Text

def quoteMark (t : Text) : CodePoint :=
  if t.contains ('\'' : CodePoint) && !t.contains ('"' : CodePoint) then '"' else '\''

def quotePoint (mark c : CodePoint) : Text :=
  if c = mark ∨ c = '\\' then ['\\', c]
  else if c = '\n' then ['\\', 'n']
  else if c = '\r' then ['\\', 'r']
  else if c = '\t' then ['\\', 't']
  else if c.isPrintable then [c]
  else if c.val < 0x100 then '\\' :: 'x' :: hex 2 c.val
  else if c.val < 0x10000 then '\\' :: 'u' :: hex 4 c.val
  else '\\' :: 'U' :: hex 8 c.val

/-- The text between quotes, with all that is not printable written as an escape. -/
def quoted (t : Text) : Text :=
  let mark := t.quoteMark
  [mark] ++ t.flatMap (quotePoint mark) ++ [mark]

end Text

end ScriptDepot
