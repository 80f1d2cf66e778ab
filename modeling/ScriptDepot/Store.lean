import ScriptDepot.Shelf
/-!
# The store

Scripts are texts, kept as UTF-8 on a shelf that takes no more once it holds as many entries as the
cap allows.  Overwriting a script counts like adding one.
-/

namespace ScriptDepot

structure Store where
  shelf : Shelf
  cap : Int
  /-- Whether the counting and the writing of a save exclude those of other saves. -/
  serialized : Bool

namespace Store

def defaultCap : Int := 500

def load (store : Store) (name : Text) : Except Failure Text :=
  match store.shelf.get name with
  | .error e => .error e
  | .ok bytes =>
    match Utf8.decode .strict bytes with
    | .ok text => .ok text
    | .error _ => .error (Refusal.storage (.notText name))

def rejected (store : Store) (name : Text) (count : Nat) : Log.Record :=
  { level := .warning, origin := .store
    text := "Rejected save of " ++ name.quoted ++ ": store holds " ++ Text.ofNat count ++ "/" ++
      Text.ofInt store.cap ++ " scripts" }

def saved (name text : Text) : Log.Record :=
  { level := .debug, origin := .store
    text := "Saved script " ++ name.quoted ++ " (" ++ Text.ofNat text.length ++ " chars)" }

def save (store : Store) (name text : Text) : Act Store := do
  let count ← Act.ofExcept store.shelf.count
  if store.cap ≤ count then
    Act.note (store.rejected name count)
    Act.fail (Refusal.full count store.cap)
  else
    match text.encode with
    | .error fault => Act.fail (Breakdown.unencodable fault)
    | .ok bytes =>
      let shelf ← store.shelf.putLogged name bytes
      Act.note (saved name text)
      return { store with shelf := shelf }

def list (store : Store) : Act (List Text) := store.shelf.keys

def size (store : Store) : Except Failure Nat := store.shelf.count

def label (store : Store) : Text :=
  "ScriptStore(" ++ store.shelf.label ++ ", max_items=" ++ Text.ofInt store.cap ++ ")"

end Store

end ScriptDepot
