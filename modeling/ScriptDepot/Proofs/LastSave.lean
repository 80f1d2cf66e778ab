import ScriptDepot.Proofs.Backends
/-!
# The last save wins

A store in memory is what its accepted saves make of what it held at first.  So it lists every name
once, in the order in which the names came in, and a script that is asked for is answered from the
text that was saved last under its name.
-/

namespace ScriptDepot

namespace Ledger

def saveAll (scripts : Ledger Text Bytes) (saved : List NewScript) : Ledger Text Bytes :=
  saved.foldl (fun scripts new => scripts.put new.name new.script.utf8) scripts

theorem saveAll_cons (scripts : Ledger Text Bytes) (new : NewScript) (rest : List NewScript) :
    scripts.saveAll (new :: rest) = (scripts.put new.name new.script.utf8).saveAll rest := rfl

theorem get?_put_self (scripts : Ledger Text Bytes) (name : Text) (bytes : Bytes) :
    (scripts.put name bytes).get? name = some bytes := Assoc.get?_put_self

theorem get?_put_of_ne (scripts : Ledger Text Bytes) {name other : Text} (bytes : Bytes)
    (h : other ≠ name) : (scripts.put name bytes).get? other = scripts.get? other :=
  Assoc.get?_put_of_ne h

theorem keys_saveAll (scripts : Ledger Text Bytes) (saved : List NewScript) :
    (scripts.saveAll saved).keys =
      scripts.keys ++ ((saved.map NewScript.name).removeAll scripts.keys).eraseDups := by
  induction saved generalizing scripts with
  | nil => simp [saveAll, List.removeAll]
  | cons new rest ih =>
    rw [saveAll_cons, ih, List.map_cons]
    exact Store.keys_put_append_eraseDups scripts new.name new.script.utf8 (rest.map NewScript.name)

end Ledger

def lastSaved (name : Text) (saved : List NewScript) : Option Text :=
  (saved.reverse.find? (·.name = name)).map NewScript.script

theorem lastSaved_cons (name : Text) (new : NewScript) (rest : List NewScript) :
    lastSaved name (new :: rest) =
      (lastSaved name rest).or (if new.name = name then some new.script else none) := by
  unfold lastSaved
  rw [List.reverse_cons, List.find?_append]
  by_cases hname : new.name = name
  · cases rest.reverse.find? (·.name = name) <;> simp [hname]
  · cases rest.reverse.find? (·.name = name) <;> simp [hname]

theorem Ledger.get?_saveAll (scripts : Ledger Text Bytes) (saved : List NewScript) (name : Text) :
    (scripts.saveAll saved).get? name =
      ((lastSaved name saved).map Text.utf8).or (scripts.get? name) := by
  induction saved generalizing scripts with
  | nil => rfl
  | cons new rest ih =>
    rw [saveAll_cons, ih, lastSaved_cons]
    by_cases hname : new.name = name
    · subst hname
      rw [get?_put_self, if_pos rfl]
      cases lastSaved new.name rest <;> rfl
    · rw [get?_put_of_ne _ _ (Ne.symm hname), if_neg hname, Option.or_none]

/-- `Keeps scripts saved name text` says that a mapping that held `scripts` at first and was then
given `saved` keeps `text` under `name`. -/
inductive Keeps (scripts : Ledger Text Bytes) (saved : List NewScript) (name : Text) : Text → Prop
  | last {text : Text} (h : lastSaved name saved = some text) : Keeps scripts saved name text
  | first {text : Text} {bytes : Bytes} (h : lastSaved name saved = none)
      (hbytes : scripts.get? name = some bytes) (htext : Utf8.decode .strict bytes = .ok text) :
      Keeps scripts saved name text

def Frame.AsksFor (frame : Frame) (name : Text) : Prop :=
  ∃ v, frame.read .refuse = .ok v ∧ v.member? "what" = some (.str "getscript") ∧
    v.member? "data" = some (.str name)

instance (member : Option Json) (text : Text) : Decidable (member = some (.str text)) :=
  match member with
  | some (.str other) => decidable_of_iff (other = text) (by simp)
  | none | some .null | some (.bool _) | some (.int _) | some (.float _) | some (.arr _)
  | some (.obj _) => .isFalse (by simp)

instance (frame : Frame) (name : Text) : Decidable (frame.AsksFor name) :=
  decidable_of_iff (∃ v ∈ (frame.read .refuse).toOption,
      v.member? "what" = some (.str "getscript") ∧ v.member? "data" = some (.str name))
    (exists_congr fun _ => and_congr_left' toOption_eq_some)

theorem Frame.AsksFor.request {frame : Frame} {name : Text} (h : frame.AsksFor name) :
    frame.request = .ok (.fetch name) := by
  obtain ⟨v, hread, hwhat, hdata⟩ := h
  cases v with
  | obj members =>
    have hmessage : Message.ofFrame frame = .ok ⟨"getscript", .str name⟩ := by
      simp only [Json.member?] at hwhat hdata
      simp only [Message.ofFrame, hread, Message.ofJson, hwhat, hdata, Option.getD_some]
      rfl
    have hcommand : Command.ofName "getscript" = .ok .getScript := rfl
    simp only [Frame.request, hmessage, bind, Except.bind, hcommand]
    rfl
  | _ => cases hwhat

namespace Store

theorem shelf_converse {store : Store} {scripts : Ledger Text Bytes}
    (h : store.shelf = .memory scripts) (frames : List (Frame × Option Text)) :
    (store.converse frames).2.shelf = .memory (scripts.saveAll (store.savedScripts frames)) ∧
      ∀ new ∈ store.savedScripts frames, new.script.isScalar = true := by
  induction frames generalizing store scripts with
  | nil => exact ⟨h, by simp [savedScripts]⟩
  | cons f rest ih =>
    obtain ⟨frame, peer⟩ := f
    rw [savedScripts_cons]
    rcases store.handle_saved frame peer with ⟨hnone, hkept⟩ | ⟨new, hsome, hsave⟩
    · have hshelf : (store.handle frame peer).value.2.shelf = .memory scripts := by rw [hkept, h]
      rw [hnone, Option.toList_none, List.nil_append]
      exact ih hshelf
    · obtain ⟨count, bytes, shelf, -, -, hbytes, hput, hafter⟩ := outcome_save_eq_ok.mp hsave
      obtain ⟨hscalar, rfl⟩ := Text.encode_eq_ok.mp hbytes
      rw [h] at hput
      have hshelf : (store.handle frame peer).value.2.shelf =
          .memory (scripts.put new.name new.script.utf8) := by
        rw [hafter]
        exact (Except.ok.inj hput).symm
      obtain ⟨hlast, hrest⟩ := ih hshelf
      rw [hsome, Option.toList_some, List.singleton_append]
      refine ⟨hlast, ?_⟩
      intro other hother
      rcases List.mem_cons.mp hother with rfl | hother
      · exact hscalar
      · exact hrest other hother

theorem handle_fetch {store : Store} {frame : Frame} {name : Text}
    (hframe : frame.request = .ok (.fetch name)) (peer : Option Text) :
    (store.handle frame peer).value.1 =
      match store.fetch name with
      | .ok script =>
        if script.isFinite then ReplyKind.script.reply script
        else failureReply Breakdown.notFinite
      | .error e => failureReply e := by
  rw [handle_value, respond, hframe]
  simp only [answer, bind, Except.bind]
  cases store.fetch name with
  | error e => rfl
  | ok script =>
    simp only [Response.encode]
    cases script.isFinite <;> rfl

theorem load_keeps {store : Store} {scripts : Ledger Text Bytes} {saved : List NewScript}
    (h : store.shelf = .memory (scripts.saveAll saved))
    (hscalar : ∀ new ∈ saved, new.script.isScalar = true) {name text : Text}
    (hkeeps : Keeps scripts saved name text) : store.load name = .ok text := by
  cases hkeeps with
  | last hlast =>
    have hget : (scripts.saveAll saved).get? name = some text.utf8 := by
      rw [Ledger.get?_saveAll, hlast]
      rfl
    have htext : text.isScalar = true := by
      obtain ⟨new, hfind, rfl⟩ := Option.map_eq_some_iff.mp hlast
      exact hscalar new (List.mem_reverse.mp (List.mem_of_find?_eq_some hfind))
    simp only [load, h, Shelf.get, hget, Utf8.decode_utf8 .strict htext]
  | @first bytes hnone hbytes htext =>
    have hget : (scripts.saveAll saved).get? name = some bytes := by
      rw [Ledger.get?_saveAll, hnone]
      exact hbytes
    simp only [load, h, Shelf.get, hget, htext]

/-- After any frames a store in memory lists what it held at first and then the names of the
accepted saves, each once and in the order of their first save.  A script is answered from the text
that it keeps: from the last accepted save under the name, or from what was there at first. -/
theorem last_save_wins (store : Store) (scripts : Ledger Text Bytes)
    (h : store.shelf = .memory scripts) (frames : List (Frame × Option Text)) :
    let last := (store.converse frames).2
    let saved := store.savedScripts frames
    let names := scripts.keys ++ ((saved.map NewScript.name).removeAll scripts.keys).eraseDups
    last.list.outcome = .ok names ∧ names.Nodup ∧ last.size = .ok names.length ∧
      ∀ name frame peer, Frame.AsksFor frame name →
        (∀ text, Keeps scripts saved name text →
          (∀ script, Json.readText .refuse text = .ok script → script.isFinite = true →
            (last.handle frame peer).value.1 =
              (Response.toJson ⟨"script", script⟩).write Json.spaced) ∧
          (∀ fault, Json.readText .refuse text = .error (.malformed fault) →
            (last.handle frame peer).value.1 =
              errorReply ("script " ++ name.quoted ++ " is not valid JSON: " ++ fault.message))) ∧
        (name ∉ names →
          (last.handle frame peer).value.1 = errorReply ("no script named " ++ name.quoted)) := by
  intro last saved names
  obtain ⟨hshelf, hscalar⟩ := shelf_converse h frames
  have hkeys : (scripts.saveAll saved).keys = names := scripts.keys_saveAll saved
  refine ⟨?_, ?_, ?_, ?_⟩
  · rw [← hkeys, list, hshelf]
    rfl
  · rw [← hkeys]
    exact (scripts.saveAll saved).nodup
  · rw [← hkeys, size, hshelf]
    simp [Shelf.count, Ledger.size, Ledger.keys, Assoc.keys, saved]
  · intro name frame peer hasks
    rw [handle_fetch hasks.request peer]
    refine ⟨?_, ?_⟩
    · intro text hkeeps
      have hload : last.load name = .ok text := load_keeps hshelf hscalar hkeeps
      refine ⟨?_, ?_⟩
      · intro script hread hfinite
        simp only [fetch, hload, hread, hfinite, if_true]
        rfl
      · intro fault hread
        simp only [fetch, hload, hread]
        rfl
    · intro hnew
      have hget : (scripts.saveAll saved).get? name = none := by
        apply Assoc.get?_eq_none_iff.mpr
        have hmem : name ∉ (scripts.saveAll saved).keys := by rwa [hkeys]
        exact hmem
      have hload : last.load name = .error (Refusal.notFound name) := by
        simp only [last, load, hshelf, Shelf.get, hget, saved] at hget ⊢
      simp only [fetch, hload]
      rfl

def twoScripts : Store where
  shelf := .memory ⟨[("b", ("[1, 2]" : Text).utf8), ("x", [0xFF])], by decide⟩
  cap := 4
  serialized := false

/-- Frames that save `a`, overwrite `b`, save `a` once more, and make no sense. -/
def overwriting : List (Frame × Option Text) :=
  [(.text "\x7b\"what\":\"savescript\",\"data\":\x7b\"name\":\"a\",\"script\":\"1\"\x7d\x7d", none),
    (.text "\x7b\"what\":\"savescript\",\"data\":\x7b\"name\":\"b\",\"script\":\"[\"\x7d\x7d",
      none),
    (.text ("\x7b\"what\":\"savescript\",\"data\":" ++
      "\x7b\"name\":\"a\",\"script\":\"\\\"go\\\"\"\x7d\x7d"), none),
    (.bytes [0xFF], none)]

def asking (name : Text) : Frame :=
  .text ("\x7b\"what\":\"getscript\",\"data\":\"" ++ name ++ "\"\x7d")

theorem last_save_wins_overwriting :
    (twoScripts.converse overwriting).2.list.outcome = .ok ["b", "x", "a"] ∧
      (asking "a").AsksFor "a" ∧ (asking "c").AsksFor "c" ∧
      ((twoScripts.converse overwriting).2.handle (asking "a") none).value.1 =
        (Response.toJson ⟨"script", .str "go"⟩).write Json.spaced ∧
      ((twoScripts.converse overwriting).2.handle (asking "c") none).value.1 =
        errorReply "no script named 'c'" := by
  obtain ⟨hlist, -, -, hasked⟩ := last_save_wins twoScripts _ rfl overwriting
  have hsaved : twoScripts.savedScripts overwriting =
      [⟨"a", "1"⟩, ⟨"b", "["⟩, ⟨"a", "\"go\""⟩] := by decide +kernel
  rw [hsaved] at hlist hasked
  have ha : (asking "a").AsksFor "a" := by decide +kernel
  have hc : (asking "c").AsksFor "c" := by decide +kernel
  have hread : Json.readText .refuse "\"go\"" = .ok (.str "go") :=
    toOption_eq_some.mp (by decide +kernel)
  obtain ⟨hscript, -⟩ := (hasked "a" (asking "a") none ha).1 "\"go\"" (.last (by decide +kernel))
  have hmissing := (hasked "c" (asking "c") none hc).2 (by decide +kernel)
  have hquoted : Text.quoted "c" = "'c'" := by decide +kernel
  rw [hquoted] at hmissing
  exact ⟨hlist.trans (congrArg Except.ok (by decide +kernel)), ha, hc, hscript _ hread rfl,
    hmissing⟩

end Store

end ScriptDepot
