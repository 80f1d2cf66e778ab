import ScriptDepot.Proofs.Json.Written
import ScriptDepot.Proofs.Path
import ScriptDepot.Proofs.Request
/-!
# What a frame can break down on

Wherever a script is read, written or counted a fault of the system becomes a refusal.  What is left
are texts that no file name, no file and no reader can take: a path with a surrogate or a zero in
it, a script with a surrogate, a script that is nested too deeply or holds a number that is not
finite.  A folder is looked at before it is listed, and there alone a fault of the system is passed
on.
-/

namespace ScriptDepot

theorem bind_eq_error {ε α β : Type} {x : Except ε α} {f : α → Except ε β} {e : ε} :
    x >>= f = .error e ↔ x = .error e ∨ ∃ a, x = .ok a ∧ f a = .error e := by
  cases x with
  | error e' => simp [bind, Except.bind]
  | ok a => simp [bind, Except.bind]

namespace FileSystem

theorem walk_eq_error {fs : FileSystem} {l : Location} {names : List Bytes} {e : OsError}
    (h : fs.walk l names = .error e) :
    e = .notFolder ∨ e = .noEntry ∨ e = .nameTooLong ∧ ∃ name ∈ names, maxName < name.length := by
  induction names generalizing l with
  | nil => cases h
  | cons name rest ih =>
    have hrest : ∀ m, fs.walk m rest = .error e → e = .notFolder ∨ e = .noEntry ∨
        e = .nameTooLong ∧ ∃ other ∈ name :: rest, maxName < other.length := by
      intro m hm
      rcases ih hm with he | he | ⟨he, other, hmem, hlong⟩
      · exact .inl he
      · exact .inr (.inl he)
      · exact .inr (.inr ⟨he, other, List.mem_cons_of_mem name hmem, hlong⟩)
    rw [walk] at h
    split at h
    · cases h
      exact .inl rfl
    split at h
    · exact hrest _ h
    split at h
    · cases h
      exact .inr (.inr ⟨rfl, name, List.mem_cons_self, by assumption⟩)
    split at h
    · cases h
    split at h
    · cases h
      exact .inr (.inl rfl)
    · exact hrest _ h

/-- A path that is too long to be looked up, as a whole or in one of its names. -/
def TooLong (path : Bytes) : Prop :=
  maxPath < path.length ∨ ∃ name ∈ names path, maxName < name.length

theorem locate_eq_error {fs : FileSystem} {path : Bytes} {e : OsError}
    (h : fs.locate path = .error e) :
    e = .notFolder ∨ e = .noEntry ∨ e = .nameTooLong ∧ TooLong path := by
  unfold locate at h
  split at h
  · cases h
    exact .inr (.inr ⟨rfl, .inl (by assumption)⟩)
  split at h
  · cases h
    exact .inr (.inl rfl)
  · rcases walk_eq_error h with he | he | ⟨he, hlong⟩
    · exact .inl he
    · exact .inr (.inl he)
    · exact .inr (.inr ⟨he, .inr hlong⟩)

theorem isFolder_eq_error {fs : FileSystem} {path : Bytes} {e : OsError}
    (h : fs.isFolder path = .error e) :
    e = .notFolder ∨ e = .noEntry ∨ e = .nameTooLong ∧ TooLong path := by
  rcases bind_eq_error.mp h with h | ⟨node, -, h⟩
  · rcases bind_eq_error.mp h with h | ⟨l, -, h⟩
    · exact locate_eq_error h
    · split at h
      · cases h
        exact .inr (.inl rfl)
      · cases h
  · cases node <;> cases h

end FileSystem

theorem Text.systemBytes_eq_error {t : Text} {b : Breakdown} (h : t.systemBytes = .error b) :
    b = .nulInPath ∨ ∃ fault, b = .unencodable fault := by
  unfold systemBytes at h
  split at h
  · cases h
    exact .inr ⟨_, rfl⟩
  · split at h <;> cases h
    exact .inl rfl

theorem Text.systemBytes_unreported {t : Text} {b : Breakdown} (h : t.systemBytes = .error b) :
    b.reported? = none := by
  rcases systemBytes_eq_error h with rfl | ⟨fault, rfl⟩ <;> rfl

namespace Path

variable {p : Path} {fs : FileSystem}

theorem bytes_unreported {b : Breakdown} (h : p.bytes = .error b) : b.reported? = none :=
  Text.systemBytes_unreported h

/-- Something done at a path succeeds, meets a fault of the system, or fails because the path has no
bytes. -/
theorem act_cases {α : Type} (p : Path) (f : Bytes → Except OsError α) :
    (∃ path, p.bytes = .ok path ∧
      ((∃ a, f path = .ok a ∧ p.act f = .ok a) ∨
        ∃ e, f path = .error e ∧ p.act f = .error (.os ⟨e, p.text⟩))) ∨
      ∃ b, p.bytes = .error b ∧ p.act f = .error b ∧ ∀ fault, b ≠ .os fault := by
  cases hbytes : p.bytes with
  | error b =>
    refine .inr ⟨b, rfl, by simp [act, hbytes, bind, Except.bind], ?_⟩
    rintro fault rfl
    cases bytes_unreported hbytes
  | ok path =>
    refine .inl ⟨path, rfl, ?_⟩
    cases hf : f path with
    | ok a => exact .inl ⟨a, rfl, by simp [act, hbytes, hf, bind, Except.bind]⟩
    | error e => exact .inr ⟨e, rfl, by simp [act, hbytes, hf, bind, Except.bind]⟩

def report {α β : Type} (p : Path) (work : Bytes → Except OsError β) (returned : β → α)
    (refused : OsFault → Refusal) : Except Failure α :=
  match p.act work with
  | .ok b => .ok (returned b)
  | .error (.os fault) => .error (refused fault)
  | .error b => .error b

theorem report_breaks {α β : Type} {p : Path} {work : Bytes → Except OsError β}
    {returned : β → α} {refused : OsFault → Refusal} {b : Breakdown} :
    p.report work returned refused = .error (.breakdown b) ↔ p.bytes = .error b := by
  unfold report
  rcases p.act_cases work with ⟨path, hpath, ⟨a, -, hact⟩ | ⟨e, -, hact⟩⟩ | ⟨b', hb, hact, hos⟩
  · simp [hact, hpath]
  · simp [hact, hpath]
  · simp [hact, hb]

theorem isFolder_eq_error {b : Breakdown} :
    p.isFolder fs = .error b ↔ ∃ path e, p.bytes = .ok path ∧ fs.isFolder path = .error e ∧
      e ≠ .noEntry ∧ e ≠ .notFolder ∧ b = .os ⟨e, p.text⟩ := by
  rcases p.act_cases fs.isFolder with
    ⟨path, hpath, ⟨a, hf, hact⟩ | ⟨e, hf, hact⟩⟩ | ⟨b', hb, hact, hos⟩
  · simp [isFolder, hact, hpath, hf]
  · cases e <;> simp [isFolder, hact, hpath, hf, eq_comm]
  · simp [isFolder, hact, hb, hos]

end Path

namespace Shelf

variable {root : Path} {files : FileSystem} {name : Text} {bytes : Bytes} {b : Breakdown}

theorem get_folder (root : Path) (files : FileSystem) (key : Text) :
    (Shelf.folder root files).get key = (root.append key).report files.readFile id fun fault =>
      if fault.error = .noEntry then .notFound key
      else .storage (.cannotRead (root.append key).text fault) := by
  simp only [get, Path.report]
  cases (root.append key).act files.readFile with
  | ok bytes => rfl
  | error b =>
    cases b with
    | os fault => by_cases hmissing : fault.error = .noEntry <;> simp [hmissing]
    | _ => rfl

theorem put_folder (root : Path) (files : FileSystem) (key : Text) (bytes : Bytes) :
    (Shelf.folder root files).put key bytes = (root.append key).report (files.writeFile · bytes)
      (Shelf.folder root) fun fault => .storage (.cannotWrite (root.append key).text fault) := by
  simp only [put, Path.report]
  cases (root.append key).act (files.writeFile · bytes) with
  | ok after => rfl
  | error b => cases b <;> rfl

theorem get_folder_breaks :
    (Shelf.folder root files).get name = .error (.breakdown b) ↔
      (root.append name).bytes = .error b := by
  rw [get_folder]
  exact Path.report_breaks

theorem put_folder_breaks :
    (Shelf.folder root files).put name bytes = .error (.breakdown b) ↔
      (root.append name).bytes = .error b := by
  rw [put_folder]
  exact Path.report_breaks

theorem entries_breaks :
    entries root files = .error (.breakdown b) ↔
      files.listable = true ∧ root.bytes = .error b := by
  cases hlist : files.listable with
  | false => simp [entries, Path.enumerate, hlist]
  | true =>
    rcases root.act_cases files.enumerate with
      ⟨path, hpath, ⟨a, -, hact⟩ | ⟨e, -, hact⟩⟩ | ⟨b', hb, hact, hos⟩
    · simp [entries, Path.enumerate, hlist, hact, hpath]
    · simp [entries, Path.enumerate, hlist, hact, hpath]
    · simp [entries, Path.enumerate, hlist, hact, hb]

theorem count_folder_breaks :
    (Shelf.folder root files).count = .error (.breakdown b) ↔
      files.listable = true ∧ root.bytes = .error b := by
  rw [← entries_breaks]
  simp only [count]
  split <;> simp_all

theorem keys_folder_breaks :
    (Shelf.folder root files).keys.outcome = .error (.breakdown b) ↔
      ∃ path e, root.bytes = .ok path ∧ files.isFolder path = .error e ∧
        e ≠ .noEntry ∧ e ≠ .notFolder ∧ b = .os ⟨e, root.text⟩ := by
  rw [← Path.isFolder_eq_error]
  simp only [keys]
  cases hfolder : root.isFolder files with
  | error b' => simp
  | ok found =>
    cases found with
    | false => simp
    | true =>
      -- A path that leads to a folder has bytes, so the folder can be enumerated or refuses it.
      obtain ⟨l, hl, -⟩ := Path.isFolder_eq_true.mp hfolder
      obtain ⟨path, hpath, -⟩ := Path.act_eq_ok.mp hl
      simp only [reduceCtorEq, iff_false]
      intro h
      split at h
      · rename_i e he
        cases h
        obtain ⟨-, hb⟩ := entries_breaks.mp he
        rw [hpath] at hb
        cases hb
      · cases h

end Shelf

namespace Store

variable {store : Store} {name text : Text} {b : Breakdown}

theorem load_breaks :
    store.load name = .error (.breakdown b) ↔
      ∃ root files, store.shelf = .folder root files ∧ (root.append name).bytes = .error b := by
  have hload : store.load name = .error (.breakdown b) ↔
      store.shelf.get name = .error (.breakdown b) := by
    simp only [load]
    split
    · simp_all
    · split <;> simp_all
  rw [hload]
  cases hshelf : store.shelf with
  | memory scripts => simp only [Shelf.get]; split <;> simp
  | folder root files => simp [Shelf.get_folder_breaks]

/-- All the ways in which answering a request can break down. -/
inductive Breaks (store : Store) : Request → Breakdown → Prop
  | listing {root : Path} {files : FileSystem} {path : Bytes}
      (hshelf : store.shelf = .folder root files) (hpath : root.bytes = .ok path)
      (hlong : files.isFolder path = .error .nameTooLong) :
      Breaks store .list (.os ⟨.nameTooLong, root.text⟩)
  | reading {root : Path} {files : FileSystem} {name : Text} {b : Breakdown}
      (hshelf : store.shelf = .folder root files) (hname : (root.append name).bytes = .error b) :
      Breaks store (.fetch name) b
  | nesting {name text : Text} (htext : store.load name = .ok text)
      (hdeep : Json.readText .refuse text = .error .tooDeep) : Breaks store (.fetch name) .tooDeep
  | counting {root : Path} {files : FileSystem} {new : NewScript} {b : Breakdown}
      (hshelf : store.shelf = .folder root files) (hlist : files.listable = true)
      (hroot : root.bytes = .error b) : Breaks store (.save new) b
  | encoding {new : NewScript} {count : Nat} {fault : EncodeFault}
      (hcount : store.shelf.count = .ok count) (hcap : (count : Int) < store.cap)
      (hscript : new.script.encode = .error fault) : Breaks store (.save new) (.unencodable fault)
  | writing {root : Path} {files : FileSystem} {new : NewScript} {count : Nat} {b : Breakdown}
      (hshelf : store.shelf = .folder root files) (hcount : store.shelf.count = .ok count)
      (hcap : (count : Int) < store.cap) (hscript : new.script.isScalar = true)
      (hname : (root.append new.name).bytes = .error b) : Breaks store (.save new) b

theorem list_breaks :
    store.list.outcome = .error (.breakdown b) ↔ store.Breaks .list b := by
  constructor
  · intro h
    unfold list at h
    cases hshelf : store.shelf with
    | memory scripts =>
      rw [hshelf] at h
      cases h
    | folder root files =>
      rw [hshelf] at h
      obtain ⟨path, e, hpath, hfault, hentry, hfolder, rfl⟩ := Shelf.keys_folder_breaks.mp h
      -- of the faults that are passed on, looking a path up has one
      rcases FileSystem.isFolder_eq_error hfault with rfl | rfl | ⟨rfl, -⟩
      · exact absurd rfl hfolder
      · exact absurd rfl hentry
      · exact .listing hshelf hpath hfault
  · rintro ⟨hshelf, hpath, hlong⟩
    unfold list
    rw [hshelf]
    exact Shelf.keys_folder_breaks.mpr ⟨_, _, hpath, hlong, by decide, by decide, rfl⟩

theorem fetch_breaks :
    store.fetch name = .error (.breakdown b) ↔ store.Breaks (.fetch name) b := by
  unfold fetch
  constructor
  · intro h
    split at h
    · rename_i e he
      cases h
      obtain ⟨root, files, hshelf, hname⟩ := load_breaks.mp he
      exact .reading hshelf hname
    · rename_i text htext
      split at h
      · cases h
      · cases h
      · cases h
        exact .nesting htext (by assumption)
  · intro h
    cases h with
    | reading hshelf hname => rw [load_breaks.mpr ⟨_, _, hshelf, hname⟩]
    | nesting htext hdeep => simp [htext, hdeep]

theorem save_breaks :
    (store.save name text).outcome = .error (.breakdown b) ↔
      store.Breaks (.save ⟨name, text⟩) b := by
  rw [outcome_save]
  constructor
  · intro h
    rcases bind_eq_error.mp h with hcount | ⟨count, hcount, h⟩
    · cases hshelf : store.shelf with
      | memory scripts =>
        rw [hshelf] at hcount
        cases hcount
      | folder root files =>
        rw [hshelf] at hcount
        obtain ⟨hlist, hroot⟩ := Shelf.count_folder_breaks.mp hcount
        exact .counting hshelf hlist hroot
    · split at h
      · cases h
      · rename_i hcap
        have hroom : (count : Int) < store.cap := by omega
        split at h
        · cases h
          exact .encoding hcount hroom (by assumption)
        · rename_i bytes hbytes
          obtain ⟨hscript, -⟩ := Text.encode_eq_ok.mp hbytes
          rcases bind_eq_error.mp h with hput | ⟨shelf, -, h⟩
          · cases hshelf : store.shelf with
            | memory scripts =>
              rw [hshelf] at hput
              cases hput
            | folder root files =>
              rw [hshelf] at hput
              exact .writing hshelf hcount hroom hscript (Shelf.put_folder_breaks.mp hput)
          · cases h
  · intro h
    cases h with
    | counting hshelf hlist hroot =>
      rw [hshelf]
      exact bind_eq_error.mpr (.inl (Shelf.count_folder_breaks.mpr ⟨hlist, hroot⟩))
    | encoding hcount hcap hscript =>
      refine bind_eq_error.mpr (.inr ⟨_, hcount, ?_⟩)
      rw [if_neg (by omega), hscript]
    | writing hshelf hcount hcap hscript hname =>
      refine bind_eq_error.mpr (.inr ⟨_, hcount, ?_⟩)
      rw [if_neg (by omega), Text.encode_eq_ok.mpr ⟨hscript, rfl⟩, hshelf]
      exact bind_eq_error.mpr (.inl (Shelf.put_folder_breaks.mpr hname))

theorem answer_failed {α : Type} {x : Except Failure α} {f : α → Response × Store} {e : Failure} :
    (do let a ← x; .ok (f a)) = .error e ↔ x = .error e := by
  cases x <;> simp [bind, Except.bind]

theorem answer_breaks {request : Request} :
    store.answer request = .error (.breakdown b) ↔ store.Breaks request b := by
  cases request with
  | list => exact answer_failed.trans list_breaks
  | fetch name => exact answer_failed.trans fetch_breaks
  | save new => exact answer_failed.trans save_breaks
  | unspecified => exact ⟨fun h => (nomatch h), fun h => (nomatch h)⟩

end Store

/-! ## The request of a message -/

theorem Command.ofName_eq_ok {what : Text} {command : Command} :
    Command.ofName what = .ok command ↔ what = command.name := by
  constructor
  · intro h
    unfold Command.ofName at h
    split at h
    · rename_i found hfind
      cases h
      have hname := List.find?_some hfind
      exact (of_decide_eq_true hname).symm
    · cases h
  · rintro rfl
    cases command <;> rfl

theorem Command.ofName_eq_error {what : Text} {e : Failure}
    (h : Command.ofName what = .error e) : e = Refusal.unknownCommand what := by
  unfold Command.ofName at h
  split at h
  · cases h
  · cases h
    rfl

theorem NewScript.ofJson_eq_error {data : Json} {e : Failure}
    (h : NewScript.ofJson data = .error e) : ∃ fault, e = Refusal.payload fault := by
  have hfield : ∀ {members key}, NewScript.field members key = .error e →
      ∃ fault, e = Refusal.payload fault := by
    intro members key h
    unfold NewScript.field at h
    split at h <;> cases h <;> exact ⟨_, rfl⟩
  cases data with
  | obj members =>
    rcases bind_eq_error.mp h with h | ⟨name, -, h⟩
    · exact hfield h
    rcases bind_eq_error.mp h with h | ⟨script, -, h⟩
    · exact hfield h
    split at h <;> cases h
    exact ⟨_, rfl⟩
  | _ =>
    cases h
    exact ⟨_, rfl⟩

theorem Payload.ofData_eq_error {command : Command} {data : Json} {e : Failure}
    (h : Payload.ofData command data = .error e) : ∃ fault, e = Refusal.payload fault := by
  unfold Payload.ofData at h
  split at h
  · cases h
  · cases command with
    | listScripts => cases h
    | getScript => cases h
    | saveScript =>
      dsimp only at h
      split at h
      · cases h
      · cases h
        exact NewScript.ofJson_eq_error ‹_›

def Message.request (message : Message) : Except Failure Request := do
  let command ← Command.ofName message.what
  let payload ← Payload.ofData command message.data
  return .of command payload

namespace Message

variable {message : Message}

theorem request_eq_error {e : Failure} (h : message.request = .error e) :
    e = Refusal.unknownCommand message.what ∨ ∃ fault, e = Refusal.payload fault := by
  rcases bind_eq_error.mp h with h | ⟨command, -, h⟩
  · exact .inl (Command.ofName_eq_error h)
  rcases bind_eq_error.mp h with h | ⟨payload, -, h⟩
  · exact .inr (Payload.ofData_eq_error h)
  · cases h

theorem request_ne_breakdown (b : Breakdown) : message.request ≠ .error (.breakdown b) := by
  intro h
  rcases request_eq_error h with he | ⟨fault, he⟩ <;> cases he

theorem request_eq_save {new : NewScript} :
    message.request = .ok (.save new) ↔
      message.what = "savescript" ∧ NewScript.ofJson message.data = .ok new := by
  constructor
  · intro h
    obtain ⟨command, hcommand, h⟩ := bind_eq_ok.mp h
    obtain ⟨payload, hpayload, h⟩ := bind_eq_ok.mp h
    rw [Command.ofName_eq_ok] at hcommand
    cases command with
    | listScripts => cases h
    | getScript => cases payload <;> cases h
    | saveScript =>
      refine ⟨hcommand, ?_⟩
      cases payload <;> cases h
      unfold Payload.ofData at hpayload
      split at hpayload
      · cases hpayload
      · dsimp only at hpayload
        split at hpayload <;> cases hpayload
        assumption
  · rintro ⟨hwhat, hnew⟩
    have hpayload : Payload.ofData .saveScript message.data = .ok (.newScript new) := by
      unfold Payload.ofData
      cases hdata : message.data with
      | obj members => simp [← hdata, hnew, Json.isNull]
      | _ => simp [hdata, NewScript.ofJson] at hnew
    exact bind_eq_ok.mpr ⟨.saveScript, Command.ofName_eq_ok.mpr hwhat,
      bind_eq_ok.mpr ⟨_, hpayload, rfl⟩⟩

theorem request_eq_fetch {name : Text} :
    message.request = .ok (.fetch name) ↔
      message.what = "getscript" ∧ message.data.isNull = false ∧
        name = scriptName message.data := by
  constructor
  · intro h
    obtain ⟨command, hcommand, h⟩ := bind_eq_ok.mp h
    obtain ⟨payload, hpayload, h⟩ := bind_eq_ok.mp h
    rw [Command.ofName_eq_ok] at hcommand
    cases command with
    | listScripts => cases h
    | saveScript => cases payload <;> cases h
    | getScript =>
      refine ⟨hcommand, ?_⟩
      unfold Payload.ofData at hpayload
      split at hpayload
      · cases hpayload
        cases h
      · cases hpayload
        cases h
        exact ⟨by simp_all, rfl⟩
  · rintro ⟨hwhat, hdata, rfl⟩
    have hpayload : Payload.ofData .getScript message.data =
        .ok (.name (scriptName message.data)) := by
      simp [Payload.ofData, hdata]
    exact bind_eq_ok.mpr ⟨.getScript, Command.ofName_eq_ok.mpr hwhat,
      bind_eq_ok.mpr ⟨_, hpayload, rfl⟩⟩

end Message

namespace Store

theorem outcome_dispatch_request (store : Store) (message : Message) (peer : Option Text) :
    (store.dispatch message peer).outcome = message.request >>= store.answer := by
  rw [outcome_dispatch, Message.request]
  simp only [bind_assoc, pure_bind]

end Store

/-! ## The reply to a frame -/

theorem Frame.request_breaks {frame : Frame} {b : Breakdown} :
    frame.request = .error (.breakdown b) ↔
      frame.read .refuse = .error .tooDeep ∧ b = .tooDeep := by
  have hrequest : frame.request = Message.ofFrame frame >>= Message.request := rfl
  rw [hrequest, bind_eq_error]
  simp only [Message.request_ne_breakdown, and_false, exists_false, or_false, Message.ofFrame]
  split
  · rename_i v hread
    have hmake : Message.ofJson v ≠ .error (.breakdown b) := by
      intro h
      unfold Message.ofJson at h
      split at h
      · split at h
        · cases h
        · unfold Message.make at h
          split at h <;> cases h
      · cases h
    simp [hmake, hread]
  · simp_all
  · rename_i hread
    simp [hread, eq_comm]

namespace Store

/-- Only a folder whose path is too long makes a request break down on a fault of the system. -/
theorem Breaks.tooLong {store : Store} {request : Request} {b : Breakdown}
    (h : store.Breaks request b) (hreported : b.reported? ≠ none) :
    ∃ root files path, store.shelf = .folder root files ∧ root.bytes = .ok path ∧
      FileSystem.TooLong path := by
  cases h with
  | listing hshelf hpath hlong =>
    rcases FileSystem.isFolder_eq_error hlong with h | h | ⟨-, h⟩
    · cases h
    · cases h
    · exact ⟨_, _, _, hshelf, hpath, h⟩
  | reading _ hname | writing _ _ _ _ hname => exact absurd (Path.bytes_unreported hname) hreported
  | counting _ _ hroot => exact absurd (Path.bytes_unreported hroot) hreported
  | _ => exact absurd rfl hreported

/-- A frame breaks down when it is nested too deeply, when its request does, or when the script that
it asks for holds a number that cannot be written. -/
theorem respond_breaks {store : Store} {frame : Frame} {b : Breakdown} :
    store.respond frame = .error (.breakdown b) ↔
      (frame.read .refuse = .error .tooDeep ∧ b = .tooDeep) ∨
      (∃ request, frame.request = .ok request ∧ store.Breaks request b) ∨
      ∃ name script, frame.request = .ok (.fetch name) ∧ store.fetch name = .ok script ∧
        script.isFinite = false ∧ b = .notFinite := by
  rw [respond, bind_eq_error, Frame.request_breaks]
  refine or_congr_right ?_
  constructor
  · rintro ⟨request, hrequest, h⟩
    rcases bind_eq_error.mp h with h | ⟨⟨response, after⟩, hanswer, h⟩
    · exact .inl ⟨request, hrequest, answer_breaks.mp h⟩
    rcases bind_eq_error.mp h with hencode | ⟨text, -, h⟩
    · obtain ⟨-, he, name, script, rfl, hscript, hfinite⟩ := answer_encode_eq_error hanswer hencode
      cases he
      exact .inr ⟨name, script, hrequest, hscript, hfinite, rfl⟩
    · cases h
  · rintro (⟨request, hrequest, h⟩ | ⟨name, script, hrequest, hscript, hfinite, rfl⟩)
    · exact ⟨request, hrequest, bind_eq_error.mpr (.inl (answer_breaks.mpr h))⟩
    · refine ⟨_, hrequest, ?_⟩
      simp [answer, hscript, Response.encode, hfinite, bind, Except.bind]

end Store

end ScriptDepot
