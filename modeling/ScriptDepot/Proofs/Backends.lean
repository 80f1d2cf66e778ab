import ScriptDepot.Proofs.Conversation
import ScriptDepot.Proofs.Json.Written
import ScriptDepot.Proofs.Mirror
/-!
# Memory and folder answer alike

A store in memory and a store on an empty folder get the same frames.  As long as the names in the
frames are plain, no reply but a listing tells the two stores apart.
-/

namespace ScriptDepot

def Request.IsPlain (root : Path) : Request → Prop
  | .list => True
  | .fetch name => root.IsPlain name
  | .save new => root.IsPlain new.name
  | .unspecified => True

instance (root : Path) (request : Request) : Decidable (request.IsPlain root) :=
  match request with
  | .list => .isTrue trivial
  | .fetch name => inferInstanceAs (Decidable (root.IsPlain name))
  | .save new => inferInstanceAs (Decidable (root.IsPlain new.name))
  | .unspecified => .isTrue trivial

/-- The name in a frame, if it asks for a script or saves one, is plain. -/
def Frame.IsPlain (root : Path) (frame : Frame) : Prop :=
  ∀ request, frame.request = .ok request → request.IsPlain root

theorem toOption_eq_some {ε α : Type} {x : Except ε α} {a : α} :
    x.toOption = some a ↔ x = .ok a := by
  cases x <;> simp [Except.toOption]

instance (root : Path) (frame : Frame) : Decidable (frame.IsPlain root) :=
  decidable_of_iff (∀ request ∈ frame.request.toOption, request.IsPlain root)
    (forall_congr' fun _ => imp_congr_left toOption_eq_some)

namespace Store

/-- A store in memory, and one with the same cap on a folder that mirrors it. -/
inductive Mirrored (root : Path) : Store → Store → Prop
  | mk {l : Location} {scripts : Ledger Text Bytes} {files : FileSystem}
      (h : Shelf.Mirrors root l scripts files) (cap : Int) (serialized serialized' : Bool) :
      Mirrored root ⟨.memory scripts, cap, serialized⟩ ⟨.folder root files, cap, serialized'⟩

namespace Mirrored

variable {root : Path} {store other : Store}

theorem fetch_eq (h : Mirrored root store other) {name : Text} (hname : root.IsPlain name) :
    other.fetch name = store.fetch name := by
  obtain ⟨h, cap, serialized, serialized'⟩ := h
  simp only [fetch, load, h.get_eq hname]

theorem size_eq (h : Mirrored root store other) : other.size = store.size := by
  obtain ⟨h, cap, serialized, serialized'⟩ := h
  exact h.count_eq

theorem list (h : Mirrored root store other) :
    ∃ scripts, store.shelf = .memory scripts ∧ store.list.outcome = .ok scripts.keys ∧
      other.list.outcome = .ok ((Shelf.byBytes scripts.keys).map Path.stem) := by
  obtain ⟨h, cap, serialized, serialized'⟩ := h
  exact ⟨_, rfl, rfl, h.outcome_keys⟩

theorem save (h : Mirrored root store other) {name : Text} (hname : root.IsPlain name)
    (text : Text) :
    (∃ e, (store.save name text).outcome = .error e ∧ (other.save name text).outcome = .error e) ∨
      ∃ after after', (store.save name text).outcome = .ok after ∧
        (other.save name text).outcome = .ok after' ∧ Mirrored root after after' := by
  obtain ⟨h, cap, serialized, serialized'⟩ := h
  rw [outcome_save, outcome_save, h.count_eq]
  simp only [Shelf.count, bind, Except.bind]
  split
  · exact .inl ⟨_, rfl, rfl⟩
  · cases text.encode with
    | error fault => exact .inl ⟨_, rfl, rfl⟩
    | ok bytes =>
      obtain ⟨files, hput, hmirrors⟩ := h.put hname bytes
      refine .inr ⟨_, _, rfl, ?_, .mk hmirrors cap serialized serialized'⟩
      simp only [hput]

theorem answer (h : Mirrored root store other) {request : Request} (hplain : request.IsPlain root)
    (hlist : request ≠ .list) :
    (∃ e, store.answer request = .error e ∧ other.answer request = .error e) ∨
      ∃ response after after', store.answer request = .ok (response, after) ∧
        other.answer request = .ok (response, after') ∧ Mirrored root after after' := by
  cases request with
  | list => exact absurd rfl hlist
  | fetch name =>
    simp only [Store.answer, h.fetch_eq hplain]
    cases store.fetch name with
    | error e => exact .inl ⟨e, rfl, rfl⟩
    | ok script => exact .inr ⟨_, store, other, rfl, rfl, h⟩
  | save new =>
    simp only [Store.answer]
    rcases h.save hplain new.script with ⟨e, hstore, hother⟩ | ⟨after, after', hstore, hother, h'⟩
    · rw [hstore, hother]
      exact .inl ⟨e, rfl, rfl⟩
    · rw [hstore, hother]
      exact .inr ⟨_, after, after', rfl, rfl, h'⟩
  | unspecified => exact .inr ⟨_, store, other, rfl, rfl, h⟩

theorem handle (h : Mirrored root store other) {frame : Frame} (hframe : frame.IsPlain root)
    (hlist : frame.request ≠ .ok .list) (peer : Option Text) :
    (store.handle frame peer).value.1 = (other.handle frame peer).value.1 ∧
      Mirrored root (store.handle frame peer).value.2 (other.handle frame peer).value.2 := by
  rw [handle_value, handle_value]
  unfold respond
  cases hrequest : frame.request with
  | error e => exact ⟨rfl, h⟩
  | ok request =>
    have hne : request ≠ .list := by
      rintro rfl
      exact hlist hrequest
    simp only [bind, Except.bind]
    rcases h.answer (hframe request hrequest) hne with
      ⟨e, hstore, hother⟩ | ⟨response, after, after', hstore, hother, h'⟩
    · rw [hstore, hother]
      exact ⟨rfl, h⟩
    · rw [hstore, hother]
      dsimp only
      cases response.encode with
      | error e => exact ⟨rfl, h⟩
      | ok text => exact ⟨rfl, h'⟩

end Mirrored

theorem handle_list {store : Store} {frame : Frame} (hframe : frame.request = .ok .list)
    {names : List Text} (hnames : store.list.outcome = .ok names) (peer : Option Text) :
    (store.handle frame peer).value = (ReplyKind.list.reply (.arr (names.map .str)), store) := by
  have hencode := Response.encode_reply .list (Json.isFinite_strings names)
  rw [ReplyKind.what] at hencode
  rw [handle_value, respond, hframe]
  simp only [answer, hnames, bind, Except.bind, hencode]

theorem Mirrored.handle_kept {root : Path} {store other : Store} (h : Mirrored root store other)
    {frame : Frame} (hframe : frame.IsPlain root) (peer : Option Text) :
    Mirrored root (store.handle frame peer).value.2 (other.handle frame peer).value.2 := by
  by_cases hlist : frame.request = .ok .list
  · obtain ⟨scripts, -, hstore, hother⟩ := h.list
    rw [handle_list hlist hstore, handle_list hlist hother]
    exact h
  · exact (h.handle hframe hlist peer).2

theorem Mirrored.converse {root : Path} {store other : Store} (h : Mirrored root store other)
    {frames : List (Frame × Option Text)} (hframes : ∀ f ∈ frames, f.1.IsPlain root) :
    Mirrored root (store.converse frames).2 (other.converse frames).2 := by
  induction frames generalizing store other with
  | nil => exact h
  | cons f rest ih =>
    rw [List.forall_mem_cons] at hframes
    exact ih (h.handle_kept hframes.1 f.2) hframes.2

/-! ## Names in memory -/

def savedNames (store : Store) (frames : List (Frame × Option Text)) : List Text :=
  (store.savedScripts frames).map NewScript.name

theorem savedNames_cons (store : Store) (frame : Frame) (peer : Option Text)
    (rest : List (Frame × Option Text)) :
    store.savedNames ((frame, peer) :: rest) =
      (frame.saved (store.handle frame peer).value.1).toList.map NewScript.name ++
        (store.handle frame peer).value.2.savedNames rest := by
  rw [savedNames, savedScripts_cons, List.map_append]
  rfl

theorem handle_memory {store : Store} {scripts : Ledger Text Bytes}
    (h : store.shelf = .memory scripts) (frame : Frame) (peer : Option Text) :
    (frame.saved (store.handle frame peer).value.1 = none ∧
        (store.handle frame peer).value.2.shelf = .memory scripts) ∨
      ∃ new bytes, frame.saved (store.handle frame peer).value.1 = some new ∧
        (store.handle frame peer).value.2.shelf = .memory (scripts.put new.name bytes) := by
  rcases store.handle_saved frame peer with ⟨hnone, hkept⟩ | ⟨new, hsome, hsave⟩
  · exact .inl ⟨hnone, by rw [hkept, h]⟩
  · obtain ⟨count, bytes, shelf, -, -, -, hput, hafter⟩ := outcome_save_eq_ok.mp hsave
    rw [h] at hput
    cases hput
    exact .inr ⟨new, bytes, hsome, by rw [hafter]⟩

theorem keys_put_append_eraseDups (scripts : Ledger Text Bytes) (name : Text) (bytes : Bytes)
    (later : List Text) :
    (scripts.put name bytes).keys ++ (later.removeAll (scripts.put name bytes).keys).eraseDups =
      scripts.keys ++ ((name :: later).removeAll scripts.keys).eraseDups := by
  by_cases hmem : name ∈ scripts.keys
  · have hkeys : (scripts.put name bytes).keys = scripts.keys := Assoc.keys_put_of_mem hmem
    rw [hkeys, List.cons_removeAll, if_neg (by simpa using hmem)]
  · have hkeys : (scripts.put name bytes).keys = scripts.keys ++ [name] :=
      Assoc.keys_put_of_not_mem hmem
    have hlater : later.removeAll (scripts.keys ++ [name]) =
        (later.removeAll scripts.keys).filter (fun other => !other == name) := by
      simp only [List.removeAll, List.filter_filter]
      refine List.filter_congr fun other _ => ?_
      rw [Bool.eq_iff_iff]
      simp [and_comm]
    rw [hkeys, hlater, List.cons_removeAll, if_pos (by simpa using hmem), List.eraseDups_cons,
      List.append_assoc, List.singleton_append]

/-- Names stand in memory in the order in which they were first saved. -/
theorem keys_converse {store : Store} {scripts : Ledger Text Bytes}
    (h : store.shelf = .memory scripts) (frames : List (Frame × Option Text)) :
    ∃ scripts' : Ledger Text Bytes, (store.converse frames).2.shelf = .memory scripts' ∧
      scripts'.keys =
        scripts.keys ++ ((store.savedNames frames).removeAll scripts.keys).eraseDups := by
  induction frames generalizing store scripts with
  | nil => exact ⟨scripts, h, by simp [savedNames, savedScripts, List.removeAll]⟩
  | cons f rest ih =>
    obtain ⟨frame, peer⟩ := f
    rw [savedNames_cons]
    rcases handle_memory h frame peer with ⟨hnone, hkept⟩ | ⟨new, bytes, hsome, hput⟩
    · obtain ⟨scripts', hlast, hkeys⟩ := ih hkept
      refine ⟨scripts', hlast, ?_⟩
      rw [hnone, Option.toList_none, List.map_nil, List.nil_append]
      exact hkeys
    · obtain ⟨scripts', hlast, hkeys⟩ := ih hput
      refine ⟨scripts', hlast, ?_⟩
      rw [hsome, Option.toList_some, List.map_singleton, List.singleton_append, hkeys,
        keys_put_append_eraseDups]

/-! ## The two stores -/

theorem mirrored_start {store other : Store} {root : Path} {files : FileSystem}
    (hstore : store.shelf = .memory .empty) (hother : other.shelf = .folder root files)
    (hcap : store.cap = other.cap) (hroot : root.enumerate files = .ok []) :
    Mirrored root store other := by
  obtain ⟨l, h⟩ := Shelf.mirrors_empty hroot
  obtain ⟨shelf, cap, serialized⟩ := store
  obtain ⟨shelf', cap', serialized'⟩ := other
  cases hstore
  cases hother
  cases hcap
  exact .mk h cap serialized serialized'

/-- After any frames with plain names, both stores hold as many scripts.  The next frame gets the
same reply from both, unless it asks for a listing: then memory lists the names in the order in
which they were first saved, and the folder their stems in the order of the bytes of the names. -/
theorem memory_folder_agree (store other : Store) (root : Path) (files : FileSystem)
    (hstore : store.shelf = .memory .empty) (hother : other.shelf = .folder root files)
    (hcap : store.cap = other.cap) (hroot : root.enumerate files = .ok [])
    (frames : List (Frame × Option Text)) (hframes : ∀ f ∈ frames, f.1.IsPlain root)
    (frame : Frame) (hframe : frame.IsPlain root) (peer : Option Text) :
    let memory := (store.converse frames).2
    let folder := (other.converse frames).2
    let names := (store.savedNames frames).eraseDups
    (∃ scripts, memory.shelf = .memory scripts ∧ scripts.keys = names) ∧
      memory.size = .ok names.length ∧ folder.size = .ok names.length ∧
      (frame.request ≠ .ok .list →
        (memory.handle frame peer).value.1 = (folder.handle frame peer).value.1) ∧
      (frame.request = .ok .list →
        (memory.handle frame peer).value.1 = ReplyKind.list.reply (.arr (names.map .str)) ∧
          ∃ stems, Shelf.IsListing names stems ∧
            (folder.handle frame peer).value.1 = ReplyKind.list.reply (.arr (stems.map .str))) := by
  intro memory folder names
  have hmirrored : Mirrored root memory folder :=
    (mirrored_start hstore hother hcap hroot).converse hframes
  obtain ⟨scripts, hshelf, hkeys⟩ := keys_converse hstore frames
  have hnames : scripts.keys = names := by
    rw [hkeys]
    simp [Ledger.keys, Ledger.empty, Assoc.keys, List.removeAll, names]
  have hsize : memory.size = .ok names.length := by
    rw [← hnames, Store.size, hshelf]
    simp [Shelf.count, Ledger.size, Ledger.keys, Assoc.keys]
  refine ⟨⟨scripts, hshelf, hnames⟩, hsize, hmirrored.size_eq.trans hsize, ?_, ?_⟩
  · intro hlist
    exact (hmirrored.handle hframe hlist peer).1
  · intro hlist
    -- the one thing that the two tell apart: what they list, not what they hold
    obtain ⟨scripts', hshelf', hmemory, hfolder⟩ := hmirrored.list
    have hsame : scripts' = scripts := Shelf.memory.inj (hshelf'.symm.trans hshelf)
    rw [hsame, hnames] at hmemory hfolder
    rw [handle_list hlist hmemory, handle_list hlist hfolder]
    exact ⟨rfl, _, Shelf.isListing_byBytes names, rfl⟩

def inMemory : Store := ⟨.memory .empty, 3, true⟩

def inFolder : Store where
  shelf := .folder (Path.parse "scripts")
    { nodes := ⟨[([("work" : Text).utf8], .folder),
        ([("work" : Text).utf8, ("scripts" : Text).utf8], .folder),
        ([("work" : Text).utf8, ("b.tar.gz" : Text).utf8], .file [0x32])], by decide⟩
      here := [("work" : Text).utf8] }
  cap := 3
  serialized := false

def saving (name : Text) : Frame :=
  .text ("\x7b\"what\":\"savescript\",\"data\":\x7b\"name\":\"" ++ name ++
    "\",\"script\":\"1\"\x7d\x7d")

def listing : Frame := .text "\x7b\"what\":\"getscriptlist\"\x7d"

def threeSaves : List (Frame × Option Text) :=
  [(saving "b.tar.gz", none), (saving ".c", none), (saving "b.tar.gz", none)]

theorem memory_folder_agree_threeSaves :
    (∀ f ∈ threeSaves, f.1.IsPlain (Path.parse "scripts")) ∧
      (inMemory.converse threeSaves).2.size = .ok 2 ∧
      (inFolder.converse threeSaves).2.size = .ok 2 ∧
      ((inMemory.converse threeSaves).2.handle (saving "a") none).value.1 =
        ((inFolder.converse threeSaves).2.handle (saving "a") none).value.1 ∧
      ∃ stems, Shelf.IsListing [("b.tar.gz" : Text), ".c"] stems ∧
        ((inFolder.converse threeSaves).2.handle listing none).value.1 =
          ReplyKind.list.reply (.arr (stems.map .str)) := by
  have hframes : ∀ f ∈ threeSaves, f.1.IsPlain (Path.parse "scripts") := by decide +kernel
  have hsaving : (saving "a").request ≠ .ok .list := by
    have hrequest : (saving "a").request = .ok (.save ⟨"a", "1"⟩) :=
      toOption_eq_some.mp (by decide +kernel)
    rw [hrequest]
    intro h
    cases h
  have hlisting : listing.request = .ok .list := toOption_eq_some.mp (by decide +kernel)
  have hnames : (inMemory.savedNames threeSaves).eraseDups = [("b.tar.gz" : Text), ".c"] := by
    decide +kernel
  obtain ⟨-, hmemory, hfolder, hsaved, -⟩ := memory_folder_agree inMemory inFolder _ _ rfl rfl rfl
    rfl threeSaves hframes (saving "a") (by decide +kernel) none
  obtain ⟨-, -, -, -, hlisted⟩ := memory_folder_agree inMemory inFolder _ _ rfl rfl rfl rfl
    threeSaves hframes listing (by decide +kernel) none
  rw [hnames] at hmemory hfolder hlisted
  exact ⟨hframes, hmemory, hfolder, hsaved hsaving, (hlisted hlisting).2⟩

end Store

end ScriptDepot
