import ScriptDepot.Proofs.Breakdown
/-!
# The refusals of a dispatch

Answering a message ends in a response or in a refusal that goes with a message: the command is not
known, the data has the wrong shape, the script is not JSON, or something is wrong with the store.
In memory there are two exceptions, in which the store breaks down instead.
-/

namespace ScriptDepot

/-- The refusals that go with a message; the others come of configurations and of frames. -/
def Refusal.isAnswer : Refusal → Bool
  | .unknownCommand _ | .payload _ | .script _ _ => true
  | .notFound _ | .storage _ | .notFolder _ | .full _ _ => true
  | .config _ | .message _ => false

namespace Shelf

variable {shelf : Shelf} {name : Text} {bytes : Bytes} {r : Refusal}

theorem isAnswer_of_get (h : shelf.get name = .error (.refusal r)) : r.isAnswer = true := by
  cases shelf with
  | memory scripts =>
    simp only [get] at h
    split at h <;> cases h
    rfl
  | folder root files =>
    simp only [get] at h
    split at h
    · cases h
    · split at h <;> cases h <;> rfl
    · cases h

theorem isAnswer_of_put (h : shelf.put name bytes = .error (.refusal r)) : r.isAnswer = true := by
  cases shelf with
  | memory scripts => cases h
  | folder root files =>
    simp only [put] at h
    split at h <;> cases h
    rfl

theorem isAnswer_of_entries {root : Path} {files : FileSystem}
    (h : entries root files = .error (.refusal r)) : r.isAnswer = true := by
  unfold entries at h
  split at h <;> cases h
  rfl

theorem isAnswer_of_count (h : shelf.count = .error (.refusal r)) : r.isAnswer = true := by
  cases shelf with
  | memory scripts => cases h
  | folder root files =>
    simp only [count] at h
    split at h
    · cases h
    · cases h
      exact isAnswer_of_entries ‹_›

theorem isAnswer_of_keys (h : shelf.keys.outcome = .error (.refusal r)) : r.isAnswer = true := by
  cases shelf with
  | memory scripts => cases h
  | folder root files =>
    simp only [keys] at h
    split at h
    · cases h
    · cases h
      rfl
    · split at h
      · cases h
        exact isAnswer_of_entries ‹_›
      · cases h

end Shelf

namespace Store

variable {store : Store} {name text : Text} {r : Refusal}

theorem isAnswer_of_fetch (h : store.fetch name = .error (.refusal r)) : r.isAnswer = true := by
  unfold fetch load at h
  split at h
  · cases h
    rename_i hload
    split at hload
    · cases hload
      exact Shelf.isAnswer_of_get ‹_›
    · split at hload <;> cases hload
      rfl
  · split at h <;> cases h
    rfl

theorem isAnswer_of_save (h : (store.save name text).outcome = .error (.refusal r)) :
    r.isAnswer = true := by
  rw [outcome_save] at h
  rcases bind_eq_error.mp h with hcount | ⟨count, -, h⟩
  · exact Shelf.isAnswer_of_count hcount
  split at h
  · cases h
    rfl
  split at h
  · cases h
  · rcases bind_eq_error.mp h with hput | ⟨shelf, -, h⟩
    · exact Shelf.isAnswer_of_put hput
    · cases h

theorem isAnswer_of_answer {request : Request} (h : store.answer request = .error (.refusal r)) :
    r.isAnswer = true := by
  cases request with
  | list => exact Shelf.isAnswer_of_keys (answer_failed.mp h)
  | fetch name => exact isAnswer_of_fetch (answer_failed.mp h)
  | save new => exact isAnswer_of_save (answer_failed.mp h)
  | unspecified => cases h

end Store

theorem Message.isAnswer_of_request {message : Message} {r : Refusal}
    (h : message.request = .error (.refusal r)) : r.isAnswer = true := by
  rcases request_eq_error h with he | ⟨fault, he⟩ <;> cases he <;> rfl

namespace Store

theorem breaks_memory {scripts : Ledger Text Bytes} {cap : Int} {serialized : Bool}
    {request : Request} {b : Breakdown} :
    Breaks ⟨.memory scripts, cap, serialized⟩ request b ↔
      (∃ new fault, request = .save new ∧ (scripts.size : Int) < cap ∧
        new.script.encode = .error fault ∧ b = .unencodable fault) ∨
      (∃ name bytes text, request = .fetch name ∧ scripts.get? name = some bytes ∧
        Utf8.decode .strict bytes = .ok text ∧ Json.readText .refuse text = .error .tooDeep ∧
        b = .tooDeep) := by
  constructor
  · intro h
    cases h with
    | listing hshelf | reading hshelf | counting hshelf | writing hshelf => cases hshelf
    | encoding hcount hcap hscript =>
      cases hcount
      exact .inl ⟨_, _, rfl, hcap, hscript, rfl⟩
    | @nesting name text htext hdeep =>
      simp only [load, Shelf.get] at htext
      cases hbytes : scripts.get? name with
      | none => simp [hbytes] at htext
      | some bytes =>
        simp only [hbytes] at htext
        split at htext <;> cases htext
        exact .inr ⟨name, bytes, text, rfl, hbytes, by assumption, hdeep, rfl⟩
  · rintro (⟨new, fault, rfl, hcap, hscript, rfl⟩ |
      ⟨name, bytes, text, rfl, hbytes, htext, hdeep, rfl⟩)
    · exact .encoding rfl hcap hscript
    · exact .nesting (by simp [load, Shelf.get, hbytes, htext]) hdeep

/-- A message that a store in memory fails to answer is refused for one of the reasons that go with
a message, but for two cases in which the store breaks down: a script with a surrogate in it is
saved while there is room, or the script that is asked for is nested too deeply. -/
theorem dispatch_refuses_or_breaks (scripts : Ledger Text Bytes) (cap : Int) (serialized : Bool)
    (message : Message) (peer : Option Text) :
    let outcome := (dispatch ⟨.memory scripts, cap, serialized⟩ message peer).outcome
    (∀ r, outcome = .error (.refusal r) → r.isAnswer = true) ∧
      ∀ b, outcome = .error (.breakdown b) ↔
        (∃ new fault, message.what = "savescript" ∧ NewScript.ofJson message.data = .ok new ∧
          (scripts.size : Int) < cap ∧ new.script.encode = .error fault ∧
          b = .unencodable fault) ∨
        (∃ bytes text, message.what = "getscript" ∧ message.data.isNull = false ∧
          scripts.get? (scriptName message.data) = some bytes ∧
          Utf8.decode .strict bytes = .ok text ∧ Json.readText .refuse text = .error .tooDeep ∧
          b = .tooDeep) := by
  intro outcome
  have houtcome : outcome = message.request >>= answer ⟨.memory scripts, cap, serialized⟩ :=
    outcome_dispatch_request _ message peer
  rw [houtcome]
  refine ⟨?_, ?_⟩
  · intro r h
    rcases bind_eq_error.mp h with h | ⟨request, -, h⟩
    · exact Message.isAnswer_of_request h
    · exact isAnswer_of_answer h
  · intro b
    -- decoding only refuses, so a breakdown comes of the answer
    simp only [bind_eq_error, Message.request_ne_breakdown, false_or, answer_breaks, breaks_memory]
    constructor
    · rintro ⟨request, hrequest, ⟨new, fault, rfl, h⟩ | ⟨name, bytes, text, rfl, h⟩⟩
      · obtain ⟨hwhat, hnew⟩ := Message.request_eq_save.mp hrequest
        exact .inl ⟨new, fault, hwhat, hnew, h⟩
      · obtain ⟨hwhat, hdata, rfl⟩ := Message.request_eq_fetch.mp hrequest
        exact .inr ⟨bytes, text, hwhat, hdata, h⟩
    · rintro (⟨new, fault, hwhat, hnew, h⟩ | ⟨bytes, text, hwhat, hdata, h⟩)
      · exact ⟨_, Message.request_eq_save.mpr ⟨hwhat, hnew⟩, .inl ⟨new, fault, rfl, h⟩⟩
      · exact ⟨_, Message.request_eq_fetch.mpr ⟨hwhat, hdata, rfl⟩, .inr ⟨_, bytes, text, rfl, h⟩⟩

def loneSurrogate : Message :=
  ⟨"savescript", .obj [("name", .str "a"), ("script", .str [CodePoint.ofNat 0xD800])]⟩

theorem dispatch_breaks_on_surrogate :
    (dispatch ⟨.memory .empty, defaultCap, false⟩ loneSurrogate none).outcome =
      .error (.breakdown (.unencodable ⟨CodePoint.ofNat 0xD800, 0, 1⟩)) := by
  rfl

end Store

end ScriptDepot
