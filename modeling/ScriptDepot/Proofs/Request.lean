import ScriptDepot.Endpoint
import ScriptDepot.Proofs.Json.Written
/-!
# What a frame asks for, and what it comes to

A frame is decoded without a look at the store; what it asks for is answered afterwards.  So the
reply to a frame and the store after it depend on the frame's request alone, and there are five
things that answering a request can come to.
-/

namespace ScriptDepot

inductive Request where
  | list
  | fetch (name : Text)
  | save (new : NewScript)
  /-- A command on a script, with no script to go with it. -/
  | unspecified
deriving DecidableEq

namespace Request

def of : Command → Payload → Request
  | .listScripts, _ => .list
  | .getScript, .name name => .fetch name
  | .saveScript, .newScript new => .save new
  | _, _ => .unspecified

end Request

def Frame.request (frame : Frame) : Except Failure Request := do
  let message ← Message.ofFrame frame
  let command ← Command.ofName message.what
  let payload ← Payload.ofData command message.data
  return .of command payload

namespace Store

def answer (store : Store) : Request → Except Failure (Response × Store)
  | .list => do
    let names ← store.list.outcome
    .ok (⟨"scriptlist", .arr (names.map .str)⟩, store)
  | .fetch name => do
    let script ← store.fetch name
    .ok (⟨"script", script⟩, store)
  | .save new => do
    let after ← (store.save new.name new.script).outcome
    .ok (⟨"script written!", .null⟩, after)
  | .unspecified => .ok (⟨"no script specified!", .null⟩, store)

theorem outcome_perform (store : Store) (command : Command) (payload : Payload) :
    (store.perform command payload).outcome = store.answer (.of command payload) := by
  cases command <;> cases payload <;> simp [perform, Request.of, answer]

theorem outcome_dispatch (store : Store) (message : Message) (peer : Option Text) :
    (store.dispatch message peer).outcome = (do
      let command ← Command.ofName message.what
      let payload ← Payload.ofData command message.data
      store.answer (.of command payload)) := by
  unfold dispatch
  cases message.data.isNull <;>
    simp only [Bool.not_true, Bool.not_false, Bool.false_eq_true, if_true, if_false,
      Act.outcome_bind, Act.outcome_ofExcept, Act.outcome_note, outcome_perform]
  all_goals rfl

theorem outcome_receive (store : Store) (frame : Frame) (peer : Option Text) :
    (store.receive frame peer).outcome = frame.request >>= store.answer := by
  unfold receive Frame.request
  simp only [Act.outcome_bind, Act.outcome_ofExcept, outcome_dispatch, bind_assoc, pure_bind]

end Store

theorem Response.encode_eq_error {r : Response} {e : Failure} :
    r.encode = .error e ↔ e = Breakdown.notFinite ∧ r.content.isFinite = false := by
  unfold encode
  cases hfinite : r.content.isFinite with
  | true => simp
  | false => simp [eq_comm]

namespace Store

/-- The only response that cannot be written is a script with a number that is not finite. -/
theorem answer_encode_eq_error {store after : Store} {request : Request} {response : Response}
    {e : Failure} (hanswer : store.answer request = .ok (response, after))
    (hencode : response.encode = .error e) :
    after = store ∧ e = Breakdown.notFinite ∧
      ∃ name script, request = .fetch name ∧ store.fetch name = .ok script ∧
        script.isFinite = false := by
  obtain ⟨rfl, hcontent⟩ := Response.encode_eq_error.mp hencode
  cases request with
  | list =>
    obtain ⟨names, -, h⟩ := bind_eq_ok.mp hanswer
    cases h
    rw [Json.isFinite_strings] at hcontent
    cases hcontent
  | fetch name =>
    obtain ⟨script, hscript, h⟩ := bind_eq_ok.mp hanswer
    cases h
    exact ⟨rfl, rfl, name, script, rfl, hscript, hcontent⟩
  | save new =>
    obtain ⟨saved, -, h⟩ := bind_eq_ok.mp hanswer
    cases h
    cases hcontent
  | unspecified =>
    cases hanswer
    cases hcontent

theorem receive_encode_eq_error {store after : Store} {frame : Frame} {peer : Option Text}
    {response : Response} {e : Failure}
    (hreceive : (store.receive frame peer).outcome = .ok (response, after))
    (hencode : response.encode = .error e) : after = store := by
  rw [outcome_receive] at hreceive
  obtain ⟨request, -, hanswer⟩ := bind_eq_ok.mp hreceive
  exact (answer_encode_eq_error hanswer hencode).1

def respond (store : Store) (frame : Frame) : Except Failure (Text × Store) := do
  let request ← frame.request
  let (response, after) ← store.answer request
  let text ← response.encode
  .ok (text, after)

theorem respond_of_receive (store : Store) (frame : Frame) (peer : Option Text) :
    store.respond frame = (do
      let (response, after) ← (store.receive frame peer).outcome
      let text ← response.encode
      .ok (text, after)) := by
  rw [outcome_receive, bind_assoc]
  rfl

/-- A frame that fails leaves the store as it was: the one response that is not written comes of a
request that changes nothing. -/
theorem handle_value (store : Store) (frame : Frame) (peer : Option Text) :
    (store.handle frame peer).value =
      match store.respond frame with
      | .ok done => done
      | .error e => (failureReply e, store) := by
  rw [store.respond_of_receive frame peer]
  unfold handle
  cases houtcome : (store.receive frame peer).outcome with
  | error e => simp [houtcome, bind, Except.bind]
  | ok done =>
    obtain ⟨response, after⟩ := done
    cases hencode : response.encode with
    | ok text => simp [houtcome, hencode, bind, Except.bind]
    | error e =>
      have hsame : after = store := receive_encode_eq_error houtcome hencode
      simp [houtcome, hencode, hsame, bind, Except.bind]

/-! ## Saving -/

theorem outcome_save (store : Store) (name text : Text) :
    (store.save name text).outcome = (do
      let count ← store.shelf.count
      if store.cap ≤ count then .error (Refusal.full count store.cap)
      else
        match text.encode with
        | .error fault => .error (Breakdown.unencodable fault)
        | .ok bytes => do
          let shelf ← store.shelf.put name bytes
          .ok { store with shelf := shelf }) := by
  unfold save
  simp only [Act.outcome_bind, Act.outcome_ofExcept]
  congr 1
  funext count
  split
  · rfl
  · cases text.encode with
    | error fault => rfl
    | ok bytes =>
      simp only [Act.outcome_bind, Act.outcome_note, Act.outcome_pure, Shelf.putLogged]
      cases store.shelf.put name bytes <;> rfl

theorem outcome_save_eq_ok {store after : Store} {name text : Text} :
    (store.save name text).outcome = .ok after ↔
      ∃ count bytes shelf, store.shelf.count = .ok count ∧ (count : Int) < store.cap ∧
        text.encode = .ok bytes ∧ store.shelf.put name bytes = .ok shelf ∧
        after = { store with shelf := shelf } := by
  rw [outcome_save]
  constructor
  · intro h
    obtain ⟨count, hcount, h⟩ := bind_eq_ok.mp h
    split at h
    · cases h
    · rename_i hcap
      split at h
      · cases h
      · rename_i bytes hbytes
        obtain ⟨shelf, hput, h⟩ := bind_eq_ok.mp h
        cases h
        exact ⟨count, bytes, shelf, hcount, by omega, hbytes, hput, rfl⟩
  · rintro ⟨count, bytes, shelf, hcount, hcap, hbytes, hput, rfl⟩
    refine bind_eq_ok.mpr ⟨count, hcount, ?_⟩
    rw [if_neg (by omega), hbytes]
    exact bind_eq_ok.mpr ⟨shelf, hput, rfl⟩

end Store

end ScriptDepot
