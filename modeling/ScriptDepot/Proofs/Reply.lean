import ScriptDepot.Proofs.Request
/-!
# The kinds of reply

Every reply is the text of a response of one of five kinds.  The kind can be read off the text: the
quoted `what` of one kind never starts that of another.
-/

namespace ScriptDepot

inductive ReplyKind where
  | script
  | written
  | list
  | unspecified
  | error
deriving DecidableEq

namespace ReplyKind

def what : ReplyKind → Text
  | .script => "script"
  | .written => "script written!"
  | .list => "scriptlist"
  | .unspecified => "no script specified!"
  | .error => "error"

def reply (kind : ReplyKind) (content : Json) : Text :=
  (Response.toJson ⟨kind.what, content⟩).write Json.spaced

theorem reply_eq (kind : ReplyKind) (content : Json) :
    kind.reply content =
      ("\x7b\"what\": " : Text) ++ (Json.writeString kind.what ++
        (("," : Text) ++ " \"content\": " ++ content.write Json.spaced ++ "\x7d")) := by
  simp only [reply, Response.toJson, Json.write, Json.writeMembers, List.append_assoc]
  rfl

theorem eq_of_quoted_start {kind other : ReplyKind}
    (h : Json.writeString kind.what <+: Json.writeString other.what) : kind = other := by
  cases kind <;> cases other <;> first | rfl | exact absurd h (by decide +kernel)

/-- A text is a reply of one kind at most. -/
theorem eq_of_reply_eq {kind other : ReplyKind} {content content' : Json}
    (h : kind.reply content = other.reply content') : kind = other := by
  rw [reply_eq, reply_eq] at h
  have htail := List.append_cancel_left h
  rcases List.append_eq_append_iff.mp htail with ⟨t, ht, -⟩ | ⟨t, ht, -⟩
  · exact eq_of_quoted_start ⟨t, ht.symm⟩
  · exact (eq_of_quoted_start ⟨t, ht.symm⟩).symm

end ReplyKind

theorem Response.encode_reply (kind : ReplyKind) {content : Json} (h : content.isFinite = true) :
    Response.encode ⟨kind.what, content⟩ = .ok (kind.reply content) := by
  rw [Response.encode, if_pos h]
  rfl

theorem Response.encode_eq_ok {r : Response} {text : Text} (h : r.encode = .ok text) :
    r.content.isFinite = true ∧ text = r.toJson.write Json.spaced := by
  unfold Response.encode at h
  split at h
  · exact ⟨by assumption, by cases h; rfl⟩
  · cases h

namespace Store

def failureText : Failure → Text
  | .refusal r => r.text
  | .breakdown _ => "internal server error"

theorem failureReply_eq (e : Failure) :
    failureReply e = ReplyKind.error.reply (.str (failureText e)) := by
  cases e <;> rfl

/-- All that answering a request can come to: the reply, and the store after it. -/
inductive Effect (store : Store) : Except Failure Request → Text → Store → Prop
  | failed (request : Except Failure Request) (e : Failure) :
      Effect store request (failureReply e) store
  | listed {names : List Text} (h : store.list.outcome = .ok names) :
      Effect store (.ok .list) (ReplyKind.list.reply (.arr (names.map .str))) store
  | fetched {name : Text} {script : Json} (h : store.fetch name = .ok script)
      (hfinite : script.isFinite = true) :
      Effect store (.ok (.fetch name)) (ReplyKind.script.reply script) store
  | saved {new : NewScript} {after : Store}
      (h : (store.save new.name new.script).outcome = .ok after) :
      Effect store (.ok (.save new)) (ReplyKind.written.reply .null) after
  | unspecified : Effect store (.ok .unspecified) (ReplyKind.unspecified.reply .null) store

theorem answer_effect {store after : Store} {request : Request} {response : Response}
    {text : Text} (hanswer : store.answer request = .ok (response, after))
    (hencode : response.encode = .ok text) : Effect store (.ok request) text after := by
  obtain ⟨hfinite, rfl⟩ := Response.encode_eq_ok hencode
  cases request with
  | list =>
    obtain ⟨names, hnames, h⟩ := bind_eq_ok.mp hanswer
    cases h
    exact .listed hnames
  | fetch name =>
    obtain ⟨script, hscript, h⟩ := bind_eq_ok.mp hanswer
    cases h
    exact .fetched hscript hfinite
  | save new =>
    obtain ⟨done, hdone, h⟩ := bind_eq_ok.mp hanswer
    cases h
    exact .saved hdone
  | unspecified =>
    cases hanswer
    exact .unspecified

theorem handle_effect (store : Store) (frame : Frame) (peer : Option Text) :
    Effect store frame.request (store.handle frame peer).value.1
      (store.handle frame peer).value.2 := by
  rw [handle_value]
  split
  · rename_i done h
    obtain ⟨request, hrequest, h⟩ := bind_eq_ok.mp h
    obtain ⟨⟨response, after⟩, hanswer, h⟩ := bind_eq_ok.mp h
    obtain ⟨text, hencode, h⟩ := bind_eq_ok.mp h
    cases h
    rw [hrequest]
    exact answer_effect hanswer hencode
  · rename_i e _
    exact .failed _ e

end Store

end ScriptDepot
