import ScriptDepot.Proofs.Json.Written
import ScriptDepot.Proofs.Reply
/-!
# Replies are JSON objects on one line

Whatever frame arrives, whatever is stored and whatever an error message quotes, the reply is one
line of printable ASCII.  It is a JSON text, and the object that it spells has a `what` of one of
the five kinds with the content that goes with it.
-/

namespace ScriptDepot

open Json.Grammar

namespace ReplyKind

inductive Admits : ReplyKind → Json → Prop
  | script (content : Json) : Admits .script content
  | written : Admits .written .null
  | list (names : List Text) : Admits .list (.arr (names.map .str))
  | unspecified : Admits .unspecified .null
  | error (message : Text) : Admits .error (.str message)

/-- `kind.Spells reply content` says that `reply` is an object on one line whose first member is the
`what` of the kind, whose second and last is the content, and that the content goes with the
kind. -/
structure Spells (kind : ReplyKind) (reply : Text) (content : Json) : Prop where
  printable : reply.Printable
  members : ∃ depth s, reply = "\x7b" ++ s ++ "\x7d" ∧
    Members (fun _ => True) depth s [("what", .str kind.what), ("content", content)]
  document : ∃ depth, Document (fun _ => True) depth reply
    (.obj [("what", .str kind.what), ("content", content)])
  admits : kind.Admits content

theorem joinPairs_what (kind : ReplyKind) : Utf16.joinPairs kind.what = kind.what := by
  cases kind <;> decide +kernel

theorem members_reply {fits : Text → Prop} {depth : Nat} (kind : ReplyKind) {content w : Json}
    (h : Value fits depth (content.write Json.spaced) w) :
    Members fits depth
      (Json.writeMembers Json.spaced [("what", .str kind.what), ("content", content)])
      [("what", .str kind.what), ("content", w)] := by
  have hwhat : Value fits depth ((Json.str kind.what).write Json.spaced) (.str kind.what) := by
    have hquoted := Json.quoted_writeString kind.what
    rw [joinPairs_what] at hquoted
    exact .str hquoted
  have hpairs : List.Forall₂ (fun m n : Text × Json => n.1 = Utf16.joinPairs m.1 ∧
      Value fits depth (m.2.write Json.spaced) n.2)
      [("what", .str kind.what), ("content", content)]
      [("what", .str kind.what), ("content", w)] :=
    .cons ⟨rfl, hwhat⟩ (.cons ⟨rfl, h⟩ .nil)
  have hmembers := Json.members_write Json.lawful_spaced hpairs (by simp) Json.blank_nil
  rw [List.nil_append] at hmembers
  exact hmembers

theorem spells_reply {kind : ReplyKind} {content w : Json} {depth : Nat}
    (h : Value (fun _ => True) depth (content.write Json.spaced) w) (hadmits : kind.Admits w) :
    kind.Spells (kind.reply content) w := by
  have hmembers := members_reply kind h
  have hkeys : (["what", "content"] : List Text).Nodup := by decide
  have hvalue := Value.obj hmembers (merged_self hkeys)
  have hdocument := Document.mk Json.blank_nil hvalue Json.blank_nil
  rw [List.append_nil, List.nil_append] at hdocument
  exact ⟨Json.printable_write Json.lawful_spaced _, ⟨depth, _, rfl, hmembers⟩,
    ⟨depth + 1, hdocument⟩, hadmits⟩

end ReplyKind

namespace Store

/-- Every reply, to whatever frame and from whatever store, spells a response of some kind. -/
theorem handle_spells (store : Store) (frame : Frame) (peer : Option Text) :
    ∃ (kind : ReplyKind) (content : Json),
      kind.Spells (store.handle frame peer).value.1 content := by
  have heffect := handle_effect store frame peer
  generalize (store.handle frame peer).value.1 = reply,
    (store.handle frame peer).value.2 = after, frame.request = request at *
  cases heffect with
  | failed _ e =>
    rw [failureReply_eq]
    have hmessage : Value (fun _ => True) 0 (Json.writeString (failureText e))
        (.str (Utf16.joinPairs (failureText e))) := .str (Json.quoted_writeString _)
    exact ⟨.error, _, ReplyKind.spells_reply hmessage (.error _)⟩
  | @listed names h =>
    have hnames : Value (fun _ => True) 1 ((Json.arr (names.map .str)).write Json.spaced)
        (.arr ((names.map Utf16.joinPairs).map .str)) := by
      rw [List.map_map]
      exact Json.value_strings Json.lawful_spaced names
    exact ⟨.list, _, ReplyKind.spells_reply hnames (.list _)⟩
  | @fetched name script h hfinite =>
    obtain ⟨w, hw⟩ := Json.exists_value_write (fun _ => trivial) Json.lawful_spaced script hfinite
      (Nat.le_refl _)
    exact ⟨.script, w, ReplyKind.spells_reply hw (.script w)⟩
  | saved h =>
    have hnull : Value (fun _ => True) 0 (Json.null.write Json.spaced) .null := .null
    exact ⟨.written, .null, ReplyKind.spells_reply hnull .written⟩
  | unspecified =>
    have hnull : Value (fun _ => True) 0 (Json.null.write Json.spaced) .null := .null
    exact ⟨.unspecified, .null, ReplyKind.spells_reply hnull .unspecified⟩

end Store

end ScriptDepot
