import ScriptDepot.Proofs.Reply
/-!
# The account that replies give of the shelf

A conversation is a run of frames against one store.  Its replies account for everything that
happened to the shelf: a reply that says a script was written stands for one completed put of the
script in its frame, and every other reply for nothing at all.
-/

namespace ScriptDepot

def HasWhat (what reply : Text) : Prop :=
  ∃ content : Json, reply = (Response.toJson ⟨what, content⟩).write Json.spaced

theorem hasWhat_written_iff {kind : ReplyKind} {content : Json} :
    HasWhat "script written!" (kind.reply content) ↔ kind = .written := by
  constructor
  · rintro ⟨content', h⟩
    have hwritten : kind.reply content = ReplyKind.written.reply content' := h
    exact ReplyKind.eq_of_reply_eq hwritten
  · rintro rfl
    exact ⟨content, rfl⟩

namespace Store

def converse (store : Store) : List (Frame × Option Text) → List Text × Store
  | [] => ([], store)
  | (frame, peer) :: rest =>
    let (reply, next) := (store.handle frame peer).value
    let (replies, last) := next.converse rest
    (reply :: replies, last)

@[simp] theorem length_converse (store : Store) (frames : List (Frame × Option Text)) :
    (store.converse frames).1.length = frames.length := by
  induction frames generalizing store with
  | nil => rfl
  | cons f rest ih => simp [converse, ih]

theorem handle_written_or_kept (store : Store) (frame : Frame) (peer : Option Text) :
    let done := (store.handle frame peer).value
    (¬ HasWhat "script written!" done.1 ∧ done.2 = store) ∨
      (HasWhat "script written!" done.1 ∧ ∃ new bytes shelf,
        frame.request = .ok (.save new) ∧ new.script.encode = .ok bytes ∧
          store.shelf.put new.name bytes = .ok shelf ∧ done.2 = { store with shelf := shelf }) := by
  intro done
  have heffect : Effect store frame.request done.1 done.2 := handle_effect store frame peer
  generalize done.1 = reply, done.2 = after, frame.request = request at heffect
  cases heffect with
  | failed request e =>
    rw [failureReply_eq, hasWhat_written_iff]
    exact .inl ⟨by decide, rfl⟩
  | listed h => exact .inl ⟨by rw [hasWhat_written_iff]; decide, rfl⟩
  | fetched h hfinite => exact .inl ⟨by rw [hasWhat_written_iff]; decide, rfl⟩
  | unspecified => exact .inl ⟨by rw [hasWhat_written_iff]; decide, rfl⟩
  | saved h =>
    obtain ⟨count, bytes, shelf, -, -, hbytes, hput, hafter⟩ := outcome_save_eq_ok.mp h
    exact .inr ⟨hasWhat_written_iff.mpr rfl, _, bytes, shelf, rfl, hbytes, hput, hafter⟩

end Store

namespace Shelf

/-- The shelf that frames and their replies account for, starting from a given one: a frame whose
reply says that a script was written puts the script of its payload, in UTF-8, and any other frame
does nothing. -/
inductive Accounted : Shelf → List (Frame × Text) → Shelf → Prop
  | done (shelf : Shelf) : Accounted shelf [] shelf
  | kept {shelf last : Shelf} {frame : Frame} {reply : Text} {rest : List (Frame × Text)}
      (hreply : ¬ HasWhat "script written!" reply) (hrest : Accounted shelf rest last) :
      Accounted shelf ((frame, reply) :: rest) last
  | wrote {shelf next last : Shelf} {frame : Frame} {reply : Text} {rest : List (Frame × Text)}
      {new : NewScript} {bytes : Bytes} (hreply : HasWhat "script written!" reply)
      (hpayload : frame.request = .ok (.save new)) (hbytes : new.script.encode = .ok bytes)
      (hput : shelf.put new.name bytes = .ok next) (hrest : Accounted next rest last) :
      Accounted shelf ((frame, reply) :: rest) last

end Shelf

namespace Store

theorem accounted_converse (store : Store) (frames : List (Frame × Option Text)) :
    Shelf.Accounted store.shelf ((frames.map Prod.fst).zip (store.converse frames).1)
      (store.converse frames).2.shelf := by
  induction frames generalizing store with
  | nil => exact .done _
  | cons f rest ih =>
    obtain ⟨frame, peer⟩ := f
    simp only [converse, List.map_cons, List.zip_cons_cons]
    have hrest := ih (store.handle frame peer).value.2
    rcases store.handle_written_or_kept frame peer with
      ⟨hreply, hafter⟩ | ⟨hreply, new, bytes, shelf, hpayload, hbytes, hput, hafter⟩
    · rw [hafter] at hrest ⊢
      exact .kept hreply hrest
    · rw [hafter] at hrest ⊢
      exact .wrote hreply hpayload hbytes hput hrest

/-- Whatever frames arrive, each gets one reply and the replies account for the shelf that is left
behind; a frame with any other reply than that its script was written leaves all as it was. -/
theorem converse_changes_only_as_replied (store : Store) (frames : List (Frame × Option Text)) :
    (store.converse frames).1.length = frames.length ∧
      Shelf.Accounted store.shelf ((frames.map Prod.fst).zip (store.converse frames).1)
        (store.converse frames).2.shelf ∧
      ∀ frame peer, ¬ HasWhat "script written!"
          ((store.converse frames).2.handle frame peer).value.1 →
        ((store.converse frames).2.handle frame peer).value.2 = (store.converse frames).2 := by
  refine ⟨length_converse store frames, accounted_converse store frames, ?_⟩
  intro frame peer hreply
  rcases (store.converse frames).2.handle_written_or_kept frame peer with ⟨-, h⟩ | ⟨h, -⟩
  · exact h
  · exact absurd h hreply

end Store

/-! ## The scripts that frames saved -/

/-- The script that a frame saved, going by its reply. -/
def Frame.saved (frame : Frame) (reply : Text) : Option NewScript :=
  match frame.request with
  | .ok (.save new) => if reply = ReplyKind.written.reply .null then some new else none
  | _ => none

namespace Store

theorem handle_saved (store : Store) (frame : Frame) (peer : Option Text) :
    let done := (store.handle frame peer).value
    (frame.saved done.1 = none ∧ done.2 = store) ∨
      ∃ new, frame.saved done.1 = some new ∧
        (store.save new.name new.script).outcome = .ok done.2 := by
  intro done
  have heffect : Effect store frame.request done.1 done.2 := handle_effect store frame peer
  unfold Frame.saved
  generalize done.1 = reply, done.2 = after, frame.request = request at *
  cases heffect with
  | failed request e =>
    refine .inl ⟨?_, rfl⟩
    have hne : failureReply e ≠ ReplyKind.written.reply .null := by
      intro heq
      rw [failureReply_eq] at heq
      cases ReplyKind.eq_of_reply_eq heq
    split
    · rw [if_neg hne]
    · rfl
  | listed h => exact .inl ⟨rfl, rfl⟩
  | fetched h hfinite => exact .inl ⟨rfl, rfl⟩
  | unspecified => exact .inl ⟨rfl, rfl⟩
  | @saved new after h => exact .inr ⟨new, if_pos rfl, h⟩

def savedScripts (store : Store) (frames : List (Frame × Option Text)) : List NewScript :=
  ((frames.map Prod.fst).zip (store.converse frames).1).filterMap fun (frame, reply) =>
    frame.saved reply

theorem savedScripts_cons (store : Store) (frame : Frame) (peer : Option Text)
    (rest : List (Frame × Option Text)) :
    store.savedScripts ((frame, peer) :: rest) =
      (frame.saved (store.handle frame peer).value.1).toList ++
        (store.handle frame peer).value.2.savedScripts rest := by
  simp only [savedScripts, converse, List.map_cons, List.zip_cons_cons, List.filterMap_cons]
  cases frame.saved (store.handle frame peer).value.1 <;> rfl

end Store

end ScriptDepot
