import ScriptDepot.Proofs.Conversation
/-!
# Connections in turn

Nothing is kept for a connection: who sent a frame only shows in the log.  Serving connections in
turn therefore comes to handling their frames one after another, and how the frames are shared out
among connections makes no difference.
-/

namespace ScriptDepot

namespace Store

theorem handle_peer (store : Store) (frame : Frame) (peer other : Option Text) :
    (store.handle frame peer).value = (store.handle frame other).value := by
  rw [handle_value, handle_value]

/-- The replies to frames that come one after another, and the store after them. -/
def replay (store : Store) (frames : List Frame) : List Text × Store :=
  store.converse (frames.map (·, none))

@[simp] theorem replay_nil (store : Store) : store.replay [] = ([], store) := rfl

theorem replay_cons (store : Store) (frame : Frame) (rest : List Frame) :
    store.replay (frame :: rest) =
      ((store.handle frame none).value.1 ::
        ((store.handle frame none).value.2.replay rest).1,
        ((store.handle frame none).value.2.replay rest).2) := rfl

@[simp] theorem length_replay (store : Store) (frames : List Frame) :
    (store.replay frames).1.length = frames.length := by
  simp [replay]

theorem replay_append (store : Store) (frames others : List Frame) :
    store.replay (frames ++ others) =
      ((store.replay frames).1 ++ ((store.replay frames).2.replay others).1,
        ((store.replay frames).2.replay others).2) := by
  induction frames generalizing store with
  | nil => rfl
  | cons frame rest ih =>
    rw [List.cons_append, replay_cons, replay_cons, ih]
    rfl

theorem replay_singleton (store : Store) (frame : Frame) (peer : Option Text) :
    store.replay [frame] =
      ([(store.handle frame peer).value.1], (store.handle frame peer).value.2) := by
  rw [replay_cons, handle_peer store frame none peer]
  rfl

theorem getElem?_replay (store : Store) (frames : List Frame) (j : Nat) (peer : Option Text) :
    (store.replay frames).1[j]? = frames[j]?.map fun frame =>
      ((store.replay (frames.take j)).2.handle frame peer).value.1 := by
  induction frames generalizing store j with
  | nil => rfl
  | cons frame rest ih =>
    rw [replay_cons]
    cases j with
    | zero => simp [handle_peer store frame none peer]
    | succ j =>
      rw [List.getElem?_cons_succ, ih, List.getElem?_cons_succ, List.take_succ_cons, replay_cons]

theorem handleAll_value (store : Store) (peer : Option Text) (frames : List Frame) :
    (store.handleAll peer frames).value = store.replay frames := by
  induction frames generalizing store with
  | nil => rfl
  | cons frame rest ih =>
    rw [replay_cons, ← ih, handle_peer store frame none peer]
    rfl

end Store

namespace Connection

theorem serve_value (store : Store) (c : Connection) :
    (c.serve store).value = store.replay c.frames := by
  rw [← store.handleAll_value (some c.address.name)]
  unfold serve
  cases c.dropped <;> rfl

def allFrames (connections : List Connection) : List Frame := connections.flatMap frames

theorem serveAll_cons (store : Store) (c : Connection) (rest : List Connection) :
    (serveAll store (c :: rest)).value =
      ((store.replay c.frames).1 :: (serveAll (store.replay c.frames).2 rest).value.1,
        (serveAll (store.replay c.frames).2 rest).value.2) := by
  rw [← serve_value]
  rfl

theorem lengths_serveAll (store : Store) (connections : List Connection) :
    (serveAll store connections).value.1.map List.length =
      connections.map (·.frames.length) := by
  induction connections generalizing store with
  | nil => rfl
  | cons c rest ih =>
    rw [serveAll_cons, List.map_cons, ih, Store.length_replay, List.map_cons]

theorem flatten_serveAll (store : Store) (connections : List Connection) :
    (serveAll store connections).value.1.flatten = (store.replay (allFrames connections)).1 ∧
      (serveAll store connections).value.2 = (store.replay (allFrames connections)).2 := by
  induction connections generalizing store with
  | nil => exact ⟨rfl, rfl⟩
  | cons c rest ih =>
    obtain ⟨hreplies, hstore⟩ := ih (store.replay c.frames).2
    have hframes : allFrames (c :: rest) = c.frames ++ allFrames rest := rfl
    rw [serveAll_cons, hframes, Store.replay_append, List.flatten_cons, hreplies, hstore]
    exact ⟨rfl, rfl⟩

/-- A connection gets the replies to its frames in the state that the connections before it left. -/
theorem getElem?_serveAll (store : Store) (connections : List Connection) (i : Nat) :
    (serveAll store connections).value.1[i]? = connections[i]?.map fun c =>
      ((store.replay (allFrames (connections.take i))).2.replay c.frames).1 := by
  induction connections generalizing store i with
  | nil => rfl
  | cons c rest ih =>
    rw [serveAll_cons]
    cases i with
    | zero => rfl
    | succ i =>
      have hframes : allFrames ((c :: rest).take (i + 1)) =
          c.frames ++ allFrames (rest.take i) := rfl
      rw [List.getElem?_cons_succ, ih, List.getElem?_cons_succ, hframes, Store.replay_append]

/-- `done` is what serving the connections in turn gives, when it is a plain run through their
frames: each connection gets a reply for each of its frames, and the reply to a frame is what
handling it gives in the state that is left by the connections before and by the frames before on
the same connection. -/
structure Served (store : Store) (connections : List Connection)
    (done : List (List Text) × Store) : Prop where
  lengths : done.1.map List.length = connections.map (·.frames.length)
  replies : ∀ i c j frame, connections[i]? = some c → c.frames[j]? = some frame →
    done.1[i]?.bind (·[j]?) = some ((store.replay (allFrames (connections.take i) ++
      c.frames.take j)).2.handle frame (some c.address.name)).value.1
  together : done.1.flatten = (store.replay (allFrames connections)).1
  state : done.2 = (store.replay (allFrames connections)).2

theorem served_serveAll (store : Store) (connections : List Connection) :
    Served store connections (serveAll store connections).value := by
  obtain ⟨htogether, hstate⟩ := flatten_serveAll store connections
  refine ⟨lengths_serveAll store connections, ?_, htogether, hstate⟩
  intro i c j frame hc hframe
  rw [getElem?_serveAll, hc, Option.map_some, Option.bind_some,
    Store.getElem?_replay _ _ _ (some c.address.name), hframe, Option.map_some,
    Store.replay_append]

/-- How frames are shared out among connections makes no difference. -/
theorem Served.regroup {store : Store} {connections regrouped : List Connection}
    {done again : List (List Text) × Store} (h : Served store connections done)
    (h' : Served store regrouped again) (hframes : allFrames regrouped = allFrames connections) :
    again.1.flatten = done.1.flatten ∧ again.2 = done.2 := by
  have htogether := h'.together
  have hstate := h'.state
  rw [hframes, ← h.together] at htogether
  rw [hframes, ← h.state] at hstate
  exact ⟨htogether, hstate⟩

end Connection

end ScriptDepot
