import Mathlib.Logic.Function.Basic
import ScriptDepot.Proofs.Backends
import ScriptDepot.Proofs.Capacity
import ScriptDepot.Proofs.Connections
/-!
# Connections side by side

While several connections are open, each has its turn whenever the event loop gives it one.  In its
turn a connection sends the reply that is waiting, or has its next frame handled, and no other
connection comes in between the two ends of that.  Whatever the order of the turns, the frames have
been handled one after another in some order, and that order decides all the replies and the store.
-/

namespace ScriptDepot

structure Session where
  peer : Text
  -- the frames that are still to be handled
  coming : List Frame
  /-- The reply to the last frame, until it is sent. -/
  unsent : Option Text
  sent : List Text

namespace Session

def opened (c : Connection) : Session := ⟨c.address.name, c.frames, none, []⟩

def turnsLeft (s : Session) : Nat := 2 * s.coming.length + s.unsent.toList.length

end Session

structure EventLoop (n : Nat) where
  store : Store
  sessions : Fin n → Session
  /-- The frames handled so far, in order, each with its connection. -/
  handled : List (Fin n × Frame)

namespace EventLoop

variable {n : Nat}

def start (store : Store) (connections : Fin n → Connection) : EventLoop n :=
  ⟨store, fun i => .opened (connections i), []⟩

def send (loop : EventLoop n) (i : Fin n) (reply : Text) : EventLoop n :=
  let session := loop.sessions i
  { loop with
    sessions := Function.update loop.sessions i
      { session with unsent := none, sent := session.sent ++ [reply] } }

def receive (loop : EventLoop n) (i : Fin n) (frame : Frame) (rest : List Frame) : EventLoop n :=
  let session := loop.sessions i
  let done := (loop.store.handle frame (some session.peer)).value
  { store := done.2
    sessions := Function.update loop.sessions i
      { session with coming := rest, unsent := some done.1 }
    handled := loop.handled ++ [(i, frame)] }

/-- A turn of a connection.  One that has nothing to do lets it pass. -/
def turn (loop : EventLoop n) (i : Fin n) : EventLoop n :=
  match (loop.sessions i).unsent, (loop.sessions i).coming with
  | some reply, _ => loop.send i reply
  | none, frame :: rest => loop.receive i frame rest
  | none, [] => loop

def run (loop : EventLoop n) (schedule : List (Fin n)) : EventLoop n := schedule.foldl turn loop

theorem run_cons (loop : EventLoop n) (i : Fin n) (rest : List (Fin n)) :
    loop.run (i :: rest) = (loop.turn i).run rest := rfl

theorem sessions_send_self (loop : EventLoop n) (i : Fin n) (reply : Text) :
    (loop.send i reply).sessions i = { loop.sessions i with
      unsent := none, sent := (loop.sessions i).sent ++ [reply] } := Function.update_self ..

theorem sessions_send_of_ne (loop : EventLoop n) {i j : Fin n} (reply : Text) (h : j ≠ i) :
    (loop.send i reply).sessions j = loop.sessions j := Function.update_of_ne h ..

theorem sessions_receive_self (loop : EventLoop n) (i : Fin n) (frame : Frame)
    (rest : List Frame) :
    (loop.receive i frame rest).sessions i = { loop.sessions i with
      coming := rest
      unsent := some (loop.store.handle frame (some (loop.sessions i).peer)).value.1 } :=
  Function.update_self ..

theorem sessions_receive_of_ne (loop : EventLoop n) {i j : Fin n} (frame : Frame)
    (rest : List Frame) (h : j ≠ i) :
    (loop.receive i frame rest).sessions j = loop.sessions j := Function.update_of_ne h ..

theorem turn_cases (loop : EventLoop n) (i : Fin n) :
    (∃ reply, (loop.sessions i).unsent = some reply ∧ loop.turn i = loop.send i reply) ∨
      (∃ frame rest, (loop.sessions i).unsent = none ∧ (loop.sessions i).coming = frame :: rest ∧
        loop.turn i = loop.receive i frame rest) ∨
      ((loop.sessions i).unsent = none ∧ (loop.sessions i).coming = [] ∧ loop.turn i = loop) := by
  unfold turn
  cases hunsent : (loop.sessions i).unsent with
  | some reply => exact .inl ⟨reply, rfl, rfl⟩
  | none =>
    cases hcoming : (loop.sessions i).coming with
    | nil => exact .inr (.inr ⟨rfl, rfl, rfl⟩)
    | cons frame rest => exact .inr (.inl ⟨frame, rest, rfl, rfl, rfl⟩)

/-! ## What belongs to one connection -/

def ofOne {α : Type} (i : Fin n) (items : List (Fin n × α)) : List α :=
  items.filterMap fun item => if item.1 = i then some item.2 else none

theorem ofOne_append {α : Type} (i : Fin n) (items others : List (Fin n × α)) :
    ofOne i (items ++ others) = ofOne i items ++ ofOne i others := List.filterMap_append

theorem ofOne_cons_self {α : Type} (i : Fin n) (a : α) (rest : List (Fin n × α)) :
    ofOne i ((i, a) :: rest) = a :: ofOne i rest := by
  simp [ofOne]

theorem ofOne_cons_of_ne {α : Type} {i j : Fin n} (h : i ≠ j) (a : α)
    (rest : List (Fin n × α)) : ofOne i ((j, a) :: rest) = ofOne i rest := by
  simp [ofOne, Ne.symm h]

def order (loop : EventLoop n) : List Frame := loop.handled.map Prod.snd

/-- The replies to the frames handled so far, had they come one after another to `store`, each with
the connection of its frame. -/
def replies (store : Store) (loop : EventLoop n) : List (Fin n × Text) :=
  (loop.handled.map Prod.fst).zip (store.replay loop.order).1

theorem order_receive (loop : EventLoop n) (i : Fin n) (frame : Frame) (rest : List Frame) :
    (loop.receive i frame rest).order = loop.order ++ [frame] := by
  simp [receive, order]

/-- The loop is where its frames, handled one after another from `store` on, lead: in the store that
they leave, with no frame of a connection lost or out of order, and with each reply sent or about to
be sent on the connection of its frame. -/
structure Follows (store : Store) (connections : Fin n → Connection) (loop : EventLoop n) :
    Prop where
  state : loop.store = (store.replay loop.order).2
  frames : ∀ i, ofOne i loop.handled ++ (loop.sessions i).coming = (connections i).frames
  replied : ∀ i, (loop.sessions i).sent ++ (loop.sessions i).unsent.toList =
    ofOne i (replies store loop)

namespace Follows

variable {store : Store} {connections : Fin n → Connection} {loop : EventLoop n}

theorem start (store : Store) (connections : Fin n → Connection) :
    Follows store connections (EventLoop.start store connections) :=
  ⟨rfl, fun _ => rfl, fun _ => rfl⟩

theorem send (h : Follows store connections loop) {i : Fin n} {reply : Text}
    (hunsent : (loop.sessions i).unsent = some reply) :
    Follows store connections (loop.send i reply) := by
  have hhandled : (loop.send i reply).handled = loop.handled := rfl
  have hreplies : replies store (loop.send i reply) = replies store loop := rfl
  refine ⟨h.state, ?_, ?_⟩
  · intro j
    have hframes := h.frames j
    rw [hhandled]
    by_cases hj : j = i
    · subst hj
      rw [sessions_send_self]
      exact hframes
    · rw [sessions_send_of_ne _ _ hj]
      exact hframes
  · intro j
    have hreplied := h.replied j
    rw [hreplies]
    by_cases hj : j = i
    · subst hj
      rw [hunsent, Option.toList_some] at hreplied
      rw [sessions_send_self, Option.toList_none, List.append_nil]
      exact hreplied
    · rw [sessions_send_of_ne _ _ hj]
      exact hreplied

theorem replies_receive (h : Follows store connections loop) (i : Fin n) (frame : Frame)
    (rest : List Frame) :
    replies store (loop.receive i frame rest) = replies store loop ++
      [(i, (loop.store.handle frame (some (loop.sessions i).peer)).value.1)] := by
  have hlength : (loop.handled.map Prod.fst).length = (store.replay loop.order).1.length := by
    simp [order]
  have hfirst : (loop.receive i frame rest).handled.map Prod.fst =
      loop.handled.map Prod.fst ++ [i] := by
    simp [EventLoop.receive]
  unfold replies
  rw [order_receive, hfirst, Store.replay_append, ← h.state,
    Store.replay_singleton _ _ (some (loop.sessions i).peer), List.zip_append hlength]
  rfl

theorem receive (h : Follows store connections loop) {i : Fin n} {frame : Frame}
    {rest : List Frame} (hunsent : (loop.sessions i).unsent = none)
    (hcoming : (loop.sessions i).coming = frame :: rest) :
    Follows store connections (loop.receive i frame rest) := by
  have hhandled : (loop.receive i frame rest).handled = loop.handled ++ [(i, frame)] := rfl
  refine ⟨?_, ?_, ?_⟩
  · rw [order_receive, Store.replay_append, ← h.state,
      Store.replay_singleton _ _ (some (loop.sessions i).peer)]
    rfl
  · intro j
    have hframes := h.frames j
    rw [hhandled, ofOne_append]
    by_cases hj : j = i
    · subst hj
      rw [hcoming] at hframes
      rw [sessions_receive_self, ofOne_cons_self, List.append_assoc]
      exact hframes
    · rw [sessions_receive_of_ne _ _ _ hj, ofOne_cons_of_ne hj, List.append_assoc]
      exact hframes
  · intro j
    have hreplied := h.replied j
    rw [h.replies_receive, ofOne_append]
    by_cases hj : j = i
    · subst hj
      rw [hunsent, Option.toList_none, List.append_nil] at hreplied
      rw [sessions_receive_self, ofOne_cons_self, ← hreplied]
      rfl
    · rw [sessions_receive_of_ne _ _ _ hj, ofOne_cons_of_ne hj, hreplied]
      exact (List.append_nil _).symm

theorem turn (h : Follows store connections loop) (i : Fin n) :
    Follows store connections (loop.turn i) := by
  rcases loop.turn_cases i with ⟨reply, hunsent, heq⟩ | ⟨frame, rest, hunsent, hcoming, heq⟩ |
    ⟨-, -, heq⟩
  · rw [heq]
    exact h.send hunsent
  · rw [heq]
    exact h.receive hunsent hcoming
  · rw [heq]
    exact h

theorem run (h : Follows store connections loop) (schedule : List (Fin n)) :
    Follows store connections (loop.run schedule) := by
  induction schedule generalizing loop with
  | nil => exact h
  | cons i rest ih => exact ih (h.turn i)

end Follows

/-! ## Coming to an end -/

theorem turnsLeft_turn_self (loop : EventLoop n) (i : Fin n) :
    ((loop.turn i).sessions i).turnsLeft = (loop.sessions i).turnsLeft - 1 := by
  unfold Session.turnsLeft
  rcases loop.turn_cases i with ⟨reply, hunsent, heq⟩ | ⟨frame, rest, hunsent, hcoming, heq⟩ |
    ⟨hunsent, hcoming, heq⟩
  · rw [heq, sessions_send_self, hunsent]
    simp only [Option.toList_none, Option.toList_some, List.length_nil, List.length_singleton]
    omega
  · rw [heq, sessions_receive_self, hunsent, hcoming]
    simp only [Option.toList_none, Option.toList_some, List.length_nil, List.length_cons]
    omega
  · rw [heq, hunsent, hcoming]
    rfl

theorem sessions_turn_of_ne (loop : EventLoop n) {i j : Fin n} (h : j ≠ i) :
    (loop.turn i).sessions j = loop.sessions j := by
  rcases loop.turn_cases i with ⟨reply, -, heq⟩ | ⟨frame, rest, -, -, heq⟩ | ⟨-, -, heq⟩
  · rw [heq, sessions_send_of_ne _ _ h]
  · rw [heq, sessions_receive_of_ne _ _ _ h]
  · rw [heq]

theorem turnsLeft_run (loop : EventLoop n) (schedule : List (Fin n)) (i : Fin n) :
    ((loop.run schedule).sessions i).turnsLeft =
      (loop.sessions i).turnsLeft - schedule.count i := by
  induction schedule generalizing loop with
  | nil => rfl
  | cons j rest ih =>
    rw [run_cons, ih]
    by_cases hj : j = i
    · subst hj
      rw [turnsLeft_turn_self, List.count_cons_self]
      omega
    · rw [sessions_turn_of_ne _ (Ne.symm hj), List.count_cons_of_ne hj]

theorem Follows.finished {store : Store} {connections : Fin n → Connection}
    {schedule : List (Fin n)} {i : Fin n}
    (h : Follows store connections ((EventLoop.start store connections).run schedule))
    (hturns : 2 * (connections i).frames.length ≤ schedule.count i) :
    let loop := (EventLoop.start store connections).run schedule
    ofOne i loop.handled = (connections i).frames ∧
      (loop.sessions i).sent = ofOne i (replies store loop) := by
  intro loop
  have hleft : (loop.sessions i).turnsLeft = 0 := by
    have hstart : ((EventLoop.start store connections).sessions i).turnsLeft =
        2 * (connections i).frames.length := rfl
    rw [turnsLeft_run, hstart]
    omega
  have hcoming : (loop.sessions i).coming = [] := by
    apply List.length_eq_zero_iff.mp
    unfold Session.turnsLeft at hleft
    omega
  have hunsent : (loop.sessions i).unsent.toList = [] := by
    apply List.length_eq_zero_iff.mp
    unfold Session.turnsLeft at hleft
    omega
  have hframes := h.frames i
  have hreplied := h.replied i
  rw [hcoming, List.append_nil] at hframes
  rw [hunsent, List.append_nil] at hreplied
  exact ⟨hframes, hreplied⟩

/-! ## Every order can come about -/

/-- Turns in which frames are handled in a given order, each reply being sent at once. -/
def turnsFor (order : List (Fin n × Frame)) : List (Fin n) :=
  order.flatMap fun item => [item.1, item.1]

theorem handled_run_turnsFor (loop : EventLoop n) (order : List (Fin n × Frame))
    (hunsent : ∀ i, (loop.sessions i).unsent = none)
    (hcoming : ∀ i, (loop.sessions i).coming = ofOne i order) :
    (loop.run (turnsFor order)).handled = loop.handled ++ order := by
  induction order generalizing loop with
  | nil => simp [turnsFor, run]
  | cons item rest ih =>
    obtain ⟨i, frame⟩ := item
    have hfirst : loop.turn i = loop.receive i frame (ofOne i rest) := by
      unfold turn
      rw [hunsent i, hcoming i, ofOne_cons_self]
    have hsecond : ∃ reply, (loop.turn i).turn i =
        (loop.receive i frame (ofOne i rest)).send i reply := by
      refine ⟨(loop.store.handle frame (some (loop.sessions i).peer)).value.1, ?_⟩
      rw [hfirst, turn, sessions_receive_self]
    obtain ⟨reply, hsecond⟩ := hsecond
    have hturns : turnsFor ((i, frame) :: rest) = i :: i :: turnsFor rest := rfl
    rw [hturns, run_cons, run_cons, hsecond, ih]
    · change (loop.handled ++ [(i, frame)]) ++ rest = _
      rw [List.append_assoc, List.singleton_append]
    · intro j
      by_cases hj : j = i
      · rw [hj, sessions_send_self]
      · rw [sessions_send_of_ne _ _ hj, sessions_receive_of_ne _ _ _ hj, hunsent j]
    · intro j
      by_cases hj : j = i
      · subst hj
        rw [sessions_send_self, sessions_receive_self]
      · rw [sessions_send_of_ne _ _ hj, sessions_receive_of_ne _ _ _ hj, hcoming j,
          ofOne_cons_of_ne hj]

theorem count_turnsFor (order : List (Fin n × Frame)) (i : Fin n) :
    (turnsFor order).count i = 2 * (ofOne i order).length := by
  induction order with
  | nil => rfl
  | cons item rest ih =>
    obtain ⟨j, frame⟩ := item
    have hturns : turnsFor ((j, frame) :: rest) = j :: j :: turnsFor rest := rfl
    rw [hturns]
    by_cases hj : i = j
    · subst hj
      rw [List.count_cons_self, List.count_cons_self, ih, ofOne_cons_self, List.length_cons]
      omega
    · rw [List.count_cons_of_ne (Ne.symm hj), List.count_cons_of_ne (Ne.symm hj), ih,
        ofOne_cons_of_ne hj]

end EventLoop

namespace Config

/-- Serving connections in turn is a plain run through their frames, and sharing the same frames out
among other connections, with whatever addresses and ends, changes neither the replies nor the
store. With connections side by side every order of turns comes to a plain run through the frames in
the order in which they were handled, which can be any interleaving of them; so the cap is kept. -/
theorem serve_folds_handle (store : Store) :
    (∀ (config : Config) (connections : List Connection),
      Connection.Served store connections (config.serve store connections).value) ∧
    (∀ (config other : Config) (connections regrouped : List Connection),
      Connection.allFrames regrouped = Connection.allFrames connections →
        (other.serve store regrouped).value.1.flatten =
            (config.serve store connections).value.1.flatten ∧
          (other.serve store regrouped).value.2 = (config.serve store connections).value.2) ∧
    (∀ (n : Nat) (connections : Fin n → Connection) (schedule : List (Fin n)),
      let loop := (EventLoop.start store connections).run schedule
      loop.Follows store connections ∧
        (∀ i, 2 * (connections i).frames.length ≤ schedule.count i →
          EventLoop.ofOne i loop.handled = (connections i).frames ∧
            (loop.sessions i).sent = EventLoop.ofOne i (loop.replies store)) ∧
        (store.shelf.Stands → store.shelf.held ≤ loop.store.shelf.held ∧
          (loop.store.shelf.held : Int) ≤ max (store.shelf.held : Int) store.cap)) ∧
    (∀ (n : Nat) (connections : Fin n → Connection) (order : List (Fin n × Frame)),
      (∀ i, EventLoop.ofOne i order = (connections i).frames) →
        ∃ schedule, ((EventLoop.start store connections).run schedule).handled = order ∧
          ∀ i, 2 * (connections i).frames.length ≤ schedule.count i) := by
  refine ⟨?_, ?_, ?_, ?_⟩
  · intro config connections
    exact Connection.served_serveAll store connections
  · intro config other connections regrouped hframes
    exact (Connection.served_serveAll store connections).regroup
      (Connection.served_serveAll store regrouped) hframes
  · intro n connections schedule loop
    have hfollows : loop.Follows store connections :=
      (EventLoop.Follows.start store connections).run schedule
    refine ⟨hfollows, fun i hturns => hfollows.finished hturns, ?_⟩
    intro hstands
    rw [hfollows.state]
    exact Store.converse_keeps_cap hstands _
  · -- Every order comes of the schedule that gives each frame its two turns on the spot.
    intro n connections order horder
    refine ⟨EventLoop.turnsFor order, ?_, ?_⟩
    · exact EventLoop.handled_run_turnsFor _ order (fun _ => rfl) (fun i => (horder i).symm)
    · intro i
      apply Nat.le_of_eq
      rw [EventLoop.count_turnsFor, horder i]

def twoSavers : Fin 2 → Connection
  | 0 => ⟨.parts [.str "10.0.0.1", .int 4000], [Store.saving "a"], false⟩
  | 1 => ⟨.other .null, [Store.saving "b"], true⟩

def bothSaves : Connection := ⟨.other .null, [Store.saving "a", Store.saving "b"], false⟩

def oneScript : Store := ⟨.memory .empty, 1, false⟩

def onePort : Config := ⟨.value "scripts", 1, .value "localhost", 8765, false, by decide⟩

theorem serve_folds_handle_twoSavers :
    (onePort.serve oneScript [bothSaves]).value.2 =
        (onePort.serve oneScript [twoSavers 0, twoSavers 1]).value.2 ∧
      (let loop := (EventLoop.start oneScript twoSavers).run [1, 0, 0, 1]
      (∀ i, 2 * (twoSavers i).frames.length ≤ List.count i [1, 0, 0, 1]) ∧
        (∀ i, EventLoop.ofOne i loop.handled = (twoSavers i).frames ∧
          (loop.sessions i).sent = EventLoop.ofOne i (loop.replies oneScript)) ∧
        loop.store.shelf.held ≤ 1) ∧
      ∃ schedule, ((EventLoop.start oneScript twoSavers).run schedule).handled =
        [(1, Store.saving "b"), (0, Store.saving "a")] := by
  obtain ⟨-, hregroup, hloop, hevery⟩ := serve_folds_handle oneScript
  obtain ⟨-, hfinished, hcap⟩ := hloop 2 twoSavers [1, 0, 0, 1]
  obtain ⟨-, hbound⟩ := hcap trivial
  have hmax : max (oneScript.shelf.held : Int) oneScript.cap = 1 := rfl
  rw [hmax] at hbound
  have hturns : ∀ i, 2 * (twoSavers i).frames.length ≤ List.count i [1, 0, 0, 1] := by decide
  obtain ⟨schedule, hschedule, -⟩ := hevery 2 twoSavers
    [(1, Store.saving "b"), (0, Store.saving "a")] (by
      intro i
      match i with
      | 0 => rfl
      | 1 => rfl)
  refine ⟨(hregroup onePort onePort [twoSavers 0, twoSavers 1] [bothSaves] rfl).2, ⟨hturns, ?_, ?_⟩,
    schedule, hschedule⟩
  · exact fun i => hfinished i (hturns i)
  · exact_mod_cast hbound

end Config

end ScriptDepot
