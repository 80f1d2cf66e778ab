import ScriptDepot.Proofs.Conversation
import ScriptDepot.Proofs.Shelf
/-!
# The cap along a run

A run mixes saves, reads and frames in any order.  Each step leaves the store alone or is one put
made while the count was below the cap; hence what the shelf holds only grows, stays within the cap
once it is there, and from then on nothing changes any more.
-/

namespace ScriptDepot

inductive Operation where
  | save (name text : Text)
  | load (name : Text)
  | list
  | size
  | frame (frame : Frame) (peer : Option Text)

namespace Store

/-- The store after an operation.  Reading gives back no store, so there the store is the same. -/
def after (store : Store) : Operation → Store
  | .save name text =>
    match (store.save name text).outcome with
    | .ok saved => saved
    | .error _ => store
  | .load _ => store
  | .list => store
  | .size => store
  | .frame frame peer => (store.handle frame peer).value.2

def run (store : Store) (operations : List Operation) : Store := operations.foldl after store

@[simp] theorem run_nil (store : Store) : store.run [] = store := rfl

@[simp] theorem run_cons (store : Store) (operation : Operation) (rest : List Operation) :
    store.run (operation :: rest) = (store.after operation).run rest := rfl

/-- A step leaves the store alone, or is a put made while the count was below the cap. -/
theorem after_cases (store : Store) (operation : Operation) :
    store.after operation = store ∨
      ∃ count name bytes shelf, store.shelf.count = .ok count ∧ (count : Int) < store.cap ∧
        store.shelf.put name bytes = .ok shelf ∧
        store.after operation = { store with shelf := shelf } := by
  cases operation with
  | save name text =>
    simp only [after]
    split
    · rename_i saved h
      obtain ⟨count, bytes, shelf, hcount, hcap, -, hput, rfl⟩ := outcome_save_eq_ok.mp h
      exact .inr ⟨count, name, bytes, shelf, hcount, hcap, hput, rfl⟩
    · exact .inl rfl
  | load name => exact .inl rfl
  | list => exact .inl rfl
  | size => exact .inl rfl
  | frame frame peer =>
    simp only [after]
    have heffect := store.handle_effect frame peer
    generalize (store.handle frame peer).value.1 = reply,
      (store.handle frame peer).value.2 = next, frame.request = request at heffect ⊢
    cases heffect with
    | failed request e => exact .inl rfl
    | listed h => exact .inl rfl
    | fetched h hfinite => exact .inl rfl
    | unspecified => exact .inl rfl
    | saved h =>
      obtain ⟨count, bytes, shelf, hcount, hcap, -, hput, rfl⟩ := outcome_save_eq_ok.mp h
      exact .inr ⟨count, _, bytes, shelf, hcount, hcap, hput, rfl⟩

theorem held_of_count {shelf : Shelf} {count : Nat} (h : shelf.Stands)
    (hcount : shelf.count = .ok count) : count = shelf.held := by
  cases hlist : shelf.listable with
  | true =>
    rw [Shelf.count_eq_held h hlist] at hcount
    cases hcount
    rfl
  | false =>
    obtain ⟨fault, hfault⟩ := Shelf.count_of_not_listable hlist
    rw [hfault] at hcount
    cases hcount

theorem after_stands {store : Store} (h : store.shelf.Stands) (operation : Operation) :
    (store.after operation).shelf.Stands ∧ (store.after operation).cap = store.cap ∧
      store.shelf.held ≤ (store.after operation).shelf.held ∧
      ((store.after operation).shelf.held : Int) ≤ max (store.shelf.held : Int) store.cap := by
  rcases store.after_cases operation with heq | ⟨count, name, bytes, shelf, hcount, hcap, hput, heq⟩
  · rw [heq]
    exact ⟨h, rfl, Nat.le_refl _, Int.le_max_left _ _⟩
  · rw [heq]
    obtain ⟨hstands, -, hgrows, hone⟩ := Shelf.put_stands h hput
    have hheld := held_of_count h hcount
    refine ⟨hstands, rfl, hgrows, ?_⟩
    simp only
    omega

theorem after_of_full {store : Store} (h : store.shelf.Stands)
    (hfull : store.cap ≤ store.shelf.held) (operation : Operation) :
    store.after operation = store := by
  rcases store.after_cases operation with heq | ⟨count, name, bytes, shelf, hcount, hcap, -, -⟩
  · exact heq
  · have hheld := held_of_count h hcount
    omega

theorem run_stands {store : Store} (h : store.shelf.Stands) (operations : List Operation) :
    (store.run operations).shelf.Stands ∧ (store.run operations).cap = store.cap ∧
      store.shelf.held ≤ (store.run operations).shelf.held ∧
      ((store.run operations).shelf.held : Int) ≤ max (store.shelf.held : Int) store.cap := by
  induction operations generalizing store with
  | nil => exact ⟨h, rfl, Nat.le_refl _, Int.le_max_left _ _⟩
  | cons operation rest ih =>
    obtain ⟨hstands, hcap, hgrows, hbound⟩ := after_stands h operation
    obtain ⟨hstands', hcap', hgrows', hbound'⟩ := ih hstands
    rw [run_cons]
    refine ⟨hstands', hcap'.trans hcap, Nat.le_trans hgrows hgrows', ?_⟩
    rw [hcap] at hbound'
    omega

theorem run_of_full {store : Store} (h : store.shelf.Stands)
    (hfull : store.cap ≤ store.shelf.held) (operations : List Operation) :
    store.run operations = store := by
  induction operations with
  | nil => rfl
  | cons operation rest ih => rw [run_cons, after_of_full h hfull, ih]

theorem save_of_full {store : Store} (h : store.shelf.Stands)
    (hfull : store.cap ≤ store.shelf.held) (name text : Text) :
    (store.shelf.listable = true →
        (store.save name text).outcome = .error (Refusal.full store.shelf.held store.cap)) ∧
      (store.shelf.listable = false →
        ∃ fault, (store.save name text).outcome = .error (Refusal.storage fault)) := by
  rw [outcome_save]
  constructor
  · intro hlist
    rw [Shelf.count_eq_held h hlist]
    change (if store.cap ≤ store.shelf.held then _ else _) = _
    rw [if_pos hfull]
  · intro hlist
    obtain ⟨fault, hfault⟩ := Shelf.count_of_not_listable hlist
    exact ⟨fault, by rw [hfault]; rfl⟩

/-- Along every run on a standing shelf what it holds never shrinks and never passes the larger of
the cap and what it held at first; and from the moment it holds as much as the cap allows the shelf
is frozen, every save being refused. -/
theorem run_keeps_cap (store : Store) (h : store.shelf.Stands) (before later : List Operation) :
    let now := store.run before
    let last := now.run later
    now.shelf.held ≤ last.shelf.held ∧
      (now.shelf.held : Int) ≤ max (store.shelf.held : Int) store.cap ∧
      (store.cap ≤ now.shelf.held → last.shelf = now.shelf ∧ ∀ name text,
        (now.shelf.listable = true → (last.save name text).outcome =
          .error (Refusal.full now.shelf.held store.cap)) ∧
        (now.shelf.listable = false → ∃ fault, (last.save name text).outcome =
          .error (Refusal.storage fault))) := by
  intro now last
  obtain ⟨hstands, hcap, -, hbound⟩ := run_stands h before
  obtain ⟨-, -, hgrows, -⟩ := run_stands hstands later
  refine ⟨hgrows, hbound, ?_⟩
  intro hfull
  rw [← hcap] at hfull
  have hlast : last = now := run_of_full hstands hfull later
  rw [hlast, ← hcap]
  exact ⟨rfl, fun name text => save_of_full hstands hfull name text⟩

def fullFolder : Store where
  shelf := .folder (Path.parse "scripts")
    { nodes := ⟨[([("work" : Text).utf8], .folder),
        ([("work" : Text).utf8, ("scripts" : Text).utf8], .folder),
        ([("work" : Text).utf8, ("scripts" : Text).utf8, ("a" : Text).utf8], .file [0x31])],
        by decide⟩
      here := [("work" : Text).utf8] }
  cap := 1
  serialized := false

theorem run_keeps_cap_fullFolder :
    fullFolder.shelf.Stands ∧
      (fullFolder.run [.save "../b" "1", .save "a" "2"]).shelf = fullFolder.shelf ∧
      (fullFolder.save "scripts/../a" "2").outcome = .error (Refusal.full 1 1) := by
  have hstands : fullFolder.shelf.Stands := rfl
  have hheld : fullFolder.shelf.held = 1 := by decide +kernel
  obtain ⟨-, -, hfrozen⟩ := run_keeps_cap fullFolder hstands [] [.save "../b" "1", .save "a" "2"]
  obtain ⟨hshelf, -⟩ := hfrozen (by decide +kernel)
  obtain ⟨-, -, hrefused⟩ := run_keeps_cap fullFolder hstands [] []
  obtain ⟨-, hsave⟩ := hrefused (by decide +kernel)
  have hsave := (hsave "scripts/../a" "2").1 rfl
  refine ⟨hstands, hshelf, ?_⟩
  rw [run_nil, run_nil, hheld] at hsave
  exact hsave

theorem converse_eq_run (store : Store) (frames : List (Frame × Option Text)) :
    (store.converse frames).2 = store.run (frames.map fun f => .frame f.1 f.2) := by
  induction frames generalizing store with
  | nil => rfl
  | cons f rest ih =>
    rw [List.map_cons, run_cons]
    exact ih _

theorem converse_keeps_cap {store : Store} (h : store.shelf.Stands)
    (frames : List (Frame × Option Text)) :
    store.shelf.held ≤ (store.converse frames).2.shelf.held ∧
      ((store.converse frames).2.shelf.held : Int) ≤ max (store.shelf.held : Int) store.cap := by
  rw [converse_eq_run]
  obtain ⟨-, -, hgrows, hbound⟩ := run_stands h (frames.map fun f => .frame f.1 f.2)
  exact ⟨hgrows, hbound⟩

end Store

end ScriptDepot
