import Mathlib.Data.List.Nodup
import Mathlib.Logic.Function.Basic
import ScriptDepot.Proofs.LastSave
/-!
# Saves by several threads

Each thread makes one save: it enters, counts, writes or gives up, and leaves.  A store that
serializes its saves has a lock, which a thread takes when it enters and gives back when it leaves,
whatever came of its save.  Then the saves come to the same as saves made one after another in the
order in which the threads entered.
-/

namespace ScriptDepot

namespace Store

def finishSave (store : Store) (new : NewScript) (count : Nat) : Except Failure Store :=
  if store.cap ≤ count then .error (Refusal.full count store.cap)
  else
    match new.script.encode with
    | .error fault => .error (Breakdown.unencodable fault)
    | .ok bytes => do
      let shelf ← store.shelf.put new.name bytes
      .ok { store with shelf := shelf }

theorem outcome_save_eq_finishSave (store : Store) (new : NewScript) :
    (store.save new.name new.script).outcome = store.shelf.count >>= store.finishSave new := by
  rw [outcome_save]
  rfl

theorem finishSave_eq_ok {store after : Store} {new : NewScript} {count : Nat}
    (h : store.finishSave new count = .ok after) :
    after.serialized = store.serialized ∧ after.cap = store.cap := by
  unfold finishSave at h
  split at h
  · cases h
  · split at h
    · cases h
    · obtain ⟨shelf, -, h⟩ := bind_eq_ok.mp h
      cases h
      exact ⟨rfl, rfl⟩

def trySave (store : Store) (new : NewScript) : Except Failure Unit × Store :=
  match (store.save new.name new.script).outcome with
  | .ok after => (.ok (), after)
  | .error e => (.error e, store)

theorem trySave_of_count_error {store : Store} {e : Failure} (new : NewScript)
    (h : store.shelf.count = .error e) : store.trySave new = (.error e, store) := by
  rw [trySave, outcome_save_eq_finishSave, h]
  rfl

theorem trySave_of_count {store : Store} {count : Nat} (new : NewScript)
    (h : store.shelf.count = .ok count) :
    store.trySave new =
      match store.finishSave new count with
      | .ok after => (.ok (), after)
      | .error e => (.error e, store) := by
  rw [trySave, outcome_save_eq_finishSave, h]
  rfl

def saveAll (store : Store) : List NewScript → List (Except Failure Unit) × Store
  | [] => ([], store)
  | new :: rest =>
    let (outcome, next) := store.trySave new
    let (outcomes, last) := next.saveAll rest
    (outcome :: outcomes, last)

theorem saveAll_append (store : Store) (news others : List NewScript) :
    store.saveAll (news ++ others) =
      ((store.saveAll news).1 ++ ((store.saveAll news).2.saveAll others).1,
        ((store.saveAll news).2.saveAll others).2) := by
  induction news generalizing store with
  | nil => rfl
  | cons new rest ih =>
    simp only [List.cons_append, saveAll, ih]

theorem saveAll_singleton (store : Store) (new : NewScript) :
    store.saveAll [new] = ([(store.trySave new).1], (store.trySave new).2) := rfl

end Store

inductive Phase where
  | waiting
  | entered
  | counted (count : Nat)
  /-- The save is over, the lock not yet given back. -/
  | leaving (outcome : Except Failure Unit)
  | done (outcome : Except Failure Unit)

namespace Phase

def isInside : Phase → Bool
  | .entered | .counted _ | .leaving _ => true
  | .waiting | .done _ => false

def steps : Phase → Nat
  | .waiting => 0
  | .entered => 1
  | .counted _ => 2
  | .leaving _ => 3
  | .done _ => 4

end Phase

structure Savers (n : Nat) where
  store : Store
  lock : Option (Fin n)
  phases : Fin n → Phase
  /-- The threads that have entered, in the order in which they did. -/
  order : List (Fin n)

namespace Savers

variable {n : Nat} (calls : Fin n → NewScript)

def start (store : Store) : Savers n := ⟨store, none, fun _ => .waiting, []⟩

def move (s : Savers n) (i : Fin n) (phase : Phase) : Savers n :=
  { s with phases := Function.update s.phases i phase }

def enter (s : Savers n) (i : Fin n) : Savers n :=
  { s.move i .entered with
    lock := if s.store.serialized then some i else s.lock
    order := s.order ++ [i] }

def count (s : Savers n) (i : Fin n) : Savers n :=
  match s.store.shelf.count with
  | .ok count => s.move i (.counted count)
  | .error e => s.move i (.leaving (.error e))

def write (s : Savers n) (i : Fin n) (count : Nat) : Savers n :=
  match s.store.finishSave (calls i) count with
  | .ok after => { s.move i (.leaving (.ok ())) with store := after }
  | .error e => s.move i (.leaving (.error e))

def leave (s : Savers n) (i : Fin n) (outcome : Except Failure Unit) : Savers n :=
  { s.move i (.done outcome) with lock := if s.store.serialized then none else s.lock }

/-- One step of a thread, if it can make one: a thread that has to have the lock waits until nobody
has it. -/
def step (s : Savers n) (i : Fin n) : Option (Savers n) :=
  match s.phases i with
  | .waiting => if s.store.serialized && s.lock.isSome then none else some (s.enter i)
  | .entered => some (s.count i)
  | .counted count => some (s.write calls i count)
  | .leaving outcome => some (s.leave i outcome)
  | .done _ => none

def run (s : Savers n) : List (Fin n) → Option (Savers n)
  | [] => some s
  | i :: rest => (s.step calls i).bind fun next => run next rest

theorem run_cons_eq_some {s last : Savers n} {i : Fin n} {rest : List (Fin n)} :
    s.run calls (i :: rest) = some last ↔
      ∃ next, s.step calls i = some next ∧ next.run calls rest = some last :=
  Option.bind_eq_some_iff

@[simp] theorem phases_move_self (s : Savers n) (i : Fin n) (phase : Phase) :
    (s.move i phase).phases i = phase := Function.update_self ..

theorem phases_move_of_ne (s : Savers n) {i j : Fin n} (phase : Phase) (h : j ≠ i) :
    (s.move i phase).phases j = s.phases j := Function.update_of_ne h ..

theorem map_phases_move (s : Savers n) {i : Fin n} (phase : Phase) {order : List (Fin n)}
    (h : i ∉ order) : order.map (s.move i phase).phases = order.map s.phases := by
  apply List.map_congr_left
  intro j hj
  exact s.phases_move_of_ne phase (by rintro rfl; exact h hj)

/-- All that a step can be. -/
theorem step_cases {s next : Savers n} {i : Fin n} (h : s.step calls i = some next) :
    (s.phases i = .waiting ∧ (s.store.serialized = true → s.lock = none) ∧ next = s.enter i) ∨
      (s.phases i = .entered ∧ next = s.count i) ∨
      (∃ count, s.phases i = .counted count ∧ next = s.write calls i count) ∨
      ∃ outcome, s.phases i = .leaving outcome ∧ next = s.leave i outcome := by
  unfold step at h
  cases hphase : s.phases i with
  | waiting =>
    simp only [hphase] at h
    split at h
    · cases h
    · rename_i hfree
      refine .inl ⟨rfl, ?_, (Option.some.inj h).symm⟩
      intro hserialized
      simpa [hserialized] using hfree
  | entered =>
    simp only [hphase] at h
    exact .inr (.inl ⟨rfl, (Option.some.inj h).symm⟩)
  | counted count =>
    simp only [hphase] at h
    exact .inr (.inr (.inl ⟨count, rfl, (Option.some.inj h).symm⟩))
  | leaving outcome =>
    simp only [hphase] at h
    exact .inr (.inr (.inr ⟨outcome, rfl, (Option.some.inj h).symm⟩))
  | done outcome =>
    simp only [hphase] at h
    cases h

/-! ## The invariant -/

/-- How far the thread with the lock has come with its save, which found the store at `before`. -/
inductive Inside (before : Store) (new : NewScript) : Phase → Store → Prop
  | entered : Inside before new .entered before
  | counted {count : Nat} (h : before.shelf.count = .ok count) :
      Inside before new (.counted count) before
  | leaving : Inside before new (.leaving (before.trySave new).1) (before.trySave new).2

theorem Inside.isInside {before now : Store} {new : NewScript} {phase : Phase}
    (h : Inside before new phase now) : phase.isInside = true := by
  cases h <;> rfl

theorem inside_leaving_iff {before now : Store} {new : NewScript} {outcome : Except Failure Unit} :
    Inside before new (.leaving outcome) now ↔ before.trySave new = (outcome, now) := by
  constructor
  · intro h
    cases h
    rfl
  · intro h
    have hleaving : Inside before new _ _ := .leaving
    rw [h] at hleaving
    exact hleaving

def Done (store : Store) (s : Savers n) (order : List (Fin n)) : Prop :=
  order.map s.phases = (store.saveAll (order.map calls)).1.map .done

/-- Nobody has the lock, and all threads that entered are done; or one thread has it, which entered
last, and all that entered before it are done. -/
inductive Progress (store : Store) (s : Savers n) : Prop
  | free (hlock : s.lock = none) (hdone : Done calls store s s.order)
      (hstore : s.store = (store.saveAll (s.order.map calls)).2)
  | held {i : Fin n} {before : List (Fin n)} (hlock : s.lock = some i)
      (horder : s.order = before ++ [i]) (hdone : Done calls store s before)
      (hinside : Inside (store.saveAll (before.map calls)).2 (calls i) (s.phases i) s.store)

structure Invariant (store : Store) (s : Savers n) : Prop where
  serialized : s.store.serialized = true
  nodup : s.order.Nodup
  waiting : ∀ i, s.phases i = .waiting ↔ i ∉ s.order
  progress : Progress calls store s

variable {calls} {store : Store} {s : Savers n} {i : Fin n}

theorem Done.exists_outcome {order : List (Fin n)} (h : Done calls store s order) (hi : i ∈ order) :
    ∃ outcome, s.phases i = .done outcome := by
  have hmem : s.phases i ∈ (store.saveAll (order.map calls)).1.map Phase.done := by
    rw [← h]
    exact List.mem_map_of_mem hi
  obtain ⟨outcome, -, houtcome⟩ := List.mem_map.mp hmem
  exact ⟨outcome, houtcome.symm⟩

theorem Done.move {order : List (Fin n)} (h : Done calls store s order) (hi : i ∉ order)
    (phase : Phase) : Done calls store (s.move i phase) order := by
  unfold Done
  rw [map_phases_move s phase hi]
  exact h

namespace Invariant

theorem start (calls : Fin n → NewScript) (h : store.serialized = true) :
    Invariant calls store (Savers.start store) :=
  ⟨h, .nil, fun _ => by simp [Savers.start], .free rfl rfl rfl⟩

theorem held_of_isInside (h : Invariant calls store s) (hi : (s.phases i).isInside = true) :
    ∃ before, s.lock = some i ∧ s.order = before ++ [i] ∧ Done calls store s before ∧
      Inside (store.saveAll (before.map calls)).2 (calls i) (s.phases i) s.store := by
  have hentered : i ∈ s.order := by
    by_contra hnot
    rw [(h.waiting i).mpr hnot] at hi
    cases hi
  have hnotDone : ∀ outcome, s.phases i ≠ .done outcome := by
    intro outcome hdone
    rw [hdone] at hi
    cases hi
  cases h.progress with
  | free hlock hdone hstore =>
    obtain ⟨outcome, houtcome⟩ := hdone.exists_outcome hentered
    exact absurd houtcome (hnotDone outcome)
  | @held j before hlock horder hdone hinside =>
    rw [horder, List.mem_append, List.mem_singleton] at hentered
    rcases hentered with hbefore | rfl
    · obtain ⟨outcome, houtcome⟩ := hdone.exists_outcome hbefore
      exact absurd houtcome (hnotDone outcome)
    · exact ⟨before, hlock, horder, hdone, hinside⟩

theorem not_mem_before (h : Invariant calls store s) {before : List (Fin n)}
    (horder : s.order = before ++ [i]) : i ∉ before := by
  have hnodup := h.nodup
  rw [horder] at hnodup
  intro hmem
  exact (List.nodup_append.mp hnodup).2.2 i hmem i (List.mem_singleton_self i) rfl

theorem enter (h : Invariant calls store s) (hphase : s.phases i = .waiting)
    (hlock : s.lock = none) : Invariant calls store (s.enter i) := by
  have hnew : i ∉ s.order := (h.waiting i).mp hphase
  have hstore : (s.enter i).store = s.store := rfl
  have horder : (s.enter i).order = s.order ++ [i] := rfl
  refine ⟨h.serialized, ?_, ?_, ?_⟩
  · rw [horder]
    exact List.nodup_append.mpr ⟨h.nodup, by simp, by
      intro a ha b hb
      rw [List.mem_singleton.mp hb]
      rintro rfl
      exact hnew ha⟩
  · intro j
    rw [horder, List.mem_append, List.mem_singleton]
    by_cases hj : j = i
    · subst hj
      simp [Savers.enter]
    · have hphases : (s.enter i).phases j = s.phases j := s.phases_move_of_ne .entered hj
      rw [hphases, h.waiting j]
      simp [hj]
  · cases h.progress with
    | held hlock' => rw [hlock] at hlock'; cases hlock'
    | free _ hdone hnow =>
      refine .held ?_ horder (hdone.move hnew .entered) ?_
      · simp [Savers.enter, h.serialized]
      · have hphases : (s.enter i).phases i = .entered := s.phases_move_self i .entered
        rw [hphases, hstore, hnow]
        exact .entered

theorem waiting_move (h : Invariant calls store s) (hi : i ∈ s.order) {phase : Phase}
    (hphase : phase ≠ .waiting) (j : Fin n) :
    (s.move i phase).phases j = .waiting ↔ j ∉ s.order := by
  by_cases hj : j = i
  · subst hj
    rw [phases_move_self]
    constructor
    · intro hwaiting
      exact absurd hwaiting hphase
    · intro hnot
      exact absurd hi hnot
  · rw [s.phases_move_of_ne phase hj]
    exact h.waiting j

theorem within (h : Invariant calls store s) (hi : (s.phases i).isInside = true) {phase : Phase}
    {now : Store} (hserialized : now.serialized = true)
    (hinside : ∀ before, Inside before (calls i) (s.phases i) s.store →
      Inside before (calls i) phase now) :
    Invariant calls store { s.move i phase with store := now } := by
  obtain ⟨before, hlock, horder, hdone, hwas⟩ := h.held_of_isInside hi
  have hnew := h.not_mem_before horder
  have hnow := hinside _ hwas
  have hentered : i ∈ s.order := by simp [horder]
  refine ⟨hserialized, h.nodup, h.waiting_move hentered ?_, ?_⟩
  · rintro rfl
    cases hnow
  · refine .held hlock horder (hdone.move hnew phase) ?_
    have hphases : ({ s.move i phase with store := now } : Savers n).phases i = phase :=
      s.phases_move_self i phase
    rw [hphases]
    exact hnow

theorem count (h : Invariant calls store s) (hphase : s.phases i = .entered) :
    Invariant calls store (s.count i) := by
  have hi : (s.phases i).isInside = true := by rw [hphase]; rfl
  unfold Savers.count
  cases hcount : s.store.shelf.count with
  | ok count =>
    refine h.within hi h.serialized ?_
    intro before hinside
    rw [hphase] at hinside
    cases hinside
    exact .counted hcount
  | error e =>
    refine h.within hi h.serialized ?_
    intro before hinside
    rw [hphase] at hinside
    cases hinside
    exact inside_leaving_iff.mpr (Store.trySave_of_count_error (calls i) hcount)

theorem write (h : Invariant calls store s) {count : Nat} (hphase : s.phases i = .counted count) :
    Invariant calls store (s.write calls i count) := by
  have hi : (s.phases i).isInside = true := by rw [hphase]; rfl
  have hsave : ∀ before, Inside before (calls i) (s.phases i) s.store →
      before.trySave (calls i) =
        match s.store.finishSave (calls i) count with
        | .ok after => (.ok (), after)
        | .error e => (.error e, s.store) := by
    intro before hinside
    rw [hphase] at hinside
    cases hinside with
    | counted hcount => exact Store.trySave_of_count (calls i) hcount
  unfold Savers.write
  cases hfinish : s.store.finishSave (calls i) count with
  | ok after =>
    rw [hfinish] at hsave
    refine h.within hi ((Store.finishSave_eq_ok hfinish).1.trans h.serialized) ?_
    exact fun before hinside => inside_leaving_iff.mpr (hsave before hinside)
  | error e =>
    rw [hfinish] at hsave
    refine h.within hi h.serialized ?_
    exact fun before hinside => inside_leaving_iff.mpr (hsave before hinside)

theorem leave (h : Invariant calls store s) {outcome : Except Failure Unit}
    (hphase : s.phases i = .leaving outcome) : Invariant calls store (s.leave i outcome) := by
  have hi : (s.phases i).isInside = true := by rw [hphase]; rfl
  obtain ⟨before, hlock, horder, hdone, hinside⟩ := h.held_of_isInside hi
  have hnew := h.not_mem_before horder
  rw [hphase] at hinside
  have hsave := inside_leaving_iff.mp hinside
  have hentered : i ∈ s.order := by simp [horder]
  refine ⟨h.serialized, h.nodup, h.waiting_move hentered (by simp), ?_⟩
  · have hall : (s.leave i outcome).order = before ++ [i] := horder
    have hself : (s.leave i outcome).phases i = .done outcome := s.phases_move_self i _
    have hbefore : before.map (s.leave i outcome).phases = before.map s.phases :=
      s.map_phases_move _ hnew
    refine .free ?_ ?_ ?_
    · simp [Savers.leave, h.serialized]
    · unfold Done at hdone ⊢
      rw [hall, List.map_append, List.map_append, Store.saveAll_append, List.map_append, hbefore,
        hdone, List.map_singleton, List.map_singleton, hself, Store.saveAll_singleton, hsave,
        List.map_singleton]
    · rw [hall, List.map_append, Store.saveAll_append, List.map_singleton, Store.saveAll_singleton,
        hsave]
      rfl

theorem step (h : Invariant calls store s) {next : Savers n} (hstep : s.step calls i = some next) :
    Invariant calls store next := by
  rcases step_cases calls hstep with ⟨hphase, hlock, rfl⟩ | ⟨hphase, rfl⟩ | ⟨count, hphase, rfl⟩ |
    ⟨outcome, hphase, rfl⟩
  · exact h.enter hphase (hlock h.serialized)
  · exact h.count hphase
  · exact h.write hphase
  · exact h.leave hphase

theorem run (h : Invariant calls store s) {schedule : List (Fin n)} {last : Savers n}
    (hrun : s.run calls schedule = some last) : Invariant calls store last := by
  induction schedule generalizing s with
  | nil =>
    cases hrun
    exact h
  | cons i rest ih =>
    obtain ⟨next, hstep, hrest⟩ := (run_cons_eq_some calls).mp hrun
    exact ih (h.step hstep) hrest

theorem lock_eq_some_iff (h : Invariant calls store s) (i : Fin n) :
    s.lock = some i ↔ (s.phases i).isInside = true := by
  constructor
  · intro hlock
    cases h.progress with
    | free hfree => rw [hlock] at hfree; cases hfree
    | held hheld horder hdone hinside =>
      rw [hlock] at hheld
      cases hheld
      exact hinside.isInside
  · intro hi
    obtain ⟨before, hlock, -⟩ := h.held_of_isInside hi
    exact hlock

/-- When no thread can make a step, all are done, one after another as they entered. -/
theorem finished (h : Invariant calls store s) (hstuck : ∀ i, s.step calls i = none) :
    s.lock = none ∧ s.order.Perm (List.finRange n) ∧ Done calls store s s.order ∧
      s.store = (store.saveAll (s.order.map calls)).2 := by
  have houtside : ∀ i, (s.phases i).isInside = false := by
    intro i
    have hnone := hstuck i
    unfold Savers.step at hnone
    cases hphase : s.phases i <;> simp_all [Phase.isInside]
  have hlock : s.lock = none := by
    cases hlock : s.lock with
    | none => rfl
    | some i =>
      have hinside := (h.lock_eq_some_iff i).mp hlock
      rw [houtside i] at hinside
      cases hinside
  have hentered : ∀ i, i ∈ s.order := by
    intro i
    by_contra hnot
    have hphase := (h.waiting i).mpr hnot
    have hnone := hstuck i
    simp [Savers.step, hphase, hlock] at hnone
  have hperm : s.order.Perm (List.finRange n) := by
    apply (List.perm_ext_iff_of_nodup h.nodup (List.nodup_finRange n)).mpr
    intro i
    simp [hentered i]
  cases h.progress with
  | free _ hdone hstore => exact ⟨hlock, hperm, hdone, hstore⟩
  | held hheld => rw [hlock] at hheld; cases hheld

end Invariant

/-! ## Each thread makes four steps at most -/

theorem phases_step {next : Savers n} (h : s.step calls i = some next) :
    ∃ phase, (s.phases i).steps < phase.steps ∧
      next.phases = Function.update s.phases i phase := by
  rcases step_cases calls h with ⟨hphase, -, rfl⟩ | ⟨hphase, rfl⟩ | ⟨count, hphase, rfl⟩ |
    ⟨outcome, hphase, rfl⟩
  · exact ⟨.entered, by simp [hphase, Phase.steps], rfl⟩
  · unfold count
    cases s.store.shelf.count with
    | ok count => exact ⟨.counted count, by simp [hphase, Phase.steps], rfl⟩
    | error e => exact ⟨.leaving (.error e), by simp [hphase, Phase.steps], rfl⟩
  · unfold write
    cases s.store.finishSave (calls i) count with
    | ok after => exact ⟨.leaving (.ok ()), by simp [hphase, Phase.steps], rfl⟩
    | error e => exact ⟨.leaving (.error e), by simp [hphase, Phase.steps], rfl⟩
  · exact ⟨.done outcome, by simp [hphase, Phase.steps], rfl⟩

theorem steps_run {schedule : List (Fin n)} {last : Savers n}
    (h : s.run calls schedule = some last) (i : Fin n) :
    (s.phases i).steps + schedule.count i ≤ (last.phases i).steps := by
  induction schedule generalizing s with
  | nil =>
    cases h
    exact Nat.le_refl _
  | cons j rest ih =>
    obtain ⟨next, hstep, hrest⟩ := (run_cons_eq_some calls).mp h
    obtain ⟨phase, hfurther, hphases⟩ := phases_step hstep
    have hlater := ih hrest
    rw [hphases] at hlater
    by_cases hj : j = i
    · subst hj
      rw [Function.update_self] at hlater
      rw [List.count_cons_self]
      omega
    · rw [Function.update_of_ne (Ne.symm hj)] at hlater
      rw [List.count_cons_of_ne hj]
      exact hlater

theorem count_le_four {schedule : List (Fin n)} {last : Savers n}
    (h : (Savers.start store).run calls schedule = some last) (i : Fin n) :
    schedule.count i ≤ 4 := by
  have hsteps := steps_run h i
  have hmost : (last.phases i).steps ≤ 4 := by
    cases last.phases i <;> simp [Phase.steps]
  omega

end Savers

/-! ## New names in memory -/

namespace Ledger

variable {scripts : Ledger Text Bytes}

structure Fresh (scripts : Ledger Text Bytes) (news : List NewScript) : Prop where
  distinct : (news.map NewScript.name).Nodup
  absent : ∀ new ∈ news, new.name ∉ scripts.keys

theorem Fresh.put {new : NewScript} {rest : List NewScript} (h : scripts.Fresh (new :: rest)) :
    (scripts.put new.name new.script.utf8).size = scripts.size + 1 ∧
      (scripts.put new.name new.script.utf8).Fresh rest := by
  obtain ⟨hdistinct, habsent⟩ := h
  rw [List.map_cons, List.nodup_cons] at hdistinct
  rw [List.forall_mem_cons] at habsent
  have hkeys : (scripts.put new.name new.script.utf8).keys = scripts.keys ++ [new.name] :=
    Assoc.keys_put_of_not_mem habsent.1
  refine ⟨?_, hdistinct.2, ?_⟩
  · have hlength := congrArg List.length hkeys
    simpa [keys, Assoc.keys, size] using hlength
  · intro other hother
    rw [hkeys, List.mem_append, List.mem_singleton]
    rintro (hold | hsame)
    · exact habsent.2 other hother hold
    · exact hdistinct.1 (hsame ▸ List.mem_map_of_mem hother)

theorem Fresh.take {news : List NewScript} (h : scripts.Fresh news) (count : Nat) :
    scripts.Fresh (news.take count) := by
  refine ⟨?_, fun new hnew => h.absent new (List.mem_of_mem_take hnew)⟩
  rw [List.map_take]
  exact h.distinct.sublist (List.take_sublist _ _)

theorem Fresh.size_saveAll {news : List NewScript} (h : scripts.Fresh news) :
    (scripts.saveAll news).size = scripts.size + news.length := by
  induction news generalizing scripts with
  | nil => rfl
  | cons new rest ih =>
    obtain ⟨hsize, hrest⟩ := h.put
    rw [saveAll_cons, ih hrest, hsize, List.length_cons]
    omega

end Ledger

namespace Store

variable {store : Store} {scripts : Ledger Text Bytes}

theorem trySave_of_full (hshelf : store.shelf = .memory scripts) (hfull : store.cap ≤ scripts.size)
    (new : NewScript) :
    store.trySave new = (.error (Refusal.full scripts.size store.cap), store) := by
  have hcount : store.shelf.count = .ok scripts.size := by rw [hshelf]; rfl
  rw [trySave_of_count new hcount, finishSave, if_pos hfull]

theorem trySave_of_room (hshelf : store.shelf = .memory scripts) (hroom : scripts.size < store.cap)
    {new : NewScript} (hscalar : new.script.isScalar = true) :
    store.trySave new =
      (.ok (), { store with shelf := .memory (scripts.put new.name new.script.utf8) }) := by
  have hcount : store.shelf.count = .ok scripts.size := by rw [hshelf]; rfl
  have hbytes : new.script.encode = .ok new.script.utf8 := Text.encode_eq_ok.mpr ⟨hscalar, rfl⟩
  rw [trySave_of_count new hcount, finishSave, if_neg (by omega), hbytes, hshelf]
  rfl

/-- With room for `room` more scripts, the first `room` saves of new names go through and the others
are refused. -/
theorem saveAll_of_fresh (hshelf : store.shelf = .memory scripts) {room : Nat}
    (hroom : scripts.size + room = store.cap) {news : List NewScript} (hfresh : scripts.Fresh news)
    (hscalar : ∀ new ∈ news, new.script.isScalar = true) :
    store.saveAll news =
      (List.replicate (min news.length room) (.ok ()) ++
        List.replicate (news.length - min news.length room)
          (.error (Refusal.full (scripts.size + room) store.cap)),
        { store with shelf := .memory (scripts.saveAll (news.take room)) }) := by
  -- on the calls, with the room that is left: a save takes one from both
  induction news generalizing store scripts room with
  | nil => simp [saveAll, Ledger.saveAll, ← hshelf]
  | cons new rest ih =>
    obtain ⟨hsize, hrestFresh⟩ := hfresh.put
    rw [List.forall_mem_cons] at hscalar
    cases room with
    | zero =>
      have habsent : ∀ other ∈ rest, other.name ∉ scripts.keys := fun other hother =>
        hfresh.absent other (List.mem_cons_of_mem _ hother)
      have hsame : scripts.Fresh rest := ⟨hrestFresh.distinct, habsent⟩
      have hrefused := trySave_of_full hshelf (by omega) new
      have hrest := ih hshelf hroom hsame hscalar.2
      simp only [saveAll, hrefused, hrest, Nat.min_zero, List.replicate_zero, List.nil_append,
        List.take_zero, List.length_cons, Nat.sub_zero, List.replicate_succ, Nat.add_zero]
    | succ room =>
      have hsaved := trySave_of_room hshelf (by omega) hscalar.1
      have hleast : ((scripts.put new.name new.script.utf8).size : Int) + room = store.cap := by
        rw [hsize]
        omega
      have hafter : ({ store with
          shelf := .memory (scripts.put new.name new.script.utf8) } : Store).shelf =
            .memory (scripts.put new.name new.script.utf8) := rfl
      have hrest := ih hafter hleast hrestFresh hscalar.2
      have hmin : min (rest.length + 1) (room + 1) = min rest.length room + 1 := by omega
      have hleft : rest.length + 1 - (min rest.length room + 1) =
          rest.length - min rest.length room := by omega
      have hcount : scripts.size + 1 + room = scripts.size + (room + 1) := by omega
      simp only [saveAll, hsaved, hrest, List.length_cons, hmin, hleft, List.replicate_succ,
        List.cons_append, hsize, hcount, List.take_succ_cons, Ledger.saveAll_cons]

end Store

namespace Savers

variable {n : Nat}

/-- However the steps of the threads interleave, one thread at most is inside, and it is the one
with the lock.  No thread makes more than four steps, and when none can make another all are done,
the lock is free, and each save has come to what it comes to when the saves are made one after
another in the order in which the threads took the lock.  For new names in memory these are as many
saves as there was room for, the first ones, and refusals that change nothing. -/
theorem serialized_saves_linearize (store : Store) (hserialized : store.serialized = true)
    (calls : Fin n → NewScript) (schedule : List (Fin n)) (s : Savers n)
    (hrun : (Savers.start store).run calls schedule = some s) :
    (∀ i, s.lock = some i ↔ (s.phases i).isInside = true) ∧
    (∀ i j, (s.phases i).isInside = true → (s.phases j).isInside = true → i = j) ∧
    (∀ i, schedule.count i ≤ 4) ∧
    ((∀ i, s.step calls i = none) →
      s.lock = none ∧ s.order.Perm (List.finRange n) ∧
      s.order.map s.phases = (store.saveAll (s.order.map calls)).1.map .done ∧
      s.store = (store.saveAll (s.order.map calls)).2 ∧
      ∀ scripts : Ledger Text Bytes, store.shelf = .memory scripts →
        (scripts.size : Int) ≤ store.cap →
        Function.Injective (fun i => (calls i).name) →
        (∀ i, (calls i).name ∉ scripts.keys) →
        (∀ i, ∃ bytes, (calls i).script.encode = .ok bytes) →
        let room := (store.cap - scripts.size).toNat
        s.order.map s.phases =
            List.replicate (min n room) (.done (.ok ())) ++
              List.replicate (n - min n room)
                (.done (.error (Refusal.full (scripts.size + room) store.cap))) ∧
          s.store.shelf = .memory (scripts.saveAll ((s.order.take room).map calls)) ∧
          s.store.size = .ok (scripts.size + min n room)) := by
  -- every step keeps the invariant, and all but the bound on the steps is read off it
  have hinv : Invariant calls store s := (Invariant.start calls hserialized).run hrun
  refine ⟨hinv.lock_eq_some_iff, ?_, fun i => count_le_four hrun i, ?_⟩
  · intro i j hi hj
    have hlock := (hinv.lock_eq_some_iff i).mpr hi
    rw [(hinv.lock_eq_some_iff j).mpr hj] at hlock
    exact (Option.some.inj hlock).symm
  · intro hstuck
    obtain ⟨hlock, hperm, hdone, hstore⟩ := hinv.finished hstuck
    refine ⟨hlock, hperm, hdone, hstore, ?_⟩
    intro scripts hshelf hsize hinjective habsent hencode room
    have hlength : (s.order.map calls).length = n := by
      rw [List.length_map, hperm.length_eq, List.length_finRange]
    have hfresh : scripts.Fresh (s.order.map calls) := by
      refine ⟨?_, ?_⟩
      · rw [List.map_map]
        exact List.Nodup.map hinjective hinv.nodup
      · intro new hnew
        obtain ⟨i, -, rfl⟩ := List.mem_map.mp hnew
        exact habsent i
    have hscalar : ∀ new ∈ s.order.map calls, new.script.isScalar = true := by
      intro new hnew
      obtain ⟨i, -, rfl⟩ := List.mem_map.mp hnew
      obtain ⟨bytes, hbytes⟩ := hencode i
      exact (Text.encode_eq_ok.mp hbytes).1
    have hroom : (scripts.size : Int) + room = store.cap := by omega
    have hsaves := Store.saveAll_of_fresh hshelf hroom hfresh hscalar
    rw [hlength] at hsaves
    have hshelf' : s.store.shelf = .memory (scripts.saveAll ((s.order.take room).map calls)) := by
      rw [hstore, hsaves, List.map_take]
    refine ⟨?_, hshelf', ?_⟩
    · rw [hdone, hsaves, List.map_append, List.map_replicate, List.map_replicate]
    · have hcount := (hfresh.take room).size_saveAll
      rw [List.length_take, hlength, ← List.map_take, Nat.min_comm] at hcount
      rw [Store.size, hshelf', ← hcount]
      rfl

def twoCalls : Fin 2 → NewScript
  | 0 => ⟨"a", "1"⟩
  | 1 => ⟨"b", "2"⟩

def lastPlace (serialized : Bool) : Store := ⟨.memory .empty, 1, serialized⟩

theorem serialized_saves_linearize_twoCalls :
    ∃ s, (Savers.start (lastPlace true)).run twoCalls [1, 1, 1, 1, 0, 0, 0, 0] = some s ∧
      (∀ i, s.step twoCalls i = none) ∧
      s.order.map s.phases = [.done (.ok ()), .done (.error (Refusal.full 1 1))] ∧
      s.store.size = .ok 1 := by
  obtain ⟨s, hrun⟩ : ∃ s, (Savers.start (lastPlace true)).run twoCalls [1, 1, 1, 1, 0, 0, 0, 0] =
      some s := Option.isSome_iff_exists.mp (by decide +kernel)
  have hnone : ((Savers.start (lastPlace true)).run twoCalls [1, 1, 1, 1, 0, 0, 0, 0]).map
      (fun s => (s.step twoCalls 0).isNone && (s.step twoCalls 1).isNone) = some true := by
    decide +kernel
  rw [hrun, Option.map_some, Option.some.injEq, Bool.and_eq_true] at hnone
  have hstuck : ∀ i, s.step twoCalls i = none
    | 0 => Option.isNone_iff_eq_none.mp hnone.1
    | 1 => Option.isNone_iff_eq_none.mp hnone.2
  have hinjective : Function.Injective (fun i => (twoCalls i).name) := by
    unfold Function.Injective
    decide
  obtain ⟨-, -, -, hfinished⟩ :=
    serialized_saves_linearize (lastPlace true) rfl twoCalls [1, 1, 1, 1, 0, 0, 0, 0] s hrun
  obtain ⟨-, -, -, -, hnew⟩ := hfinished hstuck
  obtain ⟨hphases, -, hsize⟩ := hnew .empty rfl (by decide) hinjective (by decide)
    (fun i => ⟨(twoCalls i).script.utf8, Text.encode_eq_ok.mpr ⟨by revert i; decide, rfl⟩⟩)
  exact ⟨s, hrun, hstuck, hphases, hsize⟩

-- Without the lock both threads count before either writes.
example : ((Savers.start (lastPlace false)).run twoCalls [0, 1, 0, 1, 0, 1, 0, 1]).map
    (·.store.shelf.held) = some 2 := by decide +kernel

end Savers

end ScriptDepot
