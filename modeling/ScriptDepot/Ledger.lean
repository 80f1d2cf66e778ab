/-!
# Mappings in insertion order

An association list in which each key stands once, at the place where it was first put.  Writing to
a key that is there replaces its value and keeps its place.
-/

namespace ScriptDepot

namespace Assoc

variable {κ ν : Type} [DecidableEq κ]

def get? (k : κ) : List (κ × ν) → Option ν
  | [] => none
  | (k', v) :: rest => if k' = k then some v else get? k rest

/-- Replaces the value of the first entry with this key, or adds an entry at the end. -/
def put (k : κ) (v : ν) : List (κ × ν) → List (κ × ν)
  | [] => [(k, v)]
  | (k', v') :: rest => if k' = k then (k', v) :: rest else (k', v') :: put k v rest

def keys (entries : List (κ × ν)) : List κ := entries.map Prod.fst

theorem mem_keys_put {k x : κ} {v : ν} {entries : List (κ × ν)} :
    x ∈ keys (put k v entries) ↔ x = k ∨ x ∈ keys entries := by
  induction entries with
  | nil => simp [keys, put]
  | cons e rest ih =>
    obtain ⟨k', v'⟩ := e
    by_cases h : k' = k
    · subst h; simp [keys, put]
    · simp only [keys, put, h, if_false, List.map_cons, List.mem_cons] at ih ⊢
      simp only [ih]
      constructor <;> rintro (rfl | rfl | h) <;> simp_all

theorem keys_put_of_mem {k : κ} {v : ν} {entries : List (κ × ν)} (h : k ∈ keys entries) :
    keys (put k v entries) = keys entries := by
  induction entries with
  | nil => cases h
  | cons e rest ih =>
    obtain ⟨k', v'⟩ := e
    by_cases hk : k' = k
    · subst hk; simp [keys, put]
    · have hrest : k ∈ keys rest := by simpa [keys, Ne.symm hk] using h
      simp only [keys] at ih hrest
      simp [keys, put, hk, ih hrest]

theorem keys_put_of_not_mem {k : κ} {v : ν} {entries : List (κ × ν)} (h : k ∉ keys entries) :
    keys (put k v entries) = keys entries ++ [k] := by
  induction entries with
  | nil => rfl
  | cons e rest ih =>
    obtain ⟨k', v'⟩ := e
    have hk : k' ≠ k ∧ k ∉ keys rest := by
      simpa [keys, eq_comm, and_comm] using h
    simp only [keys] at ih hk
    simp [keys, put, hk.1, ih hk.2]

theorem put_of_not_mem {k : κ} {v : ν} {entries : List (κ × ν)} (h : k ∉ keys entries) :
    put k v entries = entries ++ [(k, v)] := by
  induction entries with
  | nil => rfl
  | cons e rest ih =>
    obtain ⟨k', v'⟩ := e
    rw [keys, List.map_cons, List.mem_cons, not_or] at h
    rw [put, if_neg (Ne.symm h.1), ih h.2, List.cons_append]

theorem mem_put {k : κ} {v : ν} {entry : κ × ν} {entries : List (κ × ν)}
    (hnodup : (keys entries).Nodup) (h : entry ∈ put k v entries) :
    entry = (k, v) ∨ entry ∈ entries ∧ entry.1 ≠ k := by
  induction entries with
  | nil => exact .inl (List.mem_singleton.mp h)
  | cons e rest ih =>
    obtain ⟨k', v'⟩ := e
    obtain ⟨hk', hrest⟩ : k' ∉ keys rest ∧ (keys rest).Nodup := List.nodup_cons.mp hnodup
    rw [put] at h
    split at h
    · rename_i hk
      subst hk
      rcases List.mem_cons.mp h with heq | hmem
      · exact .inl heq
      · refine .inr ⟨List.mem_cons_of_mem _ hmem, ?_⟩
        rintro rfl
        exact hk' (List.mem_map_of_mem hmem)
    · rename_i hk
      rcases List.mem_cons.mp h with rfl | h
      · exact .inr ⟨List.mem_cons_self, hk⟩
      · rcases ih hrest h with h | ⟨h, hne⟩
        · exact .inl h
        · exact .inr ⟨List.mem_cons_of_mem _ h, hne⟩

theorem nodup_keys_put {k : κ} {v : ν} {entries : List (κ × ν)} (h : (keys entries).Nodup) :
    (keys (put k v entries)).Nodup := by
  induction entries with
  | nil => simp [keys, put]
  | cons e rest ih =>
    obtain ⟨k', v'⟩ := e
    by_cases hk : k' = k
    · subst hk; simpa [keys, put] using h
    · have h' : k' ∉ keys rest ∧ (keys rest).Nodup := by simpa [keys] using h
      have hmem : k' ∉ keys (put k v rest) := by
        rw [mem_keys_put]; rintro (rfl | hm)
        · exact hk rfl
        · exact h'.1 hm
      simp only [keys, put, hk, if_false, List.map_cons, List.nodup_cons]
      exact ⟨hmem, ih h'.2⟩

@[simp] theorem get?_put_self {k : κ} {v : ν} {entries : List (κ × ν)} :
    get? k (put k v entries) = some v := by
  induction entries with
  | nil => simp [get?, put]
  | cons e rest ih =>
    obtain ⟨k', v'⟩ := e
    by_cases h : k' = k <;> simp [get?, put, h, ih]

theorem get?_put_of_ne {k x : κ} {v : ν} {entries : List (κ × ν)} (h : x ≠ k) :
    get? x (put k v entries) = get? x entries := by
  induction entries with
  | nil => simp [get?, put, Ne.symm h]
  | cons e rest ih =>
    obtain ⟨k', v'⟩ := e
    by_cases hk : k' = k
    · subst hk; simp [get?, put, Ne.symm h]
    · by_cases hx : k' = x
      · subst hx; simp [get?, put, hk]
      · simp [get?, put, hk, hx, ih]

theorem get?_eq_none_iff {k : κ} {entries : List (κ × ν)} :
    get? k entries = none ↔ k ∉ keys entries := by
  induction entries with
  | nil => simp [get?, keys]
  | cons e rest ih =>
    obtain ⟨k', v'⟩ := e
    simp only [keys] at ih
    by_cases h : k' = k
    · simp [get?, keys, h]
    · have hk : k ≠ k' := Ne.symm h
      simp [get?, keys, h, hk, ih]

end Assoc

structure Ledger (κ ν : Type) where
  entries : List (κ × ν)
  nodup : (Assoc.keys entries).Nodup

namespace Ledger

variable {κ ν : Type} [DecidableEq κ]

def empty : Ledger κ ν := ⟨[], by simp [Assoc.keys]⟩

def get? (l : Ledger κ ν) (k : κ) : Option ν := Assoc.get? k l.entries

def put (l : Ledger κ ν) (k : κ) (v : ν) : Ledger κ ν :=
  ⟨Assoc.put k v l.entries, Assoc.nodup_keys_put l.nodup⟩

def keys (l : Ledger κ ν) : List κ := Assoc.keys l.entries

def size (l : Ledger κ ν) : Nat := l.entries.length

def filter (l : Ledger κ ν) (p : κ → Bool) : Ledger κ ν :=
  ⟨l.entries.filter (p ·.1), by
    have : Assoc.keys (l.entries.filter (p ·.1)) = (Assoc.keys l.entries).filter p := by
      simp [Assoc.keys, List.filter_map, Function.comp_def]
    rw [this]
    exact l.nodup.filter _⟩

def ofList (pairs : List (κ × ν)) : Ledger κ ν :=
  pairs.foldl (fun l (k, v) => l.put k v) empty

theorem entries_ofList {pairs : List (κ × ν)} (h : (Assoc.keys pairs).Nodup) :
    (ofList pairs).entries = pairs := by
  have hfold : ∀ ledger : Ledger κ ν, (∀ k ∈ Assoc.keys pairs, k ∉ ledger.keys) →
      (pairs.foldl (fun l (k, v) => l.put k v) ledger).entries = ledger.entries ++ pairs := by
    induction pairs with
    | nil => exact fun ledger _ => (List.append_nil _).symm
    | cons pair others ih =>
      intro ledger hnew
      have hkeys : pair.1 ∉ Assoc.keys others ∧ (Assoc.keys others).Nodup := List.nodup_cons.mp h
      have hpair : pair.1 ∉ Assoc.keys ledger.entries := hnew pair.1 List.mem_cons_self
      have hput : (ledger.put pair.1 pair.2).entries = ledger.entries ++ [pair] :=
        Assoc.put_of_not_mem hpair
      refine (ih hkeys.2 (ledger.put pair.1 pair.2) ?_).trans ?_
      · intro k hk hmem
        rcases Assoc.mem_keys_put.mp hmem with rfl | hmem
        · exact hkeys.1 hk
        · exact hnew k (List.mem_cons_of_mem _ hk) hmem
      · rw [hput, List.append_assoc]
        rfl
  exact hfold .empty fun k _ hk => nomatch hk

end Ledger

end ScriptDepot
