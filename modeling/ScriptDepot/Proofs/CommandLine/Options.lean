import ScriptDepot.CommandLine.Parse
/-!
# Options written out in full

A long option can be written by its full name, with its value behind an equals sign in the same
token.  Such a token is never taken for anything else, whatever the value holds, so a sequence of
them takes effect one by one from left to right.
-/

namespace ScriptDepot

namespace CommandLine

variable {κ σ : Type} {flags : List (Flag κ)} {t : Text} {rest : List Text}

/-! ## Words -/

theorem classify_word (h : t.head? ≠ some dash) : classify flags t = .ok .word := if_pos h

theorem ne_doubleDash (h : t.head? ≠ some dash) : t ≠ doubleDash := by
  rintro rfl
  exact h rfl

theorem scan_cons {kind : Kind κ} (hne : t ≠ doubleDash) (h : classify flags t = .ok kind) :
    scan flags (t :: rest) =
      (scan flags rest).map fun line => { line with front := ⟨t, kind⟩ :: line.front } := by
  rw [scan, if_neg hne, h]
  cases scan flags rest <;> rfl

theorem scan_word (h : t.head? ≠ some dash) :
    scan flags (t :: rest) =
      (scan flags rest).map fun line => { line with front := ⟨t, .word⟩ :: line.front } :=
  scan_cons (ne_doubleDash h) (classify_word h)

theorem exists_scan (h : ∀ t ∈ rest, t ≠ doubleDash ∧ ∃ kind, classify flags t = .ok kind) :
    ∃ front, scan flags rest = .ok ⟨front, none⟩ ∧ front.map (·.text) = rest := by
  induction rest with
  | nil => exact ⟨[], rfl, rfl⟩
  | cons t rest ih =>
    rw [List.forall_mem_cons] at h
    obtain ⟨⟨hne, kind, hkind⟩, hrest⟩ := h
    obtain ⟨front, hfront, htexts⟩ := ih hrest
    refine ⟨⟨t, kind⟩ :: front, ?_, by rw [List.map_cons, htexts]⟩
    rw [scan_cons hne hkind, hfront]
    rfl

/-! ## Names -/

theorem named?_eq_none (h : ∀ entry ∈ allNames flags, entry.2 ≠ t) : named? flags t = none := by
  rw [named?, List.find?_eq_none.mpr (by simpa using h)]
  rfl

theorem ne_equals_of_mem (h : ('=' : CodePoint) ∉ t) :
    ∀ c ∈ t, decide (c ≠ ('=' : CodePoint)) = true := by
  intro c hc
  exact decide_eq_true fun heq => h (heq ▸ hc)

theorem splitEquals_append {name : Text} (h : ('=' : CodePoint) ∉ name) (value : Text) :
    splitEquals (name ++ ('=' : CodePoint) :: value) = (name, some value) := by
  have hname := ne_equals_of_mem h
  rw [splitEquals, List.dropWhile_append_of_pos hname, List.takeWhile_append_of_pos hname,
    List.dropWhile_cons_of_neg (by simp), List.takeWhile_cons_of_neg (by simp), List.append_nil]

theorem splitEquals_of_not_mem (h : ('=' : CodePoint) ∉ t) : splitEquals t = (t, none) := by
  have hdrop : (t ++ []).dropWhile (· ≠ ('=' : CodePoint)) = [] :=
    List.dropWhile_append_of_pos (ne_equals_of_mem h)
  rw [List.append_nil] at hdrop
  rw [splitEquals, hdrop]

/-! ## Written options -/

/-- A long option as it is written: its name, and its value if it has one. -/
structure Written where
  name : Text
  value : Option Text

namespace Written

structure IsLong (w : Written) : Prop where
  dashes : ∃ c tail, w.name = dash :: dash :: c :: tail
  unequal : ('=' : CodePoint) ∉ w.name

def token (w : Written) : Text :=
  match w.value with
  | none => w.name
  | some value => w.name ++ ('=' : CodePoint) :: value

def given (w : Written) : Given Text :=
  match w.value with
  | none => .nothing
  | some value => CommandLine.given value

variable {w : Written}

theorem name_prefix_token (w : Written) : w.name <+: w.token := by
  obtain ⟨name, value⟩ := w
  cases value with
  | none => exact List.prefix_rfl
  | some value => exact List.prefix_append _ _

theorem splitEquals_token (h : w.IsLong) : splitEquals w.token = (w.name, w.value) := by
  obtain ⟨name, value⟩ := w
  cases value with
  | none => exact splitEquals_of_not_mem h.unequal
  | some value => exact splitEquals_append h.unequal value

theorem IsLong.exists_token (h : w.IsLong) : ∃ c tail, w.token = dash :: dash :: c :: tail := by
  obtain ⟨c, tail, hname⟩ := h.dashes
  obtain ⟨more, hmore⟩ := w.name_prefix_token
  refine ⟨c, tail ++ more, ?_⟩
  rw [← hmore, hname]
  rfl

theorem IsLong.token_ne (h : w.IsLong) : w.token ≠ doubleDash := by
  obtain ⟨c, tail, htoken⟩ := h.exists_token
  rw [htoken]
  intro heq
  cases heq

theorem classify_token {f : Flag κ} (h : w.IsLong) (hnamed : named? flags w.name = some f)
    (hflags : ∀ entry ∈ allNames flags, ('=' : CodePoint) ∉ entry.2) :
    classify flags w.token = .ok (.option ⟨f, w.name, w.value⟩) := by
  obtain ⟨c, tail, htoken⟩ := h.exists_token
  have hhead : ¬ w.token.head? ≠ some dash := by
    rw [htoken]
    exact fun hne => hne rfl
  have hlength : ¬ w.token.length = 1 := by
    rw [htoken]
    simp
  rw [classify, if_neg hhead]
  obtain ⟨name, value⟩ := w
  cases value with
  | none =>
    have htoken : named? flags (token ⟨name, none⟩) = some f := hnamed
    rw [htoken]
    rfl
  | some value =>
    have htoken : named? flags (token ⟨name, some value⟩) = none := by
      apply named?_eq_none
      intro entry hentry heq
      apply hflags entry hentry
      rw [heq]
      exact List.mem_append_right name List.mem_cons_self
    rw [htoken, splitEquals_token h]
    dsimp only
    rw [if_neg hlength, hnamed]

/-- An option that no name in the grammar starts like is let through, as a word or as unknown. -/
theorem exists_classify_token (h : w.IsLong)
    (hflags : ∀ entry ∈ allNames flags, ¬ w.name <+: entry.2) :
    ∃ kind, classify flags w.token = .ok kind := by
  obtain ⟨c, tail, htoken⟩ := h.exists_token
  have hhead : ¬ w.token.head? ≠ some dash := by
    rw [htoken]
    exact fun hne => hne rfl
  have hlength : ¬ w.token.length = 1 := by
    rw [htoken]
    simp
  have hname : named? flags w.name = none := by
    apply named?_eq_none
    rintro entry hentry heq
    exact hflags entry hentry (heq ▸ List.prefix_rfl)
  have htokenNone : named? flags w.token = none := by
    apply named?_eq_none
    rintro entry hentry heq
    exact hflags entry hentry (heq ▸ w.name_prefix_token)
  -- abbreviations are looked for by the name alone, without what follows the equals sign
  have hcandidates : candidates flags w.token = [] := by
    have hsplit := splitEquals_token h
    rw [htoken] at hsplit ⊢
    unfold candidates
    dsimp only
    rw [if_pos rfl, hsplit, List.filterMap_eq_nil_iff]
    rintro ⟨f, name⟩ hentry
    have hstarts := hflags _ hentry
    rw [← List.isPrefixOf_iff_prefix] at hstarts
    exact if_neg hstarts
  rw [classify, if_neg hhead, htokenNone]
  dsimp only
  rw [if_neg hlength, splitEquals_token h, hname, hcandidates]
  dsimp only
  cases isNegativeNumber w.token || w.token.contains (' ' : CodePoint) <;>
    cases w.value <;> exact ⟨_, rfl⟩

theorem consume_token {effect : Effect κ σ} {f : Flag κ} {s after : σ} (h : w.IsLong)
    (htakes : f.takesValue = w.value.isSome) (heffect : effect f w.given s = .ok after)
    (next : Option (Token κ)) :
    consume flags effect ⟨f, w.name, w.value⟩ next s = .ok (after, false) := by
  obtain ⟨c, tail, hname⟩ := h.dashes
  obtain ⟨name, value⟩ := w
  cases hname
  cases value with
  | none =>
    have hplain : f.takesValue = false := htakes
    have hnothing : effect f .nothing s = .ok after := heffect
    simp [consume, hplain, hnothing]
  | some value =>
    have hvalue : f.takesValue = true := htakes
    have hgiven : effect f (CommandLine.given value) s = .ok after := heffect
    simp [consume, attached, enact, hvalue, hgiven]

end Written

/-! ## Sequences of options -/

/-- Ways to write the options of a grammar, with what each of them does. -/
structure Vocabulary (flags : List (Flag κ)) (effect : Effect κ σ) (α : Type) where
  written : α → Written
  flag : α → Flag κ
  apply : α → σ → σ
  isLong : ∀ a, (written a).IsLong
  named : ∀ a, named? flags (written a).name = some (flag a)
  takesValue : ∀ a, (flag a).takesValue = (written a).value.isSome
  effect_eq : ∀ a s, effect (flag a) (written a).given s = .ok (apply a s)
  unequal : ∀ entry ∈ allNames flags, ('=' : CodePoint) ∉ entry.2

namespace Vocabulary

variable {effect : Effect κ σ} {α : Type} (v : Vocabulary flags effect α)

def texts (options : List α) : List Text := options.map fun a => (v.written a).token

def found (a : α) : Token κ :=
  ⟨(v.written a).token, .option ⟨v.flag a, (v.written a).name, (v.written a).value⟩⟩

def applyAll (options : List α) (s : σ) : σ := options.foldl (fun s a => v.apply a s) s

theorem consume_found (a : α) (next : Option (Token κ)) (s : σ) :
    consume flags effect ⟨v.flag a, (v.written a).name, (v.written a).value⟩ next s =
      .ok (v.apply a s, false) :=
  Written.consume_token (v.isLong a) (v.takesValue a) (v.effect_eq a s) next

theorem scan_texts (options : List α) (rest : List Text) :
    scan flags (v.texts options ++ rest) = (scan flags rest).map fun line =>
      { line with front := options.map v.found ++ line.front } := by
  induction options with
  | nil =>
    show scan flags rest = _
    cases scan flags rest <;> rfl
  | cons a options ih =>
    have hclassify := Written.classify_token (v.isLong a) (v.named a) v.unequal
    show scan flags ((v.written a).token :: (v.texts options ++ rest)) = _
    rw [scan_cons (v.isLong a).token_ne hclassify, ih]
    cases scan flags rest <;> rfl

theorem readHeading_found (back : Option (List Text)) (options : List α) (rest : List (Token κ))
    (s : σ) :
    readHeading flags effect back (options.map v.found ++ rest) s =
      readHeading flags effect back rest (v.applyAll options s) := by
  induction options generalizing s with
  | nil => rfl
  | cons a options ih =>
    have hstep : readHeading flags effect back (v.found a :: (options.map v.found ++ rest)) s =
        readHeading flags effect back (options.map v.found ++ rest) (v.apply a s) := by
      cases options.map v.found ++ rest with
      | nil => simp only [found, readHeading, v.consume_found]
      | cons next tail => simp only [found, readHeading, v.consume_found]
    exact hstep.trans (ih _)

theorem readArguments_found (places : Nat) (before : Before) (options : List α) (s : σ) :
    readArguments flags effect none places before (options.map v.found) s =
      .ok ⟨v.applyAll options s, ⟨[], []⟩⟩ := by
  induction options generalizing before s with
  | nil => rfl
  | cons a options ih =>
    have hstep : readArguments flags effect none places before
          (v.found a :: options.map v.found) s =
        readArguments flags effect none places .open (options.map v.found) (v.apply a s) := by
      cases options.map v.found with
      | nil => simp only [found, readArguments, v.consume_found]
      | cons next tail => simp only [found, readArguments, v.consume_found]
    exact hstep.trans (ih _ _)

end Vocabulary

end CommandLine

end ScriptDepot
