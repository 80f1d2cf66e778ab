import Mathlib.Data.List.TakeWhile
import ScriptDepot.Json.Reader
import ScriptDepot.Proofs.Json.Strings
/-!
# White space, words, numbers and strings as they are read

Each reader takes what the grammar has at that place and leaves the rest: whatever it takes is
derivable, and whatever is derivable is taken whole.  For a number the second half needs that the
text goes on with nothing that could belong to the number.
-/

namespace ScriptDepot

open Json.Grammar

def Json.Grammar.Short (digits : Text) : Prop := digits.length ≤ 4300

namespace Json.Reader

theorem map_eq_ok {α β : Type} {f : α → β} {r : Result α} {b : β} {rest : Text} :
    r.map f = .ok (b, rest) ↔ ∃ a, r = .ok (a, rest) ∧ b = f a := by
  cases r with
  | error stop => simp [Result.map]
  | ok read =>
    obtain ⟨a, tail⟩ := read
    simp only [Result.map, Except.ok.injEq, Prod.mk.injEq]
    constructor
    · rintro ⟨rfl, rfl⟩
      exact ⟨a, ⟨rfl, rfl⟩, rfl⟩
    · rintro ⟨a, ⟨rfl, rfl⟩, rfl⟩
      exact ⟨rfl, rfl⟩

theorem map_eq_error {α β : Type} {f : α → β} {r : Result α} {stop : Stop} :
    r.map f = .error stop ↔ r = .error stop := by
  cases r with
  | error stop' => simp [Result.map]
  | ok read => simp [Result.map]

theorem eat?_eq_some {c : CodePoint} {s rest : Text} : eat? c s = some rest ↔ s = c :: rest := by
  cases s with
  | nil => simp [eat?]
  | cons d tail => by_cases h : d = c <;> simp [eat?, h]

/-! ## White space -/

theorem isSpace_iff {c : CodePoint} :
    isSpace c = true ↔ c ∈ ([' ', '\t', '\n', '\r'] : List CodePoint) := by
  simp [isSpace, or_assoc]

theorem exists_skip (s : Text) : ∃ blank, Blank blank ∧ s = blank ++ skip s := by
  refine ⟨s.takeWhile isSpace, ?_, List.takeWhile_append_dropWhile.symm⟩
  intro c hc
  exact isSpace_iff.mp (List.mem_takeWhile_imp hc)

theorem skip_append {blank : Text} (hblank : Blank blank) (s : Text) :
    skip (blank ++ s) = skip s := by
  apply List.dropWhile_append_of_pos
  intro c hc
  exact isSpace_iff.mpr (hblank c hc)

theorem skip_cons {c : CodePoint} (hc : isSpace c = false) (rest : Text) :
    skip (c :: rest) = c :: rest := by
  simp [skip, hc]

theorem skip_blank {blank : Text} (hblank : Blank blank) : skip blank = [] := by
  have h := skip_append hblank []
  rwa [List.append_nil] at h

theorem blank_of_skip {s : Text} (h : skip s = []) : Blank s := by
  obtain ⟨blank, hblank, hs⟩ := exists_skip s
  rw [h, List.append_nil] at hs
  rwa [hs]

theorem blank_append {s t : Text} (hs : Blank s) (ht : Blank t) : Blank (s ++ t) :=
  List.forall_mem_append.mpr ⟨hs, ht⟩

/-! ## Words -/

theorem after?_eq_some {word s rest : Text} : after? word s = some rest ↔ s = word ++ rest := by
  unfold after?
  constructor
  · intro h
    split at h
    · rename_i hprefix
      obtain ⟨tail, rfl⟩ := List.isPrefixOf_iff_prefix.mp hprefix
      rw [List.drop_left] at h
      cases h
      rfl
    · cases h
  · rintro rfl
    rw [if_pos (List.isPrefixOf_iff_prefix.mpr (List.prefix_append word rest)), List.drop_left]

theorem word?_eq_some {α : Type} {s word rest : Text} {a : α} {table : List (Text × α)}
    (h : word? s table = some (word, a, rest)) : (word, a) ∈ table ∧ s = word ++ rest := by
  induction table with
  | nil => cases h
  | cons entry others ih =>
    obtain ⟨w, b⟩ := entry
    rw [word?] at h
    split at h
    · rename_i tail htail
      cases h
      exact ⟨List.mem_cons_self, after?_eq_some.mp htail⟩
    · obtain ⟨hmem, hs⟩ := ih h
      exact ⟨List.mem_cons_of_mem _ hmem, hs⟩

theorem word?_eq_none {α : Type} {s : Text} {table : List (Text × α)} :
    word? s table = none ↔ ∀ entry ∈ table, ∀ rest, s ≠ entry.1 ++ rest := by
  induction table with
  | nil => simp [word?]
  | cons entry others ih =>
    obtain ⟨w, b⟩ := entry
    rw [word?, List.forall_mem_cons, ← ih]
    cases hafter : after? w s with
    | none =>
      have hne : ∀ rest, s ≠ w ++ rest := by
        intro rest hs
        rw [after?_eq_some.mpr hs] at hafter
        cases hafter
      simp [hne]
    | some rest =>
      have hs := after?_eq_some.mp hafter
      simp [hs]

/-! ## Numbers -/

theorem isDigit_iff {c : CodePoint} : isDigit c = true ↔ IsDigit c := by
  simp [isDigit, IsDigit]

/-- Nothing that could belong to a number stands at the start of the text. -/
def Ends (rest : Text) : Prop :=
  ∀ c ∈ rest.head?, isDigit c = false ∧ c ∉ (['.', 'e', 'E'] : List CodePoint)

theorem ends_nil : Ends [] := by
  intro c hc
  cases hc

theorem ends_cons {c : CodePoint} (hdigit : isDigit c = false)
    (hc : c ∉ (['.', 'e', 'E'] : List CodePoint)) (rest : Text) : Ends (c :: rest) := by
  intro d hd
  cases hd
  exact ⟨hdigit, hc⟩

theorem takeWhile_digits {s rest : Text} (hs : ∀ c ∈ s, IsDigit c)
    (hrest : ∀ c ∈ rest.head?, isDigit c = false) :
    (s ++ rest).takeWhile isDigit = s ∧ (s ++ rest).dropWhile isDigit = rest := by
  have hall : ∀ c ∈ s, isDigit c = true := fun c hc => isDigit_iff.mpr (hs c hc)
  rw [List.takeWhile_append_of_pos hall, List.dropWhile_append_of_pos hall]
  cases rest with
  | nil => simp
  | cons c rest =>
    have hc := hrest c rfl
    simp [hc]

theorem digits_takeWhile {s : Text} (h : s.takeWhile isDigit ≠ []) :
    Digits (s.takeWhile isDigit) where
  nonempty := h
  all _ hc := isDigit_iff.mp (List.mem_takeWhile_imp hc)

theorem whole?_eq_some {s whole rest : Text} (h : whole? s = some (whole, rest)) :
    Whole whole ∧ s = whole ++ rest := by
  unfold whole? at h
  split at h
  · cases h
  · rename_i c tail
    split at h
    · rename_i hzero
      cases h
      subst hzero
      have hdigit : Digits [('0' : CodePoint)] := ⟨by simp, by simp [IsDigit]; decide⟩
      exact ⟨⟨hdigit, fun _ => rfl⟩, rfl⟩
    · rename_i hzero
      split at h
      · rename_i hdigit
        cases h
        have hwhile : (c :: tail).takeWhile isDigit = c :: tail.takeWhile isDigit := by
          simp [hdigit]
        refine ⟨⟨digits_takeWhile (by simp [hwhile]), ?_⟩,
          List.takeWhile_append_dropWhile.symm⟩
        intro hhead
        rw [hwhile] at hhead
        exact absurd (Option.some.inj hhead) hzero
      · cases h

theorem whole?_append {whole rest : Text} (h : Whole whole)
    (hrest : ∀ c ∈ rest.head?, isDigit c = false) :
    whole? (whole ++ rest) = some (whole, rest) := by
  obtain ⟨htake, hdrop⟩ := takeWhile_digits h.all hrest
  cases whole with
  | nil => exact absurd rfl h.nonempty
  | cons c tail =>
    unfold whole?
    simp only [List.cons_append] at htake hdrop ⊢
    split
    · rename_i hzero
      have htail := h.leading (congrArg some hzero)
      cases htail
      rfl
    · have hdigit : isDigit c = true := isDigit_iff.mpr (h.all c List.mem_cons_self)
      rw [if_pos hdigit, htake, hdrop]

theorem fraction_sound (s : Text) :
    ∃ part, Fraction part (fraction s).1 ∧ s = part ++ (fraction s).2 := by
  unfold fraction
  split
  · exact ⟨[], .absent, rfl⟩
  · rename_i c rest
    dsimp only
    split
    · rename_i h
      obtain ⟨rfl, hdigits⟩ := h
      refine ⟨"." ++ rest.takeWhile isDigit, .digits (digits_takeWhile hdigits), ?_⟩
      exact congrArg (CodePoint.ofChar '.' :: ·) List.takeWhile_append_dropWhile.symm
    · exact ⟨[], .absent, rfl⟩

theorem fraction_append {part digits rest : Text} (h : Fraction part digits)
    (hrest : ∀ c ∈ rest.head?, isDigit c = false ∧ c ≠ '.') :
    fraction (part ++ rest) = (digits, rest) := by
  cases h with
  | absent =>
    cases rest with
    | nil => rfl
    | cons c rest =>
      have hc := (hrest c rfl).2
      simp [fraction, hc]
  | digits hdigits =>
    obtain ⟨htake, hdrop⟩ := takeWhile_digits hdigits.all fun c hc => (hrest c hc).1
    have hcons : ("." : Text) ++ digits ++ rest = CodePoint.ofChar '.' :: (digits ++ rest) := rfl
    rw [hcons]
    unfold fraction
    dsimp only
    rw [htake, hdrop, if_pos ⟨rfl, hdigits.nonempty⟩]

theorem exponentSign_sound (s : Text) :
    ∃ sign : Text, s = sign ++ (exponentSign s).2 ∧
      (((exponentSign s).1 = false ∧ (sign = [] ∨ sign = "+")) ∨
        ((exponentSign s).1 = true ∧ sign = "-")) := by
  unfold exponentSign
  split
  · exact ⟨[], rfl, .inl ⟨rfl, .inl rfl⟩⟩
  · rename_i c rest
    split
    · rename_i hc
      subst hc
      exact ⟨"-", rfl, .inr ⟨rfl, rfl⟩⟩
    · split
      · rename_i hc
        subst hc
        exact ⟨"+", rfl, .inl ⟨rfl, .inr rfl⟩⟩
      · exact ⟨[], rfl, .inl ⟨rfl, .inl rfl⟩⟩

theorem exponent_sound (s : Text) :
    ∃ part, Exponent part (exponent s).1 ∧ s = part ++ (exponent s).2 := by
  unfold exponent
  split
  · exact ⟨[], .absent, rfl⟩
  · rename_i c rest
    split
    · rename_i hmark
      obtain ⟨sign, hrest, hsign⟩ := exponentSign_sound rest
      generalize exponentSign rest = signed at *
      obtain ⟨negative, tail⟩ := signed
      dsimp only at hrest hsign ⊢
      split
      · exact ⟨[], .absent, rfl⟩
      · rename_i hne
        have hdigits := digits_takeWhile hne
        have htext : [c] = ("e" : Text) ∨ [c] = ("E" : Text) := by
          rcases hmark with rfl | rfl
          · exact .inl rfl
          · exact .inr rfl
        have htail : tail = tail.takeWhile isDigit ++ tail.dropWhile isDigit :=
          List.takeWhile_append_dropWhile.symm
        have hs : c :: rest = [c] ++ sign ++ tail.takeWhile isDigit ++ tail.dropWhile isDigit := by
          rw [List.append_assoc, ← htail, List.append_assoc, ← hrest]
          rfl
        refine ⟨[c] ++ sign ++ tail.takeWhile isDigit, ?_, hs⟩
        rcases hsign with ⟨rfl, rfl | rfl⟩ | ⟨rfl, rfl⟩
        · rw [List.append_nil]
          exact .unsigned htext hdigits
        · exact .plus htext hdigits
        · exact .minus htext hdigits
    · exact ⟨[], .absent, rfl⟩

theorem exponentSign_digits {s : Text} (h : Digits s) (rest : Text) :
    exponentSign (s ++ rest) = (false, s ++ rest) := by
  cases s with
  | nil => exact absurd rfl h.nonempty
  | cons c tail =>
    have hdigit := h.all c List.mem_cons_self
    have hminus : c ≠ '-' := by
      rintro rfl
      revert hdigit
      unfold IsDigit
      decide
    have hplus : c ≠ '+' := by
      rintro rfl
      revert hdigit
      unfold IsDigit
      decide
    simp [exponentSign, hminus, hplus]

theorem exponent_append {part rest : Text} {e : Option Int} (h : Exponent part e)
    (hrest : Ends rest) : exponent (part ++ rest) = (e, rest) := by
  have hdigits : ∀ {s : Text}, Digits s →
      (s ++ rest).takeWhile isDigit = s ∧ (s ++ rest).dropWhile isDigit = rest :=
    fun hs => takeWhile_digits hs.all fun c hc => (hrest c hc).1
  -- What follows the mark, once the sign is taken off.
  have hmarked : ∀ {mark tail s : Text} {negative : Bool}, mark = "e" ∨ mark = "E" → Digits s →
      exponentSign tail = (negative, s ++ rest) →
      exponent (mark ++ tail) =
        (some (if negative then -(Grammar.number s : Int) else Grammar.number s), rest) := by
    intro mark tail s negative hmark hs hsign
    obtain ⟨htake, hdrop⟩ := hdigits hs
    have hcons : ∃ c : CodePoint, (c = 'e' ∨ c = 'E') ∧ mark ++ tail = c :: tail := by
      rcases hmark with rfl | rfl
      · exact ⟨'e', .inl rfl, rfl⟩
      · exact ⟨'E', .inr rfl, rfl⟩
    obtain ⟨c, hc, heq⟩ := hcons
    rw [heq]
    unfold exponent
    simp only [if_pos hc, hsign, htake, hdrop, if_neg hs.nonempty]
    rfl
  cases h with
  | absent =>
    cases rest with
    | nil => rfl
    | cons c tail =>
      have hc := (hrest c rfl).2
      have hmark : ¬ (c = 'e' ∨ c = 'E') := by
        rintro (rfl | rfl)
        · exact hc (by decide)
        · exact hc (by decide)
      simp [exponent, hmark]
  | unsigned hmark hs =>
    rw [List.append_assoc]
    exact hmarked hmark hs (exponentSign_digits hs rest)
  | @plus mark s hmark hs =>
    have hsign : exponentSign ("+" ++ (s ++ rest)) = (false, s ++ rest) := rfl
    rw [List.append_assoc, List.append_assoc]
    exact hmarked hmark hs hsign
  | @minus mark s hmark hs =>
    have hsign : exponentSign ("-" ++ (s ++ rest)) = (true, s ++ rest) := rfl
    rw [List.append_assoc, List.append_assoc]
    exact hmarked hmark hs hsign

theorem isDigit_head_fraction {part digits rest : Text} (h : Fraction part digits)
    (hrest : ∀ c ∈ rest.head?, isDigit c = false) :
    ∀ c ∈ (part ++ rest).head?, isDigit c = false := by
  cases h with
  | absent => exact hrest
  | digits hdigits =>
    intro c hc
    cases hc
    decide

theorem isDigit_head_exponent {part rest : Text} {e : Option Int} (h : Exponent part e)
    (hrest : Ends rest) : ∀ c ∈ (part ++ rest).head?, isDigit c = false ∧ c ≠ '.' := by
  cases h with
  | absent =>
    intro c hc
    obtain ⟨hdigit, hmem⟩ := hrest c hc
    refine ⟨hdigit, ?_⟩
    rintro rfl
    exact hmem (by decide)
  | unsigned hmark _ | plus hmark _ | minus hmark _ =>
    intro c hc
    rcases hmark with rfl | rfl <;> cases hc <;> exact ⟨by decide, by decide⟩

theorem fraction_eq_nil {part digits : Text} (h : Fraction part digits) :
    part = [] ↔ digits = [] := by
  cases h with
  | absent => exact Iff.rfl
  | digits hdigits => simp [hdigits.nonempty]

theorem exponent_eq_nil {part : Text} {e : Option Int} (h : Exponent part e) :
    part = [] ↔ e = none := by
  cases h with
  | absent => simp
  | unsigned _ hs | plus _ hs | minus _ hs => simp [hs.nonempty]

def integer (negative : Bool) (digits : Text) : Json :=
  .int (if negative then -(Grammar.number digits : Int) else Grammar.number digits)

theorem digits_sound {start s rest : Text} {negative : Bool} {v : Json}
    (h : digits start negative s = .ok (v, rest)) :
    ∃ t, s = t ++ rest ∧ ((Whole t ∧ Short t ∧ v = integer negative t) ∨
      ∃ d, Fractional t d ∧ v = .float (Binary64.ofDecimal negative d)) := by
  unfold digits at h
  split at h
  · cases h
  · rename_i whole tail hread
    obtain ⟨hwhole, rfl⟩ := whole?_eq_some hread
    clear hread
    obtain ⟨part, hpart, htail⟩ := fraction_sound tail
    generalize fraction tail = read at *
    obtain ⟨places, tail'⟩ := read
    obtain ⟨power, hpower, htail'⟩ := exponent_sound tail'
    dsimp only at h hpart htail
    generalize exponent tail' = read at *
    obtain ⟨e, last⟩ := read
    dsimp only at h hpower htail'
    subst htail'
    subst htail
    split at h
    · -- Neither was read, and each of them is empty only where it is absent.
      rename_i hnone
      obtain ⟨rfl, rfl⟩ := hnone
      obtain rfl := (fraction_eq_nil hpart).mpr rfl
      obtain rfl := (exponent_eq_nil hpower).mpr rfl
      split at h
      · cases h
      · rename_i hshort
        cases h
        exact ⟨whole, rfl, .inl ⟨hwhole, Nat.le_of_not_lt hshort, rfl⟩⟩
    · rename_i hsome
      cases h
      refine ⟨whole ++ part ++ power, by simp only [List.append_assoc], .inr ⟨_, ?_, rfl⟩⟩
      refine .mk hwhole hpart hpower ?_
      rwa [ne_eq, ne_eq, fraction_eq_nil hpart, exponent_eq_nil hpower, ← not_and_or]

theorem digits_whole {t rest : Text} (start : Text) (negative : Bool) (h : Whole t)
    (hshort : Short t) (hrest : Ends rest) :
    digits start negative (t ++ rest) = .ok (integer negative t, rest) := by
  have hwhole := whole?_append h fun c hc => (hrest c hc).1
  have hfraction : fraction rest = ([], rest) :=
    fraction_append .absent (isDigit_head_exponent .absent hrest)
  have hexponent : exponent rest = (none, rest) := exponent_append .absent hrest
  unfold digits
  have hlength : ¬ Text.maxDigits < t.length := Nat.not_lt_of_le hshort
  simp only [hwhole, hfraction, hexponent, and_self, if_true]
  rw [if_neg hlength]
  rfl

theorem digits_fractional {t rest : Text} {d : Decimal} (start : Text) (negative : Bool)
    (h : Fractional t d) (hrest : Ends rest) :
    digits start negative (t ++ rest) = .ok (.float (Binary64.ofDecimal negative d), rest) := by
  obtain ⟨hwhole, hpart, hpower, hsome⟩ := h
  have hdot := isDigit_head_exponent hpower hrest
  have hfirst := whole?_append hwhole (isDigit_head_fraction hpart fun c hc => (hdot c hc).1)
  have hsecond := fraction_append hpart hdot
  have hthird := exponent_append hpower hrest
  unfold digits
  simp only [List.append_assoc, hfirst, hsecond, hthird]
  rw [if_neg]
  · rfl
  · rwa [← fraction_eq_nil hpart, ← exponent_eq_nil hpower, not_and_or]

theorem number_sound {s rest : Text} {v : Json} (h : number s = .ok (v, rest)) :
    ∃ t, s = t ++ rest ∧ ∀ depth, Value Short depth t v := by
  have hsigned : ∀ {sign start s : Text} {negative : Bool}, Sign sign negative →
      digits start negative s = .ok (v, rest) →
      ∃ t, sign ++ s = t ++ rest ∧ ∀ depth, Value Short depth t v := by
    intro sign start s negative hsign hread
    obtain ⟨t, rfl, ⟨hwhole, hshort, rfl⟩ | ⟨d, hfractional, rfl⟩⟩ := digits_sound hread
    · exact ⟨sign ++ t, (List.append_assoc ..).symm, fun _ => .int hsign hwhole hshort⟩
    · exact ⟨sign ++ t, (List.append_assoc ..).symm, fun _ => .float hsign hfractional⟩
  unfold number at h
  split at h
  · cases h
  · rename_i c tail
    split at h
    · rename_i hminus
      subst hminus
      exact hsigned .minus h
    · exact hsigned .plus h

def StartsWithDigit (s : Text) : Prop := ∃ c rest, s = c :: rest ∧ IsDigit c

theorem startsWithDigit_digits {s : Text} (h : Digits s) : StartsWithDigit s := by
  cases s with
  | nil => exact absurd rfl h.nonempty
  | cons c rest => exact ⟨c, rest, rfl, h.all c List.mem_cons_self⟩

theorem StartsWithDigit.append {s : Text} (h : StartsWithDigit s) (rest : Text) :
    StartsWithDigit (s ++ rest) := by
  obtain ⟨c, tail, rfl, hc⟩ := h
  exact ⟨c, tail ++ rest, rfl, hc⟩

theorem startsWithDigit_fractional {s : Text} {d : Decimal} (h : Fractional s d) :
    StartsWithDigit s := by
  obtain ⟨hwhole, -, -, -⟩ := h
  rw [List.append_assoc]
  exact (startsWithDigit_digits hwhole.toDigits).append _

theorem number_append {sign s : Text} {negative : Bool} (hsign : Sign sign negative)
    (hs : StartsWithDigit s) : number (sign ++ s) = digits (sign ++ s) negative s := by
  obtain ⟨c, rest, rfl, hc⟩ := hs
  cases hsign with
  | plus =>
    have hminus : c ≠ '-' := by
      rintro rfl
      revert hc
      unfold IsDigit
      decide
    simp [number, hminus]
  | minus => rfl

/-! ## Values without items -/

theorem scalar_word {word : Text} {v : Json} (h : (word, v) ∈ words) (rest : Text) :
    scalar .refuse (word ++ rest) = .ok (v, rest) := by
  simp only [words, List.mem_cons, List.not_mem_nil, or_false, Prod.mk.injEq] at h
  rcases h with ⟨rfl, rfl⟩ | ⟨rfl, rfl⟩ | ⟨rfl, rfl⟩ <;> rfl

theorem scalar_constant {name : Text} {x : Binary64} (h : (name, x) ∈ constants) (rest : Text) :
    scalar .refuse (name ++ rest) = .error (.constant name) := by
  simp only [constants, List.mem_cons, List.not_mem_nil, or_false, Prod.mk.injEq] at h
  rcases h with ⟨rfl, rfl⟩ | ⟨rfl, rfl⟩ | ⟨rfl, rfl⟩ <;> rfl

theorem scalar_number {sign s : Text} {negative : Bool} (hsign : Sign sign negative)
    (hs : StartsWithDigit s) : scalar .refuse (sign ++ s) = number (sign ++ s) := by
  obtain ⟨c, rest, rfl, hc⟩ := hs
  have hletter : ∀ d : CodePoint, d.val < 0x30 ∨ 0x39 < d.val → c ≠ d := by
    rintro d hd rfl
    unfold IsDigit at hc
    omega
  have hwords : word? (sign ++ c :: rest) words = none := by
    rw [word?_eq_none]
    intro entry hentry tail heq
    simp only [words, List.mem_cons, List.not_mem_nil, or_false] at hentry
    cases hsign with
    | plus =>
      rcases hentry with rfl | rfl | rfl <;>
        exact hletter _ (by decide) (List.cons.inj heq).1
    | minus =>
      rcases hentry with rfl | rfl | rfl <;>
        exact absurd (List.cons.inj heq).1 (by decide)
  have hconstants : word? (sign ++ c :: rest) constants = none := by
    rw [word?_eq_none]
    intro entry hentry tail heq
    simp only [constants, List.mem_cons, List.not_mem_nil, or_false] at hentry
    cases hsign with
    | plus =>
      rcases hentry with rfl | rfl | rfl <;>
        exact hletter _ (by decide) (List.cons.inj heq).1
    | minus =>
      rcases hentry with rfl | rfl | rfl
      · exact absurd (List.cons.inj heq).1 (by decide)
      · exact absurd (List.cons.inj heq).1 (by decide)
      · exact hletter _ (by decide) (List.cons.inj (List.cons.inj heq).2).1
  simp only [scalar, hwords, hconstants]

theorem scalar_sound {s rest : Text} {v : Json} (h : scalar .refuse s = .ok (v, rest)) :
    ∃ t, s = t ++ rest ∧ ∀ depth, Value Short depth t v := by
  unfold scalar at h
  split at h
  · rename_i word u tail hword
    cases h
    obtain ⟨hmem, hs⟩ := word?_eq_some hword
    refine ⟨word, hs, fun depth => ?_⟩
    simp only [words, List.mem_cons, List.not_mem_nil, or_false, Prod.mk.injEq] at hmem
    rcases hmem with ⟨rfl, rfl⟩ | ⟨rfl, rfl⟩ | ⟨rfl, rfl⟩
    · exact .null
    · exact .yes
    · exact .no
  · split at h
    · cases h
    · exact number_sound h

/-- A value without items fails to be read at a constant, at an integer that is too long, or by a
mistake. -/
theorem scalar_eq_error {s : Text} {stop : Stop} (h : scalar .refuse s = .error stop) :
    (∃ name x rest, (name, x) ∈ constants ∧ s = name ++ rest ∧ stop = .constant name) ∨
      (∃ n, stop = .longInteger n) ∨ ∃ mistake rest, stop = .mistake mistake rest := by
  have hdigits : ∀ {start s : Text} {negative : Bool}, digits start negative s = .error stop →
      (∃ n, stop = .longInteger n) ∨ ∃ mistake rest, stop = .mistake mistake rest := by
    intro start s negative h
    unfold digits at h
    split at h
    · cases h
      exact .inr ⟨_, _, rfl⟩
    · dsimp only at h
      split at h
      · split at h
        · cases h
          exact .inl ⟨_, rfl⟩
        · cases h
      · cases h
  unfold scalar at h
  split at h
  · cases h
  split at h
  · rename_i name x rest hword
    cases h
    obtain ⟨hmem, hs⟩ := word?_eq_some hword
    exact .inl ⟨name, x, rest, hmem, hs, rfl⟩
  · refine .inr ?_
    unfold number at h
    split at h
    · cases h
      exact .inr ⟨_, _, rfl⟩
    · split at h
      · exact hdigits h
      · exact hdigits h

/-! ## Strings

What stands between two quotes is read piece by piece; the halves of a pair are joined afterwards.
-/

theorem hexValue?_eq_some {c : CodePoint} {d : Nat} : hexValue? c = some d ↔ HexDigit c d := by
  unfold hexValue? HexDigit
  have hdigit : isDigit c = true ↔ 0x30 ≤ c.val ∧ c.val ≤ 0x39 := isDigit_iff
  split
  · rename_i h
    rw [hdigit] at h
    rw [Option.some.injEq]
    omega
  · rename_i h
    rw [hdigit] at h
    split
    · rw [Option.some.injEq]
      omega
    · split
      · rw [Option.some.injEq]
        omega
      · simp only [reduceCtorEq, false_iff]
        omega

theorem hex4?_eq_some {w x y z p : CodePoint} :
    hex4? w x y z = some p ↔ Numbered ("\\u" ++ [w, x, y, z]) p := by
  have hsmall : ∀ {c : CodePoint} {d : Nat}, HexDigit c d → d < 16 := by
    intro c d h
    unfold HexDigit at h
    omega
  simp only [hex4?, Option.bind_eq_bind, Option.bind_eq_some_iff, hexValue?_eq_some,
    Option.pure_def, Option.some.injEq]
  constructor
  · rintro ⟨i, hi, j, hj, k, hk, l, hl, rfl⟩
    refine .mk hi hj hk hl (CodePoint.val_ofNat ?_)
    have := hsmall hi
    have := hsmall hj
    have := hsmall hk
    have := hsmall hl
    omega
  · intro h
    generalize htext : ("\\u" : Text) ++ [w, x, y, z] = text at h
    obtain ⟨hi, hj, hk, hl, hp⟩ := h
    have hdigits := List.append_cancel_left htext
    simp only [List.cons.injEq, and_true] at hdigits
    obtain ⟨rfl, rfl, rfl, rfl⟩ := hdigits
    refine ⟨_, hi, _, hj, _, hk, _, hl, ?_⟩
    rw [← hp, CodePoint.ofNat_val]

theorem escaped?_eq_some {e c : CodePoint} : escaped? e = some c ↔ (e, c) ∈ letters := by
  constructor
  · intro h
    unfold escaped? at h
    split at h
    · rename_i he
      cases h
      simp only [Bool.or_eq_true, decide_eq_true_eq] at he
      rcases he with (rfl | rfl) | rfl <;> decide
    · repeat' split at h
      all_goals cases h
      all_goals subst_vars
      all_goals decide
  · intro h
    simp only [letters, List.mem_cons, List.not_mem_nil, or_false, Prod.mk.injEq] at h
    rcases h with ⟨rfl, rfl⟩ | ⟨rfl, rfl⟩ | ⟨rfl, rfl⟩ | ⟨rfl, rfl⟩ | ⟨rfl, rfl⟩ | ⟨rfl, rfl⟩ |
      ⟨rfl, rfl⟩ | ⟨rfl, rfl⟩ <;> rfl

/-- What stands between two quotes, and the pieces that it consists of. -/
inductive Spells : Text → List Piece → Prop
  | nil : Spells [] []
  | raw {c : CodePoint} {s : Text} {pieces : List Piece} (hc : 0x20 ≤ c.val) (hquote : c ≠ '"')
      (hslash : c ≠ '\\') (h : Spells s pieces) : Spells (c :: s) (⟨c, false⟩ :: pieces)
  | letter {e c : CodePoint} {s : Text} {pieces : List Piece} (he : (e, c) ∈ letters)
      (h : Spells s pieces) : Spells ("\\" ++ [e] ++ s) (⟨c, false⟩ :: pieces)
  | numbered {escape : Text} {c : CodePoint} {s : Text} {pieces : List Piece}
      (hescape : Numbered escape c) (h : Spells s pieces) :
      Spells (escape ++ s) (⟨c, true⟩ :: pieces)

section

variable {opening rest : Text} {done : List Piece}

theorem pieces_quote : pieces opening done ("\"" ++ rest) = .ok (done.reverse, rest) := by
  rw [pieces.eq_def]
  rfl

theorem pieces_raw {c : CodePoint} (hc : 0x20 ≤ c.val) (hquote : c ≠ '"') (hslash : c ≠ '\\') :
    pieces opening done (c :: rest) = pieces opening (⟨c, false⟩ :: done) rest := by
  rw [pieces.eq_def]
  simp only [if_neg hquote, if_neg hslash, if_neg (Nat.not_lt_of_le hc)]

theorem pieces_letter {e c : CodePoint} (he : (e, c) ∈ letters) :
    pieces opening done ("\\" ++ [e] ++ rest) = pieces opening (⟨c, false⟩ :: done) rest := by
  have hcons : "\\" ++ [e] ++ rest = CodePoint.ofChar '\\' :: e :: rest := rfl
  have hletters : ∀ p ∈ letters, p.1 ≠ ('u' : CodePoint) := by decide
  have hquote : CodePoint.ofChar '\\' ≠ '"' := by decide
  rw [hcons, pieces.eq_def]
  simp only [if_neg hquote, if_neg (hletters _ he), if_true, escaped?_eq_some.mpr he]

theorem pieces_numbered {escape : Text} {c : CodePoint} (h : Numbered escape c)
    (hrest : rest ≠ []) :
    pieces opening done (escape ++ rest) = pieces opening (⟨c, true⟩ :: done) rest := by
  have hhex := h
  cases h with
  | @mk w x y z p i j k l _ _ _ _ _ =>
    have hcons : "\\u" ++ [w, x, y, z] ++ rest =
        CodePoint.ofChar '\\' :: CodePoint.ofChar 'u' :: w :: x :: y :: z :: rest := rfl
    have hquote : CodePoint.ofChar '\\' ≠ '"' := by decide
    rw [hcons, pieces.eq_def]
    simp only [if_neg hquote, if_true, hex4?_eq_some.mpr hhex, if_neg hrest]

end

theorem pieces_append {s : Text} {read : List Piece} (h : Spells s read) (opening : Text)
    (done : List Piece) (rest : Text) :
    pieces opening done (s ++ ("\"" ++ rest)) = .ok (done.reverse ++ read, rest) := by
  induction h generalizing done with
  | nil =>
    rw [List.append_nil]
    exact pieces_quote
  | raw hc hquote hslash h ih =>
    rw [List.cons_append, pieces_raw hc hquote hslash, ih, List.reverse_cons, List.append_assoc]
    rfl
  | letter he h ih =>
    rw [List.append_assoc, pieces_letter he, ih, List.reverse_cons, List.append_assoc]
    rfl
  | @numbered escape c s read hescape h ih =>
    have hrest : s ++ (("\"" : Text) ++ rest) ≠ [] := List.append_ne_nil_of_right_ne_nil s nofun
    rw [List.append_assoc, pieces_numbered hescape hrest, ih, List.reverse_cons,
      List.append_assoc]
    rfl

theorem pieces_sound {opening s rest : Text} {done read : List Piece}
    (h : pieces opening done s = .ok (read, rest)) :
    ∃ t found, s = t ++ ("\"" ++ rest) ∧ Spells t found ∧ read = done.reverse ++ found := by
  fun_induction pieces opening done s with
  | case1 | case3 | case4 | case6 | case7 | case9 | case10 => cases h
  | case2 done tail =>
    cases h
    exact ⟨[], [], rfl, .nil, (List.append_nil _).symm⟩
  | case5 done w x y z tail d hhex hne _ ih =>
    obtain ⟨t, found, rfl, ht, rfl⟩ := ih h
    refine ⟨"\\u" ++ [w, x, y, z] ++ t, ⟨d, true⟩ :: found, rfl, ?_, ?_⟩
    · exact .numbered (hex4?_eq_some.mp hhex) ht
    · rw [List.reverse_cons, List.append_assoc]
      rfl
  | case8 done e tail _ d hd _ ih =>
    obtain ⟨t, found, rfl, ht, rfl⟩ := ih h
    refine ⟨"\\" ++ [e] ++ t, ⟨d, false⟩ :: found, rfl, ?_, ?_⟩
    · exact .letter (escaped?_eq_some.mp hd) ht
    · rw [List.reverse_cons, List.append_assoc]
      rfl
  | case11 done c tail hquote hslash hc ih =>
    obtain ⟨t, found, rfl, ht, rfl⟩ := ih h
    refine ⟨c :: t, ⟨c, false⟩ :: found, rfl, ?_, ?_⟩
    · exact .raw (Nat.le_of_not_lt hc) hquote hslash ht
    · rw [List.reverse_cons, List.append_assoc]
      rfl

theorem pieces_eq_error {opening s : Text} {done : List Piece} {stop : Stop}
    (h : pieces opening done s = .error stop) : ∃ mistake rest, stop = .mistake mistake rest := by
  fun_induction pieces opening done s with
  | case2 => cases h
  | case5 done w x y z tail d hhex hne _ ih => exact ih h
  | case8 done e tail _ d hd _ ih => exact ih h
  | case11 done c tail hquote hslash hc ih => exact ih h
  | _ =>
    cases h
    exact ⟨_, _, rfl⟩

theorem joinPieces_raw (c : CodePoint) (read : List Piece) :
    joinPieces (⟨c, false⟩ :: read) = c :: joinPieces read := by
  cases read with
  | nil => rfl
  | cons q others => simp [joinPieces]

/-- Where a string goes on with a piece that is a low surrogate by number, it goes on with the
escape of one. -/
theorem Spells.startsLow_iff {s : Text} {q : Piece} {others : List Piece}
    (h : Spells s (q :: others)) : StartsLow s ↔ q.numbered = true ∧ IsLow q.point := by
  constructor
  · rintro ⟨escape, rest, low, hescape, hlow, heq⟩
    cases h with
    | raw _ _ hslash _ =>
      obtain ⟨-, -, -, -, -⟩ := hescape
      exact absurd (List.cons.inj heq).1 hslash
    | letter he _ =>
      obtain ⟨-, -, -, -, -⟩ := hescape
      have hletters : ∀ p ∈ letters, p.1 ≠ ('u' : CodePoint) := by decide
      exact absurd (List.cons.inj (List.cons.inj heq).2).1 (hletters _ he)
    | numbered hq _ =>
      rw [hq.unique hescape heq]
      exact ⟨rfl, hlow⟩
  · rintro ⟨hnumbered, hlow⟩
    cases h with
    | raw | letter => cases hnumbered
    | numbered hq _ => exact ⟨_, _, _, hq, hlow, rfl⟩

theorem Spells.chars_cons {s : Text} {p : Piece} {others : List Piece}
    (h : Spells s (p :: others))
    (halone : p.numbered = true → IsHigh p.point →
      ∀ {tail : Text}, Spells tail others → ¬ StartsLow tail)
    (hothers : ∀ {tail : Text}, Spells tail others → Chars tail (joinPieces others)) :
    Chars s (p.point :: joinPieces others) := by
  cases h with
  | raw hc hquote hslash hrest => exact .raw hc hquote hslash (hothers hrest)
  | letter he hrest => exact .letter he (hothers hrest)
  | numbered hescape hrest =>
    exact .numbered hescape (fun hhigh => halone rfl hhigh hrest) (hothers hrest)

theorem Spells.chars {s : Text} {read : List Piece} (h : Spells s read) :
    Chars s (joinPieces read) := by
  fun_induction joinPieces read generalizing s with
  | case1 =>
    cases h
    exact .nil
  | case2 p =>
    refine h.chars_cons ?_ ?_
    · rintro - - tail ⟨⟩
      exact not_startsLow_nil
    · rintro tail ⟨⟩
      exact .nil
  | case3 p q others hpair ih =>
    simp only [Bool.and_eq_true] at hpair
    obtain ⟨⟨⟨hp, hhigh⟩, hq⟩, hlow⟩ := hpair
    have hjoin := (pair_iff (isHigh_iff.mp hhigh) (isLow_iff.mp hlow)).mpr rfl
    cases h with
    | raw | letter => cases hp
    | numbered hfirst hrest =>
      cases hrest with
      | raw | letter => cases hq
      | numbered hsecond hrest =>
        rw [← List.append_assoc]
        exact .pair hfirst hsecond hjoin (ih hrest)
  | case4 p q others hpair ih =>
    refine h.chars_cons ?_ fun hrest => ih hrest
    intro hnumbered hhigh tail hrest hlow
    obtain ⟨hq, hlow⟩ := hrest.startsLow_iff.mp hlow
    simp [hnumbered, isHigh_iff.mpr hhigh, hq, isLow_iff.mpr hlow] at hpair

theorem exists_spells {s t : Text} (h : Chars s t) :
    ∃ read, Spells s read ∧ joinPieces read = t := by
  induction h with
  | nil => exact ⟨[], .nil, rfl⟩
  | @raw c s t hc hquote hslash h ih =>
    obtain ⟨read, hread, rfl⟩ := ih
    exact ⟨_, .raw hc hquote hslash hread, joinPieces_raw c read⟩
  | @letter e c s t he h ih =>
    obtain ⟨read, hread, rfl⟩ := ih
    exact ⟨_, .letter he hread, joinPieces_raw c read⟩
  | @pair first second high low c s t hfirst hsecond hpair h ih =>
    obtain ⟨read, hread, rfl⟩ := ih
    refine ⟨⟨high, true⟩ :: ⟨low, true⟩ :: read, ?_, ?_⟩
    · rw [List.append_assoc]
      exact .numbered hfirst (.numbered hsecond hread)
    · rw [(pair_iff hpair.first hpair.second).mp hpair]
      simp [joinPieces, isHigh_iff.mpr hpair.first, isLow_iff.mpr hpair.second]
  | @numbered escape c s t hescape halone h ih =>
    obtain ⟨read, hread, rfl⟩ := ih
    refine ⟨⟨c, true⟩ :: read, .numbered hescape hread, ?_⟩
    cases read with
    | nil => rfl
    | cons q others =>
      have hpair : (c.isHigh && q.numbered && q.point.isLow) = false := by
        by_contra hpair
        simp only [Bool.not_eq_false, Bool.and_eq_true] at hpair
        obtain ⟨⟨hhigh, hq⟩, hlow⟩ := hpair
        exact halone (isHigh_iff.mp hhigh) (hread.startsLow_iff.mpr ⟨hq, isLow_iff.mp hlow⟩)
      simp [joinPieces, hpair]

theorem string_append {s t : Text} (h : Chars s t) (rest : Text) :
    string (CodePoint.ofChar '"') (s ++ ("\"" ++ rest)) = .ok (t, rest) := by
  obtain ⟨read, hread, rfl⟩ := exists_spells h
  simp only [string, pieces_append hread, Result.map, List.reverse_nil, List.nil_append]

theorem string_sound {quote : CodePoint} {s rest t : Text} (h : string quote s = .ok (t, rest)) :
    ∃ inner, s = inner ++ ("\"" ++ rest) ∧ Chars inner t := by
  obtain ⟨read, hread, rfl⟩ := map_eq_ok.mp h
  obtain ⟨inner, found, rfl, hinner, rfl⟩ := pieces_sound hread
  exact ⟨inner, rfl, hinner.chars⟩

theorem string_eq_error {quote : CodePoint} {s : Text} {stop : Stop}
    (h : string quote s = .error stop) : ∃ mistake rest, stop = .mistake mistake rest :=
  pieces_eq_error (map_eq_error.mp h)

end Json.Reader

end ScriptDepot
