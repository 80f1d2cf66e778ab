import ScriptDepot.Proofs.Json.Lexemes
import ScriptDepot.Proofs.Json.Written
/-!
# What is read is what the grammar spells

A reader of items that agrees with the grammar at one depth makes readers of arrays and objects that
agree with it one level up, so the readers of values agree with it at every depth.  The number of
rounds never runs out, because each item takes at least one code point.
-/

namespace ScriptDepot

open Json.Grammar

namespace Json.Grammar

variable {fits : Text → Prop} {depth : Nat}

def Opens (c : CodePoint) : Prop :=
  c ∈ (['"', '[', '{', '-', 'n', 't', 'f'] : List CodePoint) ∨ IsDigit c

theorem Opens.ne {c d : CodePoint} (h : Opens c)
    (hd : d ∉ (['"', '[', '{', '-', 'n', 't', 'f'] : List CodePoint))
    (hdigit : d.val < 0x30 ∨ 0x39 < d.val) : c ≠ d := by
  rintro rfl
  rcases h with h | h
  · exact hd h
  · unfold IsDigit at h
    omega

theorem Opens.not_space {c : CodePoint} (h : Opens c) : Reader.isSpace c = false := by
  rw [Bool.eq_false_iff, ne_eq, Reader.isSpace_iff]
  intro hspace
  simp only [List.mem_cons, List.not_mem_nil, or_false] at hspace
  rcases hspace with hc | hc | hc | hc <;> exact h.ne (by decide) (by decide) hc

theorem Value.exists_cons {s : Text} {v : Json} (h : Value fits depth s v) :
    ∃ c rest, s = c :: rest ∧ Opens c := by
  have hnumber : ∀ {sign s : Text} {negative : Bool}, Sign sign negative →
      Reader.StartsWithDigit s → ∃ c rest, sign ++ s = c :: rest ∧ Opens c := by
    rintro sign s negative hsign ⟨c, rest, rfl, hc⟩
    cases hsign with
    | plus => exact ⟨c, rest, rfl, .inr hc⟩
    | minus => exact ⟨'-', c :: rest, rfl, .inl (by decide)⟩
  cases h with
  | null => exact ⟨'n', _, rfl, .inl (by decide)⟩
  | yes => exact ⟨'t', _, rfl, .inl (by decide)⟩
  | no => exact ⟨'f', _, rfl, .inl (by decide)⟩
  | int hsign h _ => exact hnumber hsign (Reader.startsWithDigit_digits h.toDigits)
  | float hsign h => exact hnumber hsign (Reader.startsWithDigit_fractional h)
  | str h =>
    cases h with
    | mk _ => exact ⟨'"', _, rfl, .inl (by decide)⟩
  | noItems _ => exact ⟨'[', _, rfl, .inl (by decide)⟩
  | arr _ => exact ⟨'[', _, rfl, .inl (by decide)⟩
  | noMembers _ => exact ⟨'{', _, rfl, .inl (by decide)⟩
  | obj _ => exact ⟨'{', _, rfl, .inl (by decide)⟩

theorem Items.blank_append {blank s : Text} {items : List Json} (hblank : Blank blank)
    (h : Items fits depth s items) : Items fits depth (blank ++ s) items := by
  cases h with
  | last hbefore hvalue hbehind =>
    simp only [← List.append_assoc]
    exact .last (Reader.blank_append hblank hbefore) hvalue hbehind
  | cons hbefore hvalue hbehind hrest =>
    simp only [← List.append_assoc]
    exact .cons (Reader.blank_append hblank hbefore) hvalue hbehind hrest

theorem Members.blank_append {blank s : Text} {members : List (Text × Json)}
    (hblank : Blank blank) (h : Members fits depth s members) :
    Members fits depth (blank ++ s) members := by
  cases h with
  | last hbefore hkey hbetween hcolon hvalue hbehind =>
    simp only [← List.append_assoc]
    exact .last (Reader.blank_append hblank hbefore) hkey hbetween hcolon hvalue hbehind
  | cons hbefore hkey hbetween hcolon hvalue hbehind hrest =>
    simp only [← List.append_assoc]
    exact .cons (Reader.blank_append hblank hbefore) hkey hbetween hcolon hvalue hbehind hrest

end Json.Grammar

namespace Json.Reader

theorem skip_value {s : Text} {v : Json} {fits : Text → Prop} {depth : Nat}
    (h : Value fits depth s v) (rest : Text) : skip (s ++ rest) = s ++ rest := by
  obtain ⟨c, tail, rfl, hc⟩ := h.exists_cons
  exact skip_cons hc.not_space _

theorem ends_blank {blank rest : Text} (hblank : Blank blank) (hrest : Ends rest) :
    Ends (blank ++ rest) := by
  cases blank with
  | nil => exact hrest
  | cons c tail =>
    have hc : c ∈ ([' ', '\t', '\n', '\r'] : List CodePoint) := hblank c List.mem_cons_self
    have hspaces : ∀ d ∈ ([' ', '\t', '\n', '\r'] : List CodePoint),
        isDigit d = false ∧ d ∉ (['.', 'e', 'E'] : List CodePoint) := by decide
    exact ends_cons (hspaces c hc).1 (hspaces c hc).2 _

/-- What a value has behind it, up to a comma or a closing bracket, ends it. -/
theorem closes {behind : Text} (hbehind : Blank behind) {c : CodePoint}
    (hc : c ∈ ([',', ']', '}'] : List CodePoint)) (rest : Text) :
    Ends (behind ++ c :: rest) ∧ skip (behind ++ c :: rest) = c :: rest := by
  have hmarks : ∀ d ∈ ([',', ']', '}'] : List CodePoint), isDigit d = false ∧
      d ∉ (['.', 'e', 'E'] : List CodePoint) ∧ isSpace d = false := by decide
  obtain ⟨hdigit, hmark, hspace⟩ := hmarks c hc
  refine ⟨ends_blank hbehind (ends_cons hdigit hmark rest), ?_⟩
  rw [skip_append hbehind, skip_cons hspace]

/-- `item` takes exactly the values that the grammar spells with this depth, as long as they are
shorter than `rounds`. -/
structure Reads (item : Text → Result Json) (rounds depth : Nat) : Prop where
  sound : ∀ {s rest : Text} {v : Json}, item s = .ok (v, rest) →
    ∃ t, s = t ++ rest ∧ Value Short depth t v
  complete : ∀ {t rest : Text} {v : Json}, Value Short depth t v → Ends rest → t.length < rounds →
    item (t ++ rest) = .ok (v, rest)

section

variable {item : Text → Result Json} {rounds depth : Nat}

/-! ## Items -/

theorem items_last {n : Nat} {s rest tail : Text} {v : Json} (hitem : item s = .ok (v, rest))
    (hrest : skip rest = (']' : CodePoint) :: tail) : items item (n + 1) s = .ok ([v], tail) := by
  rw [items]
  simp only [hitem, hrest, if_true]

theorem items_more {n : Nat} {s rest tail : Text} {v : Json} (hitem : item s = .ok (v, rest))
    (hrest : skip rest = (',' : CodePoint) :: tail) :
    items item (n + 1) s = (items item n (skip tail)).map (v :: ·) := by
  have hclose : (',' : CodePoint) ≠ ']' := by decide
  rw [items]
  simp only [hitem, hrest, if_neg hclose, if_true]
  cases items item n (skip tail) <;> rfl

theorem items_append (hitem : Reads item rounds depth) {s : Text} {values : List Json}
    (h : Items Short depth s values) (hrounds : s.length < rounds) {n : Nat} (hn : s.length < n)
    (rest : Text) : items item n (skip (s ++ ("]" ++ rest))) = .ok (values, rest) := by
  induction values generalizing s n with
  | nil => cases h
  | cons v others ih =>
    obtain ⟨n, rfl⟩ : ∃ m, n = m + 1 := Nat.exists_eq_add_one.mpr (by omega)
    cases h with
    | @last _ before t behind _ hbefore hvalue hbehind =>
      simp only [List.length_append] at hrounds
      have hclosed := closes hbehind (c := ']') (by decide) rest
      simp only [List.append_assoc]
      rw [skip_append hbefore, skip_value hvalue]
      exact items_last (hitem.complete hvalue hclosed.1 (by omega)) hclosed.2
    | @cons _ before t behind tail _ _ hbefore hvalue hbehind htail =>
      have hcomma : ("," : Text).length = 1 := rfl
      simp only [List.length_append, hcomma] at hrounds hn
      have hclosed := closes hbehind (c := ',') (by decide) (tail ++ ("]" ++ rest))
      have hothers := ih htail (by omega) (n := n) (by omega)
      simp only [List.append_assoc]
      rw [skip_append hbefore, skip_value hvalue]
      refine (items_more (hitem.complete hvalue hclosed.1 (by omega)) hclosed.2).trans ?_
      rw [hothers]
      rfl

theorem items_sound (hitem : Reads item rounds depth) {n : Nat} {s rest : Text}
    {values : List Json} (h : items item n s = .ok (values, rest)) :
    ∃ t, s = t ++ ("]" ++ rest) ∧ Items Short depth t values := by
  induction n generalizing s values with
  | zero => cases h
  | succ n ih =>
    rw [items] at h
    split at h
    · cases h
    rename_i v tail hv
    obtain ⟨t, rfl, hvalue⟩ := hitem.sound hv
    obtain ⟨behind, hbehind, htail⟩ := exists_skip tail
    split at h
    · cases h
    rename_i c tail' hskip
    rw [hskip] at htail
    split at h
    · rename_i hc
      cases h
      subst hc
      refine ⟨t ++ behind, ?_, Items.last blank_nil hvalue hbehind⟩
      rw [htail, List.append_assoc]
      rfl
    split at h
    · rename_i hc
      subst hc
      split at h
      · cases h
      rename_i others tail'' hothers
      cases h
      obtain ⟨u, hu, hitems⟩ := ih hothers
      obtain ⟨blank, hblank, htail'⟩ := exists_skip tail'
      refine ⟨t ++ behind ++ "," ++ (blank ++ u), ?_,
        Items.cons blank_nil hvalue hbehind (hitems.blank_append hblank)⟩
      rw [htail, htail', hu]
      simp only [List.append_assoc]
      rfl
    · cases h

theorem exists_cons_items {s : Text} {values : List Json} (h : Items Short depth s values)
    (rest : Text) : ∃ c tail, skip (s ++ rest) = c :: tail ∧ Opens c := by
  have hstart : ∀ {before t : Text} {v : Json}, Blank before → Value Short depth t v →
      ∀ rest, ∃ c tail, skip (before ++ (t ++ rest)) = c :: tail ∧ Opens c := by
    intro before t v hbefore hvalue rest
    rw [skip_append hbefore, skip_value hvalue]
    obtain ⟨c, tail, rfl, hc⟩ := hvalue.exists_cons
    exact ⟨c, tail ++ rest, rfl, hc⟩
  cases h with
  | last hbefore hvalue _ =>
    simp only [List.append_assoc]
    exact hstart hbefore hvalue _
  | cons hbefore hvalue _ _ =>
    simp only [List.append_assoc]
    exact hstart hbefore hvalue _

theorem array_empty {blank : Text} (hblank : Blank blank) (rest : Text) :
    array item rounds (blank ++ ("]" ++ rest)) = .ok (.arr [], rest) := by
  have hskip : skip (blank ++ ("]" ++ rest)) = (']' : CodePoint) :: rest :=
    (closes hblank (c := ']') (by decide) rest).2
  simp only [array, hskip, eat?, if_true]

theorem array_append (hitem : Reads item rounds depth) {s : Text} {values : List Json}
    (h : Items Short depth s values) (hrounds : s.length < rounds) (rest : Text) :
    array item rounds (s ++ ("]" ++ rest)) = .ok (.arr values, rest) := by
  have hitems := items_append hitem h hrounds hrounds rest
  obtain ⟨c, tail, hskip, hc⟩ := exists_cons_items h ("]" ++ rest)
  have hclose : c ≠ ']' := hc.ne (by decide) (by decide)
  simp only [array, hitems]
  simp only [hskip, eat?, if_neg hclose, Result.map]

theorem array_sound (hitem : Reads item rounds depth) {s rest : Text} {v : Json}
    (h : array item rounds s = .ok (v, rest)) :
    ∃ t, "[" ++ s = t ++ rest ∧ Value Short (depth + 1) t v := by
  obtain ⟨blank, hblank, hs⟩ := exists_skip s
  unfold array at h
  split at h
  · rename_i tail hclose
    cases h
    rw [eat?_eq_some.mp hclose] at hs
    refine ⟨"[" ++ blank ++ "]", ?_, .noItems hblank⟩
    rw [hs]
    simp only [List.append_assoc]
    rfl
  · obtain ⟨values, hvalues, rfl⟩ := map_eq_ok.mp h
    obtain ⟨t, ht, hitems⟩ := items_sound hitem hvalues
    refine ⟨"[" ++ (blank ++ t) ++ "]", ?_, .arr (hitems.blank_append hblank)⟩
    rw [hs, ht]
    simp only [List.append_assoc]

/-! ## Members -/

theorem key_append {name between colon k : Text} (hname : Quoted name k) (hbetween : Blank between)
    (hcolon : Blank colon) (rest : Text) :
    key (name ++ (between ++ (":" ++ (colon ++ rest)))) = .ok (k, skip rest) := by
  cases hname with
  | @mk inner _ hinner =>
    have hcons : "\"" ++ inner ++ "\"" ++ (between ++ (":" ++ (colon ++ rest))) =
        ('"' : CodePoint) :: (inner ++ ("\"" ++ (between ++ (":" ++ (colon ++ rest))))) := by
      simp only [List.append_assoc]
      rfl
    have hskip : skip (between ++ (":" ++ (colon ++ rest))) =
        (':' : CodePoint) :: (colon ++ rest) := by
      rw [skip_append hbetween]
      exact skip_cons (by decide) _
    rw [hcons]
    simp only [key, if_true, string_append hinner, hskip, skip_append hcolon]

theorem key_sound {s rest k : Text} (h : key s = .ok (k, rest)) :
    ∃ name between colon, Quoted name k ∧ Blank between ∧ Blank colon ∧
      s = name ++ between ++ ":" ++ colon ++ rest := by
  unfold key at h
  split at h
  · cases h
  rename_i c tail
  split at h
  · rename_i hquote
    subst hquote
    split at h
    · cases h
    rename_i k' tail' hstring
    obtain ⟨inner, rfl, hinner⟩ := string_sound hstring
    obtain ⟨between, hbetween, hbetween'⟩ := exists_skip tail'
    split at h
    · cases h
    rename_i d tail'' hskip
    split at h
    · rename_i hd
      cases h
      subst hd
      obtain ⟨colon, hcolon, htail''⟩ := exists_skip tail''
      refine ⟨"\"" ++ inner ++ "\"", between, colon, .mk hinner, hbetween, hcolon, ?_⟩
      rw [hbetween', hskip]
      nth_rewrite 1 [htail'']
      simp only [List.append_assoc]
      rfl
    · cases h
  · cases h

theorem key_eq_error {s : Text} {stop : Stop} (h : key s = .error stop) :
    ∃ mistake rest, stop = .mistake mistake rest := by
  unfold key at h
  repeat' split at h
  all_goals cases h
  all_goals first
    | exact string_eq_error ‹_›
    | exact ⟨_, _, rfl⟩

theorem members_last {n : Nat} {s middle rest tail k : Text} {v : Json}
    (hkey : key s = .ok (k, middle)) (hitem : item middle = .ok (v, rest))
    (hrest : skip rest = ('}' : CodePoint) :: tail) :
    members item (n + 1) s = .ok ([(k, v)], tail) := by
  rw [members]
  simp only [hkey, hitem, hrest, if_true]

theorem members_more {n : Nat} {s middle rest tail k : Text} {v : Json}
    (hkey : key s = .ok (k, middle)) (hitem : item middle = .ok (v, rest))
    (hrest : skip rest = (',' : CodePoint) :: tail) :
    members item (n + 1) s = (members item n (skip tail)).map ((k, v) :: ·) := by
  have hclose : (',' : CodePoint) ≠ '}' := by decide
  rw [members]
  simp only [hkey, hitem, hrest, if_neg hclose, if_true]
  cases members item n (skip tail) <;> rfl

theorem exists_cons_quoted {s t : Text} (h : Quoted s t) :
    ∃ rest, s = ('"' : CodePoint) :: rest := by
  cases h with
  | mk _ => exact ⟨_, rfl⟩

theorem skip_quoted {name k : Text} (hname : Quoted name k) (rest : Text) :
    skip (name ++ rest) = name ++ rest := by
  obtain ⟨tail, rfl⟩ := exists_cons_quoted hname
  exact skip_cons (by decide) _

theorem members_append (hitem : Reads item rounds depth) {s : Text}
    {entries : List (Text × Json)} (h : Members Short depth s entries)
    (hrounds : s.length < rounds) {n : Nat} (hn : s.length < n) (rest : Text) :
    members item n (skip (s ++ ("\x7d" ++ rest))) = .ok (entries, rest) := by
  induction entries generalizing s n with
  | nil => cases h
  | cons entry others ih =>
    obtain ⟨n, rfl⟩ : ∃ m, n = m + 1 := Nat.exists_eq_add_one.mpr (by omega)
    cases h with
    | @last _ before name between colon t behind k v hbefore hname hbetween hcolon hvalue
        hbehind =>
      simp only [List.length_append] at hrounds
      have hclosed := closes hbehind (c := '}') (by decide) rest
      have hkey := key_append hname hbetween hcolon (t ++ (behind ++ ('}' : CodePoint) :: rest))
      rw [skip_value hvalue] at hkey
      simp only [List.append_assoc]
      rw [skip_append hbefore, skip_quoted hname]
      exact members_last hkey (hitem.complete hvalue hclosed.1 (by omega)) hclosed.2
    | @cons _ before name between colon t behind tail k v _ hbefore hname hbetween hcolon hvalue
        hbehind htail =>
      have hcomma : ("," : Text).length = 1 := rfl
      simp only [List.length_append, hcomma] at hrounds hn
      have hclosed := closes hbehind (c := ',') (by decide) (tail ++ ("\x7d" ++ rest))
      have hkey := key_append hname hbetween hcolon
        (t ++ (behind ++ (',' : CodePoint) :: (tail ++ ("\x7d" ++ rest))))
      rw [skip_value hvalue] at hkey
      have hothers := ih htail (by omega) (n := n) (by omega)
      simp only [List.append_assoc]
      rw [skip_append hbefore, skip_quoted hname]
      refine (members_more hkey (hitem.complete hvalue hclosed.1 (by omega)) hclosed.2).trans ?_
      rw [hothers]
      rfl

theorem members_sound (hitem : Reads item rounds depth) {n : Nat} {s rest : Text}
    {entries : List (Text × Json)} (h : members item n s = .ok (entries, rest)) :
    ∃ t, s = t ++ ("\x7d" ++ rest) ∧ Members Short depth t entries := by
  induction n generalizing s entries with
  | zero => cases h
  | succ n ih =>
    rw [members] at h
    split at h
    · cases h
    rename_i k middle hk
    obtain ⟨name, between, colon, hname, hbetween, hcolon, rfl⟩ := key_sound hk
    split at h
    · cases h
    rename_i v tail hv
    obtain ⟨t, rfl, hvalue⟩ := hitem.sound hv
    obtain ⟨behind, hbehind, htail⟩ := exists_skip tail
    split at h
    · cases h
    rename_i c tail' hskip
    rw [hskip] at htail
    split at h
    · rename_i hc
      cases h
      subst hc
      refine ⟨name ++ between ++ ":" ++ colon ++ t ++ behind, ?_,
        Members.last blank_nil hname hbetween hcolon hvalue hbehind⟩
      rw [htail]
      simp only [List.append_assoc]
      rfl
    split at h
    · rename_i hc
      subst hc
      split at h
      · cases h
      rename_i others tail'' hothers
      cases h
      obtain ⟨u, hu, hmembers⟩ := ih hothers
      obtain ⟨blank, hblank, htail'⟩ := exists_skip tail'
      refine ⟨name ++ between ++ ":" ++ colon ++ t ++ behind ++ "," ++ (blank ++ u), ?_,
        Members.cons blank_nil hname hbetween hcolon hvalue hbehind
          (hmembers.blank_append hblank)⟩
      rw [htail, htail', hu]
      simp only [List.append_assoc]
      rfl
    · cases h

theorem collect_eq {found entries : List (Text × Json)} (h : Merged found entries) :
    collect found = .obj entries := by
  rw [collect, merged_iff.mp h]

theorem object_empty {blank : Text} (hblank : Blank blank) (rest : Text) :
    object item rounds (blank ++ ("\x7d" ++ rest)) = .ok (.obj [], rest) := by
  have hskip : skip (blank ++ ("\x7d" ++ rest)) = ('}' : CodePoint) :: rest :=
    (closes hblank (c := '}') (by decide) rest).2
  simp only [object, hskip, eat?, if_true]

theorem exists_cons_members {s : Text} {entries : List (Text × Json)}
    (h : Members Short depth s entries) (rest : Text) :
    ∃ tail, skip (s ++ rest) = ('"' : CodePoint) :: tail := by
  have hstart : ∀ {before name k : Text}, Blank before → Quoted name k →
      ∀ rest, ∃ tail, skip (before ++ (name ++ rest)) = ('"' : CodePoint) :: tail := by
    intro before name k hbefore hname rest
    rw [skip_append hbefore, skip_quoted hname]
    obtain ⟨tail, rfl⟩ := exists_cons_quoted hname
    exact ⟨tail ++ rest, rfl⟩
  cases h with
  | last hbefore hname =>
    simp only [List.append_assoc]
    exact hstart hbefore hname _
  | cons hbefore hname =>
    simp only [List.append_assoc]
    exact hstart hbefore hname _

theorem object_append (hitem : Reads item rounds depth) {s : Text}
    {found entries : List (Text × Json)} (h : Members Short depth s found)
    (hmerged : Merged found entries) (hrounds : s.length < rounds) (rest : Text) :
    object item rounds (s ++ ("\x7d" ++ rest)) = .ok (.obj entries, rest) := by
  have hmembers := members_append hitem h hrounds hrounds rest
  obtain ⟨tail, hskip⟩ := exists_cons_members h ("\x7d" ++ rest)
  have hclose : ('"' : CodePoint) ≠ '}' := by decide
  simp only [object, hmembers]
  simp only [hskip, eat?, if_neg hclose, Result.map, collect_eq hmerged]

theorem object_sound (hitem : Reads item rounds depth) {s rest : Text} {v : Json}
    (h : object item rounds s = .ok (v, rest)) :
    ∃ t, "\x7b" ++ s = t ++ rest ∧ Value Short (depth + 1) t v := by
  obtain ⟨blank, hblank, hs⟩ := exists_skip s
  unfold object at h
  split at h
  · rename_i tail hclose
    cases h
    rw [eat?_eq_some.mp hclose] at hs
    refine ⟨"\x7b" ++ blank ++ "\x7d", ?_, .noMembers hblank⟩
    rw [hs]
    simp only [List.append_assoc]
    rfl
  · obtain ⟨entries, hentries, rfl⟩ := map_eq_ok.mp h
    obtain ⟨t, ht, hmembers⟩ := members_sound hitem hentries
    refine ⟨"\x7b" ++ (blank ++ t) ++ "\x7d", ?_,
      .obj (hmembers.blank_append hblank) (merged_ofList entries)⟩
    rw [hs, ht]
    simp only [List.append_assoc]

/-! ## Values -/

end

def isBracket (c : CodePoint) : Prop := c ∈ (['"', '{', '['] : List CodePoint)

theorem valueWith_scalar {rounds : Nat} {item : Option (Text → Result Json)} {s : Text}
    (hs : ∀ c ∈ s.head?, ¬ isBracket c) :
    valueWith .refuse rounds item s = scalar .refuse s := by
  cases s with
  | nil => rfl
  | cons c rest =>
    have hc := hs c rfl
    simp only [isBracket, List.mem_cons, List.not_mem_nil, or_false, not_or] at hc
    simp only [valueWith, if_neg hc.1, if_neg hc.2.1, if_neg hc.2.2]

/-- What reading a value comes to, by the code point that it starts with. -/
theorem valueWith_cases (rounds : Nat) (item : Option (Text → Result Json)) (s : Text) :
    (∃ rest, s = "\"" ++ rest ∧
      valueWith .refuse rounds item s = (string (CodePoint.ofChar '"') rest).map .str) ∨
    (∃ rest, (s = "\x7b" ++ rest ∨ s = "[" ++ rest) ∧ item = none ∧
      valueWith .refuse rounds item s = .error .tooDeep) ∨
    (∃ rest f, s = "\x7b" ++ rest ∧ item = some f ∧
      valueWith .refuse rounds item s = object f rounds rest) ∨
    (∃ rest f, s = "[" ++ rest ∧ item = some f ∧
      valueWith .refuse rounds item s = array f rounds rest) ∨
    valueWith .refuse rounds item s = scalar .refuse s := by
  cases s with
  | nil => exact .inr (.inr (.inr (.inr rfl)))
  | cons c rest =>
    by_cases hc : isBracket c
    · simp only [isBracket, List.mem_cons, List.not_mem_nil, or_false] at hc
      rcases hc with rfl | rfl | rfl
      · exact .inl ⟨rest, rfl, rfl⟩
      · cases item with
        | none => exact .inr (.inl ⟨rest, .inl rfl, rfl, rfl⟩)
        | some f => exact .inr (.inr (.inl ⟨rest, f, rfl, rfl, rfl⟩))
      · cases item with
        | none => exact .inr (.inl ⟨rest, .inr rfl, rfl, rfl⟩)
        | some f => exact .inr (.inr (.inr (.inl ⟨rest, f, rfl, rfl, rfl⟩)))
    · refine .inr (.inr (.inr (.inr (valueWith_scalar ?_))))
      intro d hd
      cases hd
      exact hc

def itemReader (rounds : Nat) : Nat → Option (Text → Result Json)
  | 0 => none
  | depth + 1 => some (value .refuse rounds depth)

theorem value_eq (rounds depth : Nat) :
    value .refuse rounds depth = valueWith .refuse rounds (itemReader rounds depth) := by
  cases depth <;> rfl

theorem value_scalar {rounds depth : Nat} {t rest : Text} {v : Json}
    (h : scalar .refuse (t ++ rest) = .ok (v, rest))
    (ht : ∃ c tail, t = c :: tail ∧ ¬ isBracket c) :
    value .refuse rounds depth (t ++ rest) = .ok (v, rest) := by
  obtain ⟨c, tail, rfl, hc⟩ := ht
  rw [value_eq, valueWith_scalar, h]
  intro d hd
  cases hd
  exact hc

theorem exists_cons_number {sign s : Text} {negative : Bool} (hsign : Sign sign negative)
    (hs : StartsWithDigit s) : ∃ c tail, sign ++ s = c :: tail ∧ ¬ isBracket c := by
  obtain ⟨c, tail, rfl, hc⟩ := hs
  cases hsign with
  | plus =>
    refine ⟨c, tail, rfl, ?_⟩
    intro hbracket
    have hlarge : ∀ d ∈ (['"', '{', '['] : List CodePoint), d.val < 0x30 ∨ 0x39 < d.val := by decide
    have := hlarge c hbracket
    unfold IsDigit at hc
    omega
  | minus => exact ⟨'-', c :: tail, rfl, by unfold isBracket; decide⟩

section

variable {rounds depth : Nat}

def ItemsRead (rounds depth : Nat) : Prop :=
  ∀ f, itemReader rounds depth = some f → ∃ inner, depth = inner + 1 ∧ Reads f rounds inner

theorem value_sound (hitems : ItemsRead rounds depth) {s rest : Text} {v : Json}
    (h : value .refuse rounds depth s = .ok (v, rest)) :
    ∃ t, s = t ++ rest ∧ Value Short depth t v := by
  rw [value_eq] at h
  rcases valueWith_cases rounds (itemReader rounds depth) s with
    ⟨tail, rfl, heq⟩ | ⟨tail, -, -, heq⟩ | ⟨tail, f, rfl, hf, heq⟩ | ⟨tail, f, rfl, hf, heq⟩ | heq
  · rw [heq] at h
    obtain ⟨t, hread, rfl⟩ := map_eq_ok.mp h
    obtain ⟨inner, rfl, hinner⟩ := string_sound hread
    refine ⟨"\"" ++ inner ++ "\"", ?_, .str (.mk hinner)⟩
    simp only [List.append_assoc]
  · rw [heq] at h
    cases h
  · rw [heq] at h
    obtain ⟨inner, rfl, hreads⟩ := hitems f hf
    exact object_sound hreads h
  · rw [heq] at h
    obtain ⟨inner, rfl, hreads⟩ := hitems f hf
    exact array_sound hreads h
  · rw [heq] at h
    obtain ⟨t, rfl, ht⟩ := scalar_sound h
    exact ⟨t, rfl, ht depth⟩

theorem value_complete (hitems : ItemsRead rounds depth) {t rest : Text} {v : Json}
    (h : Value Short depth t v) (hrest : Ends rest) (hrounds : t.length < rounds) :
    value .refuse rounds depth (t ++ rest) = .ok (v, rest) := by
  have hbracket : ∀ c ∈ (['n', 't', 'f'] : List CodePoint), ¬ isBracket c := by
    unfold isBracket
    decide
  cases h with
  | null =>
    exact value_scalar (scalar_word (by simp [words]) rest)
      ⟨'n', _, rfl, hbracket _ (by decide)⟩
  | yes =>
    exact value_scalar (scalar_word (by simp [words]) rest)
      ⟨'t', _, rfl, hbracket _ (by decide)⟩
  | no =>
    exact value_scalar (scalar_word (by simp [words]) rest)
      ⟨'f', _, rfl, hbracket _ (by decide)⟩
  | @int _ sign s negative hsign hwhole hshort =>
    have hstarts := startsWithDigit_digits hwhole.toDigits
    refine value_scalar ?_ (exists_cons_number hsign hstarts)
    rw [List.append_assoc, scalar_number hsign (hstarts.append rest),
      number_append hsign (hstarts.append rest)]
    exact digits_whole _ negative hwhole hshort hrest
  | @float _ sign s negative d hsign hfractional =>
    have hstarts := startsWithDigit_fractional hfractional
    refine value_scalar ?_ (exists_cons_number hsign hstarts)
    rw [List.append_assoc, scalar_number hsign (hstarts.append rest),
      number_append hsign (hstarts.append rest)]
    exact digits_fractional _ negative hfractional hrest
  | str hquoted =>
    cases hquoted with
    | mk hinner =>
      rw [value_eq, List.append_assoc, List.append_assoc]
      exact map_eq_ok.mpr ⟨_, string_append hinner rest, rfl⟩
  | noItems hblank =>
    rw [List.append_assoc, List.append_assoc]
    exact array_empty hblank rest
  | @arr inner s values h =>
    obtain ⟨inner', hdepth, hreads⟩ := hitems _ rfl
    cases hdepth
    simp only [List.length_append] at hrounds
    rw [List.append_assoc, List.append_assoc]
    exact array_append hreads h (by omega) rest
  | noMembers hblank =>
    rw [List.append_assoc, List.append_assoc]
    exact object_empty hblank rest
  | @obj inner s found entries h hmerged =>
    obtain ⟨inner', hdepth, hreads⟩ := hitems _ rfl
    cases hdepth
    simp only [List.length_append] at hrounds
    rw [List.append_assoc, List.append_assoc]
    exact object_append hreads h hmerged (by omega) rest

end

theorem reads_value (rounds depth : Nat) : Reads (value .refuse rounds depth) rounds depth := by
  induction depth with
  | zero =>
    have hitems : ItemsRead rounds 0 := fun f hf => nomatch hf
    exact ⟨value_sound hitems, value_complete hitems⟩
  | succ depth ih =>
    have hitems : ItemsRead rounds (depth + 1) := by
      intro f hf
      cases hf
      exact ⟨depth, rfl, ih⟩
    exact ⟨value_sound hitems, value_complete hitems⟩

end Json.Reader

/-! ## Documents -/

namespace Json

theorem readDocument_eq_ok {s : Text} {v : Json} :
    readDocument .refuse s = .ok v ↔ Document Short nestingLimit s v := by
  have hreads := Reader.reads_value (s.length + 1) nestingLimit
  unfold readDocument
  constructor
  · intro h
    split at h
    · cases h
    rename_i w rest hread
    split at h
    · rename_i hend
      cases h
      obtain ⟨before, hbefore, hs⟩ := Reader.exists_skip s
      obtain ⟨t, ht, hvalue⟩ := hreads.sound hread
      rw [hs, ht, ← List.append_assoc]
      exact .mk hbefore hvalue (Reader.blank_of_skip hend)
    · cases h
  · rintro ⟨hbefore, hvalue, hbehind⟩
    rename_i before t behind
    have hends : Reader.Ends behind := by
      have h := Reader.ends_blank hbehind Reader.ends_nil
      rwa [List.append_nil] at h
    have hread := hreads.complete hvalue hends (by simp only [List.length_append]; omega)
    have hskip : Reader.skip (before ++ t ++ behind) = t ++ behind := by
      rw [List.append_assoc, Reader.skip_append hbefore, Reader.skip_value hvalue]
    rw [hskip, hread]
    simp only [Reader.skip_blank hbehind]

theorem not_mark_of_document {fits : Text → Prop} {depth : Nat} {c : CodePoint} {rest : Text}
    {v : Json} (h : Document fits depth (c :: rest) v) : c.val ≠ 0xFEFF := by
  generalize hs : c :: rest = s at h
  obtain ⟨hbefore, hvalue, hbehind⟩ := h
  rename_i before t behind
  cases before with
  | nil =>
    obtain ⟨d, tail, rfl, hd⟩ := hvalue.exists_cons
    cases hs
    intro hmark
    exact hd.ne (d := ⟨0xFEFF, by decide⟩) (by decide) (by decide) (CodePoint.ext hmark)
  | cons d tail =>
    cases hs
    have hspaces : ∀ d ∈ ([' ', '\t', '\n', '\r'] : List CodePoint), d.val ≠ 0xFEFF := by decide
    exact hspaces c (hbefore c List.mem_cons_self)

theorem readText_eq_ok {s : Text} {v : Json} :
    readText .refuse s = .ok v ↔ Document Short nestingLimit s v := by
  rw [← readDocument_eq_ok]
  cases s with
  | nil => exact Iff.rfl
  | cons c rest =>
    by_cases hmark : c.val = 0xFEFF
    · have hnot : readDocument .refuse (c :: rest) ≠ .ok v := fun h =>
        not_mark_of_document (readDocument_eq_ok.mp h) hmark
      simp [readText, hmark, hnot]
    · simp only [readText, if_neg hmark]

end Json

end ScriptDepot
