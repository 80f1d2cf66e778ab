import ScriptDepot.Json.Writer
import ScriptDepot.Encoding.Wide
import ScriptDepot.Proofs.Json.Grammar
/-!
# Written strings are JSON strings

Every code point is written as itself, as a letter behind a backslash, or by its number, in two
halves when it is above U+FFFF.  What is written spells the text again, except that a high surrogate
and a low one right behind it have become one code point.
-/

namespace ScriptDepot

open Json.Grammar

/-! ## Numbers of code points -/

namespace Json.Grammar

theorem HexDigit.unique {c : CodePoint} {d e : Nat} (hd : HexDigit c d) (he : HexDigit c e) :
    d = e := by
  unfold HexDigit at hd he
  omega

theorem Numbered.unique {escape other rest rest' : Text} {c d : CodePoint}
    (hc : Numbered escape c) (hd : Numbered other d) (h : escape ++ rest = other ++ rest') :
    c = d := by
  obtain ⟨hw, hx, hy, hz, hval⟩ := hc
  obtain ⟨hw', hx', hy', hz', hval'⟩ := hd
  simp only [List.append_assoc] at h
  have hdigits := List.append_cancel_left h
  simp only [List.cons_append, List.nil_append, List.cons.injEq] at hdigits
  obtain ⟨rfl, rfl, rfl, rfl, -⟩ := hdigits
  apply CodePoint.ext
  rw [hval, hval', hw.unique hw', hx.unique hx', hy.unique hy', hz.unique hz']

theorem not_startsLow_nil : ¬ StartsLow [] := by
  rintro ⟨escape, rest, low, ⟨-, -, -, -, -⟩, -, heq⟩
  cases heq

end Json.Grammar

theorem hexDigit_hexDigit {d : Nat} (h : d < 16) : HexDigit (CodePoint.hexDigit d) d := by
  unfold HexDigit CodePoint.hexDigit
  split
  · rw [CodePoint.val_ofNat (by omega)]
    omega
  · rw [CodePoint.val_ofNat (by omega)]
    omega

namespace Json

theorem numbered_unicodeEscape {c : CodePoint} (h : c.val < 0x10000) :
    Numbered (unicodeEscape c.val) c := by
  have hdigits : Text.hex 4 c.val =
      [CodePoint.hexDigit (c.val / 16 / 16 / 16 % 16), CodePoint.hexDigit (c.val / 16 / 16 % 16),
        CodePoint.hexDigit (c.val / 16 % 16), CodePoint.hexDigit (c.val % 16)] := rfl
  have heq : unicodeEscape c.val = "\\u" ++ Text.hex 4 c.val := rfl
  rw [heq, hdigits]
  refine .mk (hexDigit_hexDigit (by omega)) (hexDigit_hexDigit (by omega))
    (hexDigit_hexDigit (by omega)) (hexDigit_hexDigit (by omega)) ?_
  omega

/-! ## Escapes -/

theorem isHigh_iff {c : CodePoint} : c.isHigh = true ↔ IsHigh c := by
  simp only [CodePoint.isHigh, IsHigh, Bool.and_eq_true, decide_eq_true_eq]
  omega

theorem isLow_iff {c : CodePoint} : c.isLow = true ↔ IsLow c := by
  simp only [CodePoint.isLow, IsLow, Bool.and_eq_true, decide_eq_true_eq]
  omega

theorem pair_iff {high low c : CodePoint} (hhigh : IsHigh high) (hlow : IsLow low) :
    Pair high low c ↔ c = CodePoint.join high low := by
  have hval : (CodePoint.join high low).val =
      0x10000 + 0x400 * (high.val - 0xD800) + (low.val - 0xDC00) := by
    unfold IsHigh at hhigh
    unfold IsLow at hlow
    unfold CodePoint.join
    rw [CodePoint.val_ofNat] <;> omega
  constructor
  · intro h
    exact CodePoint.ext (h.val.trans hval.symm)
  · intro h
    rw [h]
    exact ⟨hhigh, hlow, hval⟩

theorem exists_halves {c : CodePoint} (h : 0x10000 ≤ c.val) :
    ∃ high low : CodePoint, high.val = 0xD800 + (c.val - 0x10000) / 0x400 ∧
      low.val = 0xDC00 + (c.val - 0x10000) % 0x400 ∧ Pair high low c := by
  have hc := c.isLt
  refine ⟨⟨0xD800 + (c.val - 0x10000) / 0x400, by omega⟩,
    ⟨0xDC00 + (c.val - 0x10000) % 0x400, by omega⟩, rfl, rfl, ?_, ?_, ?_⟩
  · unfold IsHigh
    dsimp only
    omega
  · unfold IsLow
    dsimp only
    omega
  · dsimp only
    omega

/-- Everything that the escape of a code point can be. -/
theorem escape_cases (c : CodePoint) :
    (escape c = [c] ∧ 0x20 ≤ c.val ∧ c.val ≤ 0x7E ∧ c ≠ '"' ∧ c ≠ '\\') ∨
      (∃ e : CodePoint, escape c = ("\\" : Text) ++ [e] ∧ (e, c) ∈ letters) ∨
      (escape c = unicodeEscape c.val ∧ c.val < 0x10000) ∨
      (escape c = unicodeEscape (0xD800 + (c.val - 0x10000) / 0x400) ++
        unicodeEscape (0xDC00 + (c.val - 0x10000) % 0x400) ∧ 0x10000 ≤ c.val) := by
  unfold escape
  by_cases hspecial : c = '"' ∨ c = '\\'
  · rw [if_pos hspecial]
    refine .inr (.inl ⟨c, rfl, ?_⟩)
    rcases hspecial with rfl | rfl <;> decide
  rw [if_neg hspecial]
  by_cases hrange : 0x20 ≤ c.val ∧ c.val ≤ 0x7E
  · rw [if_pos hrange]
    exact .inl ⟨rfl, hrange.1, hrange.2, fun h => hspecial (.inl h), fun h => hspecial (.inr h)⟩
  rw [if_neg hrange]
  by_cases hnewline : c = '\n'
  · subst hnewline
    exact .inr (.inl ⟨'n', rfl, by decide⟩)
  rw [if_neg hnewline]
  by_cases hreturn : c = '\r'
  · subst hreturn
    exact .inr (.inl ⟨'r', rfl, by decide⟩)
  rw [if_neg hreturn]
  by_cases htab : c = '\t'
  · subst htab
    exact .inr (.inl ⟨'t', rfl, by decide⟩)
  rw [if_neg htab]
  by_cases hfeed : c.val = 0x0C
  · have hc : c = CodePoint.ofChar '\x0C' := CodePoint.ext hfeed
    subst hc
    exact .inr (.inl ⟨'f', rfl, by decide⟩)
  rw [if_neg hfeed]
  by_cases hback : c.val = 0x08
  · have hc : c = CodePoint.ofChar '\x08' := CodePoint.ext hback
    subst hc
    exact .inr (.inl ⟨'b', rfl, by decide⟩)
  rw [if_neg hback]
  by_cases hsmall : c.val < 0x10000
  · rw [if_pos hsmall]
    exact .inr (.inr (.inl ⟨rfl, hsmall⟩))
  · rw [if_neg hsmall]
    exact .inr (.inr (.inr ⟨rfl, by omega⟩))

theorem escape_surrogate {c : CodePoint} (hlow : 0xD800 ≤ c.val) (hhigh : c.val < 0xE000) :
    escape c = unicodeEscape c.val := by
  rcases escape_cases c with ⟨-, -, hc, -, -⟩ | ⟨e, -, he⟩ | ⟨heq, -⟩ | ⟨-, hc⟩
  · omega
  · have hletters : ∀ p ∈ letters, p.2.val < 0x80 := by decide
    have hc : c.val < 0x80 := hletters _ he
    omega
  · exact heq
  · omega

theorem chars_escape_append {c : CodePoint} {s t : Text}
    (halone : IsHigh c → ¬ StartsLow s) (h : Chars s t) :
    Chars (escape c ++ s) (c :: t) := by
  rcases escape_cases c with ⟨heq, hlow, -, hquote, hslash⟩ | ⟨e, heq, he⟩ | ⟨heq, hc⟩ | ⟨heq, hc⟩
  · rw [heq]
    exact .raw hlow hquote hslash h
  · rw [heq]
    exact .letter he h
  · rw [heq]
    exact .numbered (numbered_unicodeEscape hc) halone h
  · obtain ⟨high, low, hhigh, hlow, hpair⟩ := exists_halves hc
    have hbounds := c.isLt
    have hfirst := numbered_unicodeEscape (c := high) (by omega)
    have hsecond := numbered_unicodeEscape (c := low) (by omega)
    rw [heq, ← hhigh, ← hlow]
    exact .pair hfirst hsecond hpair h

theorem not_startsLow_escape {c : CodePoint} (hc : ¬ IsLow c) (rest : Text) :
    ¬ StartsLow (escape c ++ rest) := by
  rintro ⟨other, rest', low, hother, hlow, h⟩
  rcases escape_cases c with ⟨heq, -, -, -, hslash⟩ | ⟨e, heq, he⟩ | ⟨heq, hsmall⟩ | ⟨heq, hlarge⟩
  · obtain ⟨hw, hx, hy, hz, hval⟩ := hother
    rw [heq] at h
    exact hslash (List.cons.inj h).1
  · obtain ⟨hw, hx, hy, hz, hval⟩ := hother
    rw [heq] at h
    have hu : e = 'u' := (List.cons.inj (List.cons.inj h).2).1
    have hletters : ∀ p ∈ letters, p.1 ≠ ('u' : CodePoint) := by decide
    exact hletters _ he hu
  · rw [heq] at h
    have := (numbered_unicodeEscape hsmall).unique hother h
    subst this
    exact hc hlow
  · obtain ⟨high, low', hhigh, -, hpair⟩ := exists_halves hlarge
    rw [heq, ← hhigh, List.append_assoc] at h
    have hbounds := c.isLt
    have := (numbered_unicodeEscape (c := high) (by omega)).unique hother h
    subst this
    have hfirst := hpair.first
    unfold IsHigh at hfirst
    unfold IsLow at hlow
    omega

/-- What is written for a text spells the text, with neighbouring halves joined. -/
theorem chars_escape (t : Text) : Chars (t.flatMap escape) (Utf16.joinPairs t) := by
  fun_induction Utf16.joinPairs t with
  | case1 => exact .nil
  | case2 c =>
    exact chars_escape_append (fun _ => not_startsLow_nil) .nil
  | case3 c d rest hpair ih =>
    rw [Bool.and_eq_true] at hpair
    have hhigh : IsHigh c := isHigh_iff.mp hpair.1
    have hlow : IsLow d := isLow_iff.mp hpair.2
    have hc : 0xD800 ≤ c.val ∧ c.val ≤ 0xDBFF := hhigh
    have hd : 0xDC00 ≤ d.val ∧ d.val ≤ 0xDFFF := hlow
    have hfirst := numbered_unicodeEscape (c := c) (by omega)
    have hsecond := numbered_unicodeEscape (c := d) (by omega)
    rw [List.flatMap_cons, List.flatMap_cons, escape_surrogate (by omega) (by omega),
      escape_surrogate (by omega) (by omega), ← List.append_assoc]
    exact .pair hfirst hsecond ((pair_iff hhigh hlow).mpr rfl) ih
  | case4 c d rest hpair ih =>
    rw [List.flatMap_cons]
    refine chars_escape_append ?_ ih
    intro hhigh
    rw [List.flatMap_cons]
    refine not_startsLow_escape (fun hlow => hpair ?_) _
    rw [isHigh_iff.mpr hhigh, isLow_iff.mpr hlow]
    rfl

theorem quoted_writeString (t : Text) : Quoted (writeString t) (Utf16.joinPairs t) :=
  .mk (chars_escape t)

end Json

end ScriptDepot
