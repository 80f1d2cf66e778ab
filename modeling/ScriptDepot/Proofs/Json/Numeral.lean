import ScriptDepot.Number.Shortest
import ScriptDepot.Proofs.Json.Grammar
/-!
# Written numbers are JSON numbers

Integers are written by their decimal digits, and a finite double by digits around a point or with
an exponent.  Each form fits the grammar of numbers, since a number other than zero is written with
no zero in front.
-/

namespace ScriptDepot

open Json.Grammar

/-! ## Naturals and integers -/

namespace Text

theorem isDigit_of_mem_ofNat {n : Nat} {c : CodePoint} (h : c ∈ ofNat n) : IsDigit c := by
  simp only [ofNat, List.mem_map] at h
  obtain ⟨d, hd, rfl⟩ := h
  have hdigit := Nat.isDigit_of_mem_toDigits (by omega) (by omega) hd
  simpa [Char.isDigit, IsDigit, CodePoint.ofChar, UInt32.le_iff_toNat_le] using hdigit

theorem digits_ofNat (n : Nat) : Digits (ofNat n) where
  nonempty := by simp [ofNat]
  all _ := isDigit_of_mem_ofNat

theorem number_ofNat (n : Nat) : number (ofNat n) = n := by
  unfold number ofNat
  rw [List.foldl_map]
  exact Nat.ofDigitChars_ten_toDigits

theorem head?_ofNat_ne_zero {n : Nat} (h : n ≠ 0) :
    (ofNat n).head? ≠ some ('0' : CodePoint) := by
  induction n using Nat.base_induction 10 (by omega) with
  | single m hm =>
    simp only [ofNat, Nat.toDigits_of_lt_base hm, List.map_cons, List.map_nil, List.head?_cons]
    intro hzero
    have hval := congrArg CodePoint.val (Option.some.inj hzero)
    have hchar : m.digitChar = '0' := Char.toNat_inj.mp hval
    exact h (Nat.digitChar_eq_zero.mp hchar)
  | digit m k hk hm ih =>
    have happend : ofNat (10 * m + k) = ofNat m ++ ofNat k := by
      simp only [ofNat, ← Nat.toDigits_append_toDigits (by omega : 1 < 10) hm hk, List.map_append]
    have hhead : (ofNat m ++ ofNat k).head? = (ofNat m).head? := by
      cases hm : ofNat m with
      | nil => exact absurd hm (digits_ofNat m).nonempty
      | cons c rest => rfl
    rw [happend, hhead]
    exact ih (by omega)

theorem whole_ofNat (n : Nat) : Whole (ofNat n) where
  toDigits := digits_ofNat n
  leading h := by
    by_cases hn : n = 0
    · subst hn; rfl
    · exact absurd h (head?_ofNat_ne_zero hn)

end Text

theorem Json.value_ofInt {fits : Text → Prop} {n : Int} (hfits : fits (Text.ofNat n.natAbs))
    (depth : Nat) : Value fits depth (Text.ofInt n) (.int n) := by
  cases n with
  | ofNat n =>
    have h : Value fits depth ([] ++ Text.ofNat n) (.int (number (Text.ofNat n))) :=
      .int .plus (Text.whole_ofNat n) hfits
    rw [Text.number_ofNat] at h
    exact h
  | negSucc n =>
    have h : Value fits depth ("-" ++ Text.ofNat (n + 1)) (.int (-number (Text.ofNat (n + 1)))) :=
      .int .minus (Text.whole_ofNat (n + 1)) hfits
    rw [Text.number_ofNat] at h
    exact h

/-! ## Decimals -/

namespace Json.Grammar

theorem digits_zero : Digits "0" := Text.digits_ofNat 0

theorem whole_zero : Whole "0" := Text.whole_ofNat 0

theorem Digits.append {s t : Text} (hs : Digits s) (ht : ∀ c ∈ t, IsDigit c) :
    Digits (s ++ t) where
  nonempty := by simp [hs.nonempty]
  all c hc := by
    rcases List.mem_append.mp hc with h | h
    · exact hs.all c h
    · exact ht c h

theorem Digits.append_right {s t : Text} (hs : ∀ c ∈ s, IsDigit c) (ht : Digits t) :
    Digits (s ++ t) where
  nonempty := by simp [ht.nonempty]
  all c hc := by
    rcases List.mem_append.mp hc with h | h
    · exact hs c h
    · exact ht.all c h

theorem Digits.take {s : Text} (hs : Digits s) {n : Nat} (hn : 0 < n) : Digits (s.take n) where
  nonempty := by
    simp only [ne_eq, List.take_eq_nil_iff, not_or]
    exact ⟨by omega, hs.nonempty⟩
  all c hc := hs.all c (List.mem_of_mem_take hc)

theorem Digits.drop {s : Text} (hs : Digits s) {n : Nat} (hn : n < s.length) :
    Digits (s.drop n) where
  nonempty := by
    simp only [ne_eq, List.drop_eq_nil_iff]
    omega
  all c hc := hs.all c (List.mem_of_mem_drop hc)

theorem Digits.whole {s : Text} (hs : Digits s) (hhead : s.head? ≠ some ('0' : CodePoint)) :
    Whole s where
  toDigits := hs
  leading h := absurd h hhead

theorem isDigit_of_mem_replicate {n : Nat} {c : CodePoint}
    (h : c ∈ List.replicate n ('0' : CodePoint)) : IsDigit c := by
  rw [List.eq_of_mem_replicate h]
  exact ⟨by decide, by decide⟩

theorem fractional_point {whole digits : Text} (hwhole : Whole whole) (hdigits : Digits digits) :
    ∃ d, Fractional (whole ++ ("." ++ digits)) d := by
  have h := Fractional.mk hwhole (.digits hdigits) .absent (.inl (by simp [hdigits.nonempty]))
  rw [List.append_nil] at h
  exact ⟨_, h⟩

theorem fractional_exponent {whole fraction digits mark exponent : Text} (hwhole : Whole whole)
    (hfraction : Fraction fraction digits) (hmark : mark = "e-" ∨ mark = "e+")
    (hexponent : Digits exponent) :
    ∃ d, Fractional (whole ++ fraction ++ (mark ++ exponent)) d := by
  have hne := hexponent.nonempty
  rcases hmark with rfl | rfl
  · exact ⟨_, .mk hwhole hfraction (.minus (.inl rfl) hexponent) (.inr (by simp [hne]))⟩
  · exact ⟨_, .mk hwhole hfraction (.plus (.inl rfl) hexponent) (.inr (by simp [hne]))⟩

end Json.Grammar

namespace Decimal

/-- The text of a decimal is a number with a fraction or an exponent. -/
theorem fractional_text (spelling : Spelling) (d : Decimal) :
    ∃ e, Fractional (d.text spelling) e := by
  unfold text
  dsimp only
  generalize trim 800 d = d
  generalize hexponent : d.power + ((Text.ofNat d.digits).length : Int) - 1 = exponent
  by_cases hzero : d.digits = 0
  · rw [if_pos hzero]
    exact fractional_point whole_zero digits_zero
  rw [if_neg hzero]
  have hdigits := Text.digits_ofNat d.digits
  have hhead := Text.head?_ofNat_ne_zero hzero
  generalize Text.ofNat d.digits = digits at *
  have hlength : 0 < digits.length := List.length_pos_iff.mpr hdigits.nonempty
  have htake : ∀ n, 0 < n → Whole (digits.take n) := by
    intro n hn
    refine (hdigits.take hn).whole ?_
    rwa [List.head?_take, if_neg (by omega)]
  split
  · split
    · -- Below one: zeros, then the digits.
      have hfraction : Digits (List.replicate (-exponent - 1).toNat ('0' : CodePoint) ++ digits) :=
        .append_right (fun _ => isDigit_of_mem_replicate) hdigits
      obtain ⟨e, h⟩ := fractional_point whole_zero hfraction
      exact ⟨e, h⟩
    · split
      · -- All digits stand before the point.
        have hwhole : Whole (digits ++
            List.replicate (exponent + 1 - digits.length).toNat ('0' : CodePoint)) := by
          refine (hdigits.append fun _ => isDigit_of_mem_replicate).whole ?_
          cases digits with
          | nil => simp at hlength
          | cons c rest => exact hhead
        obtain ⟨e, h⟩ := fractional_point hwhole digits_zero
        exact ⟨e, h⟩
      · have hdrop : Digits (digits.drop (exponent + 1).toNat) := hdigits.drop (by omega)
        obtain ⟨e, h⟩ := fractional_point (htake (exponent + 1).toNat (by omega)) hdrop
        rw [← List.append_assoc] at h
        exact ⟨e, h⟩
  · -- With an exponent, after one digit.
    have hsize := Text.digits_ofNat exponent.natAbs
    generalize Text.ofNat exponent.natAbs = size at *
    have hpadded : Digits (List.replicate (spelling.exponentDigits - size.length)
        ('0' : CodePoint) ++ size) :=
      .append_right (fun _ => isDigit_of_mem_replicate) hsize
    have hmark : (if exponent < 0 then ("e-" : Text) else "e+") = "e-" ∨
        (if exponent < 0 then ("e-" : Text) else "e+") = "e+" := by
      split <;> simp
    by_cases hone : digits.length = 1
    · obtain ⟨e, h⟩ := fractional_exponent (htake 1 (by omega)) .absent hmark hpadded
      rw [if_pos hone]
      simp only [List.append_assoc] at h ⊢
      exact ⟨e, h⟩
    · have hfraction : Fraction ("." ++ digits.drop 1) (digits.drop 1) :=
        .digits (hdigits.drop (by omega))
      obtain ⟨e, h⟩ := fractional_exponent (htake 1 (by omega)) hfraction hmark hpadded
      rw [if_neg hone]
      simp only [List.append_assoc] at h ⊢
      exact ⟨e, h⟩

end Decimal

end ScriptDepot
