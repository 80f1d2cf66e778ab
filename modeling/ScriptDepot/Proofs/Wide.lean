import ScriptDepot.Encoding.Wide
import ScriptDepot.Proofs.Utf8
/-!
# Text in UTF-16 and UTF-32

The bytes of a text in the two wide encodings, in either byte order, and that the readers undo them:
UTF-16 for every text without surrogates, UTF-32 for every text.
-/

namespace ScriptDepot

/-- The bytes of a unit, given from the lowest up, as they stand in a byte order. -/
def ByteOrder.arrange : ByteOrder → Bytes → Bytes
  | .little, bytes => bytes
  | .big, bytes => bytes.reverse

/-! ## UTF-16 -/

namespace Utf16

def unitBytes (order : ByteOrder) (n : Nat) : Bytes :=
  order.arrange [(n % 0x100).toUInt8, (n / 0x100).toUInt8]

def highHalf (c : CodePoint) : CodePoint := .ofNat (0xD800 + (c.val - 0x10000) / 0x400)

def lowHalf (c : CodePoint) : CodePoint := .ofNat (0xDC00 + (c.val - 0x10000) % 0x400)

/-- The units of a code point: itself, or its two halves when it is above U+FFFF. -/
def split (c : CodePoint) : Text := if c.val < 0x10000 then [c] else [highHalf c, lowHalf c]

def pointBytes (order : ByteOrder) (c : CodePoint) : Bytes :=
  (split c).flatMap fun u => unitBytes order u.val

variable {order : ByteOrder} {c : CodePoint}

theorem exists_unitBytes (order : ByteOrder) {n : Nat} (hn : n < 0x10000) :
    ∃ a b, unitBytes order n = [a, b] ∧ unit order a b = n := by
  have hlow : (n % 0x100).toUInt8.toNat = n % 0x100 := Utf8.toNat_toUInt8 (by omega)
  have hhigh : (n / 0x100).toUInt8.toNat = n / 0x100 := Utf8.toNat_toUInt8 (by omega)
  cases order with
  | little =>
    refine ⟨_, _, rfl, ?_⟩
    rw [unit, hlow, hhigh]
    omega
  | big =>
    refine ⟨_, _, rfl, ?_⟩
    rw [unit, hlow, hhigh]
    omega

theorem val_highHalf (c : CodePoint) :
    (highHalf c).val = 0xD800 + (c.val - 0x10000) / 0x400 := by
  have hc := c.isLt
  exact CodePoint.val_ofNat (by omega)

theorem val_lowHalf (c : CodePoint) : (lowHalf c).val = 0xDC00 + (c.val - 0x10000) % 0x400 := by
  have hc := c.isLt
  exact CodePoint.val_ofNat (by omega)

theorem lt_of_mem_split {u : CodePoint} (hu : u ∈ split c) : u.val < 0x10000 := by
  have hc := c.isLt
  have hhigh := val_highHalf c
  have hlow := val_lowHalf c
  unfold split at hu
  split at hu
  · rw [List.mem_singleton] at hu
    rwa [hu]
  · simp only [List.mem_cons, List.not_mem_nil, or_false] at hu
    rcases hu with h | h <;> rw [h] <;> omega

theorem units_flatMap (order : ByteOrder) {us : Text} (hus : ∀ u ∈ us, u.val < 0x10000)
    (position : Nat) :
    units order position (us.flatMap fun u => unitBytes order u.val) = .ok us := by
  induction us generalizing position with
  | nil => rfl
  | cons u rest ih =>
    rw [List.forall_mem_cons] at hus
    obtain ⟨a, b, hbytes, hunit⟩ := exists_unitBytes order hus.1
    rw [List.flatMap_cons, hbytes, List.cons_append, List.cons_append, List.nil_append, units,
      ih hus.2, hunit, CodePoint.ofNat_val]
    rfl

theorem joinPairs_cons (hc : c.isHigh = false) (rest : Text) :
    joinPairs (c :: rest) = c :: joinPairs rest := by
  cases rest with
  | nil => rfl
  | cons d tail => simp [joinPairs, hc]

theorem joinPairs_split_append (hc : c.isSurrogate = false) (rest : Text) :
    joinPairs (split c ++ rest) = c :: joinPairs rest := by
  have hbound := c.isLt
  unfold split
  by_cases hsmall : c.val < 0x10000
  · have hhigh : c.isHigh = false := by
      simp only [CodePoint.isSurrogate, CodePoint.isHigh, Bool.and_eq_false_iff,
        decide_eq_false_iff_not] at hc ⊢
      omega
    rw [if_pos hsmall]
    exact joinPairs_cons hhigh rest
  · have hhigh := val_highHalf c
    have hlow := val_lowHalf c
    have hpair : ((highHalf c).isHigh && (lowHalf c).isLow) = true := by
      simp only [CodePoint.isHigh, CodePoint.isLow, Bool.and_eq_true, decide_eq_true_eq]
      omega
    have hjoin : CodePoint.join (highHalf c) (lowHalf c) = c := by
      have hsum : 0x10000 + ((highHalf c).val - 0xD800) * 0x400 + ((lowHalf c).val - 0xDC00) =
          c.val := by omega
      rw [CodePoint.join, hsum, CodePoint.ofNat_val]
    rw [if_neg hsmall, List.cons_append, List.cons_append, List.nil_append, joinPairs,
      if_pos hpair, hjoin]

end Utf16

namespace Text

def utf16 (order : ByteOrder) (t : Text) : Bytes := t.flatMap (Utf16.pointBytes order)

end Text

namespace Utf16

theorem utf16_eq (order : ByteOrder) (t : Text) :
    t.utf16 order = (t.flatMap split).flatMap fun u => unitBytes order u.val := by
  rw [List.flatMap_assoc]
  rfl

theorem joinPairs_flatMap_split {t : Text} (ht : t.isScalar = true) :
    joinPairs (t.flatMap split) = t := by
  induction t with
  | nil => rfl
  | cons c rest ih =>
    simp only [Text.isScalar, List.all_cons, Bool.and_eq_true, Bool.not_eq_true'] at ht
    rw [List.flatMap_cons, joinPairs_split_append ht.1, ih ht.2]

theorem decode_utf16 (order : ByteOrder) (position : Nat) {t : Text} (ht : t.isScalar = true) :
    decode order position (t.utf16 order) = .ok t := by
  have hsmall : ∀ u ∈ t.flatMap split, u.val < 0x10000 := by
    intro u hu
    obtain ⟨c, -, hc⟩ := List.mem_flatMap.mp hu
    exact lt_of_mem_split hc
  rw [decode, utf16_eq, units_flatMap order hsmall]
  exact congrArg Except.ok (joinPairs_flatMap_split ht)

end Utf16

/-! ## UTF-32 -/

namespace Utf32

def pointBytes (order : ByteOrder) (c : CodePoint) : Bytes :=
  order.arrange
    [(c.val % 0x100).toUInt8, (c.val / 0x100 % 0x100).toUInt8, (c.val / 0x10000).toUInt8, 0]

theorem exists_pointBytes (order : ByteOrder) (point : CodePoint) :
    ∃ a b c d, pointBytes order point = [a, b, c, d] ∧ unit order a b c d = point.val := by
  have hpoint := point.isLt
  have hlow : (point.val % 0x100).toUInt8.toNat = point.val % 0x100 :=
    Utf8.toNat_toUInt8 (by omega)
  have hmiddle : (point.val / 0x100 % 0x100).toUInt8.toNat = point.val / 0x100 % 0x100 :=
    Utf8.toNat_toUInt8 (by omega)
  have hhigh : (point.val / 0x10000).toUInt8.toNat = point.val / 0x10000 :=
    Utf8.toNat_toUInt8 (by omega)
  have hzero : (0 : UInt8).toNat = 0 := rfl
  cases order with
  | little =>
    refine ⟨_, _, _, _, rfl, ?_⟩
    rw [unit, hlow, hmiddle, hhigh, hzero]
    omega
  | big =>
    refine ⟨_, _, _, _, rfl, ?_⟩
    rw [unit, hlow, hmiddle, hhigh, hzero]
    omega

end Utf32

namespace Text

def utf32 (order : ByteOrder) (t : Text) : Bytes := t.flatMap (Utf32.pointBytes order)

end Text

namespace Utf32

theorem decode_utf32 (order : ByteOrder) (position : Nat) (t : Text) :
    decode order position (t.utf32 order) = .ok t := by
  induction t generalizing position with
  | nil => rfl
  | cons point rest ih =>
    obtain ⟨a, b, c, d, hbytes, hunit⟩ := exists_pointBytes order point
    have hstep : Text.utf32 order (point :: rest) = a :: b :: c :: d :: Text.utf32 order rest := by
      rw [Text.utf32, List.flatMap_cons, hbytes]
      rfl
    rw [hstep, decode, hunit, if_pos point.isLt, ih, CodePoint.ofNat_val]
    rfl

end Utf32

end ScriptDepot
