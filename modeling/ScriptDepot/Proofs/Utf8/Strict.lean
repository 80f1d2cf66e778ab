import ScriptDepot.Failure
import ScriptDepot.Proofs.Utf8
/-!
# What is read strictly has no surrogates

While a character is being read, the numbers that it can still come to form one range.  Under the
strict policy that range lies below the surrogates or above them from the lead byte on, and every
further byte narrows it.
-/

namespace ScriptDepot

theorem CodePoint.isSurrogate_ofNat {n : Nat} (h : n < 0xD800 ∨ 0xE000 ≤ n) :
    (CodePoint.ofNat n).isSurrogate = false := by
  unfold CodePoint.ofNat
  split
  · simp only [CodePoint.isSurrogate, Bool.and_eq_false_iff, decide_eq_false_iff_not]
    omega
  · decide

namespace Utf8

/-- All that a character can still come to lies below the surrogates, or above them. -/
def Clear (bits left low high : Nat) : Prop :=
  0x80 ≤ low ∧
    ((bits * 0x40 + (high - 0x80) + 1) * Nat.pow 0x40 (left - 1) ≤ 0xD800 ∨
      0xE000 ≤ (bits * 0x40 + (low - 0x80)) * Nat.pow 0x40 (left - 1))

variable {bits left low high n : Nat}

theorem Clear.last (h : Clear bits left low high) (hleft : left ≤ 1) (hlow : low ≤ n)
    (hhigh : n ≤ high) :
    bits * 0x40 + (n - 0x80) < 0xD800 ∨ 0xE000 ≤ bits * 0x40 + (n - 0x80) := by
  obtain ⟨-, hrange⟩ := h
  have hone : Nat.pow 0x40 (left - 1) = 1 := by
    rw [Nat.sub_eq_zero_of_le hleft]
  rw [hone] at hrange
  omega

theorem Clear.more (h : Clear bits left low high) (hleft : ¬ left ≤ 1) (hlow : low ≤ n)
    (hhigh : n ≤ high) : Clear (bits * 0x40 + (n - 0x80)) (left - 1) 0x80 0xBF := by
  obtain ⟨-, hrange⟩ := h
  obtain ⟨k, rfl⟩ : ∃ k, left = k + 2 := ⟨left - 2, by omega⟩
  have hpow : Nat.pow 0x40 (k + 2 - 1) = 0x40 * Nat.pow 0x40 k := Nat.mul_comm _ _
  have hsub : k + 2 - 1 - 1 = k := by omega
  rw [hpow, ← Nat.mul_assoc, ← Nat.mul_assoc] at hrange
  refine ⟨Nat.le_refl _, ?_⟩
  rw [hsub]
  rcases hrange with hbelow | habove
  · left
    refine Nat.le_trans (Nat.mul_le_mul_right _ ?_) hbelow
    omega
  · right
    refine Nat.le_trans habove (Nat.mul_le_mul_right _ ?_)
    omega

namespace State

variable {s next : State} {b : UInt8}

def Clear (s : State) : Prop :=
  s.done.isScalar = true ∧ ∀ p, s.pending = some p → Utf8.Clear p.bits p.left p.low p.high

theorem Clear.read (h : s.Clear) {n : Nat} (hn : n < 0xD800 ∨ 0xE000 ≤ n) (position : Nat) :
    Clear ⟨CodePoint.ofNat n :: s.done, position, none⟩ := by
  refine ⟨?_, fun p hp => nomatch hp⟩
  have hdone := h.1
  simp only [Text.isScalar, List.all_cons, Bool.and_eq_true, Bool.not_eq_true'] at hdone ⊢
  exact ⟨CodePoint.isSurrogate_ofNat hn, hdone⟩

theorem Clear.await (h : s.Clear) (hclear : Utf8.Clear bits left low high) :
    (s.await b bits left low high).Clear := by
  refine ⟨h.1, ?_⟩
  intro p hp
  cases hp
  exact hclear

theorem Clear.lead (h : s.Clear) (hpending : s.pending = none)
    (hlead : s.lead .strict b = .ok next) : next.Clear := by
  unfold State.lead at hlead
  simp only [reduceCtorEq, if_false] at hlead
  split at hlead
  · cases hlead
    rw [hpending]
    exact h.read (.inl (by omega)) _
  -- Each lead byte of a longer character leaves a range open on one side of the surrogates.
  repeat' split at hlead
  all_goals cases hlead
  all_goals exact h.await ⟨by omega, by simp only [Nat.pow_eq]; omega⟩

theorem Clear.step (h : s.Clear) (hstep : s.step .strict b = .ok next) : next.Clear := by
  unfold State.step at hstep
  split at hstep
  · exact h.lead ‹_› hstep
  · rename_i p hpending
    have hclear := h.2 p hpending
    split at hstep
    · rename_i hb
      dsimp only at hstep
      split at hstep
      · cases hstep
        exact h.read (hclear.last ‹_› hb.1 hb.2) _
      · cases hstep
        refine ⟨h.1, ?_⟩
        intro q hq
        cases hq
        exact hclear.more ‹_› hb.1 hb.2
    · cases hstep

theorem Clear.run {bytes : Bytes} (h : s.Clear)
    (hrun : bytes.foldlM (State.step .strict) s = .ok next) : next.Clear := by
  induction bytes generalizing s with
  | nil =>
    cases hrun
    exact h
  | cons b rest ih =>
    obtain ⟨middle, hstep, hrest⟩ := bind_eq_ok.mp hrun
    exact ih (h.step hstep) hrest

end State

theorem isScalar_of_decode {bytes : Bytes} {t : Text} (h : decode .strict bytes = .ok t) :
    t.isScalar = true := by
  obtain ⟨last, hrun, hfinish⟩ := bind_eq_ok.mp h
  have hstart : State.start.Clear := ⟨rfl, fun p hp => nomatch hp⟩
  have hlast := hstart.run hrun
  unfold State.finish at hfinish
  split at hfinish
  · cases hfinish
    simpa [Text.isScalar] using hlast.1
  · cases hfinish

end Utf8

end ScriptDepot
