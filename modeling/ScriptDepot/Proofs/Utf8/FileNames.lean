import Mathlib.Algebra.Group.Nat.Defs
import Mathlib.Data.List.Basic
import ScriptDepot.Proofs.Utf8.Strict
/-!
# File names keep their bytes

The text that a file name is read as stands for exactly the bytes of the name, whatever they are:
where they are UTF-8 it is their text, and every other byte is kept as one surrogate.  So no two
names are read as the same text, a name is read without surrogates exactly when it is UTF-8, and a
byte below 0x80 parts the text just as it parts the bytes.
-/

namespace ScriptDepot

namespace Utf8

/-! ## Spelling with continuation bytes -/

def tail : (count n : Nat) → Bytes
  | 0, _ => []
  | count + 1, n => tail count (n / 0x40) ++ [(0x80 + n % 0x40).toUInt8]

def leadMark : (count : Nat) → Nat
  | 1 => 0xC0
  | 2 => 0xE0
  | _ => 0xF0

/-- The numbers of the characters that are spelled with `count` continuation bytes. -/
def Spelled (count n : Nat) : Prop :=
  (count = 1 ∧ 0x80 ≤ n ∧ n < 0x800) ∨
    (count = 2 ∧ 0x800 ≤ n ∧ n < 0x10000 ∧ (n < 0xD800 ∨ 0xE000 ≤ n)) ∨
      (count = 3 ∧ 0x10000 ≤ n ∧ n < 0x110000)

theorem tail_step {count bits : Nat} {b : UInt8} (hlow : 0x80 ≤ b.toNat) (hhigh : b.toNat ≤ 0xBF) :
    tail (count + 1) (bits * 0x40 + (b.toNat - 0x80)) = tail count bits ++ [b] := by
  have hdiv : (bits * 0x40 + (b.toNat - 0x80)) / 0x40 = bits := by omega
  have hmod : 0x80 + (bits * 0x40 + (b.toNat - 0x80)) % 0x40 = b.toNat := by omega
  rw [tail, hdiv, hmod]
  simp

theorem le_of_mem_tail {count n : Nat} {b : UInt8} (h : b ∈ tail count n) : 0x80 ≤ b.toNat := by
  induction count generalizing n with
  | zero => cases h
  | succ count ih =>
    rw [tail, List.mem_append, List.mem_singleton] at h
    rcases h with h | rfl
    · exact ih h
    · rw [toNat_toUInt8 (by omega)]
      omega

theorem fileBytes_of_spelled {count n : Nat} (h : Spelled count n) :
    (CodePoint.ofNat n).fileBytes =
      (leadMark count + n / 0x40 ^ count).toUInt8 :: tail count n := by
  have hval : (CodePoint.ofNat n).val = n := by
    apply CodePoint.val_ofNat
    unfold Spelled at h
    omega
  have hescaped : (CodePoint.ofNat n).isEscapedByte = false := by
    rw [CodePoint.isEscapedByte, hval, Bool.and_eq_false_iff, decide_eq_false_iff_not,
      decide_eq_false_iff_not]
    unfold Spelled at h
    omega
  rw [CodePoint.fileBytes, hescaped, if_neg Bool.false_ne_true, encodePoint, hval]
  rcases h with ⟨rfl, hlow, hhigh⟩ | ⟨rfl, hlow, hhigh, -⟩ | ⟨rfl, hlow, -⟩
  · rw [if_neg (by omega), if_pos hhigh]
    rfl
  · rw [if_neg (by omega), if_neg (by omega), if_pos hhigh]
    rfl
  · rw [if_neg (by omega), if_neg (by omega), if_neg (by omega)]
    simp [tail, leadMark, Nat.div_div_eq_div_mul]

/-! ## Inside a character -/

namespace Pending

def bytes (p : Pending) : Bytes := p.lead :: p.seen.reverse

/-- The bytes read so far spell the bits read so far, and whatever the character can still come to
is spelled with as many bytes. -/
structure Spells (p : Pending) : Prop where
  lead : p.lead.toNat = leadMark (p.seen.length + p.left) + p.bits / 0x40 ^ p.seen.length
  seen : p.seen.reverse = tail p.seen.length p.bits
  low : 0x80 ≤ p.low
  high : p.high ≤ 0xBF
  left : 1 ≤ p.left
  range : ∀ n, (p.bits * 0x40 + (p.low - 0x80)) * 0x40 ^ (p.left - 1) ≤ n →
    n < (p.bits * 0x40 + (p.high - 0x80) + 1) * 0x40 ^ (p.left - 1) →
    Spelled (p.seen.length + p.left) n

namespace Spells

variable {p : Pending} {b : UInt8}

theorem bits_step (hlow : 0x80 ≤ b.toNat) (hhigh : b.toNat ≤ 0xBF) (bits count : Nat) :
    (bits * 0x40 + (b.toNat - 0x80)) / 0x40 ^ (count + 1) = bits / 0x40 ^ count := by
  have hdiv : (bits * 0x40 + (b.toNat - 0x80)) / 0x40 = bits := by omega
  rw [Nat.pow_succ', ← Nat.div_div_eq_div_mul, hdiv]

theorem last (h : p.Spells) (hleft : p.left ≤ 1) (hlow : p.low ≤ b.toNat)
    (hhigh : b.toNat ≤ p.high) :
    (CodePoint.ofNat (p.bits * 0x40 + (b.toNat - 0x80))).fileBytes = p.bytes ++ [b] := by
  have hone : p.left = 1 := Nat.le_antisymm hleft h.left
  have hb : 0x80 ≤ b.toNat ∧ b.toNat ≤ 0xBF := ⟨Nat.le_trans h.low hlow, Nat.le_trans hhigh h.high⟩
  have hrange := h.range
  rw [hone, Nat.sub_self, Nat.pow_zero, Nat.mul_one, Nat.mul_one] at hrange
  have hspelled := hrange (p.bits * 0x40 + (b.toNat - 0x80)) (by omega) (by omega)
  have hlead : (leadMark (p.seen.length + 1) +
      (p.bits * 0x40 + (b.toNat - 0x80)) / 0x40 ^ (p.seen.length + 1)).toUInt8 = p.lead := by
    rw [bits_step hb.1 hb.2, ← hone, ← h.lead]
    simp
  rw [fileBytes_of_spelled hspelled, hlead, tail_step hb.1 hb.2, ← h.seen]
  rfl

theorem more (h : p.Spells) (hleft : ¬ p.left ≤ 1) (hlow : p.low ≤ b.toNat)
    (hhigh : b.toNat ≤ p.high) :
    Spells { p with
      seen := b :: p.seen, bits := p.bits * 0x40 + (b.toNat - 0x80), left := p.left - 1,
      low := 0x80, high := 0xBF } := by
  have hb : 0x80 ≤ b.toNat ∧ b.toNat ≤ 0xBF := ⟨Nat.le_trans h.low hlow, Nat.le_trans hhigh h.high⟩
  have hcount : p.seen.length + 1 + (p.left - 1) = p.seen.length + p.left := by omega
  have hpow : 0x40 ^ (p.left - 1) = 0x40 * 0x40 ^ (p.left - 1 - 1) := by
    rw [← Nat.pow_succ', Nat.succ_eq_add_one, Nat.sub_add_cancel (by omega)]
  constructor
  case lead => rw [List.length_cons, hcount, bits_step hb.1 hb.2, h.lead]
  case seen => rw [List.reverse_cons, List.length_cons, tail_step hb.1 hb.2, h.seen]
  case low => exact Nat.le_refl _
  case high => exact Nat.le_refl _
  case left =>
    show 1 ≤ p.left - 1
    omega
  case range =>
    intro n hn hn'
    dsimp only at hn hn'
    rw [List.length_cons, hcount]
    refine h.range n (Nat.le_trans ?_ hn) (Nat.lt_of_lt_of_le hn' ?_)
    · rw [hpow, ← Nat.mul_assoc]
      apply Nat.mul_le_mul_right
      omega
    · rw [hpow, ← Nat.mul_assoc]
      apply Nat.mul_le_mul_right
      omega

theorem ofLead {start bits left low high : Nat} (hlead : b.toNat = leadMark left + bits)
    (hlow : 0x80 ≤ low) (hhigh : high ≤ 0xBF) (hleft : 1 ≤ left)
    (hrange : ∀ n, (bits * 0x40 + (low - 0x80)) * 0x40 ^ (left - 1) ≤ n →
      n < (bits * 0x40 + (high - 0x80) + 1) * 0x40 ^ (left - 1) → Spelled left n) :
    Spells ⟨start, b, [], bits, left, low, high⟩ where
  lead := by simpa using hlead
  seen := rfl
  low := hlow
  high := hhigh
  left := hleft
  range := by simpa using hrange

theorem le_of_mem (h : p.Spells) (hb : b ∈ p.bytes) : 0x80 ≤ b.toNat := by
  rcases List.mem_cons.mp hb with rfl | hb
  · have hmark : ∀ count, 0x80 ≤ leadMark count := by
      intro count
      unfold leadMark
      split <;> omega
    rw [h.lead]
    exact Nat.le_trans (hmark _) (Nat.le_add_right _ _)
  · rw [h.seen] at hb
    exact le_of_mem_tail hb

end Spells

end Pending

theorem fileBytes_escaped {b : UInt8} (hb : 0x80 ≤ b.toNat) :
    (CodePoint.ofNat (0xDC00 + b.toNat)).fileBytes = [b] := by
  have hbound := b.toNat_lt
  have hval : (CodePoint.ofNat (0xDC00 + b.toNat)).val = 0xDC00 + b.toNat :=
    CodePoint.val_ofNat (by omega)
  have hescaped : (CodePoint.ofNat (0xDC00 + b.toNat)).isEscapedByte = true := by
    rw [CodePoint.isEscapedByte, hval, Bool.and_eq_true, decide_eq_true_eq, decide_eq_true_eq]
    omega
  rw [CodePoint.fileBytes, if_pos hescaped, hval, Nat.add_sub_cancel_left]
  simp

theorem fileBytes_ascii {b : UInt8} (hb : b.toNat < 0x80) :
    (CodePoint.ofNat b.toNat).fileBytes = [b] := by
  have hval : (CodePoint.ofNat b.toNat).val = b.toNat := CodePoint.val_ofNat (by omega)
  rw [CodePoint.fileBytes_of_lt (by omega), hval]
  simp

theorem Pending.Spells.escaped {p : Pending} (h : p.Spells) :
    p.escaped.reverse.flatMap CodePoint.fileBytes = p.bytes := by
  have hreverse : p.escaped.reverse =
      p.bytes.map fun b => CodePoint.ofNat (0xDC00 + b.toNat) := by
    simp [Pending.escaped, Pending.bytes]
  have hsingle : ∀ b ∈ p.bytes,
      (CodePoint.ofNat (0xDC00 + b.toNat)).fileBytes = [b] := fun b hb =>
    fileBytes_escaped (h.le_of_mem hb)
  rw [hreverse, List.flatMap_map]
  rw [List.flatMap_congr hsingle, List.flatMap_singleton']

/-! ## Between two bytes -/

namespace State

variable {policy : Policy} {s next : State} {b : UInt8} {read : Bytes}

def push (s : State) (c : CodePoint) : State :=
  { s with done := c :: s.done, position := s.position + 1 }

theorem lead_cases (hpolicy : policy ≠ .surrogates) (h : s.lead policy b = .ok next) :
    (b.toNat < 0x80 ∧ next = s.push (CodePoint.ofNat b.toNat)) ∨
      (∃ p : Pending, p.Spells ∧ p.bytes = [b] ∧
        next = { s with position := s.position + 1, pending := some p }) ∨
      (0x80 ≤ b.toNat ∧ next = s.push (CodePoint.ofNat (0xDC00 + b.toNat))) := by
  unfold State.lead at h
  simp only [hpolicy, if_false] at h
  obtain ⟨hb, h⟩ | ⟨hb, h⟩ := ite_eq_iff.mp h
  · exact .inl ⟨hb, (Except.ok.inj h).symm⟩
  refine .inr ?_
  -- The lead bytes differ in what the first byte behind them may be.
  iterate 7
    obtain ⟨hb, h⟩ | ⟨hb, h⟩ := ite_eq_iff.mp h
    · refine .inl ⟨_, .ofLead ?_ (by omega) (by omega) (by omega) ?_, rfl, (Except.ok.inj h).symm⟩
      · simp only [leadMark]
        omega
      · intro n hn hn'
        simp only [Nat.reduceSub, Nat.reducePow] at hn hn'
        unfold Spelled
        omega
  obtain ⟨-, h⟩ | ⟨-, h⟩ := ite_eq_iff.mp h
  · exact .inr ⟨by omega, (Except.ok.inj h).symm⟩
  · cases h

/-- The text read so far, last first, with the bytes of an unfinished character kept as
surrogates. -/
def flushed (s : State) : Text :=
  match s.pending with
  | none => s.done
  | some p => p.escaped ++ s.done

def cleared (s : State) : State := { s with done := s.flushed, pending := none }

/-- A byte completes the unfinished character, continues it, or is read between two characters. -/
theorem step_cases (h : s.step policy b = .ok next) :
    (∃ p, s.pending = some p ∧ p.low ≤ b.toNat ∧ b.toNat ≤ p.high ∧
        ((p.left ≤ 1 ∧ next = ⟨CodePoint.ofNat (p.bits * 0x40 + (b.toNat - 0x80)) :: s.done,
            s.position + 1, none⟩) ∨
          (¬ p.left ≤ 1 ∧ next = { s with
            position := s.position + 1
            pending := some { p with
              seen := b :: p.seen, bits := p.bits * 0x40 + (b.toNat - 0x80), left := p.left - 1,
              low := 0x80, high := 0xBF } }))) ∨
      s.cleared.lead policy b = .ok next := by
  obtain ⟨done, position, pending⟩ := s
  cases pending with
  | none => exact .inr h
  | some p =>
    simp only [State.step] at h
    split at h
    · rename_i hb
      refine .inl ⟨p, rfl, hb.1, hb.2, ?_⟩
      split at h
      · exact .inl ⟨by assumption, (Except.ok.inj h).symm⟩
      · exact .inr ⟨by assumption, (Except.ok.inj h).symm⟩
    · split at h
      · exact .inr h
      · cases h

/-- The reader has read these bytes: those of its text, and those of an unfinished character. -/
def Holds (s : State) (read : Bytes) : Prop :=
  match s.pending with
  | none => s.done.reverse.flatMap CodePoint.fileBytes = read
  | some p => p.Spells ∧ s.done.reverse.flatMap CodePoint.fileBytes ++ p.bytes = read

theorem Holds.flushed (h : s.Holds read) :
    s.flushed.reverse.flatMap CodePoint.fileBytes = read := by
  unfold Holds at h
  unfold State.flushed
  split at h
  · exact h
  · rw [List.reverse_append, List.flatMap_append, h.1.escaped, h.2]

theorem Holds.spells (h : s.Holds read) {p : Pending} (hp : s.pending = some p) :
    p.Spells ∧ s.done.reverse.flatMap CodePoint.fileBytes ++ p.bytes = read := by
  unfold Holds at h
  rw [hp] at h
  exact h

theorem holds_cons {done : Text} {c : CodePoint} {position : Nat} {bytes : Bytes}
    (hc : c.fileBytes = bytes) (hdone : done.reverse.flatMap CodePoint.fileBytes = read) :
    Holds ⟨c :: done, position, none⟩ (read ++ bytes) := by
  show (c :: done).reverse.flatMap CodePoint.fileBytes = read ++ bytes
  rw [List.reverse_cons, List.flatMap_append, List.flatMap_singleton, hc, hdone]

theorem Holds.lead (hpolicy : policy ≠ .surrogates) (h : s.Holds read)
    (hlead : s.cleared.lead policy b = .ok next) : next.Holds (read ++ [b]) := by
  rcases lead_cases hpolicy hlead with ⟨hb, rfl⟩ | ⟨p, hp, hbytes, rfl⟩ | ⟨hb, rfl⟩
  · exact holds_cons (fileBytes_ascii hb) h.flushed
  · refine ⟨hp, ?_⟩
    rw [hbytes]
    exact congrArg (· ++ [b]) h.flushed
  · exact holds_cons (fileBytes_escaped hb) h.flushed

theorem Holds.step (hpolicy : policy ≠ .surrogates) (h : s.Holds read)
    (hstep : s.step policy b = .ok next) : next.Holds (read ++ [b]) := by
  rcases step_cases hstep with ⟨p, hp, hlow, hhigh, hnext⟩ | hlead
  · obtain ⟨hspells, hread⟩ := h.spells hp
    rw [← hread, List.append_assoc]
    rcases hnext with ⟨hleft, rfl⟩ | ⟨hleft, rfl⟩
    · exact holds_cons (hspells.last hleft hlow hhigh) rfl
    · refine ⟨hspells.more hleft hlow hhigh, ?_⟩
      simp [Pending.bytes]
  · exact h.lead hpolicy hlead

theorem Holds.run (hpolicy : policy ≠ .surrogates) {bytes : Bytes} (h : s.Holds read)
    (hrun : bytes.foldlM (State.step policy) s = .ok next) : next.Holds (read ++ bytes) := by
  induction bytes generalizing s read with
  | nil =>
    cases hrun
    rwa [List.append_nil]
  | cons b rest ih =>
    obtain ⟨middle, hstep, hrest⟩ := bind_eq_ok.mp hrun
    rw [List.append_cons]
    exact ih (h.step hpolicy hstep) hrest

theorem holds_start : start.Holds [] := rfl

/-! ## File names -/

theorem exists_step_escape (s : State) (b : UInt8) : ∃ next, s.step .escape b = .ok next := by
  have hlead : ∀ s : State, ∃ next, s.lead .escape b = .ok next := by
    intro s
    cases hlead : s.lead .escape b with
    | ok next => exact ⟨next, rfl⟩
    | error fault =>
      unfold State.lead at hlead
      iterate 8
        obtain ⟨-, hlead⟩ | ⟨-, hlead⟩ := ite_eq_iff.mp hlead
        · cases hlead
      simp at hlead
  unfold State.step
  simp only [if_true]
  split
  · exact hlead s
  · split
    · split <;> exact ⟨_, rfl⟩
    · exact hlead _

theorem exists_run_escape (s : State) (bytes : Bytes) :
    ∃ next, bytes.foldlM (State.step .escape) s = .ok next := by
  induction bytes generalizing s with
  | nil => exact ⟨s, rfl⟩
  | cons b rest ih =>
    obtain ⟨middle, hstep⟩ := s.exists_step_escape b
    obtain ⟨next, hrest⟩ := ih middle
    exact ⟨next, bind_eq_ok.mpr ⟨middle, hstep, hrest⟩⟩

theorem finish_escape (s : State) : s.finish .escape = .ok s.flushed.reverse := by
  obtain ⟨done, position, pending⟩ := s
  cases pending <;> rfl

theorem eq_of_finish {t : Text} (h : s.finish policy = .ok t) : t = s.flushed.reverse := by
  obtain ⟨done, position, pending⟩ := s
  cases pending with
  | none => exact (Except.ok.inj h).symm
  | some p =>
    simp only [State.finish] at h
    split at h
    · exact (Except.ok.inj h).symm
    · cases h

theorem Holds.step_ascii (h : s.Holds read) (hb : b.toNat < 0x80) :
    s.step .escape b = .ok (s.cleared.push (CodePoint.ofNat b.toNat)) := by
  obtain ⟨next, hstep⟩ := s.exists_step_escape b
  rcases step_cases hstep with ⟨p, hp, hlow, -⟩ | hlead
  · have := (h.spells hp).1.low
    omega
  · rw [hstep]
    rcases lead_cases (by decide) hlead with ⟨-, rfl⟩ | ⟨p, hp, hbytes, -⟩ | ⟨hlarge, -⟩
    · rfl
    · have := hp.le_of_mem (hbytes ▸ List.mem_singleton_self b)
      omega
    · omega

theorem done_suffix_flushed (s : State) : s.done <:+ s.flushed := by
  unfold State.flushed
  split
  · exact List.suffix_rfl
  · exact List.suffix_append _ _

theorem done_suffix_step (hpolicy : policy ≠ .surrogates) (hstep : s.step policy b = .ok next) :
    s.done <:+ next.done := by
  rcases step_cases hstep with ⟨p, -, -, -, ⟨-, rfl⟩ | ⟨-, rfl⟩⟩ | hlead
  · exact List.suffix_cons _ _
  · exact List.suffix_rfl
  · refine s.done_suffix_flushed.trans ?_
    rcases lead_cases hpolicy hlead with ⟨-, rfl⟩ | ⟨p, -, -, rfl⟩ | ⟨-, rfl⟩
    · exact List.suffix_cons _ _
    · exact List.suffix_rfl
    · exact List.suffix_cons _ _

theorem done_suffix_run (hpolicy : policy ≠ .surrogates) {bytes : Bytes}
    (hrun : bytes.foldlM (State.step policy) s = .ok next) : s.done <:+ next.done := by
  induction bytes generalizing s with
  | nil =>
    cases hrun
    exact List.suffix_rfl
  | cons b rest ih =>
    obtain ⟨middle, hstep, hrest⟩ := bind_eq_ok.mp hrun
    exact (done_suffix_step hpolicy hstep).trans (ih hrest)

end State

theorem fileBytes_of_decode {policy : Policy} (hpolicy : policy ≠ .surrogates) {bytes : Bytes}
    {t : Text} (h : decode policy bytes = .ok t) : t.flatMap CodePoint.fileBytes = bytes := by
  obtain ⟨last, hrun, hfinish⟩ := bind_eq_ok.mp h
  have hholds := State.holds_start.run hpolicy hrun
  rw [State.eq_of_finish hfinish, hholds.flushed, List.nil_append]

theorem decode_strict_eq_ok {bytes : Bytes} {t : Text} :
    decode .strict bytes = .ok t ↔ t.isScalar = true ∧ t.utf8 = bytes := by
  constructor
  · intro h
    have hscalar := isScalar_of_decode h
    exact ⟨hscalar, by rw [← Text.flatMap_fileBytes hscalar, fileBytes_of_decode (by decide) h]⟩
  · rintro ⟨hscalar, rfl⟩
    exact decode_utf8 .strict hscalar

end Utf8

namespace Text

variable {bytes : Bytes}

theorem ofFileBytes_of_run {last : Utf8.State}
    (h : bytes.foldlM (Utf8.State.step .escape) .start = .ok last) :
    ofFileBytes bytes = last.flushed.reverse := by
  have hdecode : Utf8.decode .escape bytes = .ok last.flushed.reverse :=
    bind_eq_ok.mpr ⟨last, h, last.finish_escape⟩
  rw [ofFileBytes, hdecode]

theorem flatMap_ofFileBytes (bytes : Bytes) :
    (ofFileBytes bytes).flatMap CodePoint.fileBytes = bytes := by
  obtain ⟨last, hrun⟩ := Utf8.State.start.exists_run_escape bytes
  rw [ofFileBytes_of_run hrun, (Utf8.State.holds_start.run (by decide) hrun).flushed,
    List.nil_append]

/-- A file name has a text without surrogates exactly when it is the UTF-8 of that text. -/
theorem ofFileBytes_eq_iff {t : Text} (ht : t.isScalar = true) :
    ofFileBytes bytes = t ↔ bytes = t.utf8 := by
  constructor
  · rintro rfl
    rw [← flatMap_fileBytes ht, flatMap_ofFileBytes]
  · rintro rfl
    exact ofFileBytes_utf8 ht

theorem flatMap_append_dot (s t : Text) :
    (s ++ "." ++ t).flatMap CodePoint.fileBytes =
      s.flatMap CodePoint.fileBytes ++ 0x2E :: t.flatMap CodePoint.fileBytes := by
  rw [List.flatMap_append, List.flatMap_append, List.append_assoc]
  rfl

/-- At a dot the text of a file name parts where its bytes part. -/
theorem ofFileBytes_append_dot (before suffix : Bytes) :
    ∃ rest : Text, ofFileBytes (before ++ 0x2E :: suffix) = ofFileBytes before ++ "." ++ rest ∧
      rest.flatMap CodePoint.fileBytes = suffix := by
  obtain ⟨middle, hbefore⟩ := Utf8.State.start.exists_run_escape before
  have hdot := (Utf8.State.holds_start.run (by decide) hbefore).step_ascii (b := 0x2E) (by decide)
  obtain ⟨last, hsuffix⟩ := (middle.cleared.push ('.' : CodePoint)).exists_run_escape suffix
  have hrun : (before ++ 0x2E :: suffix).foldlM (Utf8.State.step .escape) .start = .ok last := by
    rw [List.foldlM_append]
    exact bind_eq_ok.mpr ⟨middle, hbefore, bind_eq_ok.mpr ⟨_, hdot, hsuffix⟩⟩
  -- What was read up to the dot is still there at the end.
  obtain ⟨rest, hrest⟩ : ('.' : CodePoint) :: middle.flushed <:+ last.flushed :=
    (Utf8.State.done_suffix_run (by decide) hsuffix).trans last.done_suffix_flushed
  have hsplit : ofFileBytes (before ++ 0x2E :: suffix) =
      ofFileBytes before ++ "." ++ rest.reverse := by
    rw [ofFileBytes_of_run hrun, ofFileBytes_of_run hbefore, ← hrest]
    simp [ofString]
  refine ⟨rest.reverse, hsplit, ?_⟩
  have hbytes := flatMap_ofFileBytes (before ++ 0x2E :: suffix)
  rw [hsplit, flatMap_append_dot, flatMap_ofFileBytes] at hbytes
  exact (List.cons.inj (List.append_cancel_left hbytes)).2

end Text

end ScriptDepot
