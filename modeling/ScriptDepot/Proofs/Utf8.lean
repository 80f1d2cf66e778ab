import ScriptDepot.Encoding.Utf8
/-!
# Texts and their bytes

A text without surrogates is read back from its UTF-8 bytes, whatever is done about bytes that are
not UTF-8, so no two such texts share their bytes.  No other text can be encoded.  A byte below 0x80
stands for the code point of that number and for no part of another.
-/

namespace ScriptDepot

namespace Utf8

theorem toNat_toUInt8 {n : Nat} (h : n < 256) : n.toUInt8.toNat = n := by
  simp only [Nat.toUInt8, UInt8.toNat_ofNat']
  omega

namespace State

variable {policy : Policy} {s : State} {p : Pending} {b : UInt8}

/-! ## One byte -/

theorem step_last (hpending : s.pending = some p) (hleft : p.left = 1) (hlow : p.low ≤ b.toNat)
    (hhigh : b.toNat ≤ p.high) :
    s.step policy b =
      .ok ⟨CodePoint.ofNat (p.bits * 0x40 + (b.toNat - 0x80)) :: s.done, s.position + 1, none⟩ := by
  unfold step
  rw [hpending]
  simp only [hlow, hhigh, and_self, if_true, hleft, Nat.le_refl]

theorem step_more (hpending : s.pending = some p) (hleft : 1 < p.left) (hlow : p.low ≤ b.toNat)
    (hhigh : b.toNat ≤ p.high) :
    s.step policy b =
      .ok { s with
        position := s.position + 1
        pending := some { p with
          seen := b :: p.seen, bits := p.bits * 0x40 + (b.toNat - 0x80), left := p.left - 1,
          low := 0x80, high := 0xBF } } := by
  unfold step
  rw [hpending]
  have hmore : ¬ p.left ≤ 1 := by omega
  simp only [hlow, hhigh, and_self, if_true, hmore, if_false]

theorem step_ascii (hpending : s.pending = none) (hb : b.toNat < 0x80) :
    s.step policy b =
      .ok { s with done := CodePoint.ofNat b.toNat :: s.done, position := s.position + 1 } := by
  unfold step lead
  rw [hpending]
  simp only [hb, if_true]

theorem step_leadTwo (hpending : s.pending = none) (hlow : 0xC2 ≤ b.toNat)
    (hhigh : b.toNat < 0xE0) :
    s.step policy b = .ok (s.await b (b.toNat - 0xC0) 1 0x80 0xBF) := by
  unfold step lead
  rw [hpending]
  dsimp only
  rw [if_neg (by omega), if_pos ⟨hlow, hhigh⟩]

variable (policy) in
/-- The first byte behind the lead of three is bounded so that nothing shorter and no surrogate is
spelled. -/
theorem step_leadThree (hpending : s.pending = none) (hlow : 0xE0 ≤ b.toNat)
    (hhigh : b.toNat < 0xF0) :
    ∃ low high, s.step policy b = .ok (s.await b (b.toNat - 0xE0) 2 low high) ∧
      (low = 0x80 ∨ (low = 0xA0 ∧ b.toNat = 0xE0)) ∧
      (high = 0xBF ∨ (high = 0x9F ∧ b.toNat = 0xED)) := by
  unfold step lead
  rw [hpending]
  dsimp only
  rw [if_neg (by omega), if_neg (by omega)]
  by_cases hfirst : b.toNat = 0xE0
  · rw [if_pos hfirst]
    exact ⟨0xA0, 0xBF, by rw [hfirst], .inr ⟨rfl, hfirst⟩, .inl rfl⟩
  · rw [if_neg hfirst]
    by_cases hsurrogate : b.toNat = 0xED
    · rw [if_pos hsurrogate]
      refine ⟨0x80, _, by rw [hsurrogate], .inl rfl, ?_⟩
      split
      · exact .inl rfl
      · exact .inr ⟨rfl, hsurrogate⟩
    · rw [if_neg hsurrogate, if_pos ⟨hlow, hhigh⟩]
      exact ⟨0x80, 0xBF, rfl, .inl rfl, .inl rfl⟩

variable (policy) in
theorem step_leadFour (hpending : s.pending = none) (hlow : 0xF0 ≤ b.toNat)
    (hhigh : b.toNat ≤ 0xF4) :
    ∃ low high, s.step policy b = .ok (s.await b (b.toNat - 0xF0) 3 low high) ∧
      (low = 0x80 ∨ (low = 0x90 ∧ b.toNat = 0xF0)) ∧
      (high = 0xBF ∨ (high = 0x8F ∧ b.toNat = 0xF4)) := by
  unfold step lead
  rw [hpending]
  dsimp only
  rw [if_neg (by omega), if_neg (by omega), if_neg (by omega), if_neg (by omega),
    if_neg (by omega)]
  by_cases hfirst : b.toNat = 0xF0
  · rw [if_pos hfirst]
    exact ⟨0x90, 0xBF, by rw [hfirst], .inr ⟨rfl, hfirst⟩, .inl rfl⟩
  · rw [if_neg hfirst]
    by_cases hlast : b.toNat = 0xF4
    · rw [if_pos hlast]
      exact ⟨0x80, 0x8F, by rw [hlast], .inl rfl, .inr ⟨rfl, hlast⟩⟩
    · rw [if_neg hlast, if_pos ⟨hlow, by omega⟩]
      exact ⟨0x80, 0xBF, rfl, .inl rfl, .inl rfl⟩

/-! ## One code point -/

def between (done : Text) (position : Nat) : State := ⟨done, position, none⟩

theorem foldlM_cons_ok {next : State} (rest : Bytes) (h : s.step policy b = .ok next) :
    (b :: rest).foldlM (step policy) s = rest.foldlM (step policy) next := by
  rw [List.foldlM_cons, h]
  rfl

variable {c : CodePoint} {first second third fourth : UInt8}

theorem foldlM_one (done : Text) (position : Nat) (hfirst : first.toNat = c.val)
    (hc : c.val < 0x80) :
    [first].foldlM (step policy) (between done position) =
      .ok (between (c :: done) (position + 1)) := by
  rw [foldlM_cons_ok _ (step_ascii rfl (by omega)), hfirst, CodePoint.ofNat_val]
  rfl

theorem foldlM_two (done : Text) (position : Nat) (hfirst : first.toNat = 0xC0 + c.val / 0x40)
    (hsecond : second.toNat = 0x80 + c.val % 0x40) (hlow : 0x80 ≤ c.val) (hhigh : c.val < 0x800) :
    [first, second].foldlM (step policy) (between done position) =
      .ok (between (c :: done) (position + 2)) := by
  have hvalue : (first.toNat - 0xC0) * 0x40 + (second.toNat - 0x80) = c.val := by omega
  rw [foldlM_cons_ok _ (step_leadTwo rfl (by omega) (by omega)),
    foldlM_cons_ok _ (step_last rfl rfl (by dsimp only; omega) (by dsimp only; omega))]
  simp only [await, hvalue, CodePoint.ofNat_val]
  rfl

theorem foldlM_three (done : Text) (position : Nat)
    (hfirst : first.toNat = 0xE0 + c.val / 0x1000)
    (hsecond : second.toNat = 0x80 + c.val / 0x40 % 0x40)
    (hthird : third.toNat = 0x80 + c.val % 0x40) (hlow : 0x800 ≤ c.val) (hhigh : c.val < 0x10000)
    (hscalar : c.val < 0xD800 ∨ 0xE000 ≤ c.val) :
    [first, second, third].foldlM (step policy) (between done position) =
      .ok (between (c :: done) (position + 3)) := by
  have hvalue : ((first.toNat - 0xE0) * 0x40 + (second.toNat - 0x80)) * 0x40 +
      (third.toNat - 0x80) = c.val := by omega
  obtain ⟨low, high, hlead, hbelow, habove⟩ :=
    step_leadThree policy (s := between done position) (b := first) rfl (by omega) (by omega)
  rw [foldlM_cons_ok _ hlead,
    foldlM_cons_ok _ (step_more rfl (by dsimp only; omega) (by dsimp only; omega)
      (by dsimp only; omega)),
    foldlM_cons_ok _ (step_last rfl rfl (by dsimp only; omega) (by dsimp only; omega))]
  simp only [await, hvalue, CodePoint.ofNat_val]
  rfl

theorem foldlM_four (done : Text) (position : Nat)
    (hfirst : first.toNat = 0xF0 + c.val / 0x40000)
    (hsecond : second.toNat = 0x80 + c.val / 0x1000 % 0x40)
    (hthird : third.toNat = 0x80 + c.val / 0x40 % 0x40)
    (hfourth : fourth.toNat = 0x80 + c.val % 0x40) (hlow : 0x10000 ≤ c.val) :
    [first, second, third, fourth].foldlM (step policy) (between done position) =
      .ok (between (c :: done) (position + 4)) := by
  have hbound := c.isLt
  have hvalue : (((first.toNat - 0xF0) * 0x40 + (second.toNat - 0x80)) * 0x40 +
      (third.toNat - 0x80)) * 0x40 + (fourth.toNat - 0x80) = c.val := by omega
  obtain ⟨low, high, hlead, hbelow, habove⟩ :=
    step_leadFour policy (s := between done position) (b := first) rfl (by omega) (by omega)
  rw [foldlM_cons_ok _ hlead,
    foldlM_cons_ok _ (step_more rfl (by dsimp only; omega) (by dsimp only; omega)
      (by dsimp only; omega)),
    foldlM_cons_ok _ (step_more rfl (by dsimp only; omega) (by dsimp only; omega)
      (by dsimp only; omega)),
    foldlM_cons_ok _ (step_last rfl rfl (by dsimp only; omega) (by dsimp only; omega))]
  simp only [await, hvalue, CodePoint.ofNat_val]
  rfl

theorem foldlM_encodePoint (policy : Policy) (hc : c.isSurrogate = false) (done : Text)
    (position : Nat) :
    ∃ next, (encodePoint c).foldlM (step policy) (between done position) =
      .ok (between (c :: done) next) := by
  have hscalar : c.val < 0xD800 ∨ 0xE000 ≤ c.val := by
    simp only [CodePoint.isSurrogate, Bool.and_eq_false_iff, decide_eq_false_iff_not] at hc
    omega
  have hbound := c.isLt
  have htail : (0x80 + c.val % 0x40).toUInt8.toNat = 0x80 + c.val % 0x40 :=
    toNat_toUInt8 (by omega)
  have hmiddle : (0x80 + c.val / 0x40 % 0x40).toUInt8.toNat = 0x80 + c.val / 0x40 % 0x40 :=
    toNat_toUInt8 (by omega)
  unfold encodePoint
  dsimp only
  by_cases hone : c.val < 0x80
  · rw [if_pos hone]
    exact ⟨_, foldlM_one done position (toNat_toUInt8 (by omega)) hone⟩
  rw [if_neg hone]
  by_cases htwo : c.val < 0x800
  · rw [if_pos htwo]
    exact ⟨_, foldlM_two done position (toNat_toUInt8 (by omega)) htail (by omega) htwo⟩
  rw [if_neg htwo]
  by_cases hthree : c.val < 0x10000
  · rw [if_pos hthree]
    exact ⟨_, foldlM_three done position (toNat_toUInt8 (by omega)) hmiddle htail (by omega) hthree
      hscalar⟩
  · rw [if_neg hthree]
    exact ⟨_, foldlM_four done position (toNat_toUInt8 (by omega)) (toNat_toUInt8 (by omega))
      hmiddle htail (by omega)⟩

theorem foldlM_utf8 (policy : Policy) {t : Text} (ht : t.isScalar = true) (done : Text)
    (position : Nat) :
    ∃ next, t.utf8.foldlM (step policy) (between done position) =
      .ok (between (t.reverse ++ done) next) := by
  induction t generalizing done position with
  | nil => exact ⟨position, rfl⟩
  | cons c rest ih =>
    simp only [Text.isScalar, List.all_cons, Bool.and_eq_true, Bool.not_eq_true'] at ht
    obtain ⟨middle, hc⟩ := foldlM_encodePoint policy ht.1 done position
    obtain ⟨next, hrest⟩ := ih ht.2 (c :: done) middle
    refine ⟨next, ?_⟩
    have happend : Text.utf8 (c :: rest) = encodePoint c ++ Text.utf8 rest := rfl
    have hreverse : (c :: rest).reverse ++ done = rest.reverse ++ c :: done := by simp
    rw [happend, List.foldlM_append, hc, hreverse]
    exact hrest

end State

/-- A text without surrogates is read back from its bytes under every policy. -/
theorem decode_utf8 (policy : Policy) {t : Text} (ht : t.isScalar = true) :
    decode policy t.utf8 = .ok t := by
  obtain ⟨next, h⟩ := State.foldlM_utf8 policy ht [] 0
  have hread : t.utf8.foldlM (State.step policy) State.start =
      .ok (State.between (t.reverse ++ []) next) := h
  unfold decode
  rw [hread, List.append_nil]
  have hfinish : State.finish policy (State.between t.reverse next) = .ok t.reverse.reverse := rfl
  rw [List.reverse_reverse] at hfinish
  exact hfinish

theorem eq_of_mem_encodePoint {c : CodePoint} {b : UInt8} (hmem : b ∈ encodePoint c)
    (hb : b.toNat < 0x80) : c.val = b.toNat := by
  have hbound := c.isLt
  have hlarge : ∀ n, 0x80 ≤ n → n < 0x100 → b ≠ n.toUInt8 := by
    rintro n hlow hhigh rfl
    rw [toNat_toUInt8 hhigh] at hb
    omega
  unfold encodePoint at hmem
  dsimp only at hmem
  by_cases hone : c.val < 0x80
  · rw [if_pos hone, List.mem_singleton] at hmem
    rw [hmem, toNat_toUInt8 (by omega)]
  rw [if_neg hone] at hmem
  -- Every byte of a longer form is at least 0x80.
  exfalso
  split at hmem
  · simp only [List.mem_cons, List.not_mem_nil, or_false] at hmem
    rcases hmem with h | h <;> exact hlarge _ (by omega) (by omega) h
  · split at hmem
    · simp only [List.mem_cons, List.not_mem_nil, or_false] at hmem
      rcases hmem with h | h | h <;> exact hlarge _ (by omega) (by omega) h
    · simp only [List.mem_cons, List.not_mem_nil, or_false] at hmem
      rcases hmem with h | h | h | h <;> exact hlarge _ (by omega) (by omega) h

end Utf8

namespace CodePoint

theorem eq_of_mem_fileBytes {c : CodePoint} {b : UInt8} (hmem : b ∈ c.fileBytes)
    (hb : b.toNat < 0x80) : c.val = b.toNat := by
  unfold fileBytes at hmem
  split at hmem
  · rename_i hescaped
    simp only [isEscapedByte, Bool.and_eq_true, decide_eq_true_eq] at hescaped
    rw [List.mem_singleton] at hmem
    rw [hmem, Utf8.toNat_toUInt8 (by omega)] at hb
    omega
  · exact Utf8.eq_of_mem_encodePoint hmem hb

theorem fileBytes_of_lt {c : CodePoint} (hc : c.val < 0x80) : c.fileBytes = [c.val.toUInt8] := by
  have hescaped : c.isEscapedByte = false := by
    simp only [isEscapedByte, Bool.and_eq_false_iff, decide_eq_false_iff_not]
    omega
  simp [fileBytes, hescaped, Utf8.encodePoint, hc]

theorem fileBytes_ne_nil (c : CodePoint) : c.fileBytes ≠ [] := by
  unfold fileBytes Utf8.encodePoint
  dsimp only
  split
  · simp
  · split
    · simp
    · split
      · simp
      · split <;> simp

end CodePoint

namespace Text

theorem exists_of_mem_utf8 {t : Text} {b : UInt8} (hmem : b ∈ t.utf8) (hb : b.toNat < 0x80) :
    ∃ c ∈ t, c.val = b.toNat := by
  obtain ⟨c, hc, hmem⟩ := List.mem_flatMap.mp hmem
  exact ⟨c, hc, Utf8.eq_of_mem_encodePoint hmem hb⟩

theorem utf8_inj {s t : Text} (hs : s.isScalar = true) (ht : t.isScalar = true)
    (h : s.utf8 = t.utf8) : s = t := by
  have hdecode := Utf8.decode_utf8 .strict hs
  rw [h, Utf8.decode_utf8 .strict ht] at hdecode
  exact (Except.ok.inj hdecode).symm

theorem firstSurrogates_cases (t : Text) :
    (t.isScalar = true ∧ t.firstSurrogates = none) ∨
      t.isScalar = false ∧ ∃ start first rest, t.firstSurrogates = some (start, first :: rest) := by
  induction t with
  | nil => exact .inl ⟨rfl, rfl⟩
  | cons c rest ih =>
    cases hc : c.isSurrogate with
    | true =>
      refine .inr ⟨by simp [isScalar, hc], 0, c, rest.takeWhile (·.isSurrogate), ?_⟩
      simp [firstSurrogates, hc]
    | false =>
      have hscalar : isScalar (c :: rest) = isScalar rest := by simp [isScalar, hc]
      have hfirst : firstSurrogates (c :: rest) =
          (firstSurrogates rest).map fun run => (run.1 + 1, run.2) := by
        simp only [firstSurrogates, hc, List.takeWhile_cons, Bool.not_false, if_true,
          List.length_cons, List.drop_succ_cons]
        split <;> simp_all
      rcases ih with ⟨hrest, hnone⟩ | ⟨hrest, start, first, run, hsome⟩
      · exact .inl ⟨hscalar.trans hrest, by rw [hfirst, hnone]; rfl⟩
      · exact .inr ⟨hscalar.trans hrest, start + 1, first, run, by rw [hfirst, hsome]; rfl⟩

/-- Exactly the texts without surrogates can be encoded. -/
theorem encode_eq_ok {t : Text} {bytes : Bytes} :
    t.encode = .ok bytes ↔ t.isScalar = true ∧ bytes = t.utf8 := by
  unfold encode
  rcases t.firstSurrogates_cases with ⟨hscalar, hnone⟩ | ⟨hscalar, start, first, rest, hsome⟩
  · simp [hnone, hscalar, eq_comm]
  · simp [hsome, hscalar]

theorem flatMap_fileBytes {t : Text} (ht : t.isScalar = true) :
    t.flatMap CodePoint.fileBytes = t.utf8 := by
  induction t with
  | nil => rfl
  | cons c rest ih =>
    simp only [isScalar, List.all_cons, Bool.and_eq_true, Bool.not_eq_true'] at ht
    have hc : c.isEscapedByte = false := by
      have hscalar := ht.1
      simp only [CodePoint.isSurrogate, CodePoint.isEscapedByte, Bool.and_eq_false_iff,
        decide_eq_false_iff_not] at hscalar ⊢
      omega
    have hrest := ih ht.2
    simp only [utf8, List.flatMap_cons] at hrest ⊢
    rw [hrest, CodePoint.fileBytes, hc]
    rfl

theorem eq_flatMap_of_fileBytes {t : Text} {bytes : Bytes} (h : t.fileBytes = .ok bytes) :
    bytes = t.flatMap CodePoint.fileBytes := by
  unfold fileBytes at h
  split at h
  · cases h
  · cases h
    rfl

theorem exists_of_mem_fileBytes {t : Text} {b : UInt8}
    (hmem : b ∈ t.flatMap CodePoint.fileBytes) (hb : b.toNat < 0x80) :
    ∃ c ∈ t, c.val = b.toNat := by
  obtain ⟨c, hc, hmem⟩ := List.mem_flatMap.mp hmem
  exact ⟨c, hc, CodePoint.eq_of_mem_fileBytes hmem hb⟩

theorem flatMap_fileBytes_eq_cons {t : Text} {c : CodePoint} {rest : Bytes} (hc : c.val < 0x80)
    (h : t.flatMap CodePoint.fileBytes = c.val.toUInt8 :: rest) :
    ∃ t', t = c :: t' ∧ t'.flatMap CodePoint.fileBytes = rest := by
  have hbyte : c.val.toUInt8.toNat = c.val := Utf8.toNat_toUInt8 (by omega)
  cases t with
  | nil => cases h
  | cons d t' =>
    rw [List.flatMap_cons] at h
    have hmem : c.val.toUInt8 ∈ d.fileBytes := by
      cases hd : d.fileBytes with
      | nil => exact absurd hd d.fileBytes_ne_nil
      | cons b others =>
        rw [hd, List.cons_append] at h
        rw [(List.cons.inj h).1]
        exact List.mem_cons_self
    have hval := CodePoint.eq_of_mem_fileBytes hmem (by omega)
    have heq : d = c := CodePoint.ext (hval.trans hbyte)
    subst heq
    rw [CodePoint.fileBytes_of_lt hc] at h
    exact ⟨t', rfl, (List.cons.inj h).2⟩

theorem eq_of_flatMap_fileBytes_eq {s t : Text} (hs : ∀ c ∈ s, c.val < 0x80)
    (h : t.flatMap CodePoint.fileBytes = s.flatMap CodePoint.fileBytes) : t = s := by
  induction s generalizing t with
  | nil =>
    cases t with
    | nil => rfl
    | cons c rest =>
      rw [List.flatMap_cons, List.flatMap_nil] at h
      exact absurd (List.append_eq_nil_iff.mp h).1 c.fileBytes_ne_nil
  | cons c rest ih =>
    have hc := hs c List.mem_cons_self
    rw [List.flatMap_cons, CodePoint.fileBytes_of_lt hc] at h
    obtain ⟨t', rfl, ht⟩ := flatMap_fileBytes_eq_cons hc h
    rw [ih (fun d hd => hs d (List.mem_cons_of_mem c hd)) ht]

theorem fileFault_append {s t : Text} {i : Nat} (hs : fileFault i s = none)
    (ht : t.isScalar = true) : fileFault i (s ++ t) = none := by
  induction s generalizing i with
  | nil =>
    rw [List.nil_append]
    clear hs
    induction t generalizing i with
    | nil => rfl
    | cons c rest ih =>
      simp only [isScalar, List.all_cons, Bool.and_eq_true, Bool.not_eq_true'] at ht
      simp only [fileFault, ht.1, Bool.false_and, Bool.false_eq_true, if_false]
      exact ih ht.2
  | cons c rest ih =>
    rw [fileFault] at hs
    rw [List.cons_append, fileFault]
    split at hs
    · cases hs
    · rename_i hc
      rw [if_neg hc]
      exact ih hs

theorem fileBytes_append {s t : Text} {bytes : Bytes} (hs : s.fileBytes = .ok bytes)
    (ht : t.isScalar = true) : (s ++ t).fileBytes = .ok (bytes ++ t.utf8) := by
  unfold fileBytes at hs ⊢
  split at hs
  · cases hs
  · rename_i hfault
    cases hs
    rw [fileFault_append hfault ht, List.flatMap_append, flatMap_fileBytes ht]

theorem ofFileBytes_utf8 {t : Text} (ht : t.isScalar = true) : ofFileBytes t.utf8 = t := by
  rw [ofFileBytes, Utf8.decode_utf8 .escape ht]

end Text

end ScriptDepot
