import ScriptDepot.Endpoint
import ScriptDepot.Proofs.Json.Reading
import ScriptDepot.Proofs.Wide
/-!
# Byte frames

The encoding of a byte frame is guessed from the zero bytes among its first four.  A JSON text
starts with an ASCII character and holds no U+0000 anywhere, so the guess is right for it in each of
the five encodings, and a byte frame is answered like the text that it encodes.
-/

namespace ScriptDepot

def Text.NulFree (t : Text) : Prop := ∀ c ∈ t, c.val ≠ 0

instance (t : Text) : Decidable t.NulFree := inferInstanceAs (Decidable (∀ c ∈ t, c.val ≠ 0))

theorem Text.nulFree_append {s t : Text} : (s ++ t).NulFree ↔ s.NulFree ∧ t.NulFree :=
  List.forall_mem_append

theorem Text.NulFree.enclosed {first s last : Text} (hfirst : first.NulFree) (hs : s.NulFree)
    (hlast : last.NulFree) : (first ++ s ++ last).NulFree :=
  nulFree_append.mpr ⟨nulFree_append.mpr ⟨hfirst, hs⟩, hlast⟩

/-! ## JSON texts hold no U+0000 -/

namespace Json.Grammar

variable {fits : Text → Prop}

theorem Blank.nulFree {s : Text} (h : Blank s) : s.NulFree := by
  have hspaces : ∀ d ∈ ([' ', '\t', '\n', '\r'] : List CodePoint), d.val ≠ 0 := by decide
  exact fun c hc => hspaces c (h c hc)

theorem Digits.nulFree {s : Text} (h : Digits s) : s.NulFree := by
  intro c hc
  have hdigit := (h.all c hc).1
  omega

theorem Sign.nulFree {s : Text} {negative : Bool} (h : Sign s negative) : s.NulFree := by
  cases h <;> decide

theorem Fraction.nulFree {s digits : Text} (h : Fraction s digits) : s.NulFree := by
  cases h with
  | absent => decide
  | digits h => exact Text.nulFree_append.mpr ⟨by decide, h.nulFree⟩

theorem Exponent.nulFree {s : Text} {e : Option Int} (h : Exponent s e) : s.NulFree := by
  have hmark : ∀ {mark : Text}, mark = "e" ∨ mark = "E" → mark.NulFree := by
    rintro mark (rfl | rfl) <;> decide
  cases h with
  | absent => decide
  | unsigned hm h => exact Text.nulFree_append.mpr ⟨hmark hm, h.nulFree⟩
  | plus hm h | minus hm h =>
    simp only [Text.nulFree_append]
    exact ⟨⟨hmark hm, by decide⟩, h.nulFree⟩

theorem Fractional.nulFree {s : Text} {d : Decimal} (h : Fractional s d) : s.NulFree := by
  obtain ⟨hwhole, hfraction, hexponent, -⟩ := h
  simp only [Text.nulFree_append]
  exact ⟨⟨hwhole.toDigits.nulFree, hfraction.nulFree⟩, hexponent.nulFree⟩

theorem Numbered.nulFree {s : Text} {c : CodePoint} (h : Numbered s c) : s.NulFree := by
  have hdigit : ∀ {c : CodePoint} {d : Nat}, HexDigit c d → c.val ≠ 0 := by
    intro c d h
    unfold HexDigit at h
    omega
  obtain ⟨hw, hx, hy, hz, -⟩ := h
  refine Text.nulFree_append.mpr ⟨by decide, ?_⟩
  simp only [Text.NulFree, List.forall_mem_cons, List.not_mem_nil, false_imp_iff, implies_true,
    and_true]
  exact ⟨hdigit hw, hdigit hx, hdigit hy, hdigit hz⟩

theorem Chars.nulFree {s t : Text} (h : Chars s t) : s.NulFree := by
  induction h with
  | nil => decide
  | raw hc _ _ _ ih => exact List.forall_mem_cons.mpr ⟨by omega, ih⟩
  | @letter e c s t he _ ih =>
    have hletters : ∀ entry ∈ letters, entry.1.val ≠ 0 := by decide
    simp only [Text.nulFree_append]
    exact ⟨⟨by decide, List.forall_mem_singleton.mpr (hletters _ he)⟩, ih⟩
  | pair hfirst hsecond _ _ ih =>
    simp only [Text.nulFree_append]
    exact ⟨⟨hfirst.nulFree, hsecond.nulFree⟩, ih⟩
  | numbered hescape _ _ ih => exact Text.nulFree_append.mpr ⟨hescape.nulFree, ih⟩

theorem Quoted.nulFree {s t : Text} (h : Quoted s t) : s.NulFree := by
  obtain ⟨h⟩ := h
  exact .enclosed (by decide) h.nulFree (by decide)

mutual

theorem Value.nulFree {depth : Nat} {s : Text} {v : Json} : Value fits depth s v → s.NulFree
  | .null => by decide
  | .yes => by decide
  | .no => by decide
  | .int hsign h _ => Text.nulFree_append.mpr ⟨hsign.nulFree, h.toDigits.nulFree⟩
  | .float hsign h => Text.nulFree_append.mpr ⟨hsign.nulFree, h.nulFree⟩
  | .str h => h.nulFree
  | .noItems h => .enclosed (by decide) h.nulFree (by decide)
  | .arr h => .enclosed (by decide) h.nulFree (by decide)
  | .noMembers h => .enclosed (by decide) h.nulFree (by decide)
  | .obj h _ => .enclosed (by decide) h.nulFree (by decide)

theorem Items.nulFree {depth : Nat} {s : Text} {items : List Json} :
    Items fits depth s items → s.NulFree
  | .last hbefore h hbehind => .enclosed hbefore.nulFree h.nulFree hbehind.nulFree
  | .cons hbefore h hbehind hrest =>
    .enclosed (.enclosed hbefore.nulFree h.nulFree hbehind.nulFree) (by decide) hrest.nulFree

theorem Members.nulFree {depth : Nat} {s : Text} {members : List (Text × Json)} :
    Members fits depth s members → s.NulFree
  | .last hbefore hkey hbetween hcolon h hbehind =>
    .enclosed
      (.enclosed (.enclosed hbefore.nulFree hkey.nulFree hbetween.nulFree) (by decide)
        hcolon.nulFree)
      h.nulFree hbehind.nulFree
  | .cons hbefore hkey hbetween hcolon h hbehind hrest =>
    .enclosed
      (.enclosed
        (.enclosed (.enclosed hbefore.nulFree hkey.nulFree hbetween.nulFree) (by decide)
          hcolon.nulFree)
        h.nulFree hbehind.nulFree)
      (by decide) hrest.nulFree

end

theorem Document.starts {depth : Nat} {s : Text} {v : Json} (h : Document fits depth s v) :
    ∃ c rest, s = c :: rest ∧ c.val < 0x80 := by
  obtain ⟨hbefore, hvalue, -⟩ := h
  rename_i before t behind
  cases before with
  | nil =>
    obtain ⟨c, rest, rfl, hc⟩ := hvalue.exists_cons
    refine ⟨c, rest ++ behind, rfl, ?_⟩
    rcases hc with hc | hc
    · have hopening : ∀ d ∈ (['"', '[', '{', '-', 'n', 't', 'f'] : List CodePoint),
          d.val < 0x80 := by decide
      exact hopening c hc
    · have hdigit := hc.2
      omega
  | cons c rest =>
    have hspaces : ∀ d ∈ ([' ', '\t', '\n', '\r'] : List CodePoint), d.val < 0x80 := by decide
    exact ⟨c, rest ++ t ++ behind, rfl, hspaces c (hbefore c List.mem_cons_self)⟩

theorem Document.nulFree {depth : Nat} {s : Text} {v : Json} (h : Document fits depth s v) :
    s.NulFree := by
  obtain ⟨hbefore, hvalue, hbehind⟩ := h
  exact .enclosed hbefore.nulFree hvalue.nulFree hbehind.nulFree

end Json.Grammar

/-! ## The guess -/

namespace Encoding

def encode (e : Encoding) (t : Text) : Bytes :=
  match e with
  | .utf8 => t.utf8
  | .utf16le => t.utf16 .little
  | .utf16be => t.utf16 .big
  | .utf32le => t.utf32 .little
  | .utf32be => t.utf32 .big

theorem decode_encode (e : Encoding) (position : Nat) {t : Text} (ht : t.isScalar = true) :
    e.decode position (e.encode t) = .ok t := by
  cases e with
  | utf8 => exact Utf8.decode_utf8 .surrogates ht
  | utf16le => exact Utf16.decode_utf16 .little position ht
  | utf16be => exact Utf16.decode_utf16 .big position ht
  | utf32le => exact Utf32.decode_utf32 .little position t
  | utf32be => exact Utf32.decode_utf32 .big position t

theorem ofZeros_of_not_mem {bytes : Bytes} (h : 0 ∉ bytes) : ofZeros bytes = .utf8 := by
  unfold ofZeros
  split <;> simp_all [eq_comm]

def marks : List Bytes :=
  [[0x00, 0x00, 0xFE, 0xFF], [0xFF, 0xFE, 0x00, 0x00], [0xFE, 0xFF], [0xFF, 0xFE],
    [0xEF, 0xBB, 0xBF]]

theorem detect_unmarked {bytes : Bytes} (h : ∀ mark ∈ marks, ¬ mark <+: bytes) :
    detect bytes = ⟨ofZeros bytes, 0⟩ := by
  simp only [marks, List.forall_mem_cons, ← List.isPrefixOf_iff_prefix] at h
  obtain ⟨h1, h2, h3, h4, h5, -⟩ := h
  rw [detect, if_neg h1, if_neg h2, if_neg h3, if_neg h4, if_neg h5]

/-! ### UTF-8 -/

theorem lt_of_mem_encodePoint {c : CodePoint} {b : UInt8} (h : b ∈ Utf8.encodePoint c) :
    b.toNat < 0xF8 := by
  have hc := c.isLt
  have hsmall : ∀ n, n < 0xF8 → b = n.toUInt8 → b.toNat < 0xF8 := by
    rintro n hn rfl
    rwa [Utf8.toNat_toUInt8 (by omega)]
  unfold Utf8.encodePoint at h
  dsimp only at h
  split at h
  · rw [List.mem_singleton] at h
    exact hsmall _ (by omega) h
  · split at h
    · simp only [List.mem_cons, List.not_mem_nil, or_false] at h
      rcases h with h | h <;> exact hsmall _ (by omega) h
    · split at h
      · simp only [List.mem_cons, List.not_mem_nil, or_false] at h
        rcases h with h | h | h <;> exact hsmall _ (by omega) h
      · simp only [List.mem_cons, List.not_mem_nil, or_false] at h
        rcases h with h | h | h | h <;> exact hsmall _ (by omega) h

/-- Only U+FEFF starts with the bytes of the mark. -/
theorem eq_of_starts_with_mark {c : CodePoint} {rest : Bytes}
    (h : [0xEF, 0xBB, 0xBF] <+: Utf8.encodePoint c ++ rest) : c.val = 0xFEFF := by
  have hc := c.isLt
  have hbyte : ∀ {n m : Nat}, m < 0x100 → n < 0x100 → m.toUInt8 = n.toUInt8 → n = m := by
    intro n m hm hn heq
    rw [← Utf8.toNat_toUInt8 hn, ← heq, Utf8.toNat_toUInt8 hm]
  unfold Utf8.encodePoint at h
  dsimp only at h
  split at h
  · have hfirst := hbyte (m := 0xEF) (by omega) (by omega) (List.cons_prefix_cons.mp h).1
    omega
  · split at h
    · have hfirst := hbyte (m := 0xEF) (by omega) (by omega) (List.cons_prefix_cons.mp h).1
      omega
    · split at h
      · obtain ⟨h1, h⟩ := List.cons_prefix_cons.mp h
        obtain ⟨h2, h⟩ := List.cons_prefix_cons.mp h
        obtain ⟨h3, -⟩ := List.cons_prefix_cons.mp h
        have hfirst := hbyte (m := 0xEF) (by omega) (by omega) h1
        have hsecond := hbyte (m := 0xBB) (by omega) (by omega) h2
        have hthird := hbyte (m := 0xBF) (by omega) (by omega) h3
        omega
      · have hfirst := hbyte (m := 0xEF) (by omega) (by omega) (List.cons_prefix_cons.mp h).1
        omega

theorem detect_utf8 {t : Text} (hnul : t.NulFree) (hmark : ∀ c ∈ t.head?, c.val ≠ 0xFEFF) :
    detect t.utf8 = ⟨.utf8, 0⟩ := by
  have hbytes : ∀ b ∈ t.utf8, b.toNat < 0xF8 := by
    intro b hb
    obtain ⟨c, -, hb⟩ := List.mem_flatMap.mp hb
    exact lt_of_mem_encodePoint hb
  have hzero : 0 ∉ t.utf8 := by
    intro h
    obtain ⟨c, hc, hval⟩ := Text.exists_of_mem_utf8 h (by decide)
    exact hnul c hc hval
  have hmarks : ∀ mark ∈ marks, mark = [0xEF, 0xBB, 0xBF] ∨ 0xFE ∈ mark := by decide
  rw [detect_unmarked, ofZeros_of_not_mem hzero]
  intro mark hmem hstarts
  rcases hmarks mark hmem with rfl | hlarge
  · cases t with
    | nil => simp [Text.utf8] at hstarts
    | cons c rest => exact hmark c rfl (eq_of_starts_with_mark hstarts)
  · exact absurd (hbytes _ (hstarts.subset hlarge)) (by decide)

/-! ### The wide encodings -/

variable {c : CodePoint} {rest : Text}

theorem toUInt8_ne_zero {n : Nat} (hn : n ≠ 0) (hlt : n < 0x100) : n.toUInt8 ≠ 0 := by
  intro h
  have hnat := Utf8.toNat_toUInt8 hlt
  rw [h] at hnat
  exact hn hnat.symm

theorem utf16_ascii (order : ByteOrder) (hc : c.val < 0x80) :
    Text.utf16 order (c :: rest) = order.arrange [c.val.toUInt8, 0] ++ Text.utf16 order rest := by
  have hlow : c.val % 0x100 = c.val := by omega
  have hhigh : c.val / 0x100 = 0 := by omega
  have hsplit : Utf16.split c = [c] := if_pos (by omega)
  rw [Text.utf16, List.flatMap_cons, Utf16.pointBytes, hsplit, List.flatMap_singleton,
    Utf16.unitBytes, hlow, hhigh]
  rfl

theorem utf32_ascii (order : ByteOrder) (hc : c.val < 0x80) :
    Text.utf32 order (c :: rest) =
      order.arrange [c.val.toUInt8, 0, 0, 0] ++ Text.utf32 order rest := by
  have hlow : c.val % 0x100 = c.val := by omega
  have hmiddle : c.val / 0x100 % 0x100 = 0 := by omega
  have hhigh : c.val / 0x10000 = 0 := by omega
  rw [Text.utf32, List.flatMap_cons, Utf32.pointBytes, hlow, hmiddle, hhigh]
  rfl

theorem utf16_cases (order : ByteOrder) {t : Text} (hnul : t.NulFree) :
    t.utf16 order = [] ∨ ∃ a b more, t.utf16 order = a :: b :: more ∧ (a ≠ 0 ∨ b ≠ 0) := by
  cases t with
  | nil => exact .inl rfl
  | cons c rest =>
    right
    have hc := hnul c List.mem_cons_self
    have hunits : ∃ u tail, Utf16.split c = u :: tail ∧ u.val < 0x10000 ∧ u.val ≠ 0 := by
      have hhigh := Utf16.val_highHalf c
      have hbound := c.isLt
      unfold Utf16.split
      split
      · exact ⟨c, [], rfl, by omega, hc⟩
      · exact ⟨Utf16.highHalf c, [Utf16.lowHalf c], rfl, by omega, by omega⟩
    obtain ⟨u, tail, hsplit, hsmall, hu⟩ := hunits
    obtain ⟨a, b, hbytes, hunit⟩ := Utf16.exists_unitBytes order hsmall
    have hsome : a ≠ 0 ∨ b ≠ 0 := by
      rw [← not_and_or]
      rintro ⟨rfl, rfl⟩
      apply hu
      rw [← hunit]
      cases order <;> rfl
    rw [Text.utf16, List.flatMap_cons, Utf16.pointBytes, hsplit, List.flatMap_cons, hbytes]
    exact ⟨a, b, _, rfl, hsome⟩

theorem not_mark_of_ascii (hc : c.val < 0x80) (hzero : c.val ≠ 0) (tail : Bytes) :
    ∀ mark ∈ marks, ¬ mark <+: c.val.toUInt8 :: tail := by
  have hne : ∀ b : UInt8, b = 0 ∨ 0x80 ≤ b.toNat → b ≠ c.val.toUInt8 := by
    rintro b hb rfl
    rcases hb with hb | hb
    · exact toUInt8_ne_zero hzero (by omega) hb
    · rw [Utf8.toNat_toUInt8 (by omega)] at hb
      omega
  simp [marks, hne 0x00 (by decide), hne 0xFF (by decide), hne 0xFE (by decide),
    hne 0xEF (by decide)]

/-- A text that starts with an ASCII character and holds no U+0000 gives its encoding away. -/
theorem detect_encode (e : Encoding) (hc : c.val < 0x80) (hnul : Text.NulFree (c :: rest)) :
    detect (e.encode (c :: rest)) = ⟨e, 0⟩ := by
  obtain ⟨hzero, hrest⟩ := List.forall_mem_cons.mp hnul
  have hbyte : c.val.toUInt8 ≠ 0 := toUInt8_ne_zero hzero (by omega)
  cases e with
  | utf8 => exact detect_utf8 hnul (by rintro d ⟨⟩; omega)
  | utf16le =>
    -- the next unit, if any, is not zero, which tells this from UTF-32
    have hencode : encode .utf16le (c :: rest) = c.val.toUInt8 :: 0 :: rest.utf16 .little :=
      utf16_ascii .little hc
    rw [hencode, detect_unmarked (not_mark_of_ascii hc hzero _)]
    rcases utf16_cases .little hrest with h | ⟨a, b, more, h, hunit⟩
    · simp [h, ofZeros, hbyte]
    · simp [h, ofZeros, hbyte, hunit]
  | utf16be =>
    have hencode : encode .utf16be (c :: rest) = 0 :: c.val.toUInt8 :: rest.utf16 .big :=
      utf16_ascii .big hc
    have hmarks : ∀ mark ∈ marks, ¬ mark <+: 0 :: c.val.toUInt8 :: rest.utf16 .big := by
      simp [marks, hbyte.symm]
    rw [hencode, detect_unmarked hmarks]
    rcases utf16_cases .big hrest with h | ⟨a, b, more, h, -⟩
    · simp [h, ofZeros]
    · simp [h, ofZeros, hbyte]
  | utf32le =>
    have hencode : encode .utf32le (c :: rest) =
        c.val.toUInt8 :: 0 :: 0 :: 0 :: rest.utf32 .little := utf32_ascii .little hc
    rw [hencode, detect_unmarked (not_mark_of_ascii hc hzero _)]
    simp [ofZeros, hbyte]
  | utf32be =>
    have hencode : encode .utf32be (c :: rest) =
        0 :: 0 :: 0 :: c.val.toUInt8 :: rest.utf32 .big := utf32_ascii .big hc
    have hmarks : ∀ mark ∈ marks, ¬ mark <+: 0 :: 0 :: 0 :: c.val.toUInt8 :: rest.utf32 .big := by
      simp [marks]
    rw [hencode, detect_unmarked hmarks]
    simp [ofZeros]

end Encoding

/-! ## Frames -/

theorem Text.ofFrameBytes_encode {t : Text} (ht : t.isScalar = true) {e : Encoding}
    (h : Encoding.detect (e.encode t) = ⟨e, 0⟩) : ofFrameBytes (e.encode t) = .ok t := by
  simp only [ofFrameBytes, h]
  exact e.decode_encode 0 ht

namespace Json

theorem readText_of_unmarked {policy : Constants} {t : Text}
    (h : ∀ c ∈ t.head?, c.val ≠ 0xFEFF) : readText policy t = readDocument policy t := by
  cases t with
  | nil => rfl
  | cons c rest => exact if_neg (h c rfl)

theorem readBytes_utf8 {policy : Constants} {t : Text} (ht : t.isScalar = true)
    (hnul : t.NulFree) (hmark : ∀ c ∈ t.head?, c.val ≠ 0xFEFF) :
    readBytes policy t.utf8 = readText policy t := by
  have hbytes : Text.ofFrameBytes t.utf8 = .ok t :=
    Text.ofFrameBytes_encode (e := .utf8) ht (Encoding.detect_utf8 hnul hmark)
  rw [readBytes, hbytes, readText_of_unmarked hmark]

theorem readBytes_encode {t : Text} {v : Json} (ht : t.isScalar = true)
    (hread : readText .refuse t = .ok v) (e : Encoding) :
    readBytes .refuse (e.encode t) = .ok v := by
  have hdocument := readText_eq_ok.mp hread
  obtain ⟨c, rest, rfl, hc⟩ := hdocument.starts
  have hbytes := Text.ofFrameBytes_encode ht (Encoding.detect_encode e hc hdocument.nulFree)
  rw [readBytes, hbytes]
  exact readDocument_eq_ok.mpr hdocument

end Json

theorem Store.handle_congr {frame other : Frame} (h : frame.read .refuse = other.read .refuse)
    (store : Store) (peer : Option Text) : store.handle frame peer = store.handle other peer := by
  have hmessage : Message.ofFrame frame = Message.ofFrame other := by
    simp only [Message.ofFrame, h]
  simp only [handle, receive, hmessage]

/-- Text and its bytes say the same.  In UTF-8 that holds of every text without U+0000 and without
a mark in front, faults included; a text that is read is read from its bytes in any of the five
encodings, so that the frames get the same reply, leave the same store and log the same. -/
theorem byte_frames_agree (t : Text) (ht : t.isScalar = true) :
    (t.NulFree → (∀ c ∈ t.head?, c.val ≠ 0xFEFF) →
      Json.readBytes .refuse (Encoding.encode .utf8 t) = Json.readText .refuse t) ∧
    ∀ v, Json.readText .refuse t = .ok v → ∀ e : Encoding,
      Json.readBytes .refuse (e.encode t) = .ok v ∧
      ∀ (store : Store) (peer : Option Text),
        store.handle (.bytes (e.encode t)) peer = store.handle (.text t) peer := by
  refine ⟨Json.readBytes_utf8 ht, ?_⟩
  intro v hread e
  have hbytes := Json.readBytes_encode ht hread e
  have hframes : (Frame.bytes (e.encode t)).read .refuse = (Frame.text t).read .refuse :=
    hbytes.trans hread.symm
  exact ⟨hbytes, Store.handle_congr hframes⟩

def manyWidths : Text := "aä→𝄞"

def quotedWidths : Text := "\"" ++ manyWidths ++ "\""

theorem readText_quotedWidths : Json.readText .refuse quotedWidths = .ok (.str manyWidths) := by
  have hchars : Json.Grammar.Chars manyWidths manyWidths :=
    .raw (by decide) (by decide) (by decide) <| .raw (by decide) (by decide) (by decide) <|
      .raw (by decide) (by decide) (by decide) <| .raw (by decide) (by decide) (by decide) .nil
  have hdocument : Json.Grammar.Document Json.Grammar.Short Json.nestingLimit
      ([] ++ quotedWidths ++ []) (.str manyWidths) :=
    .mk Json.blank_nil (.str (.mk hchars)) Json.blank_nil
  rw [List.nil_append, List.append_nil] at hdocument
  exact Json.readText_eq_ok.mpr hdocument

theorem byte_frames_agree_quotedWidths :
    Json.readBytes .refuse (Encoding.encode .utf8 quotedWidths) =
        Json.readText .refuse quotedWidths ∧
      ∀ e : Encoding, Json.readBytes .refuse (e.encode quotedWidths) = .ok (.str manyWidths) ∧
        ∀ (store : Store) (peer : Option Text),
          store.handle (.bytes (e.encode quotedWidths)) peer =
            store.handle (.text quotedWidths) peer := by
  have hlaw := byte_frames_agree quotedWidths (by decide)
  exact ⟨hlaw.1 (by decide) (by decide), hlaw.2 _ readText_quotedWidths⟩

end ScriptDepot
