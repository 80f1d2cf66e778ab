import ScriptDepot.Message
import ScriptDepot.Proofs.Json.Reading
import ScriptDepot.Proofs.Json.Within
/-!
# Reading undoes writing

A value comes back as it was written when its numbers are integers of moderate length, its objects
have no key twice, and no string or key in it has a high surrogate right before a low one: those two
would be read as one code point.
-/

namespace ScriptDepot

open Json.Grammar

def Text.Unpaired (t : Text) : Prop :=
  t.IsChain fun c d => ¬ (c.isHigh = true ∧ d.isLow = true)

instance (t : Text) : Decidable t.Unpaired :=
  inferInstanceAs (Decidable (List.IsChain _ t))

namespace Utf16

theorem joinPairs_of_unpaired {t : Text} (h : t.Unpaired) : joinPairs t = t := by
  fun_induction joinPairs t with
  | case1 => rfl
  | case2 c => rfl
  | case3 c d rest hpair ih =>
    have hapart := (List.isChain_cons_cons.mp h).1
    exact absurd (Bool.and_eq_true_iff.mp hpair) hapart
  | case4 c d rest hpair ih => rw [ih (List.isChain_cons_cons.mp h).2]

theorem length_joinPairs_le (t : Text) : (joinPairs t).length ≤ t.length := by
  fun_induction joinPairs t with
  | case1 | case2 => exact Nat.le_refl _
  | case3 c d rest _ ih | case4 c d rest _ ih =>
    simp only [List.length_cons] at ih ⊢
    omega

/-- Only a text without such neighbours is left as it is: joining two makes it shorter. -/
theorem joinPairs_eq_self {t : Text} : joinPairs t = t ↔ t.Unpaired := by
  refine ⟨?_, joinPairs_of_unpaired⟩
  intro h
  fun_induction joinPairs t with
  | case1 => exact .nil
  | case2 c => exact .singleton c
  | case3 c d rest _ ih =>
    have hlength := congrArg List.length h
    have hle := length_joinPairs_le rest
    simp only [List.length_cons] at hlength
    omega
  | case4 c d rest hpair ih =>
    refine List.isChain_cons_cons.mpr ⟨?_, ih (List.cons.inj h).2⟩
    intro hboth
    exact hpair (Bool.and_eq_true_iff.mpr hboth)

end Utf16

namespace Json

/-- Nothing at the outermost level of the value is lost in writing it. -/
def Plain : Json → Prop
  | .null | .bool _ | .arr _ => True
  | .int n => Short (Text.ofNat n.natAbs)
  | .float _ => False
  | .str t => t.Unpaired
  | .obj members => (Assoc.keys members).Nodup ∧ ∀ k ∈ Assoc.keys members, k.Unpaired

def Faithful (v : Json) : Prop := ∀ w, Within w v → w.Plain

theorem faithful_arr {items : List Json} :
    Faithful (.arr items) ↔ ∀ v ∈ items, v.Faithful := by
  constructor
  · intro h v hv w hw
    exact h w (.item hv hw)
  · intro h w hw
    cases hw with
    | self => trivial
    | item hmem hw => exact h _ hmem w hw

theorem faithful_obj {members : List (Text × Json)} :
    Faithful (.obj members) ↔ Plain (.obj members) ∧ ∀ m ∈ members, m.2.Faithful := by
  constructor
  · intro h
    refine ⟨h _ .self, ?_⟩
    intro m hm w hw
    exact h w (.member hm hw)
  · rintro ⟨hplain, h⟩ w hw
    cases hw with
    | self => exact hplain
    | member hmem hw => exact h _ hmem w hw

theorem faithful_str {t : Text} : Faithful (.str t) ↔ t.Unpaired := by
  constructor
  · intro h
    exact h _ .self
  · intro h w hw
    cases hw with
    | self => exact h

theorem Faithful.isFinite {v : Json} (h : v.Faithful) : v.isFinite = true := by
  by_contra hfinite
  obtain ⟨x, hx, -⟩ := isFinite_eq_false.mp (Bool.eq_false_iff.mpr hfinite)
  exact h _ hx

section

variable {spacing : Spacing} {depth : Nat}

theorem value_writeString {t : Text} (h : t.Unpaired) :
    Value Short depth (writeString t) (.str t) := by
  have hquoted := quoted_writeString t
  rw [Utf16.joinPairs_of_unpaired h] at hquoted
  exact .str hquoted

theorem value_write (hspacing : spacing.Lawful) {v : Json} (h : v.Faithful)
    (hdepth : v.nesting ≤ depth) : Value Short depth (v.write spacing) v := by
  induction v using Json.induct generalizing depth with
  | null => exact .null
  | bool b =>
    cases b with
    | false => exact .no
    | true => exact .yes
  | int n => exact value_ofInt (h _ .self) depth
  | float x => exact absurd (h _ .self) id
  | str t => exact value_writeString (faithful_str.mp h)
  | arr items ih =>
    rw [nesting] at hdepth
    obtain ⟨inner, rfl⟩ : ∃ inner, depth = inner + 1 := Nat.exists_eq_add_one.mpr (by omega)
    have hitems : ∀ v ∈ items, Value Short inner (v.write spacing) v := by
      intro v hv
      have hle := nesting_le_items hv
      exact ih v hv (faithful_arr.mp h v hv) (by omega)
    by_cases hne : items = []
    · subst hne
      exact .noItems blank_nil
    · exact .arr (items_write hspacing (List.forall₂_same.mpr hitems) hne blank_nil)
  | obj members ih =>
    rw [nesting] at hdepth
    obtain ⟨inner, rfl⟩ : ∃ inner, depth = inner + 1 := Nat.exists_eq_add_one.mpr (by omega)
    obtain ⟨⟨hdistinct, hkeys⟩, hmembers⟩ := faithful_obj.mp h
    -- nothing is joined in a key, so distinct keys stay distinct
    have hwritten : ∀ m ∈ members, m.1 = Utf16.joinPairs m.1 ∧
        Value Short inner (m.2.write spacing) m.2 := by
      intro m hm
      have hkey : m.1 ∈ Assoc.keys members := List.mem_map_of_mem hm
      have hle := nesting_le_members hm
      exact ⟨(Utf16.joinPairs_of_unpaired (hkeys m.1 hkey)).symm,
        ih m hm (hmembers m hm) (by omega)⟩
    by_cases hne : members = []
    · subst hne
      exact .noMembers blank_nil
    · exact .obj (members_write hspacing (List.forall₂_same.mpr hwritten) hne blank_nil)
        (merged_self hdistinct)

end

end Json

namespace Response

open Json

theorem readText_toJson (r : Response) {v : Json}
    (hcontent : Value Short (nestingLimit - 1) (r.content.write spaced) v) :
    readText .refuse (r.toJson.write spaced) =
      .ok (.obj [("what", .str (Utf16.joinPairs r.what)), ("content", v)]) := by
  have hwhat : Value Short (nestingLimit - 1) ((Json.str r.what).write spaced)
      (.str (Utf16.joinPairs r.what)) := .str (quoted_writeString r.what)
  have hmembers : List.Forall₂ (fun m n => n.1 = Utf16.joinPairs m.1 ∧
      Value Short (nestingLimit - 1) (m.2.write spaced) n.2)
      ([("what", .str r.what), ("content", r.content)] : List (Text × Json))
      ([("what", .str (Utf16.joinPairs r.what)), ("content", v)] : List (Text × Json)) :=
    .cons ⟨rfl, hwhat⟩ (.cons ⟨rfl, hcontent⟩ .nil)
  have hkeys : (["what", "content"] : List Text).Nodup := by decide
  have hvalue := Value.obj (members_write lawful_spaced hmembers (by simp) blank_nil)
    (merged_self hkeys)
  have hdocument := Document.mk blank_nil hvalue blank_nil
  rw [List.nil_append, List.append_nil] at hdocument
  exact readText_eq_ok.mpr hdocument

/-- Every response with such a content can be sent, and it is read back as it was made exactly when
no surrogates in its `what` are joined; the same goes for the text of an error. -/
theorem decoding_undoes_encoding (what : Text) (content : Json) (hcontent : content.Faithful)
    (hdepth : content.nesting < nestingLimit) :
    (∃ text, Response.encode ⟨what, content⟩ = .ok text ∧
      (readText .refuse text = .ok (.obj [("what", .str what), ("content", content)]) ↔
        what.Unpaired)) ∧
    ∀ message : Text,
      readText .refuse (errorReply message) =
        .ok (.obj [("what", .str "error"), ("content", .str message)]) ↔ message.Unpaired := by
  constructor
  · have hwritten : Value Short (nestingLimit - 1) (content.write spaced) content :=
      value_write lawful_spaced hcontent (by omega)
    refine ⟨Json.write spaced (toJson ⟨what, content⟩), ?_, ?_⟩
    · unfold encode
      rw [if_pos hcontent.isFinite]
    · rw [readText_toJson ⟨what, content⟩ hwritten, ← Utf16.joinPairs_eq_self]
      simp
  · intro message
    have hwritten : Value Short (nestingLimit - 1) ((Json.str message).write spaced)
        (.str (Utf16.joinPairs message)) := .str (quoted_writeString message)
    have herror : Utf16.joinPairs "error" = "error" := rfl
    unfold errorReply
    rw [readText_toJson ⟨"error", .str message⟩ hwritten, herror, ← Utf16.joinPairs_eq_self]
    simp

def sample : Json :=
  .obj [("a", .arr [.int (-5), .null, .arr []]),
    ("😀", .str [CodePoint.ofNat 0xDC00, CodePoint.ofNat 0xD800])]

theorem faithful_sample : sample.Faithful := by
  have hint : Faithful (.int (-5)) := by
    intro w hw
    cases hw
    show (Text.ofNat 5).length ≤ 4300
    decide
  have hnull : Faithful .null := by
    intro w hw
    cases hw
    trivial
  have hitems : Faithful (.arr [.int (-5), .null, .arr []]) := by
    simp [faithful_arr, hint, hnull]
  have hstring : Text.Unpaired [CodePoint.ofNat 0xDC00, CodePoint.ofNat 0xD800] := by decide
  have hkeys : (["a", "😀"] : List Text).Nodup ∧
      ∀ k ∈ (["a", "😀"] : List Text), k.Unpaired := by decide
  refine faithful_obj.mpr ⟨hkeys, ?_⟩
  simpa using ⟨hitems, faithful_str.mpr hstring⟩

theorem decoding_undoes_encoding_sample :
    sample.Faithful ∧ sample.nesting = 3 ∧
    (∃ text, Response.encode ⟨"script", sample⟩ = .ok text ∧
      (readText .refuse text = .ok (.obj [("what", .str "script"), ("content", sample)]) ↔
        Text.Unpaired "script")) ∧
    ∀ message : Text,
      readText .refuse (errorReply message) =
        .ok (.obj [("what", .str "error"), ("content", .str message)]) ↔ message.Unpaired := by
  have hnesting : sample.nesting = 3 := by decide
  exact ⟨faithful_sample, hnesting,
    decoding_undoes_encoding "script" sample faithful_sample (by decide)⟩

/-- A high surrogate before a low one in the `what` is written as two escapes and read back as one
code point. -/
theorem paired_what_is_read_back_joined :
    ∃ text : Text, text = "\x7b\"what\": \"\\ud800\\udc00\", \"content\": null\x7d" ∧
      Response.encode ⟨[.ofNat 0xD800, .ofNat 0xDC00], .null⟩ = .ok text ∧
      readText .refuse text = .ok (.obj [("what", .str [.ofNat 0x10000]), ("content", .null)]) ∧
      readText .refuse text ≠
        .ok (.obj [("what", .str [.ofNat 0xD800, .ofNat 0xDC00]), ("content", .null)]) := by
  have hjoined : Utf16.joinPairs [.ofNat 0xD800, .ofNat 0xDC00] = [.ofNat 0x10000] := by
    decide +kernel
  have hread := readText_toJson ⟨[.ofNat 0xD800, .ofNat 0xDC00], .null⟩ .null
  rw [hjoined] at hread
  refine ⟨_, rfl, rfl, hread, ?_⟩
  intro hother
  cases hread.symm.trans hother

end Response

end ScriptDepot
