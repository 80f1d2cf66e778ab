import Mathlib.Data.List.Forall2
import ScriptDepot.Proofs.Json.Numeral
import ScriptDepot.Proofs.Json.Strings
/-!
# Written values are JSON texts

Whatever value is written, if no infinity and no not-a-number occurs in it, the text is derivable in
the grammar, and it is printable ASCII in any case.  Both go by induction on the value, with the
commas and colons of either spacing.
-/

namespace ScriptDepot

open Json.Grammar

namespace Json

/-- Induction over values: what holds of all items holds of an array, and what holds of all
members' values of an object. -/
@[elab_as_elim]
theorem induct {motive : Json → Prop} (null : motive .null) (bool : ∀ b, motive (.bool b))
    (int : ∀ n, motive (.int n)) (float : ∀ x, motive (.float x)) (str : ∀ t, motive (.str t))
    (arr : ∀ items, (∀ v ∈ items, motive v) → motive (.arr items))
    (obj : ∀ members, (∀ m ∈ members, motive m.2) → motive (.obj members)) (v : Json) :
    motive v := by
  match v with
  | .null => exact null
  | .bool b => exact bool b
  | .int n => exact int n
  | .float x => exact float x
  | .str t => exact str t
  | .arr items =>
    exact arr items fun v _ => induct null bool int float str arr obj v
  | .obj members =>
    exact obj members fun m _ => induct null bool int float str arr obj m.2
termination_by sizeOf v
decreasing_by
  · have := List.sizeOf_lt_of_mem ‹_ ∈ items›
    simp only [Json.arr.sizeOf_spec]
    omega
  · have hm := List.sizeOf_lt_of_mem ‹_ ∈ members›
    obtain ⟨k, u⟩ := m
    simp only [Json.obj.sizeOf_spec, Prod.mk.sizeOf_spec] at hm ⊢
    omega

mutual

def nesting : Json → Nat
  | .arr items => nestingItems items + 1
  | .obj members => nestingMembers members + 1
  | _ => 0

def nestingItems : List Json → Nat
  | [] => 0
  | v :: rest => max (nesting v) (nestingItems rest)

def nestingMembers : List (Text × Json) → Nat
  | [] => 0
  | (_, v) :: rest => max (nesting v) (nestingMembers rest)

end

theorem nesting_le_items {v : Json} {items : List Json} (h : v ∈ items) :
    v.nesting ≤ nestingItems items := by
  induction items with
  | nil => cases h
  | cons w rest ih =>
    rw [nestingItems]
    rcases List.mem_cons.mp h with rfl | h
    · omega
    · have := ih h
      omega

theorem nesting_le_members {m : Text × Json} {members : List (Text × Json)} (h : m ∈ members) :
    m.2.nesting ≤ nestingMembers members := by
  induction members with
  | nil => cases h
  | cons n rest ih =>
    rw [nestingMembers]
    rcases List.mem_cons.mp h with rfl | h
    · omega
    · have := ih h
      omega

theorem isFiniteItems_iff {items : List Json} :
    isFiniteItems items = true ↔ ∀ v ∈ items, v.isFinite = true := by
  induction items with
  | nil => simp [isFiniteItems]
  | cons v rest ih => simp [isFiniteItems, ih]

theorem isFinite_strings (names : List Text) : (Json.arr (names.map .str)).isFinite = true := by
  refine isFiniteItems_iff.mpr ?_
  intro v hv
  obtain ⟨t, -, rfl⟩ := List.mem_map.mp hv
  rfl

theorem isFiniteMembers_iff {members : List (Text × Json)} :
    isFiniteMembers members = true ↔ ∀ m ∈ members, m.2.isFinite = true := by
  induction members with
  | nil => simp [isFiniteMembers]
  | cons m rest ih => simp [isFiniteMembers, ih]

/-! ## Spacing -/

structure Spacing.Lawful (spacing : Spacing) : Prop where
  comma : ∃ n, spacing.comma = "," ++ List.replicate n (' ' : CodePoint)
  colon : ∃ n, spacing.colon = ":" ++ List.replicate n (' ' : CodePoint)

theorem lawful_spaced : spaced.Lawful := ⟨⟨1, rfl⟩, ⟨1, rfl⟩⟩

theorem lawful_compact : compact.Lawful := ⟨⟨0, rfl⟩, ⟨0, rfl⟩⟩

theorem blank_nil : Blank [] := by
  intro c hc
  cases hc

theorem blank_spaces (n : Nat) : Blank (List.replicate n (' ' : CodePoint)) := by
  intro c hc
  rw [List.eq_of_mem_replicate hc]
  exact List.mem_cons_self

/-! ## Written values are in the grammar -/

section

variable {fits : Text → Prop} {spacing : Spacing} {depth : Nat}

theorem items_write (hspacing : spacing.Lawful) {items values : List Json}
    (h : List.Forall₂ (fun v w => Value fits depth (v.write spacing) w) items values)
    (hne : items ≠ []) {before : Text} (hbefore : Blank before) :
    Items fits depth (before ++ writeItems spacing items) values := by
  induction h generalizing before with
  | nil => exact absurd rfl hne
  | cons hv hrest ih =>
    cases hrest with
    | nil =>
      have hitem := Items.last hbefore hv blank_nil
      rw [List.append_nil] at hitem
      exact hitem
    | cons hw hothers =>
      obtain ⟨n, hcomma⟩ := hspacing.comma
      have hitem := Items.cons hbefore hv blank_nil (ih (by simp) (blank_spaces n))
      rw [writeItems, hcomma]
      · simpa only [List.append_assoc, List.append_nil, List.nil_append] using hitem
      · simp

theorem members_write (hspacing : spacing.Lawful) {members values : List (Text × Json)}
    (h : List.Forall₂ (fun m n => n.1 = Utf16.joinPairs m.1 ∧
      Value fits depth (m.2.write spacing) n.2) members values)
    (hne : members ≠ []) {before : Text} (hbefore : Blank before) :
    Members fits depth (before ++ writeMembers spacing members) values := by
  obtain ⟨k, hcolon⟩ := hspacing.colon
  induction h generalizing before with
  | nil => exact absurd rfl hne
  | @cons m n members values hv hrest ih =>
    obtain ⟨key, v⟩ := m
    obtain ⟨name, w⟩ := n
    obtain ⟨rfl, hv⟩ := hv
    have hkey := quoted_writeString key
    cases hrest with
    | nil =>
      have hmember := Members.last hbefore hkey blank_nil (blank_spaces k) hv blank_nil
      rw [writeMembers, hcolon]
      simpa only [List.append_assoc, List.append_nil, List.nil_append] using hmember
    | cons hother hothers =>
      obtain ⟨n, hcomma⟩ := hspacing.comma
      have hmember := Members.cons hbefore hkey blank_nil (blank_spaces k) hv blank_nil
        (ih (by simp) (blank_spaces n))
      rw [writeMembers, hcolon, hcomma]
      · simpa only [List.append_assoc, List.append_nil, List.nil_append] using hmember
      · simp

theorem writeNumber_finite (negative : Bool) (exponent : Fin 2047)
    (fraction : Fin leadingBit) :
    writeNumber (.finite negative exponent fraction) =
      (if negative then ("-" : Text) else []) ++
        (Binary64.shortest exponent fraction).text Decimal.spelling := by
  have hminus : ("-" : Text) = [('-' : CodePoint)] := rfl
  rw [writeNumber, Binary64.text, hminus]
  cases negative with
  | false => simp only [Bool.false_eq_true, if_false, List.nil_append]
  | true => simp only [if_true, List.singleton_append]

theorem value_writeNumber {x : Binary64} (hx : x.isFinite = true) :
    ∃ w, Value fits depth (writeNumber x) w := by
  cases x with
  | finite negative exponent fraction =>
    obtain ⟨d, h⟩ := Decimal.fractional_text Decimal.spelling (Binary64.shortest exponent fraction)
    rw [writeNumber_finite]
    cases negative with
    | false => exact ⟨_, .float .plus h⟩
    | true => exact ⟨_, .float .minus h⟩
  | infinite negative => simp [Binary64.isFinite] at hx
  | nan => simp [Binary64.isFinite] at hx

theorem exists_forall₂ {α β : Type} {R : α → β → Prop} {l : List α} (h : ∀ a ∈ l, ∃ b, R a b) :
    ∃ l', List.Forall₂ R l l' := by
  induction l with
  | nil => exact ⟨[], .nil⟩
  | cons a rest ih =>
    obtain ⟨b, hb⟩ := h a List.mem_cons_self
    obtain ⟨others, hothers⟩ := ih fun c hc => h c (List.mem_cons_of_mem a hc)
    exact ⟨b :: others, .cons hb hothers⟩

/-- A value with no infinity and no not-a-number in it is written as a JSON text. -/
theorem exists_value_write (hfits : ∀ s, fits s) (hspacing : spacing.Lawful) (v : Json)
    (hfinite : v.isFinite = true) (hdepth : v.nesting ≤ depth) :
    ∃ w, Value fits depth (v.write spacing) w := by
  induction v using Json.induct generalizing depth with
  | null => exact ⟨_, .null⟩
  | bool b =>
    cases b with
    | false => exact ⟨_, .no⟩
    | true => exact ⟨_, .yes⟩
  | int n => exact ⟨_, value_ofInt (hfits _) depth⟩
  | float x => exact value_writeNumber hfinite
  | str t => exact ⟨_, .str (quoted_writeString t)⟩
  | arr items ih =>
    obtain ⟨inner, rfl⟩ : ∃ inner, depth = inner + 1 := Nat.exists_eq_add_one.mpr (by
      rw [nesting] at hdepth
      omega)
    by_cases hne : items = []
    · subst hne
      exact ⟨_, .noItems blank_nil⟩
    · have hitems : ∀ v ∈ items, ∃ w, Value fits inner (v.write spacing) w := by
        intro v hv
        have hle := nesting_le_items hv
        rw [nesting] at hdepth
        exact ih v hv (isFiniteItems_iff.mp hfinite v hv) (by omega)
      obtain ⟨values, hvalues⟩ := exists_forall₂ hitems
      exact ⟨_, .arr (items_write hspacing hvalues hne blank_nil)⟩
  | obj members ih =>
    obtain ⟨inner, rfl⟩ : ∃ inner, depth = inner + 1 := Nat.exists_eq_add_one.mpr (by
      rw [nesting] at hdepth
      omega)
    by_cases hne : members = []
    · subst hne
      exact ⟨_, .noMembers blank_nil⟩
    · -- keys are read back with their surrogates joined, so two of them may become one
      have hmembers : ∀ m ∈ members, ∃ n : Text × Json,
          n.1 = Utf16.joinPairs m.1 ∧ Value fits inner (m.2.write spacing) n.2 := by
        intro m hm
        have hle := nesting_le_members hm
        rw [nesting] at hdepth
        obtain ⟨w, hw⟩ : ∃ w, Value fits inner (m.2.write spacing) w :=
          ih m hm (isFiniteMembers_iff.mp hfinite m hm) (by omega)
        exact ⟨(Utf16.joinPairs m.1, w), rfl, hw⟩
      obtain ⟨values, hvalues⟩ := exists_forall₂ hmembers
      exact ⟨_, .obj (members_write hspacing hvalues hne blank_nil) (merged_ofList values)⟩

theorem value_strings (hspacing : spacing.Lawful) (names : List Text) :
    Value fits (depth + 1) ((Json.arr (names.map .str)).write spacing)
      (.arr (names.map fun t => .str (Utf16.joinPairs t))) := by
  by_cases hne : names = []
  · subst hne
    exact .noItems blank_nil
  · have hstrings : List.Forall₂ (fun (v w : Json) => Value fits depth (v.write spacing) w)
        (names.map .str) (names.map fun t => .str (Utf16.joinPairs t)) := by
      rw [List.forall₂_map_left_iff, List.forall₂_map_right_iff, List.forall₂_same]
      intro t _
      exact .str (quoted_writeString t)
    exact .arr (items_write hspacing hstrings (by simpa using hne) blank_nil)

end

end Json

/-! ## Written values are printable -/

def Text.Printable (t : Text) : Prop := ∀ c ∈ t, 0x20 ≤ c.val ∧ c.val ≤ 0x7E

namespace Text

instance (t : Text) : Decidable t.Printable :=
  inferInstanceAs (Decidable (∀ c ∈ t, 0x20 ≤ c.val ∧ c.val ≤ 0x7E))

theorem printable_nil : Printable [] := by
  intro c hc
  cases hc

@[simp] theorem printable_cons {c : CodePoint} {t : Text} :
    Printable (c :: t) ↔ (0x20 ≤ c.val ∧ c.val ≤ 0x7E) ∧ Printable t :=
  List.forall_mem_cons

@[simp] theorem printable_append {s t : Text} :
    Printable (s ++ t) ↔ Printable s ∧ Printable t :=
  List.forall_mem_append

theorem printable_flatMap {f : CodePoint → Text} {t : Text} (h : ∀ c ∈ t, Printable (f c)) :
    Printable (t.flatMap f) := by
  intro c hc
  obtain ⟨d, hd, hc⟩ := List.mem_flatMap.mp hc
  exact h d hd c hc

theorem printable_hex (width n : Nat) : Printable (hex width n) := by
  induction width generalizing n with
  | zero => exact printable_nil
  | succ width ih =>
    rw [hex, printable_append]
    refine ⟨ih (n / 16), ?_⟩
    have hdigit := hexDigit_hexDigit (Nat.mod_lt n (by omega : 16 > 0))
    unfold HexDigit at hdigit
    rw [printable_cons]
    exact ⟨by omega, printable_nil⟩

end Text

open Text

namespace Json.Grammar

theorem Digits.printable {s : Text} (h : Digits s) : s.Printable := by
  intro c hc
  have hdigit := h.all c hc
  unfold IsDigit at hdigit
  omega

theorem Sign.printable {s : Text} {negative : Bool} (h : Sign s negative) : s.Printable := by
  cases h <;> decide

theorem Fraction.printable {s digits : Text} (h : Fraction s digits) : s.Printable := by
  cases h with
  | absent => exact printable_nil
  | digits h => exact printable_append.mpr ⟨by decide, h.printable⟩

theorem Exponent.printable {s : Text} {e : Option Int} (h : Exponent s e) : s.Printable := by
  have hmarks : ∀ mark : Text, mark = "e" ∨ mark = "E" → mark.Printable := by
    rintro mark (rfl | rfl) <;> decide
  cases h with
  | absent => exact printable_nil
  | unsigned hmark h => exact printable_append.mpr ⟨hmarks _ hmark, h.printable⟩
  | plus hmark h =>
    simp only [printable_append]
    exact ⟨⟨hmarks _ hmark, by decide⟩, h.printable⟩
  | minus hmark h =>
    simp only [printable_append]
    exact ⟨⟨hmarks _ hmark, by decide⟩, h.printable⟩

theorem Fractional.printable {s : Text} {d : Decimal} (h : Fractional s d) : s.Printable := by
  cases h with
  | mk hwhole hfraction hexponent =>
    simp only [printable_append]
    exact ⟨⟨hwhole.printable, hfraction.printable⟩, hexponent.printable⟩

end Json.Grammar

namespace Json

theorem printable_unicodeEscape (unit : Nat) : (unicodeEscape unit).Printable := by
  have heq : unicodeEscape unit = "\\u" ++ Text.hex 4 unit := rfl
  rw [heq, printable_append]
  exact ⟨by decide, printable_hex 4 unit⟩

theorem printable_escape (c : CodePoint) : (escape c).Printable := by
  rcases escape_cases c with ⟨heq, hlow, hhigh, -, -⟩ | ⟨e, heq, he⟩ | ⟨heq, -⟩ | ⟨heq, -⟩
  · rw [heq, printable_cons]
    exact ⟨⟨hlow, hhigh⟩, printable_nil⟩
  · have hletters : ∀ p ∈ letters, 0x20 ≤ p.1.val ∧ p.1.val ≤ 0x7E := by decide
    rw [heq, printable_append, printable_cons]
    exact ⟨by decide, hletters _ he, printable_nil⟩
  · rw [heq]
    exact printable_unicodeEscape c.val
  · rw [heq, printable_append]
    exact ⟨printable_unicodeEscape _, printable_unicodeEscape _⟩

theorem printable_writeString (t : Text) : (writeString t).Printable := by
  simp only [writeString, printable_append]
  exact ⟨⟨by decide, printable_flatMap fun c _ => printable_escape c⟩, by decide⟩

theorem printable_writeNumber (x : Binary64) : (writeNumber x).Printable := by
  cases x with
  | finite negative exponent fraction =>
    obtain ⟨d, h⟩ := Decimal.fractional_text Decimal.spelling (Binary64.shortest exponent fraction)
    rw [writeNumber_finite, printable_append]
    refine ⟨?_, h.printable⟩
    cases negative <;> decide
  | infinite negative => cases negative <;> decide
  | nan => decide

theorem Spacing.Lawful.printable {spacing : Spacing} (h : spacing.Lawful) :
    spacing.comma.Printable ∧ spacing.colon.Printable := by
  have hspaces : ∀ n, Text.Printable (List.replicate n (' ' : CodePoint)) := by
    intro n c hc
    rw [List.eq_of_mem_replicate hc]
    decide
  obtain ⟨⟨m, hcomma⟩, ⟨n, hcolon⟩⟩ := h
  rw [hcomma, hcolon, printable_append, printable_append]
  exact ⟨⟨by decide, hspaces m⟩, ⟨by decide, hspaces n⟩⟩

section

variable {spacing : Spacing}

theorem printable_writeItems (hspacing : spacing.Lawful) {items : List Json}
    (h : ∀ v ∈ items, (v.write spacing).Printable) : (writeItems spacing items).Printable := by
  induction items with
  | nil => exact printable_nil
  | cons v rest ih =>
    rw [List.forall_mem_cons] at h
    cases rest with
    | nil => exact h.1
    | cons w others =>
      rw [writeItems, printable_append, printable_append]
      · exact ⟨⟨h.1, hspacing.printable.1⟩, ih h.2⟩
      · simp

theorem printable_writeMembers (hspacing : spacing.Lawful) {members : List (Text × Json)}
    (h : ∀ m ∈ members, (m.2.write spacing).Printable) :
    (writeMembers spacing members).Printable := by
  induction members with
  | nil => exact printable_nil
  | cons m rest ih =>
    obtain ⟨k, v⟩ := m
    rw [List.forall_mem_cons] at h
    have hmember : (writeString k ++ spacing.colon ++ v.write spacing).Printable := by
      simp only [printable_append]
      exact ⟨⟨printable_writeString k, hspacing.printable.2⟩, h.1⟩
    cases rest with
    | nil => exact hmember
    | cons w others =>
      rw [writeMembers, printable_append, printable_append]
      · exact ⟨⟨hmember, hspacing.printable.1⟩, ih h.2⟩
      · simp

/-- Every value is written in printable ASCII, infinities and not-a-number included. -/
theorem printable_write (hspacing : spacing.Lawful) (v : Json) : (v.write spacing).Printable := by
  induction v using Json.induct with
  | null =>
    rw [write]
    decide
  | bool b =>
    cases b <;> rw [write] <;> decide
  | int n =>
    cases n with
    | ofNat n => exact (Text.digits_ofNat n).printable
    | negSucc n => exact printable_cons.mpr ⟨by decide, (Text.digits_ofNat (n + 1)).printable⟩
  | float x => exact printable_writeNumber x
  | str t => exact printable_writeString t
  | arr items ih =>
    simp only [write, printable_append]
    exact ⟨⟨by decide, printable_writeItems hspacing ih⟩, by decide⟩
  | obj members ih =>
    simp only [write, printable_append]
    exact ⟨⟨by decide, printable_writeMembers hspacing ih⟩, by decide⟩

end

end Json

end ScriptDepot
