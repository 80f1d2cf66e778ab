import ScriptDepot.Json
import ScriptDepot.Ledger
/-!
# The grammar of JSON texts

The rules by which a text spells a value, written without regard to how texts are read or written
here.  White space may stand around every value; a string may hold any code point from U+0020 on but
for the quote and the backslash; numbers have no leading zeros.  Two escapes that spell a high and a
low surrogate side by side stand for one code point.  A repeated key stands once, where it first
comes, with its last value.

One thing is taken from the program and not said again here: a number with a fraction or an exponent
stands for the double that `Binary64.ofDecimal` makes of its decimal.
-/

namespace ScriptDepot

namespace Json

namespace Grammar

def Blank (s : Text) : Prop := ∀ c ∈ s, c ∈ ([' ', '\t', '\n', '\r'] : List CodePoint)

/-! ## Numbers -/

def IsDigit (c : CodePoint) : Prop := 0x30 ≤ c.val ∧ c.val ≤ 0x39

structure Digits (s : Text) : Prop where
  nonempty : s ≠ []
  all : ∀ c ∈ s, IsDigit c

def number (s : Text) : Nat := s.foldl (fun n c => 10 * n + (c.val - 0x30)) 0

/-- The digits before the point: they start with a zero only when that is all. -/
structure Whole (s : Text) : Prop extends Digits s where
  leading : s.head? = some ('0' : CodePoint) → s = ("0" : Text)

inductive Sign : Text → Bool → Prop
  | plus : Sign [] false
  | minus : Sign "-" true

inductive Fraction : Text → Text → Prop
  | absent : Fraction [] []
  | digits {s : Text} (h : Digits s) : Fraction ("." ++ s) s

inductive Exponent : Text → Option Int → Prop
  | absent : Exponent [] none
  | unsigned {mark s : Text} (hmark : mark = "e" ∨ mark = "E") (h : Digits s) :
      Exponent (mark ++ s) (some (number s))
  | plus {mark s : Text} (hmark : mark = "e" ∨ mark = "E") (h : Digits s) :
      Exponent (mark ++ "+" ++ s) (some (number s))
  | minus {mark s : Text} (hmark : mark = "e" ∨ mark = "E") (h : Digits s) :
      Exponent (mark ++ "-" ++ s) (some (-number s))

inductive Fractional : Text → Decimal → Prop
  | mk {whole fraction digits exponent : Text} {e : Option Int} (hwhole : Whole whole)
      (hfraction : Fraction fraction digits) (hexponent : Exponent exponent e)
      (hsome : fraction ≠ [] ∨ exponent ≠ []) :
      Fractional (whole ++ fraction ++ exponent)
        ⟨number (whole ++ digits), e.getD 0 - digits.length⟩

/-! ## Strings -/

def HexDigit (c : CodePoint) (d : Nat) : Prop :=
  (d < 10 ∧ c.val = 0x30 + d) ∨ (10 ≤ d ∧ d < 16 ∧ (c.val = 0x57 + d ∨ c.val = 0x37 + d))

/-- `\u` with four hexadecimal digits, and the code point of that number. -/
inductive Numbered : Text → CodePoint → Prop
  | mk {w x y z p : CodePoint} {i j k l : Nat} (hw : HexDigit w i) (hx : HexDigit x j)
      (hy : HexDigit y k) (hz : HexDigit z l)
      (hp : p.val = 0x1000 * i + 0x100 * j + 0x10 * k + l) : Numbered ("\\u" ++ [w, x, y, z]) p

def letters : List (CodePoint × CodePoint) :=
  [('"', '"'), ('\\', '\\'), ('/', '/'), ('b', '\x08'), ('f', '\x0C'), ('n', '\n'), ('r', '\r'),
    ('t', '\t')]

def IsHigh (c : CodePoint) : Prop := 0xD800 ≤ c.val ∧ c.val ≤ 0xDBFF

def IsLow (c : CodePoint) : Prop := 0xDC00 ≤ c.val ∧ c.val ≤ 0xDFFF

/-- A high and a low surrogate, and the code point above U+FFFF whose ten upper and ten lower bits
they carry. -/
structure Pair (high low c : CodePoint) : Prop where
  first : IsHigh high
  second : IsLow low
  val : c.val = 0x10000 + 0x400 * (high.val - 0xD800) + (low.val - 0xDC00)

def StartsLow (s : Text) : Prop :=
  ∃ escape rest low, Numbered escape low ∧ IsLow low ∧ s = escape ++ rest

/-- What stands between the quotes of a string, and the text that it spells. -/
inductive Chars : Text → Text → Prop
  | nil : Chars [] []
  | raw {c : CodePoint} {s t : Text} (hc : 0x20 ≤ c.val) (hquote : c ≠ '"') (hslash : c ≠ '\\')
      (h : Chars s t) : Chars (c :: s) (c :: t)
  | letter {e c : CodePoint} {s t : Text} (he : (e, c) ∈ letters) (h : Chars s t) :
      Chars ("\\" ++ [e] ++ s) (c :: t)
  | pair {first second : Text} {high low c : CodePoint} {s t : Text} (hfirst : Numbered first high)
      (hsecond : Numbered second low) (hpair : Pair high low c) (h : Chars s t) :
      Chars (first ++ second ++ s) (c :: t)
  | numbered {escape : Text} {c : CodePoint} {s t : Text} (hescape : Numbered escape c)
      (halone : IsHigh c → ¬ StartsLow s) (h : Chars s t) : Chars (escape ++ s) (c :: t)

inductive Quoted : Text → Text → Prop
  | mk {s t : Text} (h : Chars s t) : Quoted ("\"" ++ s ++ "\"") t

/-! ## Values -/

def IsLast (members : List (Text × Json)) (m : Text × Json) : Prop :=
  ∃ before behind, members = before ++ m :: behind ∧ m.1 ∉ behind.map Prod.fst

/-- The entries of an object that is written with these members: each key once, in the order in
which the keys first come, with the value that it comes with last. -/
structure Merged (members entries : List (Text × Json)) : Prop where
  keys : entries.map Prod.fst = (members.map Prod.fst).eraseDups
  last : ∀ m ∈ entries, IsLast members m

mutual

/-- `Value fits depth s v` says that `s` spells `v`, where arrays and objects nest at most `depth`
deep and the digits of every integer satisfy `fits`. -/
inductive Value (fits : Text → Prop) : Nat → Text → Json → Prop
  | null {depth : Nat} : Value fits depth "null" .null
  | yes {depth : Nat} : Value fits depth "true" (.bool true)
  | no {depth : Nat} : Value fits depth "false" (.bool false)
  | int {depth : Nat} {sign s : Text} {negative : Bool} (hsign : Sign sign negative)
      (h : Whole s) (hfits : fits s) :
      Value fits depth (sign ++ s) (.int (if negative then -number s else number s))
  | float {depth : Nat} {sign s : Text} {negative : Bool} {d : Decimal}
      (hsign : Sign sign negative) (h : Fractional s d) :
      Value fits depth (sign ++ s) (.float (Binary64.ofDecimal negative d))
  | str {depth : Nat} {s t : Text} (h : Quoted s t) : Value fits depth s (.str t)
  | noItems {depth : Nat} {blank : Text} (h : Blank blank) :
      Value fits (depth + 1) ("[" ++ blank ++ "]") (.arr [])
  | arr {depth : Nat} {s : Text} {items : List Json} (h : Items fits depth s items) :
      Value fits (depth + 1) ("[" ++ s ++ "]") (.arr items)
  | noMembers {depth : Nat} {blank : Text} (h : Blank blank) :
      Value fits (depth + 1) ("\x7b" ++ blank ++ "\x7d") (.obj [])
  | obj {depth : Nat} {s : Text} {members entries : List (Text × Json)}
      (h : Members fits depth s members) (hmerged : Merged members entries) :
      Value fits (depth + 1) ("\x7b" ++ s ++ "\x7d") (.obj entries)

inductive Items (fits : Text → Prop) : Nat → Text → List Json → Prop
  | last {depth : Nat} {before s behind : Text} {v : Json} (hbefore : Blank before)
      (h : Value fits depth s v) (hbehind : Blank behind) :
      Items fits depth (before ++ s ++ behind) [v]
  | cons {depth : Nat} {before s behind rest : Text} {v : Json} {others : List Json}
      (hbefore : Blank before) (h : Value fits depth s v) (hbehind : Blank behind)
      (hrest : Items fits depth rest others) :
      Items fits depth (before ++ s ++ behind ++ "," ++ rest) (v :: others)

inductive Members (fits : Text → Prop) : Nat → Text → List (Text × Json) → Prop
  | last {depth : Nat} {before key between colon s behind k : Text} {v : Json}
      (hbefore : Blank before) (hkey : Quoted key k) (hbetween : Blank between)
      (hcolon : Blank colon) (h : Value fits depth s v) (hbehind : Blank behind) :
      Members fits depth (before ++ key ++ between ++ ":" ++ colon ++ s ++ behind) [(k, v)]
  | cons {depth : Nat} {before key between colon s behind rest k : Text} {v : Json}
      {others : List (Text × Json)} (hbefore : Blank before) (hkey : Quoted key k)
      (hbetween : Blank between) (hcolon : Blank colon) (h : Value fits depth s v)
      (hbehind : Blank behind) (hrest : Members fits depth rest others) :
      Members fits depth
        (before ++ key ++ between ++ ":" ++ colon ++ s ++ behind ++ "," ++ rest)
        ((k, v) :: others)

end

inductive Document (fits : Text → Prop) (depth : Nat) : Text → Json → Prop
  | mk {before s behind : Text} {v : Json} (hbefore : Blank before) (h : Value fits depth s v)
      (hbehind : Blank behind) : Document fits depth (before ++ s ++ behind) v

/-! ## Repeated keys

Members have exactly one list of entries: what is left of them when they are put one after another
into an empty mapping. -/

variable {members entries : List (Text × Json)}

theorem IsLast.mem {m : Text × Json} (h : IsLast members m) : m ∈ members := by
  obtain ⟨before, behind, rfl, -⟩ := h
  exact List.mem_append_right before List.mem_cons_self

theorem IsLast.unique {k : Text} {v w : Json} (hv : IsLast members (k, v))
    (hw : IsLast members (k, w)) : v = w := by
  -- of two different places with the same key, the one in front is not the last
  have hplace : ∀ {x y : Json} {c behind later : List (Text × Json)},
      (k, x) :: behind = c ++ (k, y) :: later → k ∉ behind.map Prod.fst → x = y := by
    intro x y c behind later heq hbehind
    cases c with
    | nil =>
      cases heq
      rfl
    | cons m c =>
      refine absurd ?_ hbehind
      rw [(List.cons.inj heq).2]
      simp
  obtain ⟨before, behind, rfl, hbehind⟩ := hv
  obtain ⟨before', behind', heq, hbehind'⟩ := hw
  rcases List.append_eq_append_iff.mp heq with ⟨c, -, hc⟩ | ⟨c, -, hc⟩
  · exact hplace hc hbehind
  · exact (hplace hc hbehind').symm

theorem Merged.put (h : Merged members entries) (hnodup : (Assoc.keys entries).Nodup) (k : Text)
    (v : Json) : Merged (members ++ [(k, v)]) (Assoc.put k v entries) := by
  have hmem : k ∈ Assoc.keys entries ↔ k ∈ members.map Prod.fst := by
    rw [Assoc.keys, h.keys, List.mem_eraseDups]
  constructor
  · rw [List.map_append, List.eraseDups_append, ← h.keys]
    by_cases hk : k ∈ Assoc.keys entries
    · have hold : ([k] : List Text).removeAll (members.map Prod.fst) = [] := by
        rw [List.cons_removeAll, List.contains_iff_mem.mpr (hmem.mp hk)]
        rfl
      rw [List.map_singleton, hold, List.eraseDups_nil, List.append_nil]
      exact Assoc.keys_put_of_mem hk
    · have hnew : ([k] : List Text).removeAll (members.map Prod.fst) = [k] := by
        rw [List.cons_removeAll, if_pos]
        · rfl
        · simpa using fun w hw => hk (hmem.mpr (List.mem_map_of_mem hw))
      rw [List.map_singleton, hnew]
      exact Assoc.keys_put_of_not_mem hk
  · intro m hm
    rcases Assoc.mem_put hnodup hm with rfl | ⟨hold, hne⟩
    · exact ⟨members, [], rfl, List.not_mem_nil⟩
    · obtain ⟨before, behind, rfl, hbehind⟩ := h.last m hold
      refine ⟨before, behind ++ [(k, v)], by simp, ?_⟩
      rw [List.map_append, List.mem_append, not_or]
      exact ⟨hbehind, by simpa using hne⟩

/-- What one member adds to the members before it, carried on to all that follow. -/
theorem Merged.foldl {before : List (Text × Json)} {ledger : Ledger Text Json}
    (h : Merged before ledger.entries) (members : List (Text × Json)) :
    Merged (before ++ members) (members.foldl (fun l (k, v) => l.put k v) ledger).entries := by
  induction members generalizing before ledger with
  | nil =>
    rw [List.append_nil]
    exact h
  | cons m others ih =>
    have hput : Merged (before ++ [m]) (ledger.put m.1 m.2).entries := h.put ledger.nodup m.1 m.2
    have hall := ih hput
    rw [List.append_assoc] at hall
    exact hall

theorem merged_ofList (members : List (Text × Json)) :
    Merged members (Ledger.ofList members).entries := by
  have hempty : Merged [] (Ledger.empty : Ledger Text Json).entries :=
    ⟨rfl, fun m hm => nomatch hm⟩
  exact hempty.foldl members

theorem eq_of_isLast {others : List (Text × Json)}
    (hkeys : entries.map Prod.fst = others.map Prod.fst)
    (hentries : ∀ m ∈ entries, IsLast members m)
    (hothers : ∀ m ∈ others, IsLast members m) : entries = others := by
  induction entries generalizing others with
  | nil => exact (List.map_eq_nil_iff.mp hkeys.symm).symm
  | cons entry entries ih =>
    cases others with
    | nil => cases hkeys
    | cons other others =>
      obtain ⟨k, v⟩ := entry
      obtain ⟨k', w⟩ := other
      obtain ⟨rfl, hrest⟩ := List.cons.inj hkeys
      have hvalue := (hentries _ List.mem_cons_self).unique (hothers _ List.mem_cons_self)
      rw [hvalue, ih hrest (fun m hm => hentries m (List.mem_cons_of_mem _ hm))
        fun m hm => hothers m (List.mem_cons_of_mem _ hm)]

theorem merged_iff : Merged members entries ↔ entries = (Ledger.ofList members).entries := by
  have hmerged := merged_ofList members
  constructor
  · intro h
    exact eq_of_isLast (h.keys.trans hmerged.keys.symm) h.last hmerged.last
  · rintro rfl
    exact hmerged

theorem merged_self (h : (Assoc.keys members).Nodup) : Merged members members :=
  merged_iff.mpr (Ledger.entries_ofList h).symm

theorem Merged.nodup (h : Merged members entries) : (Assoc.keys entries).Nodup := by
  rw [merged_iff.mp h]
  exact Ledger.nodup _

end Grammar

end Json

end ScriptDepot
