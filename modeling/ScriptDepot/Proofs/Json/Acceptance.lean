import ScriptDepot.Proofs.Json.Reading
import ScriptDepot.Proofs.Json.Within
/-!
# Strict JSON, and nothing else, is accepted

Besides the texts that are read, the grammar tells why some are not.  Wherever everything so far is
spelled out and a value is due, a bracket that opens one level too many ends the reading, and so
does a name such as `NaN`; neither is reported in any other case.
-/

namespace ScriptDepot

open Json.Grammar

namespace Json.Grammar

/-! ## Places where a value is due -/

/-- `ItemDue fits depth s rest`: behind an opening bracket, `s` spells out items and commas up to
`rest`, where an item is due. -/
inductive ItemDue (fits : Text → Prop) (depth : Nat) : Text → Text → Prop
  | first {before rest : Text} (hbefore : Blank before) : ItemDue fits depth (before ++ rest) rest
  | later {before s behind tail rest : Text} {v : Json} (hbefore : Blank before)
      (h : Value fits depth s v) (hbehind : Blank behind) (hdue : ItemDue fits depth tail rest) :
      ItemDue fits depth (before ++ s ++ behind ++ "," ++ tail) rest

inductive MemberDue (fits : Text → Prop) (depth : Nat) : Text → Text → Prop
  | first {before key between colon rest k : Text} (hbefore : Blank before) (hkey : Quoted key k)
      (hbetween : Blank between) (hcolon : Blank colon) :
      MemberDue fits depth (before ++ key ++ between ++ ":" ++ colon ++ rest) rest
  | later {before key between colon s behind tail rest k : Text} {v : Json}
      (hbefore : Blank before) (hkey : Quoted key k) (hbetween : Blank between)
      (hcolon : Blank colon) (h : Value fits depth s v) (hbehind : Blank behind)
      (hdue : MemberDue fits depth tail rest) :
      MemberDue fits depth
        (before ++ key ++ between ++ ":" ++ colon ++ s ++ behind ++ "," ++ tail) rest

/-- `ValueDue fits depth s inner rest`: where a value that nests at most `depth` deep starts, `s`
spells everything out up to `rest`, where a value is due that nests at most `inner` deep. -/
inductive ValueDue (fits : Text → Prop) : Nat → Text → Nat → Text → Prop
  | here {depth : Nat} {s : Text} : ValueDue fits depth s depth s
  | item {depth inner : Nat} {s middle rest : Text} (h : ItemDue fits depth s middle)
      (hdue : ValueDue fits depth middle inner rest) :
      ValueDue fits (depth + 1) ("[" ++ s) inner rest
  | member {depth inner : Nat} {s middle rest : Text} (h : MemberDue fits depth s middle)
      (hdue : ValueDue fits depth middle inner rest) :
      ValueDue fits (depth + 1) ("\x7b" ++ s) inner rest

inductive Due (fits : Text → Prop) (depth : Nat) : Text → Nat → Text → Prop
  | mk {before s rest : Text} {inner : Nat} (hbefore : Blank before)
      (h : ValueDue fits depth s inner rest) : Due fits depth (before ++ s) inner rest

section

variable {fits : Text → Prop} {depth : Nat}

theorem ItemDue.blank_append {blank s rest : Text} (hblank : Blank blank)
    (h : ItemDue fits depth s rest) : ItemDue fits depth (blank ++ s) rest := by
  cases h with
  | first hbefore =>
    rw [← List.append_assoc]
    exact .first (Reader.blank_append hblank hbefore)
  | later hbefore hvalue hbehind hdue =>
    simp only [← List.append_assoc]
    exact .later (Reader.blank_append hblank hbefore) hvalue hbehind hdue

theorem MemberDue.blank_append {blank s rest : Text} (hblank : Blank blank)
    (h : MemberDue fits depth s rest) : MemberDue fits depth (blank ++ s) rest := by
  cases h with
  | first hbefore hkey hbetween hcolon =>
    simp only [← List.append_assoc]
    exact .first (Reader.blank_append hblank hbefore) hkey hbetween hcolon
  | later hbefore hkey hbetween hcolon hvalue hbehind hdue =>
    simp only [← List.append_assoc]
    exact .later (Reader.blank_append hblank hbefore) hkey hbetween hcolon hvalue hbehind hdue

theorem ItemDue.length_le {s rest : Text} (h : ItemDue fits depth s rest) :
    rest.length ≤ s.length := by
  induction h with
  | first => simp only [List.length_append]; omega
  | later _ _ _ _ ih => simp only [List.length_append]; omega

theorem MemberDue.length_le {s rest : Text} (h : MemberDue fits depth s rest) :
    rest.length ≤ s.length := by
  induction h with
  | first => simp only [List.length_append]; omega
  | later _ _ _ _ _ _ _ ih => simp only [List.length_append]; omega

theorem Items.exists_due {s : Text} {items : List Json} (h : Items fits depth s items) {v : Json}
    (hv : v ∈ items) {rest : Text} (hrest : Reader.Ends rest) :
    ∃ t tail, ItemDue fits depth (s ++ rest) (t ++ tail) ∧ Value fits depth t v ∧
      Reader.Ends tail := by
  induction items generalizing s with
  | nil => cases hv
  | cons w others ih =>
    cases h with
    | @last _ before t behind _ hbefore hvalue hbehind =>
      obtain rfl := List.mem_singleton.mp hv
      simp only [List.append_assoc]
      exact ⟨t, behind ++ rest, .first hbefore, hvalue, Reader.ends_blank hbehind hrest⟩
    | @cons _ before t behind tail _ _ hbefore hvalue hbehind htail =>
      simp only [List.append_assoc]
      rcases List.mem_cons.mp hv with rfl | hv
      · have hclosed := Reader.closes hbehind (c := ',') (by decide) (tail ++ rest)
        exact ⟨t, _, .first hbefore, hvalue, hclosed.1⟩
      · obtain ⟨u, tail', hdue, hu, hends⟩ := ih htail hv
        refine ⟨u, tail', ?_, hu, hends⟩
        have hlater := ItemDue.later hbefore hvalue hbehind hdue
        simpa only [List.append_assoc] using hlater

theorem Members.exists_due {s : Text} {members : List (Text × Json)}
    (h : Members fits depth s members) {m : Text × Json} (hm : m ∈ members) {rest : Text}
    (hrest : Reader.Ends rest) :
    ∃ t tail, MemberDue fits depth (s ++ rest) (t ++ tail) ∧ Value fits depth t m.2 ∧
      Reader.Ends tail := by
  induction members generalizing s with
  | nil => cases hm
  | cons n others ih =>
    cases h with
    | @last _ before key between colon t behind k v hbefore hkey hbetween hcolon hvalue hbehind =>
      obtain rfl := List.mem_singleton.mp hm
      have hfirst : MemberDue fits depth
          (before ++ key ++ between ++ ":" ++ colon ++ (t ++ (behind ++ rest)))
          (t ++ (behind ++ rest)) := .first hbefore hkey hbetween hcolon
      refine ⟨t, behind ++ rest, ?_, hvalue, Reader.ends_blank hbehind hrest⟩
      simpa only [List.append_assoc] using hfirst
    | @cons _ before key between colon t behind tail k v _ hbefore hkey hbetween hcolon hvalue
        hbehind htail =>
      rcases List.mem_cons.mp hm with rfl | hm
      · have hclosed := Reader.closes hbehind (c := ',') (by decide) (tail ++ rest)
        have hfirst : MemberDue fits depth
            (before ++ key ++ between ++ ":" ++ colon ++ (t ++ (behind ++ ("," ++ (tail ++ rest)))))
            (t ++ (behind ++ ("," ++ (tail ++ rest)))) := .first hbefore hkey hbetween hcolon
        refine ⟨t, behind ++ ("," ++ (tail ++ rest)), ?_, hvalue, hclosed.1⟩
        simpa only [List.append_assoc] using hfirst
      · obtain ⟨u, tail', hdue, hu, hends⟩ := ih htail hm
        refine ⟨u, tail', ?_, hu, hends⟩
        have hlater := MemberDue.later hbefore hkey hbetween hcolon hvalue hbehind hdue
        simpa only [List.append_assoc] using hlater

/-- Every value that occurs in a value stands in its text at a place where a value is due. -/
theorem Value.exists_due {s : Text} {v w : Json} (h : Value fits depth s v) (hw : Within w v)
    {rest : Text} (hrest : Reader.Ends rest) :
    ∃ inner t tail, ValueDue fits depth (s ++ rest) inner (t ++ tail) ∧ Value fits inner t w ∧
      Reader.Ends tail := by
  induction depth generalizing s v rest with
  | zero =>
    cases hw with
    | self => exact ⟨0, s, rest, .here, h, hrest⟩
    | item | member => cases h
  | succ depth ih =>
    cases hw with
    | self => exact ⟨depth + 1, s, rest, .here, h, hrest⟩
    | item hmem hw =>
      cases h with
      | noItems => cases hmem
      | arr hitems =>
        have hclosed := Reader.closes blank_nil (c := ']') (by decide) rest
        obtain ⟨t, tail, hdue, ht, htail⟩ := hitems.exists_due hmem hclosed.1
        obtain ⟨inner, u, tail', hinner, hu, hends⟩ := ih ht hw htail
        rw [List.append_assoc, List.append_assoc]
        exact ⟨inner, u, tail', .item hdue hinner, hu, hends⟩
    | member hmem hw =>
      cases h with
      | noMembers => cases hmem
      | obj hmembers hmerged =>
        have hclosed := Reader.closes blank_nil (c := '}') (by decide) rest
        obtain ⟨t, tail, hdue, ht, htail⟩ :=
          hmembers.exists_due (hmerged.last _ hmem).mem hclosed.1
        obtain ⟨inner, u, tail', hinner, hu, hends⟩ := ih ht hw htail
        rw [List.append_assoc, List.append_assoc]
        exact ⟨inner, u, tail', .member hdue hinner, hu, hends⟩

theorem Value.distinct {s : Text} {v : Json} (h : Value fits depth s v) : v.Distinct := by
  intro members hmembers
  obtain ⟨inner, t, tail, -, ht, -⟩ := h.exists_due hmembers Reader.ends_nil
  cases ht with
  | noMembers => exact List.nodup_nil
  | obj _ hmerged => exact hmerged.nodup

end

end Json.Grammar

namespace Json.Reader

/-! ## Reading up to such a place -/

def Starts (s : Text) : Prop :=
  ∃ c rest, s = c :: rest ∧ isSpace c = false ∧ c ≠ ']' ∧ c.val ≠ 0xFEFF

theorem skip_starts {s : Text} (h : Starts s) : skip s = s := by
  obtain ⟨c, rest, rfl, hc, -, -⟩ := h
  exact skip_cons hc rest

theorem starts_value {fits : Text → Prop} {depth : Nat} {s : Text} {v : Json}
    (h : Value fits depth s v) (rest : Text) : Starts (s ++ rest) := by
  obtain ⟨c, tail, rfl, hc⟩ := h.exists_cons
  refine ⟨c, tail ++ rest, rfl, hc.not_space, hc.ne (by decide) (by decide), ?_⟩
  intro hmark
  exact hc.ne (d := ⟨0xFEFF, by decide⟩) (by decide) (by decide) (CodePoint.ext hmark)

theorem ValueDue.starts {fits : Text → Prop} {depth inner : Nat} {s rest : Text}
    (h : ValueDue fits depth s inner rest) (hrest : Starts rest) : Starts s := by
  cases h with
  | here => exact hrest
  | item => exact ⟨'[', _, rfl, by decide, by decide, by decide⟩
  | member => exact ⟨'{', _, rfl, by decide, by decide, by decide⟩

section

variable {item : Text → Result Json} {rounds depth : Nat} {stop : Stop} {s rest : Text}

theorem items_of_due (hitem : Reads item rounds depth) (h : ItemDue Short depth s rest)
    (hrest : Starts rest) (hstop : item rest = .error stop) (hrounds : s.length < rounds) {n : Nat}
    (hn : s.length < n) : items item n (skip s) = .error stop ∧ Starts (skip s) := by
  induction h generalizing n with
  | @first before rest hbefore =>
    obtain ⟨n, rfl⟩ : ∃ m, n = m + 1 := Nat.exists_eq_add_one.mpr (by omega)
    rw [skip_append hbefore, skip_starts hrest, items]
    simp only [hstop]
    exact ⟨trivial, hrest⟩
  | @later before t behind tail rest v hbefore hvalue hbehind hdue ih =>
    obtain ⟨n, rfl⟩ : ∃ m, n = m + 1 := Nat.exists_eq_add_one.mpr (by omega)
    have hcomma : ("," : Text).length = 1 := rfl
    simp only [List.length_append, hcomma] at hrounds hn
    have hclosed := closes hbehind (c := ',') (by decide) tail
    have hothers := ih hrest hstop (by omega) (n := n) (by omega)
    simp only [List.append_assoc]
    rw [skip_append hbefore, skip_value hvalue]
    refine ⟨(items_more (hitem.complete hvalue hclosed.1 (by omega)) hclosed.2).trans ?_,
      starts_value hvalue _⟩
    exact map_eq_error.mpr hothers.1

theorem members_of_due (hitem : Reads item rounds depth) (h : MemberDue Short depth s rest)
    (hrest : Starts rest) (hstop : item rest = .error stop) (hrounds : s.length < rounds) {n : Nat}
    (hn : s.length < n) :
    members item n (skip s) = .error stop ∧ ∃ tail, skip s = ('"' : CodePoint) :: tail := by
  induction h generalizing n with
  | @first before name between colon rest k hbefore hname hbetween hcolon =>
    obtain ⟨n, rfl⟩ : ∃ m, n = m + 1 := Nat.exists_eq_add_one.mpr (by omega)
    have hkey := key_append hname hbetween hcolon rest
    rw [skip_starts hrest] at hkey
    simp only [List.append_assoc]
    rw [skip_append hbefore, skip_quoted hname, members]
    simp only [hkey, hstop]
    obtain ⟨tail, rfl⟩ := exists_cons_quoted hname
    exact ⟨trivial, _, rfl⟩
  | @later before name between colon t behind tail rest k v hbefore hname hbetween hcolon hvalue
      hbehind hdue ih =>
    obtain ⟨n, rfl⟩ : ∃ m, n = m + 1 := Nat.exists_eq_add_one.mpr (by omega)
    have hcomma : ("," : Text).length = 1 := rfl
    simp only [List.length_append, hcomma] at hrounds hn
    have hclosed := closes hbehind (c := ',') (by decide) tail
    have hkey := key_append hname hbetween hcolon (t ++ (behind ++ (',' : CodePoint) :: tail))
    rw [skip_value hvalue] at hkey
    have hothers := ih hrest hstop (by omega) (n := n) (by omega)
    simp only [List.append_assoc]
    rw [skip_append hbefore, skip_quoted hname]
    refine ⟨(members_more hkey (hitem.complete hvalue hclosed.1 (by omega)) hclosed.2).trans ?_, ?_⟩
    · exact map_eq_error.mpr hothers.1
    · obtain ⟨tail', rfl⟩ := exists_cons_quoted hname
      exact ⟨_, rfl⟩

/-- Whatever stops the reading at a place where a value is due stops the whole reading. -/
theorem value_of_due {inner : Nat} (h : ValueDue Short depth s inner rest) (hrest : Starts rest)
    (hstop : value .refuse rounds inner rest = .error stop) (hrounds : s.length < rounds) :
    value .refuse rounds depth s = .error stop := by
  induction h with
  | here => exact hstop
  | @item depth inner s middle rest hitem hdue ih =>
    rw [List.length_append] at hrounds
    have hlength := hitem.length_le
    have hmiddle := ih hrest hstop (by omega)
    obtain ⟨hitems, c, tail, hskip, -, hclose, -⟩ := items_of_due (reads_value rounds depth) hitem
      (ValueDue.starts hdue hrest) hmiddle (by omega) (n := rounds) (by omega)
    have harray : array (value .refuse rounds depth) rounds s = .error stop := by
      simp only [array, hitems]
      simp only [hskip, eat?, if_neg hclose, Result.map]
    exact harray
  | @member depth inner s middle rest hmember hdue ih =>
    rw [List.length_append] at hrounds
    have hlength := hmember.length_le
    have hmiddle := ih hrest hstop (by omega)
    obtain ⟨hmembers, tail, hskip⟩ := members_of_due (reads_value rounds depth) hmember
      (ValueDue.starts hdue hrest) hmiddle (by omega) (n := rounds) (by omega)
    have hclose : ('"' : CodePoint) ≠ '}' := by decide
    have hobject : object (value .refuse rounds depth) rounds s = .error stop := by
      simp only [object, hmembers]
      simp only [hskip, eat?, if_neg hclose, Result.map]
    exact hobject

/-! ## Why the reading stopped -/

def IsMistake (stop : Stop) : Prop := ∃ mistake rest, stop = .mistake mistake rest

theorem length_skip_le (s : Text) : (skip s).length ≤ s.length :=
  List.length_dropWhile_le isSpace s

theorem items_eq_error (hitem : Reads item rounds depth) {n : Nat}
    (h : items item n s = .error stop) (hn : s.length < n) :
    IsMistake stop ∨ ∃ rest, ItemDue Short depth s rest ∧ item rest = .error stop := by
  induction n generalizing s with
  | zero => omega
  | succ n ih =>
    rw [items] at h
    split at h
    · rename_i stop' hstop
      cases h
      exact .inr ⟨s, ItemDue.first blank_nil, hstop⟩
    rename_i v tail hv
    obtain ⟨t, rfl, hvalue⟩ := hitem.sound hv
    obtain ⟨behind, hbehind, htail⟩ := exists_skip tail
    split at h
    · cases h
      exact .inl ⟨_, _, rfl⟩
    rename_i c tail' hskip
    rw [hskip] at htail
    split at h
    · cases h
    split at h
    · rename_i hc
      subst hc
      split at h
      · rename_i stop' hstop
        cases h
        obtain ⟨blank, hblank, htail'⟩ := exists_skip tail'
        have hlength : (skip tail').length < n := by
          have := length_skip_le tail'
          rw [htail] at hn
          simp only [List.length_append, List.length_cons] at hn
          omega
        rcases ih hstop hlength with hmistake | ⟨rest, hdue, hstop⟩
        · exact .inl hmistake
        · refine .inr ⟨rest, ?_, hstop⟩
          have hlater := ItemDue.later blank_nil hvalue hbehind (hdue.blank_append hblank)
          rw [← htail', List.nil_append] at hlater
          rw [htail]
          simp only [List.append_assoc] at hlater ⊢
          exact hlater
      · cases h
    · cases h
      exact .inl ⟨_, _, rfl⟩

theorem members_eq_error (hitem : Reads item rounds depth) {n : Nat}
    (h : members item n s = .error stop) (hn : s.length < n) :
    IsMistake stop ∨ ∃ rest, MemberDue Short depth s rest ∧ item rest = .error stop := by
  induction n generalizing s with
  | zero => omega
  | succ n ih =>
    rw [members] at h
    split at h
    · rename_i stop' hstop
      cases h
      exact .inl (key_eq_error hstop)
    rename_i k middle hk
    obtain ⟨name, between, colon, hname, hbetween, hcolon, rfl⟩ := key_sound hk
    split at h
    · rename_i stop' hstop
      cases h
      exact .inr ⟨middle, MemberDue.first blank_nil hname hbetween hcolon, hstop⟩
    rename_i v tail hv
    obtain ⟨t, rfl, hvalue⟩ := hitem.sound hv
    obtain ⟨behind, hbehind, htail⟩ := exists_skip tail
    split at h
    · cases h
      exact .inl ⟨_, _, rfl⟩
    rename_i c tail' hskip
    rw [hskip] at htail
    split at h
    · cases h
    split at h
    · rename_i hc
      subst hc
      split at h
      · rename_i stop' hstop
        cases h
        obtain ⟨blank, hblank, htail'⟩ := exists_skip tail'
        have hlength : (skip tail').length < n := by
          have := length_skip_le tail'
          rw [htail] at hn
          simp only [List.length_append, List.length_cons] at hn
          omega
        rcases ih hstop hlength with hmistake | ⟨rest, hdue, hstop⟩
        · exact .inl hmistake
        · refine .inr ⟨rest, ?_, hstop⟩
          have hlater := MemberDue.later blank_nil hname hbetween hcolon hvalue hbehind
            (hdue.blank_append hblank)
          rw [← htail', List.nil_append] at hlater
          rw [htail]
          simp only [List.append_assoc] at hlater ⊢
          exact hlater
      · cases h
    · cases h
      exact .inl ⟨_, _, rfl⟩

/-- Reading a value that is not there stops by a mistake, or at a place where a value is due: there
a bracket opens one level too many, or something stands that no value starts with. -/
theorem value_eq_error (h : value .refuse rounds depth s = .error stop)
    (hrounds : s.length < rounds) :
    IsMistake stop ∨ ∃ inner rest, ValueDue Short depth s inner rest ∧
      ((inner = 0 ∧ stop = .tooDeep ∧ ∃ tail, rest = "\x7b" ++ tail ∨ rest = "[" ++ tail) ∨
        scalar .refuse rest = .error stop) := by
  -- On the depth: an array or object hands what is due inside it to the reader one level down.
  induction depth generalizing s with
  | zero =>
    rcases valueWith_cases rounds none s with
      ⟨tail, -, heq⟩ | ⟨tail, hs, -, heq⟩ | ⟨tail, f, -, hf, -⟩ | ⟨tail, f, -, hf, -⟩ | heq
    · exact .inl (string_eq_error (map_eq_error.mp (heq.symm.trans h)))
    · cases heq.symm.trans h
      exact .inr ⟨0, s, .here, .inl ⟨rfl, rfl, tail, hs⟩⟩
    · cases hf
    · cases hf
    · exact .inr ⟨0, s, .here, .inr (heq.symm.trans h)⟩
  | succ depth ih =>
    have hreads := reads_value rounds depth
    -- a string, too deep, an object, an array, or a scalar
    rcases valueWith_cases rounds (some (value .refuse rounds depth)) s with
      ⟨tail, -, heq⟩ | ⟨tail, -, hnone, -⟩ | ⟨tail, f, rfl, hf, heq⟩ | ⟨tail, f, rfl, hf, heq⟩ |
        heq
    · exact .inl (string_eq_error (map_eq_error.mp (heq.symm.trans h)))
    · cases hnone
    · cases hf
      replace h := heq.symm.trans h
      obtain ⟨blank, hblank, htail⟩ := exists_skip tail
      have hskip := length_skip_le tail
      rw [List.length_append] at hrounds
      unfold object at h
      split at h
      · cases h
      rcases members_eq_error hreads (map_eq_error.mp h) (by omega) with
        hmistake | ⟨middle, hdue, hmiddle⟩
      · exact .inl hmistake
      have hlength := hdue.length_le
      rcases ih hmiddle (by omega) with hmistake | ⟨inner, rest, hinner, hrest⟩
      · exact .inl hmistake
      · rw [htail]
        exact .inr ⟨inner, rest, .member (hdue.blank_append hblank) hinner, hrest⟩
    · cases hf
      replace h := heq.symm.trans h
      obtain ⟨blank, hblank, htail⟩ := exists_skip tail
      have hskip := length_skip_le tail
      rw [List.length_append] at hrounds
      unfold array at h
      split at h
      · cases h
      rcases items_eq_error hreads (map_eq_error.mp h) (by omega) with
        hmistake | ⟨middle, hdue, hmiddle⟩
      · exact .inl hmistake
      have hlength := hdue.length_le
      rcases ih hmiddle (by omega) with hmistake | ⟨inner, rest, hinner, hrest⟩
      · exact .inl hmistake
      · rw [htail]
        exact .inr ⟨inner, rest, .item (hdue.blank_append hblank) hinner, hrest⟩
    · exact .inr ⟨depth + 1, s, .here, .inr (heq.symm.trans h)⟩

end

theorem fault_inj {s : Text} {stop other : Stop} (hstop : ¬ IsMistake stop)
    (h : other.fault s = stop.fault s) : other = stop := by
  cases stop with
  | mistake m rest => exact absurd ⟨m, rest, rfl⟩ hstop
  | constant | longInteger | tooDeep =>
    cases other <;> cases h
    rfl

end Json.Reader

namespace Json

open Reader

theorem readText_of_due {s rest : Text} {inner : Nat} {stop : Stop}
    (hdue : Due Short nestingLimit s inner rest) (hrest : Starts rest)
    (hstop : ∀ rounds, value .refuse rounds inner rest = .error stop) :
    readText .refuse s = .error (stop.fault s) := by
  obtain ⟨hbefore, hdue⟩ := hdue
  rename_i before t
  have hstarts := ValueDue.starts hdue hrest
  have hread : readDocument .refuse (before ++ t) = .error (stop.fault (before ++ t)) := by
    have hvalue : value .refuse ((before ++ t).length + 1) nestingLimit t = .error stop :=
      value_of_due hdue hrest (hstop _) (by
        rw [List.length_append]
        omega)
    unfold readDocument
    rw [skip_append hbefore, skip_starts hstarts, hvalue]
  obtain ⟨c, tail, ht, -, -, hmark⟩ := hstarts
  rw [← hread]
  cases before with
  | nil =>
    rw [ht]
    simp only [List.nil_append, readText, if_neg hmark]
  | cons d others =>
    have hspaces : ∀ d ∈ ([' ', '\t', '\n', '\r'] : List CodePoint), d.val ≠ 0xFEFF := by decide
    have hd := hspaces d (hbefore d List.mem_cons_self)
    simp only [List.cons_append, readText, if_neg hd]

theorem due_of_readText {s : Text} {stop : Stop} (h : readText .refuse s = .error (stop.fault s))
    (hstop : ¬ IsMistake stop) :
    ∃ inner rest, Due Short nestingLimit s inner rest ∧
      ((inner = 0 ∧ stop = .tooDeep ∧ ∃ tail, rest = "\x7b" ++ tail ∨ rest = "[" ++ tail) ∨
        scalar .refuse rest = .error stop) := by
  have hmistake : ∀ {m : Mistake} {rest : Text}, Stop.mistake m rest ≠ stop := by
    rintro m rest rfl
    exact hstop ⟨m, rest, rfl⟩
  have hread : readDocument .refuse s = .error (stop.fault s) := by
    cases s with
    | nil => exact h
    | cons c rest =>
      simp only [readText] at h
      split at h
      · exact absurd (fault_inj hstop (Except.error.inj h)) hmistake
      · exact h
  unfold readDocument at hread
  split at hread
  · rename_i other hvalue
    obtain rfl := fault_inj hstop (Except.error.inj hread)
    obtain ⟨before, hbefore, hs⟩ := exists_skip s
    have hlength := length_skip_le s
    rcases value_eq_error hvalue (by omega) with hother | ⟨inner, rest, hdue, hrest⟩
    · exact absurd hother hstop
    · refine ⟨inner, rest, ?_, hrest⟩
      rw [hs]
      exact .mk hbefore hdue
  · split at hread
    · cases hread
    · exact absurd (fault_inj hstop (Except.error.inj hread)) hmistake

theorem readText_eq_tooDeep {s : Text} :
    readText .refuse s = .error .tooDeep ↔ ∃ rest,
      Due Short nestingLimit s 0 ("[" ++ rest) ∨ Due Short nestingLimit s 0 ("\x7b" ++ rest) := by
  have hfault : ReadFault.tooDeep = Stop.tooDeep.fault s := rfl
  rw [hfault]
  constructor
  · intro h
    have hstop : ¬ IsMistake .tooDeep := by
      rintro ⟨m, rest, heq⟩
      cases heq
    obtain ⟨inner, rest, hdue, ⟨rfl, -, tail, rfl | rfl⟩ | hscalar⟩ := due_of_readText h hstop
    · exact ⟨tail, .inr hdue⟩
    · exact ⟨tail, .inl hdue⟩
    · rcases scalar_eq_error hscalar with ⟨_, _, _, _, _, heq⟩ | ⟨_, heq⟩ | ⟨_, _, heq⟩ <;>
        cases heq
  · rintro ⟨rest, hdue | hdue⟩
    · exact readText_of_due hdue ⟨'[', rest, rfl, by decide, by decide, by decide⟩ fun _ => rfl
    · exact readText_of_due hdue ⟨'{', rest, rfl, by decide, by decide, by decide⟩ fun _ => rfl

def constantNames : List Text := ["NaN", "Infinity", "-Infinity"]

theorem readText_eq_constant {s name : Text} :
    readText .refuse s = .error (.malformed (.constant name)) ↔
      name ∈ constantNames ∧ ∃ inner rest, Due Short nestingLimit s inner (name ++ rest) := by
  have hfault : ReadFault.malformed (.constant name) = (Stop.constant name).fault s := rfl
  rw [hfault]
  constructor
  · intro h
    have hstop : ¬ IsMistake (.constant name) := by
      rintro ⟨m, rest, heq⟩
      cases heq
    obtain ⟨inner, rest, hdue, ⟨-, heq, -⟩ | hscalar⟩ := due_of_readText h hstop
    · cases heq
    · rcases scalar_eq_error hscalar with ⟨_, x, tail, hmem, rfl, heq⟩ | ⟨_, heq⟩ | ⟨_, _, heq⟩
      · cases heq
        exact ⟨List.mem_map_of_mem (f := Prod.fst) hmem, inner, tail, hdue⟩
      · cases heq
      · cases heq
  · rintro ⟨hname, inner, rest, hdue⟩
    have hstarts : ∃ c tail, name ++ rest = c :: tail ∧ c ∈ (['N', 'I', '-'] : List CodePoint) := by
      simp only [constantNames, List.mem_cons, List.not_mem_nil, or_false] at hname
      rcases hname with rfl | rfl | rfl
      · exact ⟨'N', _, rfl, by decide⟩
      · exact ⟨'I', _, rfl, by decide⟩
      · exact ⟨'-', _, rfl, by decide⟩
    obtain ⟨⟨_, x⟩, hmem, rfl⟩ : ∃ entry ∈ constants, entry.1 = name := List.mem_map.mp hname
    have hscalar := scalar_constant hmem rest
    obtain ⟨c, tail, heq, hc⟩ := hstarts
    have hfirst : ∀ d ∈ (['N', 'I', '-'] : List CodePoint), isSpace d = false ∧ d ≠ ']' ∧
        d.val ≠ 0xFEFF ∧ d ∉ (['"', '{', '['] : List CodePoint) := by decide
    obtain ⟨hspace, hclose, hmark, hbracket⟩ := hfirst c hc
    dsimp only at hdue hscalar heq
    rw [heq] at hdue hscalar
    refine readText_of_due hdue ⟨c, tail, rfl, hspace, hclose, hmark⟩ fun rounds => ?_
    rw [value_eq, valueWith_scalar, hscalar]
    intro d hd
    cases hd
    exact hbracket

/-- A text is read exactly when it is JSON with integers of at most 4300 digits, nested no
deeper than the limit, and what is read is the value that it spells; no object in it has a key
twice.  Otherwise the reading fails: for the depth exactly where a bracket opens one level too many,
and for a number outside JSON exactly where its name stands in the place of a value. -/
theorem readText_accepts_exactly_json (s : Text) :
    (∀ v, readText .refuse s = .ok v ↔ Document Short nestingLimit s v) ∧
    (∀ v, readText .refuse s = .ok v → v.Distinct) ∧
    (readText .refuse s = .error .tooDeep ↔ ∃ rest,
      Due Short nestingLimit s 0 ("[" ++ rest) ∨ Due Short nestingLimit s 0 ("\x7b" ++ rest)) ∧
    ∀ name, readText .refuse s = .error (.malformed (.constant name)) ↔
      name ∈ constantNames ∧ ∃ inner rest, Due Short nestingLimit s inner (name ++ rest) := by
  refine ⟨fun v => readText_eq_ok, ?_, readText_eq_tooDeep, fun name => readText_eq_constant⟩
  intro v h
  obtain ⟨-, hvalue, -⟩ := readText_eq_ok.mp h
  exact hvalue.distinct

end Json

end ScriptDepot
