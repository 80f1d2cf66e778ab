import ScriptDepot.Proofs.Json.RoundTrip
/-!
# Names that values look up

A value that is no string is looked up by its compact text, which can be read back, so two such
values never look up the same name.  A string is looked up as it is.  It can therefore stand in for
the one value whose compact text it is, and for no other.
-/

namespace ScriptDepot

open Json.Grammar

namespace Json

def IsString (v : Json) : Prop := ∃ t, v = .str t

/-- `v` is a string, the compact text of `w`, and `w` is none. -/
def IsTextOf (v w : Json) : Prop := v = .str (w.write compact) ∧ ¬ w.IsString

variable {v w : Json} {spacing : Spacing}

theorem readText_write (hspacing : spacing.Lawful) (h : v.Faithful)
    (hdepth : v.nesting ≤ nestingLimit) : readText .refuse (v.write spacing) = .ok v := by
  have hdocument := Document.mk blank_nil (value_write hspacing h hdepth) blank_nil
  rw [List.nil_append, List.append_nil] at hdocument
  exact readText_eq_ok.mpr hdocument

theorem write_inj (hspacing : spacing.Lawful) (hv : v.Faithful) (hw : w.Faithful)
    (hdepth : v.nesting ≤ nestingLimit) (hdepth' : w.nesting ≤ nestingLimit)
    (h : v.write spacing = w.write spacing) : v = w := by
  have hread := readText_write hspacing hv hdepth
  rw [h, readText_write hspacing hw hdepth'] at hread
  exact (Except.ok.inj hread).symm

theorem write_ne_nil (hspacing : spacing.Lawful) (h : v.Faithful) : v.write spacing ≠ [] := by
  obtain ⟨c, rest, hcons, -⟩ := (value_write hspacing h (Nat.le_refl _)).exists_cons
  rw [hcons]
  exact List.cons_ne_nil c rest

end Json

open Json

theorem scriptName_of_not_isString {v : Json} (h : ¬ v.IsString) :
    scriptName v = v.write compact := by
  cases v with
  | str t => exact absurd ⟨t, rfl⟩ h
  | _ => rfl

theorem scriptName_str_eq_iff (t : Text) {w : Json} (h : ¬ w.IsString) :
    scriptName (.str t) = scriptName w ↔
      .str t = w ∨ IsTextOf (.str t) w ∨ IsTextOf w (.str t) := by
  have hne : .str t ≠ w := fun heq => h ⟨t, heq.symm⟩
  have hnot : ¬ IsTextOf w (.str t) := fun htext => htext.2 ⟨t, rfl⟩
  rw [scriptName_of_not_isString h]
  simp only [scriptName, IsTextOf, Json.str.injEq, h, not_false_eq_true, and_true, hne, false_or]
  exact (or_iff_left hnot).symm

/-- Two values look up the same name exactly when they are the same, or one is a string and that
string is the compact text of the other.  The name of a value that is no string is ASCII, is not
empty, and is read back as the value. -/
theorem lookup_names_collide_iff (v w : Json) (hv : v.Faithful) (hw : w.Faithful)
    (hdepth : v.nesting ≤ nestingLimit) (hdepth' : w.nesting ≤ nestingLimit) :
    (scriptName v = scriptName w ↔ v = w ∨ v.IsTextOf w ∨ w.IsTextOf v) ∧
      (¬ v.IsString → scriptName v ≠ [] ∧ (∀ c ∈ scriptName v, c.val < 0x80) ∧
        readText .refuse (scriptName v) = .ok v) := by
  constructor
  · by_cases hstring' : w.IsString
    · obtain ⟨t, rfl⟩ := hstring'
      by_cases hstring : v.IsString
      · obtain ⟨s, rfl⟩ := hstring
        simp [scriptName, IsTextOf, IsString]
      · rw [eq_comm, scriptName_str_eq_iff t hstring, eq_comm, or_comm (a := IsTextOf _ _)]
    · by_cases hstring : v.IsString
      · obtain ⟨s, rfl⟩ := hstring
        exact scriptName_str_eq_iff s hstring'
      · rw [scriptName_of_not_isString hstring, scriptName_of_not_isString hstring']
        constructor
        · intro h
          exact .inl (write_inj lawful_compact hv hw hdepth hdepth' h)
        · rintro (rfl | htext | htext)
          · rfl
          · exact absurd ⟨_, htext.1⟩ hstring
          · exact absurd ⟨_, htext.1⟩ hstring'
  · intro hstring
    rw [scriptName_of_not_isString hstring]
    refine ⟨write_ne_nil lawful_compact hv, ?_, readText_write lawful_compact hv hdepth⟩
    intro c hc
    have hprintable := (printable_write lawful_compact v c hc).2
    omega

theorem lookup_names_collide_iff_sample :
    let text := Response.sample.write compact
    Response.sample.Faithful ∧ (Json.str text).Faithful ∧ Response.sample.nesting = 3 ∧
      scriptName (.str text) = scriptName Response.sample ∧
      scriptName Response.sample ≠ [] ∧
      readText .refuse (scriptName Response.sample) = .ok Response.sample := by
  intro text
  have hsample := Response.faithful_sample
  have htext : (Json.str text).Faithful := faithful_str.mpr (by decide +kernel)
  have hobject : ¬ Response.sample.IsString := fun ⟨t, ht⟩ => nomatch ht
  have hnesting : Response.sample.nesting = 3 := by decide
  have hshallow : Response.sample.nesting ≤ nestingLimit := by decide
  obtain ⟨hcollide, -⟩ :=
    lookup_names_collide_iff (.str text) Response.sample htext hsample (Nat.zero_le _) hshallow
  obtain ⟨-, hname⟩ :=
    lookup_names_collide_iff Response.sample (.str text) hsample htext hshallow (Nat.zero_le _)
  obtain ⟨hne, -, hread⟩ := hname hobject
  exact ⟨hsample, htext, hnesting, hcollide.mpr (.inr (.inl ⟨rfl, hobject⟩)), hne, hread⟩

end ScriptDepot
