import ScriptDepot.Proofs.Json.Written
/-!
# The values inside a value

A value occurs in itself, in an array that has it among its items and in an object that has it among
its members' values.  The properties of whole values are stated of everything that occurs in them.
-/

namespace ScriptDepot

namespace Json

/-- `Within v w` says that `v` occurs in `w`. -/
inductive Within (v : Json) : Json → Prop
  | self : Within v v
  | item {w : Json} {items : List Json} (hmem : w ∈ items) (h : Within v w) :
      Within v (.arr items)
  | member {m : Text × Json} {members : List (Text × Json)} (hmem : m ∈ members)
      (h : Within v m.2) : Within v (.obj members)

def Distinct (v : Json) : Prop :=
  ∀ members, Within (.obj members) v → (Assoc.keys members).Nodup

theorem isFinite_eq_false {v : Json} :
    v.isFinite = false ↔ ∃ x, Within (.float x) v ∧ x.isFinite = false := by
  constructor
  · intro h
    induction v using Json.induct with
    | null | bool | int | str => cases h
    | float x => exact ⟨x, .self, h⟩
    | arr items ih =>
      -- The check goes through all items, so one of them failed it.
      obtain ⟨w, hw, hfalse⟩ : ∃ w ∈ items, w.isFinite = false := by
        by_contra hall
        push Not at hall
        have hitems := isFiniteItems_iff.mpr fun w hw => by simpa using hall w hw
        rw [isFinite, hitems] at h
        cases h
      obtain ⟨x, hx, hfalse⟩ := ih w hw hfalse
      exact ⟨x, .item hw hx, hfalse⟩
    | obj members ih =>
      obtain ⟨m, hm, hfalse⟩ : ∃ m ∈ members, m.2.isFinite = false := by
        by_contra hall
        push Not at hall
        have hmembers := isFiniteMembers_iff.mpr fun m hm => by simpa using hall m hm
        rw [isFinite, hmembers] at h
        cases h
      obtain ⟨x, hx, hfalse⟩ := ih m hm hfalse
      exact ⟨x, .member hm hx, hfalse⟩
  · rintro ⟨x, hx, hfalse⟩
    induction hx with
    | self => exact hfalse
    | @item w items hmem _ ih =>
      rw [isFinite, Bool.eq_false_iff, ne_eq, isFiniteItems_iff]
      intro hall
      rw [hall w hmem] at ih
      cases ih
    | @member m members hmem _ ih =>
      rw [isFinite, Bool.eq_false_iff, ne_eq, isFiniteMembers_iff]
      intro hall
      rw [hall m hmem] at ih
      cases ih

end Json

end ScriptDepot
