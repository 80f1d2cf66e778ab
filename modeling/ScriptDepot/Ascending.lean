/-!
# Ascending order

Names are listed in ascending order, compared item by item by the number of each.  Sorting is by
insertion, so it follows the list and evaluates in proofs; equal items keep their order.
-/

namespace ScriptDepot

namespace Ascending

/-- Whether a list does not come after another: at the first place where their items have different
numbers, its own is smaller, or it ends first. -/
def lexLe {α : Type} (number : α → Nat) : List α → List α → Bool
  | [], _ => true
  | _ :: _, [] => false
  | a :: s, b :: t =>
    if number a < number b then true
    else if number b < number a then false
    else lexLe number s t

theorem lexLe_total {α : Type} (number : α → Nat) (s t : List α) :
    lexLe number s t || lexLe number t s := by
  induction s generalizing t with
  | nil => simp [lexLe]
  | cons a s ih =>
    cases t with
    | nil => simp [lexLe]
    | cons b t =>
      simp only [lexLe]
      split
      · rfl
      · split
        · simp
        · exact ih t

theorem lexLe_trans {α : Type} (number : α → Nat) (s t u : List α)
    (hst : lexLe number s t) (htu : lexLe number t u) : lexLe number s u := by
  induction s generalizing t u with
  | nil => simp [lexLe]
  | cons a s ih =>
    cases t with
    | nil => simp [lexLe] at hst
    | cons b t =>
      cases u with
      | nil => simp [lexLe] at htu
      | cons c u =>
        simp only [lexLe] at hst htu ⊢
        split at hst
        · have : number a < number c := by
            split at htu
            · omega
            · split at htu
              · cases htu
              · omega
          simp [this]
        · split at hst
          · cases hst
          · split at htu
            · have : number a < number c := by omega
              simp [this]
            · split at htu
              · cases htu
              · rw [if_neg (by omega), if_neg (by omega)]
                exact ih t u hst htu

theorem lexLe_toNat_iff {s t : List UInt8} : lexLe UInt8.toNat s t = true ↔ s ≤ t := by
  induction s generalizing t with
  | nil => simp [lexLe]
  | cons a s ih =>
    cases t with
    | nil => simp [lexLe]
    | cons b t =>
      rw [lexLe, List.cons_le_cons_iff, UInt8.lt_iff_toNat_lt, ← UInt8.toNat_inj, ← ih]
      split
      · rename_i hlt
        simp [hlt]
      · split
        · simp only [Bool.false_eq_true, false_iff]
          rintro (hlt | ⟨heq, -⟩) <;> omega
        · have heq : a.toNat = b.toNat := by omega
          simp [heq]

variable {α : Type} (le : α → α → Bool)

def insert (a : α) : List α → List α
  | [] => [a]
  | b :: rest => if le a b then a :: b :: rest else b :: insert a rest

def sort : List α → List α
  | [] => []
  | a :: rest => insert le a (sort rest)

theorem sort_map {β : Type} (f : β → α) (l : List β) :
    sort le (l.map f) = (sort (fun a b => le (f a) (f b)) l).map f := by
  have hinsert : ∀ a rest, insert le (f a) (rest.map f) =
      (insert (fun a b => le (f a) (f b)) a rest).map f := by
    intro a rest
    induction rest with
    | nil => rfl
    | cons b rest ih =>
      simp only [List.map_cons, insert, ih]
      split <;> simp
  induction l with
  | nil => rfl
  | cons a rest ih => rw [List.map_cons, sort, sort, ih, hinsert]

theorem insert_perm (a : α) (l : List α) : (insert le a l).Perm (a :: l) := by
  induction l with
  | nil => exact .refl _
  | cons b rest ih =>
    simp only [insert]
    split
    · exact .refl _
    · exact (ih.cons b).trans (.swap a b rest)

theorem sort_perm (l : List α) : (sort le l).Perm l := by
  induction l with
  | nil => exact .refl _
  | cons a rest ih => exact (insert_perm le a _).trans (ih.cons a)

@[simp] theorem mem_sort {a : α} {l : List α} : a ∈ sort le l ↔ a ∈ l :=
  (sort_perm le l).mem_iff

@[simp] theorem length_sort (l : List α) : (sort le l).length = l.length :=
  (sort_perm le l).length_eq

theorem pairwise_insert (trans : ∀ a b c, le a b → le b c → le a c)
    (total : ∀ a b, le a b || le b a) (a : α) {l : List α}
    (h : l.Pairwise fun x y => le x y) : (insert le a l).Pairwise fun x y => le x y := by
  induction l with
  | nil => simp [insert]
  | cons b rest ih =>
    obtain ⟨hb, hrest⟩ := List.pairwise_cons.mp h
    simp only [insert]
    split
    case isTrue hab =>
      refine List.pairwise_cons.mpr ⟨fun c hc => ?_, h⟩
      rcases List.mem_cons.mp hc with rfl | hc
      · exact hab
      · exact trans a b c hab (hb c hc)
    case isFalse hab =>
      refine List.pairwise_cons.mpr ⟨fun c hc => ?_, ih hrest⟩
      rcases List.mem_cons.mp ((insert_perm le a rest).mem_iff.mp hc) with rfl | hc
      · simpa [hab] using total c b
      · exact hb c hc

theorem pairwise_sort (trans : ∀ a b c, le a b → le b c → le a c)
    (total : ∀ a b, le a b || le b a) (l : List α) :
    (sort le l).Pairwise fun x y => le x y := by
  induction l with
  | nil => exact .nil
  | cons a rest ih => exact pairwise_insert le trans total a ih

end Ascending

end ScriptDepot
