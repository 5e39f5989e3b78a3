import Mathlib.Order.Lattice
import Mathlib.Data.List.Basic

/-!
# The largest number of a list

`numbers.foldr max 0` is the largest number of a list, and 0 for the empty list. It is the bound
that is attained (`eq_foldr_max_iff`), it only depends on the members of the list, and in an
increasing list it is the last number.
-/

namespace Largest

theorem le_foldr_max {numbers : List ℕ} {n : ℕ} (h : n ∈ numbers) : n ≤ numbers.foldr max 0 := by
  induction numbers with
  | nil => cases h
  | cons m numbers ih =>
    rw [List.foldr_cons]
    rcases List.mem_cons.mp h with rfl | h
    · exact le_max_left _ _
    · exact le_trans (ih h) (le_max_right _ _)

theorem foldr_max_eq_zero_or_mem (numbers : List ℕ) :
    numbers.foldr max 0 = 0 ∨ numbers.foldr max 0 ∈ numbers := by
  induction numbers with
  | nil => exact Or.inl rfl
  | cons m numbers ih =>
    rw [List.foldr_cons]
    rcases le_total m (numbers.foldr max 0) with hle | hle
    · rw [max_eq_right hle]
      exact ih.imp_right (List.mem_cons_of_mem m)
    · rw [max_eq_left hle]
      exact Or.inr List.mem_cons_self

/-- A number is the largest of a list when none is above it and it is attained. -/
theorem eq_foldr_max_iff {numbers : List ℕ} {n : ℕ} :
    n = numbers.foldr max 0 ↔ (∀ m ∈ numbers, m ≤ n) ∧ (n = 0 ∨ n ∈ numbers) := by
  constructor
  · rintro rfl
    exact ⟨fun m hm => le_foldr_max hm, foldr_max_eq_zero_or_mem numbers⟩
  · rintro ⟨hle, hattained⟩
    apply le_antisymm
    · rcases hattained with rfl | hmem
      · exact Nat.zero_le _
      · exact le_foldr_max hmem
    · rcases foldr_max_eq_zero_or_mem numbers with hzero | hmem
      · rw [hzero]
        exact Nat.zero_le _
      · exact hle _ hmem

theorem foldr_max_congr {numbers numbers' : List ℕ} (h : ∀ n, n ∈ numbers ↔ n ∈ numbers') :
    numbers.foldr max 0 = numbers'.foldr max 0 := by
  obtain ⟨hle, hattained⟩ := eq_foldr_max_iff.mp (Eq.refl (numbers.foldr max 0))
  exact eq_foldr_max_iff.mpr ⟨fun n hn => hle n ((h n).mpr hn), hattained.imp_right (h _).mp⟩

theorem foldr_max_eq_getLastD {numbers : List ℕ} (h : numbers.Pairwise (· < ·)) :
    numbers.foldr max 0 = numbers.getLastD 0 := by
  rcases List.eq_nil_or_concat numbers with rfl | ⟨numbers, x, rfl⟩
  · rfl
  · rw [List.concat_eq_append] at h ⊢
    have hlt : ∀ y ∈ numbers, y < x := fun y hy =>
      (List.pairwise_append.mp h).2.2 y hy x (List.mem_singleton_self x)
    rw [List.foldr_append, List.getLastD_concat, List.foldr_cons, List.foldr_nil, Nat.max_zero]
    clear h
    induction numbers with
    | nil => rfl
    | cons y numbers ih =>
      rw [List.foldr_cons, ih fun z hz => hlt z (List.mem_cons_of_mem _ hz)]
      exact max_eq_right (Nat.le_of_lt (hlt y List.mem_cons_self))

end Largest
