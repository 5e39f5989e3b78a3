import Mathlib.Data.Nat.Notation

/-!
# Cells in a ring

A ring is a block of cells whose last cell is followed by its first. `window cells head n` reads
`n` cells from `head` on. A window loses its first cell when the head moves on, and gains a last
one when the cell behind it is written (`window_set_succ`).
-/

namespace CellRing

variable {α : Type*} [Inhabited α]

/-- The `n` cells from `head` on, around the end of the block. -/
def window (cells : List α) : ℕ → ℕ → List α
  | _, 0 => []
  | head, n + 1 => cells[head]! :: window cells ((head + 1) % cells.length) n

@[simp] theorem window_zero (cells : List α) (head : ℕ) : window cells head 0 = [] := rfl

@[simp] theorem length_window (cells : List α) (head n : ℕ) : (window cells head n).length = n := by
  induction n generalizing head with
  | zero => rfl
  | succ n ih => rw [window, List.length_cons, ih]

/-- The cell after the next `k` cells, from the next cell on. -/
theorem add_mod_succ (head k len : ℕ) : ((head + 1) % len + k) % len = (head + (k + 1)) % len := by
  rw [Nat.mod_add_mod, Nat.add_assoc, Nat.add_comm 1 k]

/-- Two cells of one turn are different cells. -/
theorem add_mod_ne {head k n len : ℕ} (hk : k < n) (hn : n < len) :
    (head + k) % len ≠ (head + n) % len := by
  intro heq
  have hdiff : (n - k) % len = 0 := by
    have h := Nat.sub_mod_eq_zero_of_mod_eq heq.symm
    rwa [Nat.add_sub_add_left] at h
  rw [Nat.mod_eq_of_lt (by omega)] at hdiff
  omega

theorem window_set_of_ne {cells : List α} {head n i : ℕ} {x : α} (hhead : head < cells.length)
    (hi : ∀ k < n, (head + k) % cells.length ≠ i) :
    window (cells.set i x) head n = window cells head n := by
  induction n generalizing head with
  | zero => rfl
  | succ n ih =>
    have hfirst : head ≠ i := by
      have h := hi 0 (by omega)
      rwa [Nat.add_zero, Nat.mod_eq_of_lt hhead] at h
    have hrest := @ih ((head + 1) % cells.length) (Nat.mod_lt _ (by omega)) (by
      intro k hk
      rw [add_mod_succ]
      exact hi (k + 1) (by omega))
    rw [window, window, List.length_set, hrest, List.getElem!_eq_getElem?_getD,
      List.getElem!_eq_getElem?_getD, List.getElem?_set_ne (Ne.symm hfirst)]

/-- A window ends with the cell that is `n` behind its head. -/
theorem window_succ {cells : List α} {head : ℕ} (n : ℕ) (hhead : head < cells.length) :
    window cells head (n + 1) = window cells head n ++ [cells[(head + n) % cells.length]!] := by
  induction n generalizing head with
  | zero =>
    rw [Nat.add_zero head, Nat.mod_eq_of_lt hhead]
    rfl
  | succ n ih =>
    rw [window, ih (Nat.mod_lt _ (by omega)), add_mod_succ]
    rfl

/-- **Writing behind a window** makes it longer by the cell written. -/
theorem window_set_succ {cells : List α} {head n : ℕ} {x : α} (hhead : head < cells.length)
    (hn : n < cells.length) :
    window (cells.set ((head + n) % cells.length) x) head (n + 1) = window cells head n ++ [x] := by
  have hlt : (head + n) % cells.length < cells.length := Nat.mod_lt _ (by omega)
  rw [window_succ n (by rwa [List.length_set]), List.length_set,
    window_set_of_ne hhead fun k hk => add_mod_ne hk hn, List.getElem!_eq_getElem?_getD,
    List.getElem?_set_self hlt]
  rfl

end CellRing
