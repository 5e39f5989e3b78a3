import Mathlib.Order.Lattice.Nat

/-!
# The initial run of a predicate

`initialRun p` is the length of the longest run `1, 2, …, k` on which `p` holds, for a predicate
that fails somewhere. It is the number at which a gap-free prefix of numbered items stops.
-/

variable {p : ℕ → Prop}

/-- The length of the run of `p` from 1 on. -/
noncomputable def initialRun (p : ℕ → Prop) : ℕ := sInf {m | ¬ p (m + 1)}

theorem initialRun_eq {k : ℕ} (hrun : ∀ i, 1 ≤ i → i ≤ k → p i) (hstop : ¬ p (k + 1)) :
    initialRun p = k := by
  refine le_antisymm (Nat.sInf_le hstop) (le_csInf ⟨k, hstop⟩ fun m hm => ?_)
  by_contra hlt
  exact hm (hrun (m + 1) (by omega) (by omega))

/-- The run reaches `m` exactly when `p` holds on `1, …, m`. -/
theorem le_initialRun_iff {k m : ℕ} (hrun : ∀ i, 1 ≤ i → i ≤ k → p i) (hstop : ¬ p (k + 1)) :
    m ≤ initialRun p ↔ ∀ i, 1 ≤ i → i ≤ m → p i := by
  rw [initialRun_eq hrun hstop]
  constructor
  · intro hm i hi him
    exact hrun i hi (by omega)
  · intro h
    by_contra hlt
    exact hstop (h (k + 1) (by omega) (by omega))
