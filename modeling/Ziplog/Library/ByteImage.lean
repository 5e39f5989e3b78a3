import Mathlib.Algebra.Group.Nat.Defs

/-!
# Byte images of natural numbers

`le w n` is the image of `n` in `w` bytes, least significant byte first, and `be w n` the image
most significant byte first; `ofLe` and `ofBe` read such images back. An image keeps the residue
modulo `256 ^ w` (`ofLe_le`, `ofBe_be`), a byte string is the image of the number it spells
(`le_ofLe`), and images of wider words split into images of their halves (`le_add`, `be_add`).
-/

namespace ByteImage

/-- The `w` low bytes of `n`, least significant first. -/
def le : ℕ → ℕ → List UInt8
  | 0, _ => []
  | w + 1, n => UInt8.ofNat n :: le w (n / 256)

/-- The number spelled by a byte string, least significant byte first. -/
def ofLe : List UInt8 → ℕ
  | [] => 0
  | b :: bs => b.toNat + 256 * ofLe bs

/-- The `w` low bytes of `n`, most significant first. -/
def be (w n : ℕ) : List UInt8 := (le w n).reverse

/-- The number spelled by a byte string, most significant byte first. -/
def ofBe (bs : List UInt8) : ℕ := ofLe bs.reverse

/-! ## Least significant byte first -/

@[simp] theorem length_le (w n : ℕ) : (le w n).length = w := by
  induction w generalizing n with
  | zero => rfl
  | succ w ih => rw [le, List.length_cons, ih]

theorem ofLe_lt (bs : List UInt8) : ofLe bs < 256 ^ bs.length := by
  induction bs with
  | nil => simp [ofLe]
  | cons b bs ih =>
    have hb : b.toNat < 256 := b.toNat_lt
    rw [ofLe, List.length_cons, Nat.pow_succ]
    omega

/-- Reading an image back gives the residue modulo its width. -/
theorem ofLe_le (w n : ℕ) : ofLe (le w n) = n % 256 ^ w := by
  induction w generalizing n with
  | zero => simp [le, ofLe, Nat.mod_one]
  | succ w ih =>
    have hlow : (UInt8.ofNat n).toNat = n % 256 := UInt8.toNat_ofNat'
    rw [le, ofLe, ih, hlow, Nat.pow_succ 256, Nat.mul_comm (256 ^ w), Nat.mod_mul]

theorem ofLe_le_of_lt {w n : ℕ} (h : n < 256 ^ w) : ofLe (le w n) = n := by
  rw [ofLe_le, Nat.mod_eq_of_lt h]

/-- A byte string is the image of the number it spells. -/
theorem le_ofLe (bs : List UInt8) : le bs.length (ofLe bs) = bs := by
  induction bs with
  | nil => rfl
  | cons b bs ih =>
    have hb : b.toNat < 256 := b.toNat_lt
    have hdiv : (b.toNat + 256 * ofLe bs) / 256 = ofLe bs := by omega
    rw [List.length_cons, le, ofLe, hdiv, ih]
    congr 1
    apply UInt8.toNat_inj.mp
    rw [UInt8.toNat_ofNat']
    omega

/-- An image of `v + w` bytes is the image of the low `v` bytes followed by that of the rest. -/
theorem le_add (v w n : ℕ) : le (v + w) n = le v n ++ le w (n / 256 ^ v) := by
  induction v generalizing n with
  | zero => simp [le]
  | succ v ih =>
    rw [show v + 1 + w = v + w + 1 by omega, le, ih, le, List.cons_append, Nat.div_div_eq_div_mul,
      Nat.pow_succ, Nat.mul_comm 256]

theorem le_mod (w n : ℕ) : le w (n % 256 ^ w) = le w n := by
  have h := le_ofLe (le w n)
  rwa [length_le, ofLe_le] at h

/-! ## Most significant byte first -/

@[simp] theorem length_be (w n : ℕ) : (be w n).length = w := by
  rw [be, List.length_reverse, length_le]

theorem ofBe_be (w n : ℕ) : ofBe (be w n) = n % 256 ^ w := by
  rw [ofBe, be, List.reverse_reverse, ofLe_le]

theorem ofBe_be_of_lt {w n : ℕ} (h : n < 256 ^ w) : ofBe (be w n) = n := by
  rw [ofBe_be, Nat.mod_eq_of_lt h]

theorem be_add (v w n : ℕ) : be (v + w) n = be v (n / 256 ^ w) ++ be w n := by
  rw [be, Nat.add_comm, le_add, List.reverse_append, be, be]

end ByteImage
