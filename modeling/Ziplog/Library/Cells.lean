import Mathlib.Data.Nat.Notation

/-!
# Ranges of cells in a block of memory

A block of memory is the list of its cells. `read? mem off len` reads a range, and is `none` when
the range leaves the block; `overlay mem off cells` is the block after a write. The lemmas say what
a range holds then: the cells written (`slice_overlay_self`), or what it held before when the two
ranges are apart (`slice_overlay_of_le`).
-/

namespace Cells

variable {α : Type*}

/-- The `len` cells from `off` on, cut off at the end of the block. -/
def slice (mem : List α) (off len : ℕ) : List α := (mem.drop off).take len

/-- The block with `cells` laid over it from `off` on. -/
def overlay (mem : List α) (off : ℕ) (cells : List α) : List α :=
  mem.take off ++ cells ++ mem.drop (off + cells.length)

/-- Read a range that lies inside the block. -/
def read? (mem : List α) (off len : ℕ) : Option (List α) :=
  if off + len ≤ mem.length then some (slice mem off len) else none

/-! ## Slices -/

@[simp] theorem slice_zero (mem : List α) (off : ℕ) : slice mem off 0 = [] := List.take_zero

theorem length_slice {mem : List α} {off len : ℕ} (h : off + len ≤ mem.length) :
    (slice mem off len).length = len := by
  rw [slice, List.length_take, List.length_drop]
  omega

/-- Adjacent ranges. -/
theorem slice_add (mem : List α) (off m n : ℕ) :
    slice mem off (m + n) = slice mem off m ++ slice mem (off + m) n := by
  rw [slice, slice, slice, List.take_add, List.drop_drop]

theorem slice_append_left {as : List α} (bs : List α) {off len : ℕ} (h : off + len ≤ as.length) :
    slice (as ++ bs) off len = slice as off len := by
  rw [slice, slice, List.drop_append_of_le_length (by omega),
    List.take_append_of_le_length (by rw [List.length_drop]; omega)]

theorem slice_append_right {as : List α} (bs : List α) {off len : ℕ} (h : as.length = off) :
    slice (as ++ bs) off len = bs.take len := by
  rw [slice, ← h, List.drop_left]

/-- The middle part of a concatenation. -/
theorem slice_middle {as bs : List α} (cs : List α) {off len : ℕ} (ho : as.length = off)
    (hl : bs.length = len) : slice (as ++ (bs ++ cs)) off len = bs := by
  rw [slice_append_right _ ho, ← hl, List.take_left]

/-! ## Writes -/

@[simp] theorem length_overlay {mem cells : List α} {off : ℕ}
    (h : off + cells.length ≤ mem.length) : (overlay mem off cells).length = mem.length := by
  simp only [overlay, List.length_append, List.length_take, List.length_drop]
  omega

theorem slice_overlay_self {mem cells : List α} {off : ℕ} (h : off + cells.length ≤ mem.length) :
    slice (overlay mem off cells) off cells.length = cells := by
  rw [overlay, List.append_assoc]
  exact slice_middle _ (by rw [List.length_take]; omega) rfl

/-- A range that ends before the write keeps its cells. -/
theorem slice_overlay_of_le {mem cells : List α} {off o len : ℕ} (h : o + len ≤ off)
    (hoff : off ≤ mem.length) : slice (overlay mem off cells) o len = slice mem o len := by
  have hlen : (mem.take off).length = off := by rw [List.length_take]; omega
  rw [overlay, List.append_assoc, slice, slice, List.drop_append_of_le_length (by omega),
    List.take_append_of_le_length (by rw [List.length_drop]; omega), List.drop_take,
    List.take_take]
  congr 1
  omega

/-- A range that starts behind the write keeps its cells. -/
theorem slice_overlay_of_ge {mem cells : List α} {off o len : ℕ} (h : off + cells.length ≤ o)
    (hoff : off + cells.length ≤ mem.length) :
    slice (overlay mem off cells) o len = slice mem o len := by
  have hlen : (mem.take off ++ cells).length = off + cells.length := by
    rw [List.length_append, List.length_take]
    omega
  have hback : o - (off + cells.length) + (off + cells.length) = o := by omega
  rw [overlay, slice, slice, List.drop_append, List.drop_eq_nil_of_le (by omega),
    List.nil_append, hlen, List.drop_drop, Nat.add_comm (off + cells.length), hback]

/-- A write behind a first part. -/
theorem overlay_append (as bs : List α) (off : ℕ) (cells : List α) :
    overlay (as ++ bs) (as.length + off) cells = as ++ overlay bs off cells := by
  have hoff : as.length + off + cells.length = as.length + (off + cells.length) := by omega
  rw [overlay, overlay, List.take_length_add_append, hoff, List.drop_length_add_append]
  simp only [List.append_assoc]

/-- A write over the middle part of a concatenation. -/
theorem overlay_middle {as bs cells : List α} (cs : List α) {off : ℕ} (ho : as.length = off)
    (hl : bs.length = cells.length) :
    overlay (as ++ (bs ++ cs)) off cells = as ++ (cells ++ cs) := by
  rw [overlay, ← ho, ← hl, List.take_left, List.drop_length_add_append, List.drop_left,
    List.append_assoc]

/-- A range of a range. -/
theorem slice_slice (mem : List α) {off len o n : ℕ} (h : o + n ≤ len) :
    slice (slice mem off len) o n = slice mem (off + o) n := by
  rw [slice, slice, slice, List.drop_take, List.drop_drop, List.take_take,
    Nat.min_eq_left (by omega)]

/-- What lies before a range, in it and behind it. -/
theorem exists_append_of_range {mem : List α} {off len : ℕ} (h : off + len ≤ mem.length) :
    ∃ as bs cs : List α, mem = as ++ (bs ++ cs) ∧ as.length = off ∧ bs.length = len := by
  refine ⟨mem.take off, slice mem off len, mem.drop (off + len), ?_, ?_, length_slice h⟩
  · rw [slice, ← List.drop_drop, List.take_append_drop, List.take_append_drop]
  · rw [List.length_take]
    omega

/-- A write inside a range. -/
theorem slice_overlay_inside {mem cells : List α} {off len o : ℕ} (ho : o + cells.length ≤ len)
    (hlen : off + len ≤ mem.length) :
    slice (overlay mem (off + o) cells) off len = overlay (slice mem off len) o cells := by
  obtain ⟨as, bs, cs, rfl, rfl, rfl⟩ := exists_append_of_range hlen
  rw [overlay_append, slice_middle cs rfl rfl]
  have hwrite : overlay (bs ++ cs) o cells = overlay bs o cells ++ cs := by
    rw [overlay, overlay, List.take_append_of_le_length (by omega),
      List.drop_append_of_le_length ho]
    simp only [List.append_assoc]
  rw [hwrite]
  exact slice_middle cs rfl (length_overlay ho)

/-- The cells that a write replaces, written back. -/
theorem overlay_restore {mem cells : List α} {off : ℕ} (h : off + cells.length ≤ mem.length) :
    overlay (overlay mem off cells) off (slice mem off cells.length) = mem := by
  obtain ⟨as, bs, cs, rfl, rfl, hlen⟩ := exists_append_of_range h
  rw [overlay_middle cs rfl hlen, slice_middle cs rfl hlen, overlay_middle cs rfl hlen.symm]

theorem read?_eq_some {mem : List α} {off len : ℕ} (h : off + len ≤ mem.length) :
    read? mem off len = some (slice mem off len) := if_pos h

end Cells
