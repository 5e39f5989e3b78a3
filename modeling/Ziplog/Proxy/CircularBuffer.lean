import Ziplog.Library.CellRing

/-!
# The circular buffer

`circular_buffer.h`: a block of `capacity_` items with the positions of its first item and of the
first free cell. The critical sections of the class stand here as functions on its fields; who runs
them when, and who sleeps, is left to the module that puts the lock around them.

`contents` reads the items from `head_` on. Under `Ok`, which ties `tail_` to `head_` and `size_`,
every section acts on the contents as on a list of at most `capacity_` items.
-/

namespace Ziplog

/-- `CircularBuffer<T>`, without its lock and its condition variable. -/
structure CircularBuffer (T : Type) where
  buffer : List T
  head : ℕ
  tail : ℕ
  size : ℕ
  capacity : ℕ
  deriving DecidableEq, Repr

namespace CircularBuffer

variable {T : Type} [Inhabited T]

/-- `CircularBuffer(size_t capacity)`. -/
def new (T : Type) [Inhabited T] (capacity : ℕ) : CircularBuffer T :=
  { buffer := List.replicate capacity default, head := 0, tail := 0, size := 0, capacity }

/-- The condition that `push` waits for. -/
def hasSpace (self : CircularBuffer T) : Bool := self.size < self.capacity

/-- The lines that put an item, the same in `push` and `try_push`. -/
def put (self : CircularBuffer T) (item : T) : CircularBuffer T :=
  { self with
    buffer := self.buffer.set self.tail item
    tail := (self.tail + 1) % self.capacity
    size := self.size + 1 }

/-- `try_push`. -/
def tryPush (self : CircularBuffer T) (item : T) : Bool × CircularBuffer T :=
  if self.size = self.capacity then (false, self) else (true, self.put item)

/-- The lines that take the first item off, the same in `pop` and `drain_all`. -/
def advance (self : CircularBuffer T) : CircularBuffer T :=
  { self with
    head := (self.head + 1) % self.capacity
    size := self.size - 1 }

/-- `pop`, up to its notification. -/
def pop (self : CircularBuffer T) : Option T × CircularBuffer T :=
  if self.size = 0 then (none, self) else (some self.buffer[self.head]!, self.advance)

/-- `peek`. -/
def peek (self : CircularBuffer T) : Option T :=
  if self.size = 0 then none else some self.buffer[self.head]!

/-- The loop of `drain_all`, for at most `fuel` rounds. -/
def drainLoop : ℕ → CircularBuffer T → List T → List T × CircularBuffer T
  | 0, self, result => (result, self)
  | fuel + 1, self, result =>
    if 0 < self.size then drainLoop fuel self.advance (result ++ [self.buffer[self.head]!])
    else (result, self)

/-- `drain_all`; each round takes one item, so `size_` rounds end the loop. -/
def drainAll (self : CircularBuffer T) : List T × CircularBuffer T := drainLoop self.size self []

/-! ## The items of a buffer -/

/-- The items, first in first. -/
def contents (self : CircularBuffer T) : List T := CellRing.window self.buffer self.head self.size

@[simp] theorem length_contents (self : CircularBuffer T) : self.contents.length = self.size :=
  CellRing.length_window _ _ _

/-- The fields of a buffer of `capacity` cells fit together. -/
structure Ok (capacity : ℕ) (b : CircularBuffer T) : Prop where
  capacity_eq : b.capacity = capacity
  length_buffer : b.buffer.length = capacity
  head_lt : b.head < capacity
  size_le : b.size ≤ capacity
  tail_eq : b.tail = (b.head + b.size) % capacity

variable {capacity : ℕ} {self : CircularBuffer T}

theorem ok_new (hcapacity : 1 ≤ capacity) : (new T capacity).Ok capacity := by
  refine ⟨rfl, List.length_replicate, hcapacity, Nat.zero_le _, ?_⟩
  show 0 = 0 % capacity
  rw [Nat.zero_mod]

/-- A buffer that is not empty starts with the cell at `head_`. -/
theorem Ok.contents_cons (h : self.Ok capacity) (hsize : self.size ≠ 0) :
    self.contents = self.buffer[self.head]! :: self.advance.contents := by
  obtain ⟨n, hn⟩ := Nat.exists_eq_succ_of_ne_zero hsize
  unfold contents advance
  rw [hn, CellRing.window, h.length_buffer, ← h.capacity_eq]
  rfl

theorem contents_of_size (hsize : self.size = 0) : self.contents = [] := by
  rw [contents, hsize, CellRing.window_zero]

/-! ## What each section does to the items -/

theorem Ok.hasSpace_eq (h : self.Ok capacity) :
    self.hasSpace = decide (self.contents.length < capacity) := by
  rw [hasSpace, length_contents, h.capacity_eq]

theorem Ok.put (h : self.Ok capacity) (item : T) (hspace : self.size < capacity) :
    (self.put item).Ok capacity ∧ (self.put item).contents = self.contents ++ [item] := by
  have hhead : self.head < self.buffer.length := by
    rw [h.length_buffer]
    exact h.head_lt
  constructor
  · refine ⟨h.capacity_eq, ?_, h.head_lt, hspace, ?_⟩
    · exact List.length_set.trans h.length_buffer
    · show (self.tail + 1) % self.capacity = (self.head + (self.size + 1)) % capacity
      rw [h.capacity_eq, h.tail_eq, Nat.mod_add_mod, Nat.add_assoc]
  · show CellRing.window (self.buffer.set self.tail item) self.head (self.size + 1) = _
    rw [h.tail_eq, ← h.length_buffer]
    apply CellRing.window_set_succ hhead
    rwa [h.length_buffer]

omit [Inhabited T] in
theorem Ok.advance (h : self.Ok capacity) (hsize : self.size ≠ 0) : self.advance.Ok capacity := by
  have hle := h.size_le
  have hlt := h.head_lt
  refine ⟨h.capacity_eq, h.length_buffer, ?_, ?_, ?_⟩
  · show (self.head + 1) % self.capacity < capacity
    rw [h.capacity_eq]
    exact Nat.mod_lt _ (by omega)
  · show self.size - 1 ≤ capacity
    omega
  · show self.tail = ((self.head + 1) % self.capacity + (self.size - 1)) % capacity
    rw [h.capacity_eq, h.tail_eq, CellRing.add_mod_succ]
    congr 2
    omega

theorem Ok.tryPush (h : self.Ok capacity) (item : T) :
    (self.tryPush item).2.Ok capacity ∧
      (self.tryPush item).map id contents =
        if self.contents.length = capacity then (false, self.contents)
        else (true, self.contents ++ [item]) := by
  rw [CircularBuffer.tryPush, length_contents, h.capacity_eq]
  by_cases hfull : self.size = capacity
  · rw [if_pos hfull, if_pos hfull]
    exact ⟨h, rfl⟩
  · obtain ⟨hok, hcontents⟩ := h.put item (Nat.lt_of_le_of_ne h.size_le hfull)
    rw [if_neg hfull, if_neg hfull, ← hcontents]
    exact ⟨hok, rfl⟩

theorem Ok.peek (h : self.Ok capacity) : self.peek = self.contents.head? := by
  rw [CircularBuffer.peek]
  by_cases hsize : self.size = 0
  · rw [if_pos hsize, contents_of_size hsize]
    rfl
  · rw [if_neg hsize, h.contents_cons hsize]
    rfl

theorem Ok.pop (h : self.Ok capacity) :
    self.pop.2.Ok capacity ∧ self.pop.1 = self.contents.head? ∧
      self.pop.2.contents = self.contents.tail := by
  rw [CircularBuffer.pop]
  by_cases hsize : self.size = 0
  · rw [if_pos hsize, contents_of_size hsize]
    exact ⟨h, rfl, rfl⟩
  · rw [if_neg hsize, h.contents_cons hsize]
    exact ⟨h.advance hsize, rfl, rfl⟩

theorem Ok.drainLoop (h : self.Ok capacity) (result : List T) :
    (drainLoop self.size self result).2.Ok capacity ∧
      (drainLoop self.size self result).1 = result ++ self.contents ∧
      (drainLoop self.size self result).2.contents = [] := by
  generalize hn : self.size = n
  induction n generalizing self result with
  | zero =>
    rw [CircularBuffer.drainLoop, contents_of_size hn, List.append_nil]
    exact ⟨h, rfl, rfl⟩
  | succ n ih =>
    have hsize : self.size ≠ 0 := by omega
    have hnext := ih (h.advance hsize) (result ++ [self.buffer[self.head]!]) (by
      show self.size - 1 = n
      omega)
    rw [CircularBuffer.drainLoop, if_pos (by omega), h.contents_cons hsize]
    rwa [List.append_assoc] at hnext

/-- `drain_all` hands out all items. -/
theorem Ok.drainAll (h : self.Ok capacity) :
    self.drainAll.2.Ok capacity ∧ self.drainAll.1 = self.contents ∧
      self.drainAll.2.contents = [] :=
  h.drainLoop []

end CircularBuffer

end Ziplog
