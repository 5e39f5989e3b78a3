import Mathlib.Data.Finset.Card
import Ziplog.Api.Message

/-!
# The client buffer of a proxy

`pushRaw` writes a command behind its length into one linear block of memory, `drain` hands out the
range not yet released, and `release` gives it back; the positions return to the front only when
nothing is left. The space check of `pushRaw` compares the bytes in use with the capacity, not the
write position, so a write can leave the block: the model reports it as a fault.

`Holds m queued` says that the range between the positions is the encoding of the commands `queued`.
-/

namespace Ziplog

open Cells CommandBatch

structure ClientBufferManager where
  buf : List UInt8
  writePos : ℕ
  readPos : ℕ
  used : ℕ
  participating : Finset ℕ

namespace ClientBufferManager

def capacity : ℕ := 2 ^ 20

/-- A range of the block, and the clients with a command in it. -/
structure DrainResult where
  data : ℕ
  len : ℕ
  participating : Finset ℕ

def init : ClientBufferManager where
  buf := List.replicate capacity 0
  writePos := 0
  readPos := 0
  used := 0
  participating := ∅

def pushRaw (m : ClientBufferManager) (clientSocket : ℕ) (data : Command) :
    Except MemFault (Bool × ClientBufferManager) :=
  let needed := 4 + data.length
  if capacity < m.used + needed then .ok (false, m)
  else if capacity < m.writePos + needed then .error .outOfBounds
  else
    .ok (true,
      { buf := overlay m.buf m.writePos (encodeCommand data)
        writePos := m.writePos + needed
        readPos := m.readPos
        used := m.used + needed
        participating := insert clientSocket m.participating })

def remove (m : ClientBufferManager) (clientSocket : ℕ) : ClientBufferManager :=
  { m with participating := m.participating.erase clientSocket }

def drain (m : ClientBufferManager) : DrainResult × ClientBufferManager :=
  (⟨m.readPos, m.used, m.participating⟩, { m with participating := ∅ })

/-- The subtraction wraps at the width of `size_t`. -/
def release (m : ClientBufferManager) (consumed : ℕ) : ClientBufferManager :=
  let m := { m with
    readPos := m.readPos + consumed
    used := (m.used + 2 ^ 64 - consumed) % 2 ^ 64 }
  if m.used = 0 then { m with readPos := 0, writePos := 0 } else m

/-- A release leaves the clients alone. -/
theorem participating_release (m : ClientBufferManager) (consumed : ℕ) :
    (m.release consumed).participating = m.participating := by
  unfold release
  simp only
  split_ifs <;> rfl

theorem pushRaw_eq {m : ClientBufferManager} {data : Command}
    (hused : m.used + (4 + data.length) ≤ capacity)
    (hpos : m.writePos + (4 + data.length) ≤ capacity) (clientSocket : ℕ) :
    m.pushRaw clientSocket data = .ok (true,
      { buf := overlay m.buf m.writePos (encodeCommand data)
        writePos := m.writePos + (4 + data.length)
        readPos := m.readPos
        used := m.used + (4 + data.length)
        participating := insert clientSocket m.participating }) := by
  unfold pushRaw
  simp only [if_neg (Nat.not_lt.mpr hused), if_neg (Nat.not_lt.mpr hpos)]

/-- A release of no more than what is in use. -/
theorem release_eq {m : ClientBufferManager} {consumed : ℕ} (hconsumed : consumed ≤ m.used)
    (hused : m.used ≤ capacity) :
    m.release consumed =
      if m.used - consumed = 0 then { m with used := 0, readPos := 0, writePos := 0 }
      else { m with used := m.used - consumed, readPos := m.readPos + consumed } := by
  have hcap : capacity = 2 ^ 20 := rfl
  have hwrap : (m.used + 2 ^ 64 - consumed) % 2 ^ 64 = m.used - consumed := by omega
  unfold release
  simp only [hwrap]
  split_ifs with hzero
  · rw [hzero]
  · rfl

/-- Only a full buffer refuses a push. -/
theorem full_of_pushRaw {m m' : ClientBufferManager} {clientSocket : ℕ} {data : Command}
    (h : m.pushRaw clientSocket data = .ok (false, m')) :
    capacity < m.used + (4 + data.length) := by
  unfold pushRaw at h
  simp only at h
  split_ifs at h with hfull
  · exact hfull
  · cases h

/-- A push that succeeds stays in the block. -/
theorem writePos_of_pushRaw {m m' : ClientBufferManager} {clientSocket : ℕ} {data : Command}
    (h : m.pushRaw clientSocket data = .ok (true, m')) :
    m.writePos + (4 + data.length) ≤ capacity := by
  unfold pushRaw at h
  simp only at h
  split_ifs at h with hfull hout
  · cases h
  · exact Nat.le_of_not_lt hout

/-- A push that succeeds enters its client. -/
theorem participating_pushRaw {m m' : ClientBufferManager} {clientSocket : ℕ} {data : Command}
    (h : m.pushRaw clientSocket data = .ok (true, m')) :
    m'.participating = insert clientSocket m.participating := by
  unfold pushRaw at h
  simp only at h
  split_ifs at h <;> cases h
  rfl

/-! ## The commands in the buffer -/

/-- The bytes in use are the encoding of `queued`. -/
structure Holds (m : ClientBufferManager) (queued : List Command) : Prop where
  size : m.buf.length = capacity
  span : m.readPos + m.used = m.writePos
  fits : m.writePos ≤ capacity
  bytes : slice m.buf m.readPos m.used = encode queued
  short : ∀ cmd ∈ queued, cmd.length < 2 ^ 32

theorem holds_init : Holds init [] where
  size := List.length_replicate
  span := rfl
  fits := Nat.zero_le _
  bytes := by rw [init, slice_zero, encode_nil]
  short := fun cmd hcmd => nomatch hcmd

variable {m : ClientBufferManager} {queued : List Command}

theorem Holds.used_eq (h : Holds m queued) : m.used = (encode queued).length := by
  have h1 := h.size
  have h2 := h.span
  have h3 := h.fits
  rw [← h.bytes, length_slice (by omega)]

theorem Holds.remove (h : Holds m queued) (clientSocket : ℕ) :
    Holds (m.remove clientSocket) queued := ⟨h.size, h.span, h.fits, h.bytes, h.short⟩

theorem Holds.drain (h : Holds m queued) : Holds m.drain.2 queued :=
  ⟨h.size, h.span, h.fits, h.bytes, h.short⟩

/-- **A push** is refused and changes nothing, leaves the block, or appends the command. -/
theorem Holds.pushRaw (h : Holds m queued) (clientSocket : ℕ) (data : Command) :
    m.pushRaw clientSocket data = .ok (false, m) ∨
    m.pushRaw clientSocket data = .error .outOfBounds ∨
    ∃ m', m.pushRaw clientSocket data = .ok (true, m') ∧ Holds m' (queued ++ [data]) ∧
      m'.readPos = m.readPos ∧ m'.participating = insert clientSocket m.participating := by
  have h1 := h.size
  have h2 := h.span
  have h3 := h.fits
  have hlen := length_encodeCommand data
  unfold ClientBufferManager.pushRaw
  simp only
  split_ifs with hfull hout
  · exact Or.inl rfl
  · exact Or.inr (Or.inl rfl)
  · refine Or.inr (Or.inr ⟨_, rfl, ?_, rfl, rfl⟩)
    have hcap : capacity = 2 ^ 20 := rfl
    have hwrite : m.writePos + (encodeCommand data).length ≤ m.buf.length := by omega
    refine ⟨?_, ?_, ?_, ?_, ?_⟩
    · rw [length_overlay hwrite, h1]
    · show m.readPos + (m.used + (4 + data.length)) = m.writePos + (4 + data.length)
      omega
    · show m.writePos + (4 + data.length) ≤ capacity
      omega
    · show slice (overlay m.buf m.writePos (encodeCommand data)) m.readPos
        (m.used + (4 + data.length)) = encode (queued ++ [data])
      rw [← hlen, slice_add, h2, slice_overlay_of_le (by omega) (by omega),
        slice_overlay_self hwrite, h.bytes, encode_append, encode_cons, encode_nil, List.append_nil]
    · intro cmd hcmd
      rcases List.mem_append.mp hcmd with hcmd | hcmd
      · exact h.short cmd hcmd
      · rw [List.mem_singleton.mp hcmd]
        omega

/-- The range of the first commands. -/
theorem Holds.slice_prefix {batch more : List Command} (h : Holds m (batch ++ more)) :
    slice m.buf m.readPos (encode batch).length = encode batch := by
  have hused := h.used_eq
  rw [encode_append, List.length_append] at hused
  have hbytes := h.bytes
  rw [hused, slice_add, encode_append] at hbytes
  refine (List.append_inj hbytes ?_).1
  have h1 := h.size
  have h2 := h.span
  have h3 := h.fits
  rw [length_slice (by omega)]

/-- **A release** of the first commands leaves the others. -/
theorem Holds.release {batch more : List Command} (h : Holds m (batch ++ more)) :
    Holds (m.release (encode batch).length) more := by
  have h1 := h.size
  have h2 := h.span
  have h3 := h.fits
  have hused := h.used_eq
  rw [encode_append, List.length_append] at hused
  have hrest : m.used - (encode batch).length = (encode more).length := by omega
  have hmore : slice m.buf (m.readPos + (encode batch).length) (encode more).length =
      encode more := by
    have hbytes := h.bytes
    rw [hused, slice_add, encode_append] at hbytes
    exact (List.append_inj hbytes (by rw [length_slice (by omega)])).2
  have hshort : ∀ cmd ∈ more, cmd.length < 2 ^ 32 := fun cmd hcmd =>
    h.short cmd (List.mem_append_right _ hcmd)
  rw [release_eq (by omega) (by omega), hrest]
  split_ifs with hzero
  · refine ⟨h1, ?_, Nat.zero_le _, ?_, hshort⟩
    · rfl
    · show slice m.buf 0 0 = encode more
      rw [List.length_eq_zero_iff] at hzero
      rw [hzero, slice_zero]
  · refine ⟨h1, ?_, h3, hmore, hshort⟩
    show m.readPos + (encode batch).length + (encode more).length = m.writePos
    omega

end ClientBufferManager

end Ziplog
