import Ziplog.Api.Message

/-!
# Frames on a connection

A frame is a message body behind its 16-bit length. `sendMessage` and `buildWireBytes` produce
frames; `recvMessageBuffered` and `recvRawBuffered` take them off a connection through
a `ReadBuffer`.

The receiving end of a connection is a `Socket`: the bytes that `recv` has not returned yet and
a schedule that says what each coming call of `recv` reports. The wait loops spin on this schedule;
they end because every round uses up one entry (`fillLoop_fuel`).

Offsets are natural numbers. `ReadBuffer.Ok` is the invariant `head ≤ tail ≤ capacity`, kept by
every operation, under which no subtraction of the source wraps. The bytes of the buffer between
`head` and `tail` followed by those still on the connection are the `unread` bytes: receiving leaves
them as they are, and consuming drops a frame from them.
-/

namespace Ziplog

open ByteImage Cells

/-! ## Sending -/

/-- The length prefix of a frame, cut to 16 bits. -/
def lengthPrefix (size : ℕ) : List UInt8 := store16 (htons (UInt16.ofNat size))

/-- The bytes `send_message` hands to the connection; `none` when it rejects the message. -/
def sendMessage (msg : Message) : Option (List UInt8) :=
  let serialized := msg.serialize
  if serialized = [] then none else some (lengthPrefix serialized.length ++ serialized)

/-- One APPEND or SKIP frame, written field by field. -/
def buildWireBytes (type shardId senderId : UInt32) (seq : UInt64) (data : List UInt8) :
    List UInt8 :=
  let payload := 4 + 4 + 4 + 8 + 4 + data.length + 4
  lengthPrefix payload ++ Message.headerBytes type shardId senderId seq ++
    store32 (htonl (UInt32.ofNat data.length)) ++ data ++ store32 (htonl 0)

/-! ## Receiving -/

/-- What one call of `recv` reports: nothing has arrived yet, or up to `n` bytes have. A chunk of no
bytes stands for a closed connection. -/
inductive RecvEvent
  | again
  | chunk (n : ℕ)
  deriving DecidableEq, Repr

/-- The receiving end of a connection. After the last entry of the schedule it is closed. -/
structure Socket where
  pending : List UInt8
  schedule : List RecvEvent
  deriving DecidableEq, Repr

structure ReadBuffer where
  buf : List UInt8
  head : ℕ
  tail : ℕ

namespace ReadBuffer

def capacity : ℕ := maxMessageSize * 2

def available (rb : ReadBuffer) : ℕ := rb.tail - rb.head

def reset (rb : ReadBuffer) : ReadBuffer := { rb with head := 0, tail := 0 }

/-- The memory behind `buf + head`. -/
def data (rb : ReadBuffer) : List UInt8 := rb.buf.drop rb.head

def consume (rb : ReadBuffer) (n : ℕ) : ReadBuffer :=
  let rb := { rb with head := rb.head + n }
  if rb.head = rb.tail then rb.reset else rb

/-- The shift at the start of `refill_spin`. -/
def compact (rb : ReadBuffer) : ReadBuffer :=
  if capacity / 2 < rb.head then
    { buf := overlay rb.buf 0 (slice rb.buf rb.head rb.available)
      head := 0
      tail := rb.available }
  else rb

/-- The loop of `refill_spin`: one call of `recv` for each entry of the schedule. -/
def recvLoop (rb : ReadBuffer) (pending : List UInt8) : List RecvEvent → Bool × Socket × ReadBuffer
  | [] => (false, ⟨pending, []⟩, rb)
  | .again :: schedule => recvLoop rb pending schedule
  | .chunk n :: schedule =>
    let received := pending.take (min n (capacity - rb.tail))
    if received = [] then (false, ⟨pending, schedule⟩, rb)
    else
      (true, ⟨pending.drop received.length, schedule⟩,
        { rb with
          buf := overlay rb.buf rb.tail received
          tail := rb.tail + received.length })

def refillSpin (sock : Socket) (rb : ReadBuffer) : Bool × Socket × ReadBuffer :=
  recvLoop rb.compact sock.pending sock.schedule

end ReadBuffer

open ReadBuffer

/-- The loop that refills the buffer while it holds less than `needed` bytes. -/
def fillLoop (needed : ℕ) : ℕ → Socket → ReadBuffer → Bool × Socket × ReadBuffer
  | 0, sock, rb => (false, sock, rb)
  | fuel + 1, sock, rb =>
    if rb.available < needed then
      match refillSpin sock rb with
      | (false, sock, rb) => (false, sock, rb)
      | (true, sock, rb) => fillLoop needed fuel sock rb
    else (true, sock, rb)

def fillTo (needed : ℕ) (sock : Socket) (rb : ReadBuffer) : Bool × Socket × ReadBuffer :=
  fillLoop needed (sock.schedule.length + 1) sock rb

/-- `recv_raw_buffered`: the length of the body, which then lies at `buf + head + 2`. -/
def recvRawBuffered (sock : Socket) (rb : ReadBuffer) : Option ℕ × Socket × ReadBuffer :=
  match fillTo 2 sock rb with
  | (false, sock, rb) => (none, sock, rb)
  | (true, sock, rb) =>
    let msgLen := (ntohs (load16 (slice rb.buf rb.head 2))).toNat
    if maxMessageSize < msgLen then (none, sock, rb)
    else
      match fillTo (2 + msgLen) sock rb with
      | (false, sock, rb) => (none, sock, rb)
      | (true, sock, rb) => (some msgLen, sock, rb)

/-- `recv_message_buffered` waits for a frame in the same way, and decodes and consumes it. -/
def recvMessageBuffered (sock : Socket) (rb : ReadBuffer) :
    Except MemFault (Option Message × Socket × ReadBuffer) :=
  match recvRawBuffered sock rb with
  | (none, sock, rb) => .ok (none, sock, rb)
  | (some msgLen, sock, rb) =>
    match Message.deserialize (rb.data.drop 2) msgLen with
    | .error fault => .error fault
    | .ok optMsg => .ok (optMsg, sock, rb.consume (2 + msgLen))

/-- The data pointer and data length a body carries, as an offset into the body. -/
def getDataPtr (body : List UInt8) (msgLen : ℕ) : Option ℕ × ℕ :=
  if msgLen < 24 then (none, 0)
  else (some 24, (ntohl (load32 (slice body 20 4))).toNat)

/-! ## The buffer -/

namespace ReadBuffer

/-- The buffer as allocated, whatever its memory holds. -/
structure Fresh (rb : ReadBuffer) : Prop where
  size : rb.buf.length = capacity
  head : rb.head = 0
  tail : rb.tail = 0

/-- A fresh buffer with cleared memory. -/
def zeroed : ReadBuffer := ⟨List.replicate capacity 0, 0, 0⟩

theorem zeroed_fresh : zeroed.Fresh := ⟨List.length_replicate, rfl, rfl⟩

/-- The offsets lie inside the buffer, in order. -/
structure Ok (rb : ReadBuffer) : Prop where
  size : rb.buf.length = capacity
  head : rb.head ≤ rb.tail
  tail : rb.tail ≤ capacity

/-- The bytes received and not consumed. -/
def bytes (rb : ReadBuffer) : List UInt8 := slice rb.buf rb.head (rb.tail - rb.head)

theorem Fresh.ok {rb : ReadBuffer} (h : rb.Fresh) : rb.Ok where
  size := h.size
  head := by rw [h.head, h.tail]
  tail := by rw [h.tail]; exact Nat.zero_le _

theorem Fresh.bytes {rb : ReadBuffer} (h : rb.Fresh) : rb.bytes = [] := by
  rw [ReadBuffer.bytes, h.tail, Nat.zero_sub, slice_zero]

variable {rb : ReadBuffer}

theorem Ok.length_bytes (h : rb.Ok) : rb.bytes.length = rb.available := by
  have h1 := h.size
  have h2 := h.head
  have h3 := h.tail
  exact length_slice (by omega)

theorem Ok.compact (h : rb.Ok) : rb.compact.Ok := by
  have h1 := h.size
  have h2 := h.head
  have h3 := h.tail
  unfold ReadBuffer.compact
  split_ifs with hc
  · refine ⟨?_, Nat.zero_le _, ?_⟩
    · have hlen : (slice rb.buf rb.head rb.available).length = rb.available := h.length_bytes
      rw [length_overlay (by rw [hlen]; unfold available; omega), h1]
    · show rb.tail - rb.head ≤ capacity
      omega
  · exact h

@[simp] theorem bytes_compact (h : rb.Ok) : rb.compact.bytes = rb.bytes := by
  have h1 := h.size
  have h2 := h.head
  have h3 := h.tail
  unfold ReadBuffer.compact
  split_ifs with hc
  · have hlen : (slice rb.buf rb.head rb.available).length = rb.available := h.length_bytes
    have hfit : 0 + (slice rb.buf rb.head rb.available).length ≤ rb.buf.length := by
      rw [hlen]
      unfold available
      omega
    have hself := slice_overlay_self hfit
    rw [hlen] at hself
    exact hself
  · rfl

theorem Ok.consume (h : rb.Ok) {n : ℕ} (hn : n ≤ rb.available) : (rb.consume n).Ok := by
  have h1 := h.size
  have h2 := h.head
  have h3 := h.tail
  unfold available at hn
  unfold ReadBuffer.consume
  simp only
  split_ifs with hr
  · exact ⟨h1, le_rfl, Nat.zero_le _⟩
  · exact ⟨h1, show rb.head + n ≤ rb.tail by omega, h3⟩

theorem bytes_consume (h : rb.Ok) {n : ℕ} (hn : n ≤ rb.available) :
    (rb.consume n).bytes = rb.bytes.drop n := by
  have h2 := h.head
  have hn' := hn
  unfold available at hn'
  have hrest : slice rb.buf (rb.head + n) (rb.tail - (rb.head + n)) = rb.bytes.drop n := by
    rw [ReadBuffer.bytes, slice, slice, List.drop_take, List.drop_drop]
    congr 1
    omega
  unfold ReadBuffer.consume
  simp only
  split_ifs with hr
  · rw [← hrest, hr, Nat.sub_self]
    rfl
  · exact hrest

/-- A received chunk extends the bytes in the buffer. -/
theorem bytes_receive (h : rb.Ok) {received : List UInt8}
    (hr : rb.tail + received.length ≤ capacity) :
    ReadBuffer.bytes { rb with
      buf := overlay rb.buf rb.tail received
      tail := rb.tail + received.length } = rb.bytes ++ received := by
  have h1 := h.size
  have h2 := h.head
  have h3 := h.tail
  have hsplit : rb.tail + received.length - rb.head = (rb.tail - rb.head) + received.length := by
    omega
  have hmid : rb.head + (rb.tail - rb.head) = rb.tail := by omega
  unfold ReadBuffer.bytes
  simp only
  rw [hsplit, slice_add, hmid, slice_overlay_of_le (by omega) (by omega),
    slice_overlay_self (by omega)]

end ReadBuffer

/-! ## Receiving keeps the unread bytes -/

/-- The bytes sent and not consumed: those in the buffer, then those on the connection. -/
def unread (sock : Socket) (rb : ReadBuffer) : List UInt8 := rb.bytes ++ sock.pending

/-- From one state of the receiving end to a later one without consuming anything: the schedule gets
shorter. -/
structure Received (sock : Socket) (rb : ReadBuffer) (sock' : Socket) (rb' : ReadBuffer) :
    Prop where
  ok : rb'.Ok
  unread : unread sock' rb' = unread sock rb
  schedule : sock'.schedule.length ≤ sock.schedule.length

theorem Received.refl {sock : Socket} {rb : ReadBuffer} (h : rb.Ok) : Received sock rb sock rb :=
  ⟨h, rfl, le_rfl⟩

theorem Received.trans {s₁ s₂ s₃ : Socket} {r₁ r₂ r₃ : ReadBuffer} (h : Received s₁ r₁ s₂ r₂)
    (h' : Received s₂ r₂ s₃ r₃) : Received s₁ r₁ s₃ r₃ :=
  ⟨h'.ok, h'.unread.trans h.unread, h'.schedule.trans h.schedule⟩

theorem recvLoop_received {rb : ReadBuffer} (h : rb.Ok) (pending : List UInt8)
    (schedule : List RecvEvent) :
    Received ⟨pending, schedule⟩ rb (recvLoop rb pending schedule).2.1
      (recvLoop rb pending schedule).2.2 := by
  induction schedule with
  | nil => exact .refl h
  | cons event schedule ih =>
    cases event with
    | again => exact ⟨ih.ok, ih.unread, ih.schedule.trans (Nat.le_succ _)⟩
    | chunk n =>
      have h3 := h.tail
      unfold recvLoop
      simp only
      split_ifs with hr
      · exact ⟨h, rfl, Nat.le_succ _⟩
      · have hlen : (pending.take (min n (capacity - rb.tail))).length ≤ capacity - rb.tail :=
          (List.length_take_le _ _).trans (Nat.min_le_right _ _)
        have hfit : rb.tail + (pending.take (min n (capacity - rb.tail))).length ≤ capacity := by
          omega
        refine ⟨⟨?_, ?_, hfit⟩, ?_, Nat.le_succ _⟩
        · rw [length_overlay (by rw [h.size]; exact hfit), h.size]
        · exact h.head.trans (Nat.le_add_right _ _)
        · unfold Ziplog.unread
          rw [bytes_receive h hfit, List.append_assoc]
          congr 1
          exact List.prefix_iff_eq_append.mp (List.take_prefix _ _)

/-- A refill that succeeds uses up an entry of the schedule. -/
theorem recvLoop_schedule {rb : ReadBuffer} {pending : List UInt8} {schedule : List RecvEvent}
    (h : (recvLoop rb pending schedule).1 = true) :
    (recvLoop rb pending schedule).2.1.schedule.length < schedule.length := by
  induction schedule with
  | nil => cases h
  | cons event schedule ih =>
    cases event with
    | again => exact (ih h).trans (Nat.lt_succ_self _)
    | chunk n =>
      unfold recvLoop
      simp only
      split_ifs <;> exact Nat.lt_succ_self _

theorem refillSpin_received (sock : Socket) {rb : ReadBuffer} (h : rb.Ok) :
    Received sock rb (refillSpin sock rb).2.1 (refillSpin sock rb).2.2 := by
  have hr := recvLoop_received h.compact sock.pending sock.schedule
  refine ⟨hr.ok, hr.unread.trans ?_, hr.schedule⟩
  rw [unread, unread, bytes_compact h]

/-- The loop needs no more fuel than there are entries in the schedule. -/
theorem fillLoop_fuel (needed : ℕ) {fuel : ℕ} {sock : Socket} (rb : ReadBuffer)
    (h : sock.schedule.length < fuel) :
    fillLoop needed fuel sock rb = fillTo needed sock rb := by
  induction fuel using Nat.strong_induction_on generalizing sock rb with
  | _ fuel ih =>
    obtain ⟨fuel, rfl⟩ : ∃ m, fuel = m + 1 := ⟨fuel - 1, by omega⟩
    unfold fillTo
    unfold fillLoop
    by_cases hn : rb.available < needed
    · rw [if_pos hn, if_pos hn]
      have hs : (refillSpin sock rb).1 = true →
          (refillSpin sock rb).2.1.schedule.length < sock.schedule.length := recvLoop_schedule
      rcases hrefill : refillSpin sock rb with ⟨ok, sock', rb'⟩
      rw [hrefill] at hs
      cases ok with
      | false => rfl
      | true =>
        have hlt : sock'.schedule.length < sock.schedule.length := hs rfl
        simp only
        rw [ih fuel (by omega) rb' (by omega), ih sock.schedule.length (by omega) rb' (by omega)]
    · rw [if_neg hn, if_neg hn]

theorem fillLoop_received (needed fuel : ℕ) (sock : Socket) {rb : ReadBuffer} (h : rb.Ok) :
    Received sock rb (fillLoop needed fuel sock rb).2.1 (fillLoop needed fuel sock rb).2.2 := by
  induction fuel generalizing sock rb with
  | zero => exact .refl h
  | succ fuel ih =>
    unfold fillLoop
    split_ifs with hn
    · have hr := refillSpin_received sock h
      rcases hrefill : refillSpin sock rb with ⟨ok, sock', rb'⟩
      rw [hrefill] at hr
      cases ok with
      | false => exact hr
      | true => exact hr.trans (ih sock' hr.ok)
    · exact .refl h

theorem fillTo_received (needed : ℕ) (sock : Socket) {rb : ReadBuffer} (h : rb.Ok) :
    Received sock rb (fillTo needed sock rb).2.1 (fillTo needed sock rb).2.2 :=
  fillLoop_received _ _ _ h

theorem fillLoop_available {needed fuel : ℕ} {sock : Socket} {rb : ReadBuffer}
    (h : (fillLoop needed fuel sock rb).1 = true) :
    needed ≤ (fillLoop needed fuel sock rb).2.2.available := by
  induction fuel generalizing sock rb with
  | zero => cases h
  | succ fuel ih =>
    unfold fillLoop at h ⊢
    split_ifs at h ⊢ with hn
    · rcases hrefill : refillSpin sock rb with ⟨ok, sock', rb'⟩
      rw [hrefill] at h
      cases ok with
      | false => cases h
      | true => exact ih h
    · exact Nat.not_lt.mp hn

theorem fillTo_available {needed : ℕ} {sock : Socket} {rb : ReadBuffer}
    (h : (fillTo needed sock rb).1 = true) : needed ≤ (fillTo needed sock rb).2.2.available :=
  fillLoop_available h

end Ziplog
