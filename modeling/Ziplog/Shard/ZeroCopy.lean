import Ziplog.Api.RefillSpace
import Ziplog.Proxy.ClientConnections

/-!
# The data of a frame

Subscribers and proxies do not decode a frame: they peek at its header and hand on a pointer into
the receive buffer with the data length that the frame claims. `deserialize` checks this length
against the body, `get_data_ptr` and the APPEND case of the proxy do not. So what they hand on lies
in the body of the frame exactly when an APPEND does not claim more data than it has
(`handsOn_iff`).
-/

namespace Ziplog

open Cells ReadBuffer

/-! ## What is handed on -/

/-- A pointer, as an offset from the start of the body, and a length. -/
structure DataSlice where
  data : Option ℕ
  len : ℕ
  deriving DecidableEq

/-- The bytes that a callee reads there, in the memory behind the start of the body. -/
def DataSlice.read (mem : List UInt8) (s : DataSlice) : Except MemFault (List UInt8) :=
  match s.data with
  | none => .ok []
  | some off => fetch mem off s.len

/-- What `Subscriber::handle_connection` hands to `observe` for a frame; nothing without a header.
-/
def handedToObserve (mem : List UInt8) (msgLen : ℕ) : Except MemFault (Option DataSlice) :=
  match MessageHeader.peek mem msgLen with
  | .error fault => .error fault
  | .ok none => .ok none
  | .ok (some header) =>
    if header.type = MessageTypes.append.value then
      let (data, dataLen) := getDataPtr mem msgLen
      .ok (some ⟨data, dataLen⟩)
    else if header.type = MessageTypes.skip.value then .ok (some ⟨none, 0⟩)
    else .ok none

/-- What the APPEND case of `Proxy::handle_connection` hands to `push_raw`. -/
def handedByAppend (registered : Bool) (mem : List UInt8) (msgLen : ℕ) :
    Except MemFault (Option DataSlice) :=
  if registered then
    if msgLen < 24 then .ok none
    else
      match appendDataLen mem with
      | .error fault => .error fault
      | .ok dataLen => .ok (some ⟨some 24, dataLen⟩)
  else .ok none

/-- What `Proxy::handle_connection` hands to `push_raw` for a frame. -/
def handedToPushRaw (registered : Bool) (mem : List UInt8) (msgLen : ℕ) :
    Except MemFault (Option DataSlice) :=
  match MessageHeader.peek mem msgLen with
  | .error fault => .error fault
  | .ok none => .ok none
  | .ok (some header) =>
    if header.type = MessageTypes.append.value then handedByAppend registered mem msgLen
    else .ok none

/-- The data length that a body claims. -/
def claimedLen (body : List UInt8) : ℕ := (ntohl (load32 (slice body 20 4))).toNat

/-- The body has the header of an APPEND and a data length, and claims more data than it has. -/
def Overclaims (body : List UInt8) : Prop :=
  isAppend body body.length = true ∧ 24 ≤ body.length ∧ body.length < 24 + claimedLen body

instance (body : List UInt8) : Decidable (Overclaims body) := by
  unfold Overclaims
  infer_instance

/-- `deserialize` gives up at the data length. -/
def RejectsDataLen (body : List UInt8) : Prop :=
  28 ≤ body.length ∧ body.length < 24 + claimedLen body

/-- What is handed on lies in the body, and is no data where `deserialize` rejects the data length.
-/
def FromBody (body : List UInt8) (s : DataSlice) : Prop :=
  (∀ off ∈ s.data, off + s.len ≤ body.length) ∧
    (RejectsDataLen body → s.data = none ∨ s.len = 0)

def HandsOn (body : List UInt8) (handed : Except MemFault (Option DataSlice)) : Prop :=
  ∃ s, handed = .ok s ∧ ∀ slice ∈ s, FromBody body slice

/-! ## Reading a body in the receive buffer -/

section Body

variable {body : List UInt8} (after : List UInt8)

theorem fetch_body {off len : ℕ} (h : off + len ≤ body.length) :
    fetch (body ++ after) off len = .ok (slice body off len) := by
  have hin : off + len ≤ (body ++ after).length := by
    rw [List.length_append]
    omega
  unfold fetch
  rw [read?_eq_some hin, slice_append_left after h]

/-- The header that a body has. -/
def headerOf (body : List UInt8) : MessageHeader where
  type := ntohl (load32 (slice body 0 4))
  shardId := ntohl (load32 (slice body 4 4))
  senderId := ntohl (load32 (slice body 8 4))
  seqOrCount := ntohll (load64 (slice body 12 8))

theorem peek_body : MessageHeader.peek (body ++ after) body.length =
    .ok (if body.length < MessageHeader.size then none else some (headerOf body)) := by
  unfold MessageHeader.peek
  have hsize : MessageHeader.size = 20 := rfl
  split_ifs with hshort
  · rfl
  · rw [fetch_body after (by omega), fetch_body after (by omega), fetch_body after (by omega),
      fetch_body after (by omega)]
    rfl

theorem isAppend_body : isAppend body body.length = true ↔
    MessageHeader.size ≤ body.length ∧ (headerOf body).type = MessageTypes.append.value := by
  have hpeek := @peek_body body []
  rw [List.append_nil] at hpeek
  unfold isAppend
  rw [hpeek]
  by_cases hshort : body.length < MessageHeader.size
  · rw [if_pos hshort]
    exact iff_of_false Bool.false_ne_true fun h => absurd h.1 (Nat.not_le.mpr hshort)
  · rw [if_neg hshort, and_iff_right (Nat.le_of_not_lt hshort)]
    exact decide_eq_true_iff

theorem appendDataLen_body (h : 24 ≤ body.length) :
    appendDataLen (body ++ after) = .ok (claimedLen body) := by
  unfold appendDataLen
  rw [fetch_body after (by omega)]
  rfl

theorem getDataPtr_body : getDataPtr (body ++ after) body.length =
    if body.length < 24 then (none, 0) else (some 24, claimedLen body) := by
  unfold getDataPtr
  split_ifs with hshort
  · rfl
  · rw [slice_append_left after (by omega)]
    rfl

/-- `deserialize` rejects the body then. -/
theorem deserialize_of_rejectsDataLen (h : RejectsDataLen body) :
    Message.deserialize (body ++ after) body.length = .ok none := by
  obtain ⟨hsize, hlen⟩ := h
  unfold Message.deserialize
  rw [if_neg (Nat.not_lt.mpr hsize), fetch_body after (by omega), fetch_body after (by omega),
    fetch_body after (by omega), fetch_body after (by omega), fetch_body after (by omega)]
  exact if_pos hlen

/-- What lies in the body is read there, whatever follows the body in the buffer. -/
theorem read_of_fromBody {s : DataSlice} (h : FromBody body s) :
    s.read (body ++ after) = .ok (s.data.elim [] fun off => slice body off s.len) := by
  unfold DataSlice.read
  rcases hdata : s.data with _ | off
  · rfl
  · exact fetch_body after (h.1 off hdata)

end Body

/-! ## One frame -/

variable {body after : List UInt8}

/-- The slice of an APPEND. -/
theorem fromBody_append : FromBody body ⟨some 24, claimedLen body⟩ ↔
    24 + claimedLen body ≤ body.length := by
  constructor
  · intro h
    exact h.1 24 rfl
  · intro hle
    refine ⟨fun off hoff => ?_, fun hrejects => ?_⟩
    · cases hoff
      exact hle
    · exact absurd hrejects.2 (Nat.not_lt.mpr hle)

/-- The null pointer. -/
theorem fromBody_null : FromBody body ⟨none, 0⟩ :=
  ⟨fun _ hoff => (nomatch hoff), fun _ => Or.inl rfl⟩

theorem handsOn_none : HandsOn body (.ok none) := ⟨none, rfl, fun _ hs => nomatch hs⟩

theorem handsOn_some {s : DataSlice} : HandsOn body (.ok (some s)) ↔ FromBody body s := by
  constructor
  · rintro ⟨t, ht, hfrom⟩
    cases ht
    exact hfrom s rfl
  · intro h
    refine ⟨some s, rfl, fun t ht => ?_⟩
    cases ht
    exact h

/-- The slice of an APPEND, as a condition on the body. -/
theorem handsOn_append (hsize : 24 ≤ body.length)
    (htype : (headerOf body).type = MessageTypes.append.value) :
    HandsOn body (.ok (some ⟨some 24, claimedLen body⟩)) ↔ ¬ Overclaims body := by
  have hmin : MessageHeader.size = 20 := rfl
  rw [handsOn_some, fromBody_append, Overclaims,
    and_iff_right (isAppend_body.mpr ⟨by omega, htype⟩),
    and_iff_right hsize, Nat.not_lt]

theorem handsOn_observe :
    HandsOn body (handedToObserve (body ++ after) body.length) ↔ ¬ Overclaims body := by
  unfold handedToObserve
  rw [peek_body, getDataPtr_body]
  by_cases hheader : body.length < MessageHeader.size
  · rw [if_pos hheader]
    exact iff_of_true handsOn_none fun h => Nat.not_lt.mpr (isAppend_body.mp h.1).1 hheader
  · rw [if_neg hheader]
    simp only
    by_cases happend : (headerOf body).type = MessageTypes.append.value
    · rw [if_pos happend]
      by_cases hshort : body.length < 24
      · rw [if_pos hshort]
        exact iff_of_true (handsOn_some.mpr fromBody_null) fun h => Nat.not_lt.mpr h.2.1 hshort
      · rw [if_neg hshort]
        exact handsOn_append (Nat.le_of_not_lt hshort) happend
    · have hother : ¬ Overclaims body := fun h => happend (isAppend_body.mp h.1).2
      rw [if_neg happend]
      split_ifs
      · exact iff_of_true (handsOn_some.mpr fromBody_null) hother
      · exact iff_of_true handsOn_none hother

theorem handsOn_pushRaw (registered : Bool) :
    HandsOn body (handedToPushRaw registered (body ++ after) body.length) ↔
      (registered = true → ¬ Overclaims body) := by
  unfold handedToPushRaw
  rw [peek_body]
  by_cases hheader : body.length < MessageHeader.size
  · rw [if_pos hheader]
    exact iff_of_true handsOn_none fun _ h => Nat.not_lt.mpr (isAppend_body.mp h.1).1 hheader
  · rw [if_neg hheader]
    simp only
    by_cases happend : (headerOf body).type = MessageTypes.append.value
    · rw [if_pos happend]
      unfold handedByAppend
      cases registered with
      | false => exact iff_of_true handsOn_none fun h => nomatch h
      | true =>
        rw [if_pos rfl, forall_prop_of_true rfl]
        by_cases hshort : body.length < 24
        · rw [if_pos hshort]
          exact iff_of_true handsOn_none fun h => Nat.not_lt.mpr h.2.1 hshort
        · rw [if_neg hshort, appendDataLen_body after (Nat.le_of_not_lt hshort)]
          exact handsOn_append (Nat.le_of_not_lt hshort) happend
    · rw [if_neg happend]
      exact iff_of_true handsOn_none fun _ h => happend (isAppend_body.mp h.1).2

/-- **The data of a frame.** Whatever body a frame has and however it was received: what a
subscriber hands on lies in the body exactly when the body does not claim more data than it has, and
what a proxy hands on does so exactly when that, or the proxy is not registered. -/
theorem handsOn_iff {sock sock' : Socket} {rb rb' : ReadBuffer} {rest : List UInt8} {msgLen : ℕ}
    (hok : rb.Ok) (hsize : body.length ≤ maxMessageSize)
    (hunread : unread sock rb = withPrefix body ++ rest)
    (hrecv : recvRawBuffered sock rb = (some msgLen, sock', rb')) :
    (HandsOn body (handedToObserve (rb'.data.drop 2) msgLen) ↔ ¬ Overclaims body) ∧
      ∀ registered, HandsOn body (handedToPushRaw registered (rb'.data.drop 2) msgLen) ↔
        (registered = true → ¬ Overclaims body) := by
  obtain ⟨rfl, ⟨after, hdata⟩, -⟩ := recvRawBuffered_frame hok hsize hunread hrecv
  rw [hdata]
  exact ⟨handsOn_observe, handsOn_pushRaw⟩

/-! ## The proxy -/

/-- What the APPEND case adds to the client buffer. -/
theorem handed_of_handleAppend {s t : Proxy} {i : ℕ} {c : ClientConnection} {mem : List UInt8}
    {msgLen : ℕ} (h : s.handleAppend i c mem msgLen = .ok t) :
    t.waiting = s.waiting ∨ ∃ slice data,
      handedByAppend s.registered mem msgLen = .ok (some slice) ∧ slice.read mem = .ok data ∧
        t.waiting = s.waiting ++ [(i, data)] := by
  unfold Proxy.handleAppend at h
  unfold handedByAppend
  by_cases hregistered : s.registered = true
  · rw [if_pos hregistered] at h ⊢
    by_cases hshort : msgLen < 24
    · rw [if_pos hshort] at h
      cases h
      exact Or.inl rfl
    · rw [if_neg hshort] at h ⊢
      rcases hlen : appendDataLen mem with fault | dataLen <;> simp only [hlen] at h ⊢
      · cases h
      · split_ifs at h with hfull
        · cases h
          exact Or.inl rfl
        · rcases hfetch : fetch mem 24 dataLen with fault | data <;> simp only [hfetch] at h
          · cases h
          · rcases hpush : s.source.manager.pushRaw c.socket data with fault | ⟨_ | _, m⟩ <;>
              simp only [hpush] at h <;> cases h
            · exact Or.inl rfl
            · exact Or.inr ⟨_, data, rfl, hfetch, rfl⟩
  · rw [if_neg hregistered] at h
    cases h
    exact Or.inl rfl

/-- **The data that a frame adds to the client buffer** are those handed on. -/
theorem handed_of_handleFrame {s t : Proxy} {i : ℕ} {c : ClientConnection} {mem : List UInt8}
    {msgLen : ℕ} (h : s.handleFrame i c mem msgLen = .ok t) :
    t.waiting = s.waiting ∨ ∃ slice data,
      handedToPushRaw s.registered mem msgLen = .ok (some slice) ∧ slice.read mem = .ok data ∧
        t.waiting = s.waiting ++ [(i, data)] := by
  unfold Proxy.handleFrame at h
  unfold handedToPushRaw
  rcases hpeek : MessageHeader.peek mem msgLen with fault | _ | header <;> simp only [hpeek] at h ⊢
  · cases h
  · cases h
    exact Or.inl rfl
  · by_cases happend : header.type = MessageTypes.append.value
    · rw [if_pos happend] at h ⊢
      exact handed_of_handleAppend h
    · rw [if_neg happend] at h
      split_ifs at h <;> cases h <;> exact Or.inl rfl

/-! ## Two frames -/

namespace ReadBuffer

/-- A buffer that has received one frame. -/
def holding (body : List UInt8) : ReadBuffer :=
  ⟨withPrefix body ++ List.replicate (capacity - (2 + body.length)) 0, 0, 2 + body.length⟩

theorem holding_ok (h : body.length ≤ maxMessageSize) : (holding body).Ok := by
  have hcap : capacity = 131070 := rfl
  have hmax : maxMessageSize = 65535 := rfl
  refine ⟨?_, Nat.zero_le _, ?_⟩
  · show (withPrefix body ++ List.replicate (capacity - (2 + body.length)) 0).length = capacity
    rw [List.length_append, length_withPrefix, List.length_replicate]
    omega
  · show 2 + body.length ≤ capacity
    omega

theorem unread_holding (body : List UInt8) :
    unread ⟨[], []⟩ (holding body) = withPrefix body ++ [] := by
  have hbytes : (holding body).bytes = withPrefix body := by
    have hlen := length_withPrefix body
    show slice (withPrefix body ++ _) 0 (2 + body.length - 0) = withPrefix body
    rw [slice_append_left _ (by omega), slice, List.drop_zero, List.take_of_length_le (by omega)]
  rw [unread, hbytes]

theorem recvRawBuffered_holding (h : body.length ≤ maxMessageSize) :
    recvRawBuffered ⟨[], []⟩ (holding body) = (some body.length, ⟨[], []⟩, holding body) :=
  recvRawBuffered_of_available (holding_ok h) h (unread_holding body) (Nat.le_refl _)

end ReadBuffer

/-- An APPEND with one byte of data. -/
def oneByteBody : List UInt8 := Message.serialize ⟨0, 1, 2, 3, [65], []⟩

theorem handsOn_iff_oneByte : ∃ rb : ReadBuffer,
    unread ⟨[], []⟩ rb = withPrefix oneByteBody ++ [] ∧
      (HandsOn oneByteBody (handedToObserve (rb.data.drop 2) 29) ↔ ¬ Overclaims oneByteBody) ∧
        ∀ registered, HandsOn oneByteBody (handedToPushRaw registered (rb.data.drop 2) 29) ↔
          (registered = true → ¬ Overclaims oneByteBody) :=
  ⟨holding oneByteBody, unread_holding _, handsOn_iff (holding_ok (by decide)) (by decide)
    (unread_holding _) (recvRawBuffered_holding (by decide))⟩

/-- An APPEND that claims 100 bytes of data and ends behind the number of its ordering values. -/
def overclaimingBody : List UInt8 :=
  Message.headerBytes 0 1 2 3 ++ store32 (htonl 100) ++ store32 (htonl 0)

/-- What lies behind a frame is handed on. -/
theorem not_handsOn :
    ¬ ∀ (body rest : List UInt8) (sock sock' : Socket) (rb rb' : ReadBuffer) (msgLen : ℕ),
      rb.Ok → body.length ≤ maxMessageSize → unread sock rb = withPrefix body ++ rest →
        recvRawBuffered sock rb = (some msgLen, sock', rb') →
          HandsOn body (handedToObserve (rb'.data.drop 2) msgLen) ∧
            HandsOn body (handedToPushRaw true (rb'.data.drop 2) msgLen) := by
  intro h
  have hsize : overclaimingBody.length ≤ maxMessageSize := by decide
  have hover : Overclaims overclaimingBody := by decide
  obtain ⟨hobserve, -⟩ := h overclaimingBody [] _ _ _ _ _ (holding_ok hsize) hsize
    (unread_holding _) (recvRawBuffered_holding hsize)
  obtain ⟨-, ⟨after, hdata⟩, -⟩ := recvRawBuffered_frame (holding_ok hsize) hsize
    (unread_holding _) (recvRawBuffered_holding hsize)
  rw [hdata] at hobserve
  exact handsOn_observe.mp hobserve hover

end Ziplog
