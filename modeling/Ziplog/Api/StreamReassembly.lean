import Ziplog.Api.NetworkUtils

/-!
# Reassembly of a stream of frames

The sender puts frames on a connection one after the other and the receiver sees the bytes in chunks
of any size. `recvRawBuffered_frame` says what a receive call does when the unread bytes start with
a frame: it waits, or it finds the whole frame at the head of the buffer. `Visited` collects the
states of the receiving end between the calls and between the refills inside them, and in each the
consumed frames, the bytes in the buffer and those on the connection make up the stream
(`recvMessageBuffered_delivers`).
-/

namespace Ziplog

open Cells ReadBuffer

/-- The frame `send_message` puts on the connection. -/
def frame (msg : Message) : List UInt8 := (sendMessage msg).getD []

/-- What a receiver reads from a length prefix. -/
theorem ntohs_lengthPrefix_mod (size : ℕ) :
    (ntohs (load16 (lengthPrefix size))).toNat = size % 2 ^ 16 := by
  rw [lengthPrefix, store16_htons, ntohs_load16_be, UInt16.toNat_ofNat']

theorem ntohs_lengthPrefix {size : ℕ} (h : size ≤ maxMessageSize) :
    (ntohs (load16 (lengthPrefix size))).toNat = size := by
  unfold maxMessageSize at h
  rw [ntohs_lengthPrefix_mod, Nat.mod_eq_of_lt (by omega)]

@[simp] theorem length_lengthPrefix (size : ℕ) : (lengthPrefix size).length = 2 :=
  length_store16 _

/-- A message that fits is not refused. -/
theorem sendMessage_eq {msg : Message} (h : msg.encodedSize ≤ maxMessageSize) :
    sendMessage msg = some (lengthPrefix msg.encodedSize ++ msg.serialize) := by
  have hlen := Message.length_serialize h
  have hne : msg.serialize ≠ [] := by
    intro hnil
    rw [hnil] at hlen
    unfold Message.encodedSize at hlen
    rw [List.length_nil] at hlen
    omega
  unfold sendMessage
  simp only [if_neg hne, hlen]

theorem frame_eq {msg : Message} (h : msg.encodedSize ≤ maxMessageSize) :
    frame msg = lengthPrefix msg.encodedSize ++ msg.serialize := by
  rw [frame, sendMessage_eq h, Option.getD_some]

/-! ## One receive call -/

/-- The bytes in the buffer are the first unread ones. -/
theorem take_unread {sock : Socket} {rb : ReadBuffer} (h : rb.Ok) {n : ℕ} (hn : n ≤ rb.available) :
    (unread sock rb).take n = rb.bytes.take n := by
  rw [unread, List.take_append_of_le_length (by rw [h.length_bytes]; exact hn)]

/-- The length prefix is the first unread bytes. -/
theorem slice_head {sock : Socket} {rb : ReadBuffer} (h : rb.Ok) {n : ℕ} (hn : n ≤ rb.available) :
    slice rb.buf rb.head n = (unread sock rb).take n := by
  rw [take_unread h hn, bytes, slice, slice, List.take_take]
  unfold available at hn
  rw [min_eq_left hn]

theorem drop_unread {sock : Socket} {rb : ReadBuffer} (h : rb.Ok) {n : ℕ} (hn : n ≤ rb.available) :
    unread sock (rb.consume n) = (unread sock rb).drop n := by
  rw [unread, unread, bytes_consume h hn,
    List.drop_append_of_le_length (by rw [h.length_bytes]; exact hn)]

/-- The memory behind the head of the buffer starts with the bytes received. -/
theorem data_eq {rb : ReadBuffer} : rb.data = rb.bytes ++ rb.buf.drop (rb.head + rb.available) := by
  rw [data, bytes, slice, available, ← List.drop_drop, List.take_append_drop]

/-- A receive call consumes nothing, and reports a length only when the whole frame is in the
buffer: it is the length the first two unread bytes announce. -/
theorem recvRawBuffered_received (sock : Socket) {rb : ReadBuffer} (h : rb.Ok)
    {len : Option ℕ} {sock' : Socket} {rb' : ReadBuffer}
    (hrecv : recvRawBuffered sock rb = (len, sock', rb')) :
    Received sock rb sock' rb' ∧
      ∀ msgLen, len = some msgLen → 2 + msgLen ≤ rb'.available ∧
        msgLen = (ntohs (load16 ((unread sock rb).take 2))).toNat := by
  unfold recvRawBuffered at hrecv
  have hr₁ := fillTo_received 2 sock h
  have ha₁ : (fillTo 2 sock rb).1 = true → 2 ≤ (fillTo 2 sock rb).2.2.available :=
    fillTo_available
  rcases hfill₁ : fillTo 2 sock rb with ⟨ok, sock₁, rb₁⟩
  rw [hfill₁] at hrecv hr₁ ha₁
  cases ok with
  | false =>
    cases hrecv
    exact ⟨hr₁, fun msgLen hlen => nomatch hlen⟩
  | true =>
    have hinit : slice rb₁.buf rb₁.head 2 = (unread sock rb).take 2 := by
      rw [← hr₁.unread]
      exact slice_head hr₁.ok (ha₁ rfl)
    simp only [hinit] at hrecv
    generalize (ntohs (load16 ((unread sock rb).take 2))).toNat = announced at hrecv ⊢
    split_ifs at hrecv with hbig
    · cases hrecv
      exact ⟨hr₁, fun msgLen hlen => nomatch hlen⟩
    · have hr₂ := fillTo_received (2 + announced) sock₁ hr₁.ok
      have ha₂ : (fillTo (2 + announced) sock₁ rb₁).1 = true →
          2 + announced ≤ (fillTo (2 + announced) sock₁ rb₁).2.2.available := fillTo_available
      rcases hfill₂ : fillTo (2 + announced) sock₁ rb₁ with ⟨ok, sock₂, rb₂⟩
      rw [hfill₂] at hrecv hr₂ ha₂
      cases ok with
      | false =>
        cases hrecv
        exact ⟨hr₁.trans hr₂, fun msgLen hlen => nomatch hlen⟩
      | true =>
        cases hrecv
        refine ⟨hr₁.trans hr₂, fun msgLen hlen => ?_⟩
        cases hlen
        exact ⟨ha₂ rfl, rfl⟩

/-- **One frame.** When the unread bytes start with a frame, a length is reported only as its
length, with its body at the head of the buffer, and consuming it leaves the bytes behind it. -/
theorem recvRawBuffered_frame {sock : Socket} {rb : ReadBuffer} (h : rb.Ok) {body rest : List UInt8}
    (hsize : body.length ≤ maxMessageSize)
    (hunread : unread sock rb = lengthPrefix body.length ++ body ++ rest)
    {msgLen : ℕ} {sock' : Socket} {rb' : ReadBuffer}
    (hrecv : recvRawBuffered sock rb = (some msgLen, sock', rb')) :
    msgLen = body.length ∧ (∃ after, rb'.data.drop 2 = body ++ after) ∧
      (rb'.consume (2 + msgLen)).Ok ∧ unread sock' (rb'.consume (2 + msgLen)) = rest := by
  obtain ⟨hr, hlen⟩ := recvRawBuffered_received sock h hrecv
  obtain ⟨hav, hmsg⟩ := hlen msgLen rfl
  have hann : msgLen = body.length := by
    rw [hmsg, hunread, List.append_assoc, List.take_left' (length_lengthPrefix _),
      ntohs_lengthPrefix hsize]
  subst hann
  have hframe : (lengthPrefix body.length ++ body).length = 2 + body.length := by
    rw [List.length_append, length_lengthPrefix]
  obtain ⟨more, hmore⟩ : ∃ more, rb'.bytes = lengthPrefix body.length ++ body ++ more := by
    refine ⟨rb'.bytes.drop (2 + body.length), ?_⟩
    conv_lhs => rw [← List.take_append_drop (2 + body.length) rb'.bytes]
    rw [← @take_unread sock' _ hr.ok _ hav, hr.unread, hunread, List.take_left' hframe]
  refine ⟨rfl, ⟨more ++ rb'.buf.drop (rb'.head + rb'.available), ?_⟩, hr.ok.consume hav, ?_⟩
  · rw [data_eq, hmore, List.append_assoc, List.append_assoc,
      List.drop_left' (length_lengthPrefix _)]
  · rw [drop_unread hr.ok hav, hr.unread, hunread, List.drop_left' hframe]

/-- A receive call on a stream that starts with a message returns this message and consumes its
frame, or waits in vain. -/
theorem recvMessageBuffered_frame {sock : Socket} {rb : ReadBuffer} (h : rb.Ok) {msg : Message}
    (hfit : msg.encodedSize ≤ maxMessageSize) {rest : List UInt8}
    (hunread : unread sock rb = frame msg ++ rest) :
    ∃ optMsg sock' rb', recvMessageBuffered sock rb = .ok (optMsg, sock', rb') ∧ rb'.Ok ∧
      (optMsg = none ∧ unread sock' rb' = unread sock rb ∨
        optMsg = some msg ∧ unread sock' rb' = rest) := by
  unfold recvMessageBuffered
  rcases hraw : recvRawBuffered sock rb with ⟨_ | msgLen, sock', rb'⟩
  · have hr := (recvRawBuffered_received sock h hraw).1
    exact ⟨none, sock', rb', rfl, hr.ok, Or.inl ⟨rfl, hr.unread⟩⟩
  · have hlen := Message.length_serialize hfit
    rw [frame_eq hfit, ← hlen] at hunread
    obtain ⟨rfl, ⟨after, hdata⟩, hok, hrest⟩ :=
      recvRawBuffered_frame h (by rw [hlen]; exact hfit) hunread hraw
    simp only [hdata, hlen, Message.deserialize_serialize hfit after]
    rw [hlen] at hok hrest
    exact ⟨some msg, sock', _, rfl, hok, Or.inr ⟨rfl, hrest⟩⟩

theorem recvMessageBuffered_nil {sock : Socket} {rb : ReadBuffer} (h : rb.Ok)
    (hunread : unread sock rb = []) :
    ∃ sock' rb', recvMessageBuffered sock rb = .ok (none, sock', rb') ∧ rb'.Ok ∧
      unread sock' rb' = [] := by
  unfold recvMessageBuffered
  rcases hraw : recvRawBuffered sock rb with ⟨_ | msgLen, sock', rb'⟩
  · have hr := (recvRawBuffered_received sock h hraw).1
    exact ⟨sock', rb', rfl, hr.ok, hr.unread.trans hunread⟩
  · obtain ⟨hr, hlen⟩ := recvRawBuffered_received sock h hraw
    obtain ⟨hav, -⟩ := hlen msgLen rfl
    have hlen := congrArg List.length (hr.unread.trans hunread)
    rw [unread, List.length_append, hr.ok.length_bytes, List.length_nil] at hlen
    omega

theorem fillTo_of_available {needed : ℕ} {rb : ReadBuffer} (sock : Socket)
    (h : needed ≤ rb.available) : fillTo needed sock rb = (true, sock, rb) := by
  unfold fillTo
  unfold fillLoop
  rw [if_neg (Nat.not_lt.mpr h)]

/-- The length a buffer announces, once the prefix is there. -/
theorem announced_eq {sock : Socket} {rb : ReadBuffer} (h : rb.Ok) {body rest : List UInt8}
    (hsize : body.length ≤ maxMessageSize)
    (hunread : unread sock rb = lengthPrefix body.length ++ body ++ rest)
    (hav : 2 ≤ rb.available) :
    (ntohs (load16 (slice rb.buf rb.head 2))).toNat = body.length := by
  rw [@slice_head sock _ h _ hav, hunread, List.append_assoc,
    List.take_left' (length_lengthPrefix _), ntohs_lengthPrefix hsize]

/-- A frame that is in the buffer is found at once. -/
theorem recvRawBuffered_of_available {sock : Socket} {rb : ReadBuffer} (h : rb.Ok)
    {body rest : List UInt8} (hsize : body.length ≤ maxMessageSize)
    (hunread : unread sock rb = lengthPrefix body.length ++ body ++ rest)
    (hav : 2 + body.length ≤ rb.available) :
    recvRawBuffered sock rb = (some body.length, sock, rb) := by
  have hannounced := announced_eq h hsize hunread (by omega)
  unfold recvRawBuffered
  rw [fillTo_of_available sock (show 2 ≤ rb.available by omega)]
  simp only [hannounced]
  rw [if_neg (Nat.not_lt.mpr hsize), fillTo_of_available sock hav]

/-- A message whose frame is in the buffer is returned at once. -/
theorem recvMessageBuffered_of_available {sock : Socket} {rb : ReadBuffer} (h : rb.Ok)
    {msg : Message} (hfit : msg.encodedSize ≤ maxMessageSize) {rest : List UInt8}
    (hunread : unread sock rb = frame msg ++ rest) (hav : 2 + msg.encodedSize ≤ rb.available) :
    recvMessageBuffered sock rb = .ok (some msg, sock, rb.consume (2 + msg.encodedSize)) := by
  have hlen := Message.length_serialize hfit
  rw [← hlen] at hav
  rw [frame_eq hfit, ← hlen] at hunread
  have hsize : msg.serialize.length ≤ maxMessageSize := by rw [hlen]; exact hfit
  have hraw := recvRawBuffered_of_available h hsize hunread hav
  obtain ⟨-, ⟨after, hdata⟩, -⟩ := recvRawBuffered_frame h hsize hunread hraw
  unfold recvMessageBuffered
  simp only [hraw, hdata, hlen, Message.deserialize_serialize hfit after]

/-! ## The states of the receiving end -/

/-- The receiving end of a connection that carries `wire`: the messages returned so far, the socket
and the buffer. A step is one refill or one receive call. -/
inductive Visited (wire : List UInt8) : List Message → Socket → ReadBuffer → Prop
  | start {rb : ReadBuffer} (schedule : List RecvEvent) (hrb : rb.Fresh) :
      Visited wire [] ⟨wire, schedule⟩ rb
  | refill {received : List Message} {sock : Socket} {rb : ReadBuffer} :
      Visited wire received sock rb →
      Visited wire received (refillSpin sock rb).2.1 (refillSpin sock rb).2.2
  | call {received : List Message} {sock sock' : Socket} {rb rb' : ReadBuffer}
      {optMsg : Option Message} :
      Visited wire received sock rb → recvMessageBuffered sock rb = .ok (optMsg, sock', rb') →
      Visited wire (received ++ optMsg.toList) sock' rb'

/-- The messages returned are the first ones sent, and the unread bytes are the frames of the
others. -/
theorem Visited.split {msgs : List Message} (hfit : ∀ msg ∈ msgs, msg.encodedSize ≤ maxMessageSize)
    {received : List Message} {sock : Socket} {rb : ReadBuffer}
    (h : Visited (msgs.flatMap frame) received sock rb) :
    rb.Ok ∧ ∃ later, msgs = received ++ later ∧ unread sock rb = later.flatMap frame := by
  induction h with
  | @start rb schedule hrb =>
    refine ⟨hrb.ok, msgs, rfl, ?_⟩
    rw [unread, hrb.bytes, List.nil_append]
  | @refill received sock rb _ ih =>
    obtain ⟨hok, later, hmsgs, hunread⟩ := ih
    have hr := refillSpin_received sock hok
    exact ⟨hr.ok, later, hmsgs, hr.unread.trans hunread⟩
  | @call received sock sock' rb rb' optMsg _ hcall ih =>
    obtain ⟨hok, later, hmsgs, hunread⟩ := ih
    cases later with
    | nil =>
      obtain ⟨sock₂, rb₂, heq, hok', hnil⟩ := recvMessageBuffered_nil hok hunread
      rw [heq] at hcall
      cases hcall
      exact ⟨hok', [], by rw [hmsgs]; simp, hnil⟩
    | cons msg later =>
      have hmsg : msg ∈ msgs := by
        rw [hmsgs]
        exact List.mem_append_right _ List.mem_cons_self
      rw [List.flatMap_cons] at hunread
      obtain ⟨optMsg₂, sock₂, rb₂, heq, hok', hcases⟩ :=
        recvMessageBuffered_frame hok (hfit msg hmsg) hunread
      rw [heq] at hcall
      cases hcall
      rcases hcases with ⟨rfl, hsame⟩ | ⟨rfl, hrest⟩
      · refine ⟨hok', msg :: later, by rw [hmsgs]; simp, ?_⟩
        rw [hsame, hunread, List.flatMap_cons]
      · exact ⟨hok', later, by rw [hmsgs]; simp, hrest⟩

/-- **Reassembly.** However the stream of frames is cut into chunks, the messages returned are a
prefix of those sent, the offsets stay in order inside the buffer, and the bytes between them are
those received and not consumed: the stream is what was consumed, then these bytes, then what is
still on the connection. No call reads outside the buffer. -/
theorem recvMessageBuffered_delivers (msgs : List Message)
    (hfit : ∀ msg ∈ msgs, msg.encodedSize ≤ maxMessageSize) (received : List Message)
    (sock : Socket) (rb : ReadBuffer) (h : Visited (msgs.flatMap frame) received sock rb) :
    received <+: msgs ∧ rb.head ≤ rb.tail ∧ rb.tail ≤ capacity ∧
      msgs.flatMap frame =
        received.flatMap frame ++ slice rb.buf rb.head (rb.tail - rb.head) ++ sock.pending ∧
      ∃ result, recvMessageBuffered sock rb = .ok result := by
  obtain ⟨hok, later, hmsgs, hunread⟩ := h.split hfit
  refine ⟨⟨later, hmsgs.symm⟩, hok.head, hok.tail, ?_, ?_⟩
  · rw [List.append_assoc]
    conv_lhs => rw [hmsgs, List.flatMap_append, ← hunread]
    rfl
  · cases later with
    | nil =>
      obtain ⟨sock', rb', heq, -⟩ := recvMessageBuffered_nil hok hunread
      exact ⟨_, heq⟩
    | cons msg later =>
      rw [List.flatMap_cons] at hunread
      have hmsg : msg ∈ msgs := by
        rw [hmsgs]
        exact List.mem_append_right _ List.mem_cons_self
      obtain ⟨optMsg, sock', rb', heq, -⟩ := recvMessageBuffered_frame hok (hfit msg hmsg) hunread
      exact ⟨_, heq⟩

/-- A message that arrives in two chunks, the first of which ends inside its length prefix. -/
theorem recvMessageBuffered_delivers_two_chunks :
    ∃ received sock rb, received = [⟨0, 1, 2, 3, [65], []⟩] ∧
      received <+: [⟨0, 1, 2, 3, [65], []⟩] ∧ rb.head ≤ rb.tail ∧ rb.tail ≤ capacity ∧
      [⟨0, 1, 2, 3, [65], []⟩].flatMap frame =
        received.flatMap frame ++ slice rb.buf rb.head (rb.tail - rb.head) ++ sock.pending ∧
      ∃ result, recvMessageBuffered sock rb = .ok result := by
  have hfit : ∀ msg ∈ [⟨0, 1, 2, 3, [65], []⟩], Message.encodedSize msg ≤ maxMessageSize := by
    decide
  have hstart := @Visited.start ([⟨0, 1, 2, 3, [65], []⟩].flatMap frame) zeroed
    [.chunk 1, .again, .chunk 64] zeroed_fresh
  obtain ⟨sock, rb, hvisited, hpending⟩ : ∃ sock rb,
      Visited ([⟨0, 1, 2, 3, [65], []⟩].flatMap frame) [] sock rb ∧ sock.pending = [] := by
    refine ⟨_, _, hstart.refill.refill, ?_⟩
    rfl
  obtain ⟨hok, later, hlater, hunread⟩ := hvisited.split hfit
  have hframe : unread sock rb = frame ⟨0, 1, 2, 3, [65], []⟩ ++ [] := by
    rw [hunread, ← show _ = later from hlater, List.flatMap_singleton, List.append_nil]
  have hav : 2 + Message.encodedSize ⟨0, 1, 2, 3, [65], []⟩ ≤ rb.available := by
    have hlen := congrArg List.length hframe
    rw [unread, hpending, List.append_nil, hok.length_bytes, List.append_nil,
      frame_eq (by decide), List.length_append, Message.length_serialize (by decide),
      length_lengthPrefix] at hlen
    rw [hlen]
  have hcall := recvMessageBuffered_of_available hok (by decide) hframe hav
  have hreturned : Visited _ [⟨0, 1, 2, 3, [65], []⟩] _ _ := hvisited.call hcall
  exact ⟨_, _, _, rfl, recvMessageBuffered_delivers _ hfit _ _ _ hreturned⟩

end Ziplog
