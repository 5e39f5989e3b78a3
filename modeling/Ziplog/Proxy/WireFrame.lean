import Ziplog.Api.Layout
import Ziplog.Proxy.SendOutBatch

/-!
# The frame of a batch

`OneFrame` is what a receiver of a frame relies on: the length prefix counts the bytes behind it,
and reading the stream yields one body, with the header and the commands of the batch, and leaves
what follows. `buildWireBytes` cuts the length to 16 bits and nothing limits the drained range, so
the frame of a batch is well formed exactly when the range has at most 65507 bytes or the frame is a
SKIP (`batchWire_oneFrame_iff`).
-/

namespace Ziplog

open ByteImage Cells ClientBufferManager CommandBatch ReadBuffer

/-- The bytes `send_out_batch` hands to `replicate_bytes`. -/
def batchWire (shardId senderId : UInt32) (seq : UInt64) (payload : Payload) : List UInt8 :=
  buildWireBytes payload.type.value shardId senderId seq payload.data

/-- One well-formed frame: a 16-bit length and as many bytes, which a receiver takes off the stream
as one body with this header and these commands. -/
structure OneFrame (wire : List UInt8) (type shardId senderId : UInt32) (seq : UInt64)
    (commands : List Command) : Prop where
  framed : ∃ body : List UInt8, body.length < 2 ^ 16 ∧ wire = be 2 body.length ++ body
  found : ∀ (sock : Socket) (rb : ReadBuffer) (rest : List UInt8), rb.Ok →
    unread sock rb = wire ++ rest → wire.length ≤ rb.available →
      ∃ msgLen, recvRawBuffered sock rb = (some msgLen, sock, rb)
  read : ∀ (sock sock' : Socket) (rb rb' : ReadBuffer) (rest : List UInt8) (msgLen : ℕ), rb.Ok →
    unread sock rb = wire ++ rest → recvRawBuffered sock rb = (some msgLen, sock', rb') →
      2 + msgLen = wire.length ∧ unread sock' (rb'.consume (2 + msgLen)) = rest ∧
      MessageHeader.peek (rb'.data.drop 2) msgLen = .ok (some ⟨type, shardId, senderId, seq⟩) ∧
      ∃ off dataLen, getDataPtr (rb'.data.drop 2) msgLen = (some off, dataLen) ∧
        deserialize (slice (rb'.data.drop 2) off dataLen) = commands

/-! ## The bytes of a frame -/

theorem length_buildWireBytes (type shardId senderId : UInt32) (seq : UInt64)
    (data : List UInt8) :
    (buildWireBytes type shardId senderId seq data).length = 30 + data.length := by
  simp only [buildWireBytes, List.length_append, length_lengthPrefix, Message.length_headerBytes,
    length_store32]
  omega

/-- The body of a frame. -/
def wireBody (type shardId senderId : UInt32) (seq : UInt64) (data : List UInt8) : List UInt8 :=
  Message.headerBytes type shardId senderId seq ++
    (store32 (htonl (UInt32.ofNat data.length)) ++ (data ++ store32 (htonl 0)))

theorem length_wireBody (type shardId senderId : UInt32) (seq : UInt64) (data : List UInt8) :
    (wireBody type shardId senderId seq data).length = 28 + data.length := by
  simp only [wireBody, List.length_append, Message.length_headerBytes, length_store32]
  omega

theorem buildWireBytes_eq (type shardId senderId : UInt32) (seq : UInt64) (data : List UInt8) :
    buildWireBytes type shardId senderId seq data =
      lengthPrefix (wireBody type shardId senderId seq data).length ++
        wireBody type shardId senderId seq data := by
  have hsize : 4 + 4 + 4 + 8 + 4 + data.length + 4 = 28 + data.length := by omega
  rw [length_wireBody, buildWireBytes, wireBody]
  simp only [hsize, List.append_assoc]

/-- The header of a body that is followed by anything in memory. -/
theorem peek_wireBody (type shardId senderId : UInt32) (seq : UInt64) (data after : List UInt8) :
    MessageHeader.peek (wireBody type shardId senderId seq data ++ after) (28 + data.length) =
      .ok (some ⟨type, shardId, senderId, seq⟩) := by
  show MessageHeader.peek (bodyBytes type shardId senderId seq data _ ++ after) _ = _
  rw [bodyBytes_append]
  exact peek_bodyBytes (by omega)

/-- The data of a body that is followed by anything in memory. -/
theorem getDataPtr_wireBody {type shardId senderId : UInt32} {seq : UInt64} {data : List UInt8}
    (h : data.length < 2 ^ 32) (after : List UInt8) :
    getDataPtr (wireBody type shardId senderId seq data ++ after) (28 + data.length) =
        (some 24, data.length) ∧
      slice (wireBody type shardId senderId seq data ++ after) 24 data.length = data := by
  show getDataPtr (bodyBytes type shardId senderId seq data _ ++ after) _ = _ ∧
    slice (bodyBytes type shardId senderId seq data _ ++ after) _ _ = _
  rw [bodyBytes_append]
  exact ⟨getDataPtr_bodyBytes (by omega) h, slice_bodyBytes⟩

/-! ## One frame -/

/-- **A frame that fits is read back.** -/
theorem buildWireBytes_oneFrame {type shardId senderId : UInt32} {seq : UInt64}
    {commands : List Command} (hshort : ∀ cmd ∈ commands, cmd.length < 2 ^ 32)
    (hfit : 28 + (encode commands).length < 2 ^ 16) :
    OneFrame (buildWireBytes type shardId senderId seq (encode commands)) type shardId senderId seq
      commands := by
  have hlen := length_wireBody type shardId senderId seq (encode commands)
  have hsize : (wireBody type shardId senderId seq (encode commands)).length ≤ maxMessageSize := by
    rw [hlen]
    unfold maxMessageSize
    omega
  have hwire := buildWireBytes_eq type shardId senderId seq (encode commands)
  refine ⟨⟨_, by rw [hlen]; exact hfit, ?_⟩, ?_, ?_⟩
  · rw [hwire, lengthPrefix_eq (by rw [hlen]; exact hfit)]
  · intro sock rb rest hok hunread hav
    rw [hwire] at hunread
    rw [length_buildWireBytes] at hav
    exact ⟨_, recvRawBuffered_of_available hok hsize hunread (by omega)⟩
  · intro sock sock' rb rb' rest msgLen hok hunread hrecv
    rw [hwire] at hunread
    obtain ⟨rfl, ⟨after, hdata⟩, -, hrest⟩ := recvRawBuffered_frame hok hsize hunread hrecv
    have hbytes : (encode commands).length < 2 ^ 32 := by omega
    obtain ⟨hptr, hslice⟩ :=
      @getDataPtr_wireBody type shardId senderId seq (encode commands) hbytes after
    refine ⟨?_, hrest, ?_, 24, (encode commands).length, ?_, ?_⟩
    · rw [hlen, length_buildWireBytes]
      omega
    · rw [hdata, hlen]
      exact peek_wireBody type shardId senderId seq _ after
    · rw [hdata, hlen]
      exact hptr
    · rw [hdata, hslice, deserialize_encode hshort]

/-- A frame whose length does not fit in 16 bits is not one. -/
theorem not_oneFrame_of_le {type shardId senderId : UInt32} {seq : UInt64} {data : List UInt8}
    {type' shardId' senderId' : UInt32} {seq' : UInt64} {commands : List Command}
    (h : 2 ^ 16 ≤ 28 + data.length) :
    ¬ OneFrame (buildWireBytes type shardId senderId seq data) type' shardId' senderId' seq'
      commands := by
  rintro ⟨⟨body, hbody, heq⟩, -, -⟩
  have hlen := congrArg List.length heq
  rw [length_buildWireBytes, List.length_append, length_be] at hlen
  omega

/-! ## The frame of a batch -/

/-- **When the frame of a batch is well formed.** In every run, with any pushes between the drain
and the copy, the bytes handed to the replicator are one frame with the type, shard, proxy, number
and commands of the batch exactly when no client participates (a SKIP) or at most 65507 bytes were
in use at the drain. -/
theorem batchWire_oneFrame_iff (s : BatchSource) (h : batchSource.Reach s) (r : DrainResult)
    (commands : List Command) (hphase : s.phase = .drained r commands) (shardId senderId : UInt32)
    (seq : UInt64) :
    OneFrame (batchWire shardId senderId seq (buildPayload s.manager r))
      (if r.participating = ∅ then MessageTypes.skip else .append).value shardId senderId seq
      (if r.participating = ∅ then [] else commands) ↔
    r.participating = ∅ ∨ r.len ≤ 65507 := by
  obtain ⟨queued, hholds, -, hok⟩ := source_of_reach h
  rw [hphase] at hok
  obtain ⟨hd, hl, hq⟩ := hok
  have hdata := data_buildPayload hholds hd hl hq
  have hshort : ∀ cmd ∈ commands, cmd.length < 2 ^ 32 := fun cmd hcmd =>
    hholds.short cmd (hq.subset hcmd)
  unfold batchWire
  by_cases hnone : r.participating = ∅
  · have hpayload : buildPayload s.manager r = .skip := if_pos hnone
    rw [if_pos hnone, if_pos hnone, hpayload]
    refine ⟨fun _ => Or.inl hnone, fun _ => ?_⟩
    exact @buildWireBytes_oneFrame MessageTypes.skip.value shardId senderId seq []
      (fun cmd hcmd => nomatch hcmd) (by decide)
  · have htype : (buildPayload s.manager r).type = .append := by
      rw [buildPayload, if_neg hnone]
      rfl
    have htaken : taken r commands = commands := if_neg hnone
    rw [if_neg hnone, if_neg hnone, htype, hdata, htaken, hl]
    constructor
    · intro hframe
      by_contra hbig
      exact not_oneFrame_of_le (by omega) hframe
    · rintro (hnone' | hfit)
      · exact absurd hnone' hnone
      · exact buildWireBytes_oneFrame hshort (by omega)

/-- The bytes that pushes take. -/
def pushedBytes (pushes : List (ℕ × Command)) : ℕ := (pushes.map fun p => 4 + p.2.length).sum

/-- Clients push commands before anything is drained. -/
theorem reach_pushed (pushes : List (ℕ × Command))
    (h : pushedBytes pushes ≤ ClientBufferManager.capacity) :
    ∃ m : ClientBufferManager, batchSource.Reach ⟨m, .idle, pushes.map Prod.snd, []⟩ ∧
      m.readPos = 0 ∧ m.writePos = pushedBytes pushes ∧ m.used = pushedBytes pushes ∧
      m.participating = (pushes.map Prod.fst).toFinset := by
  induction pushes using List.reverseRecOn with
  | nil => exact ⟨_, .init, rfl, rfl, rfl, rfl⟩
  | append_singleton pushes p ih =>
    have hbytes : pushedBytes (pushes ++ [p]) = pushedBytes pushes + (4 + p.2.length) := by
      simp [pushedBytes]
    rw [hbytes] at h ⊢
    obtain ⟨m, hm, hread, hwrite, hused, hclients⟩ := ih (by omega)
    have hpush := pushRaw_eq (hused ▸ h) (hwrite ▸ h) p.1
    rw [List.map_append, List.map_append]
    refine ⟨_, .step hm trivial (batchSource_push hpush), hread, congrArg (· + _) hwrite,
      congrArg (· + _) hused, ?_⟩
    show insert p.1 m.participating = _
    rw [hclients, List.toFinset_append, Finset.union_comm]
    rfl

/-- The timer thread drains what the clients have pushed. -/
theorem reach_drained (pushes : List (ℕ × Command))
    (h : pushedBytes pushes ≤ ClientBufferManager.capacity) :
    ∃ m, batchSource.Reach
      ⟨m, .drained ⟨0, pushedBytes pushes, (pushes.map Prod.fst).toFinset⟩ (pushes.map Prod.snd),
        pushes.map Prod.snd, []⟩ := by
  obtain ⟨m, hm, hread, -, hused, hclients⟩ := reach_pushed pushes h
  rw [← hread, ← hused, ← hclients]
  have hdrained : batchSource.Reach _ :=
    .step hm trivial (show batchSource.step _ .drain = some _ from rfl)
  exact ⟨_, hdrained⟩

/-- Three commands of two clients go out as one frame. -/
theorem batchWire_oneFrame_two_clients : ∃ m,
    OneFrame (batchWire 0 1 7 (buildPayload m ⟨0, 16, {3, 4}⟩)) MessageTypes.append.value 0 1 7
      [[65], [66, 67], [68]] := by
  obtain ⟨m, hm⟩ := reach_drained [(3, [65]), (4, [66, 67]), (3, [68])] (by decide)
  exact ⟨m, (batchWire_oneFrame_iff _ hm _ _ rfl 0 1 7).mpr (Or.inr (by decide))⟩

/-- A single command of 65504 bytes makes a frame whose length prefix is 0. -/
theorem not_batchWire_oneFrame :
    ¬ ∀ s, batchSource.Reach s → ∀ r commands, s.phase = .drained r commands →
      ∀ (shardId senderId : UInt32) (seq : UInt64),
        OneFrame (batchWire shardId senderId seq (buildPayload s.manager r))
          (if r.participating = ∅ then MessageTypes.skip else .append).value shardId senderId seq
          (if r.participating = ∅ then [] else commands) := by
  intro hall
  obtain ⟨data, hlen⟩ : ∃ data : Command, data.length = 65504 :=
    ⟨List.replicate 65504 0, List.length_replicate⟩
  have hbytes : pushedBytes [(3, data)] = 65508 := by
    simp [pushedBytes, hlen]
  obtain ⟨m, hm⟩ := reach_drained [(3, data)] (by rw [hbytes]; decide)
  rw [hbytes] at hm
  have hframe := hall _ hm _ _ rfl 0 0 1
  obtain ⟨queued, hholds, -, hd, hl, hq⟩ := source_of_reach hm
  have hdata := data_buildPayload hholds hd hl hq
  rw [taken, if_neg (by simp)] at hdata
  refine not_oneFrame_of_le ?_ hframe
  rw [hdata, ← hl]
  show 2 ^ 16 ≤ 28 + 65508
  omega

end Ziplog
