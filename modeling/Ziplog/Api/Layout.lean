import Ziplog.Api.Frames
import Ziplog.Api.StreamReassembly

/-!
# One layout

Messages are written by `serialize` and by `buildWireBytes`, and read by `deserialize`, by `peek`
and by `getDataPtr`; the servers put their id into a frame in place. All of them work on the layout
of `bodyBytes`: on a message that fits a frame they agree byte for byte (`oneLayout`).
-/

namespace Ziplog

open ByteImage Cells

/-- The header, the length of the data, the data, and what follows them. -/
def bodyBytes (type shardId senderId : UInt32) (seqOrCount : UInt64) (data rest : List UInt8) :
    List UInt8 :=
  Message.headerBytes type shardId senderId seqOrCount ++
    (store32 (htonl (UInt32.ofNat data.length)) ++ (data ++ rest))

/-- The length prefix is the image of the length when that fits in 16 bits. -/
theorem lengthPrefix_eq {size : ℕ} (h : size < 2 ^ 16) : lengthPrefix size = be 2 size := by
  rw [lengthPrefix, store16_htons, UInt16.toNat_ofNat', Nat.mod_eq_of_lt h]

section Body

variable {type shardId senderId : UInt32} {seqOrCount : UInt64} {data rest : List UInt8}

theorem bodyBytes_append (after : List UInt8) :
    bodyBytes type shardId senderId seqOrCount data rest ++ after =
      bodyBytes type shardId senderId seqOrCount data (rest ++ after) := by
  unfold bodyBytes
  simp only [List.append_assoc]

/-- The header of a body. -/
theorem peek_bodyBytes {available : ℕ} (h : 20 ≤ available) :
    MessageHeader.peek (bodyBytes type shardId senderId seqOrCount data rest) available =
      .ok (some ⟨type, shardId, senderId, seqOrCount⟩) :=
  MessageHeader.peek_of_headerAt (Message.headerAt_headerBytes type shardId senderId seqOrCount _) h

/-- The length of the data of a body. -/
theorem getDataPtr_bodyBytes {msgLen : ℕ} (hsize : 24 ≤ msgLen) (h : data.length < 2 ^ 32) :
    getDataPtr (bodyBytes type shardId senderId seqOrCount data rest) msgLen =
      (some 24, data.length) := by
  have hlen : (UInt32.ofNat data.length).toNat = data.length := by
    rw [UInt32.toNat_ofNat', Nat.mod_eq_of_lt h]
  have hfield : slice (bodyBytes type shardId senderId seqOrCount data rest) 20 4 =
      store32 (htonl (UInt32.ofNat data.length)) :=
    slice_middle _ (Message.length_headerBytes _ _ _ _) (length_store32 _)
  unfold getDataPtr
  rw [if_neg (Nat.not_lt.mpr hsize), hfield, ntohl_load32_htonl, hlen]

/-- The data of a body. -/
theorem slice_bodyBytes :
    slice (bodyBytes type shardId senderId seqOrCount data rest) 24 data.length = data := by
  unfold bodyBytes
  rw [← List.append_assoc]
  exact slice_middle _ (by simp) rfl

/-- An id over the sender of a body. -/
theorem overlay_bodyBytes (serverId : UInt32) :
    overlay (bodyBytes type shardId senderId seqOrCount data rest) 8 (store32 (htonl serverId)) =
      bodyBytes type shardId serverId seqOrCount data rest := by
  unfold bodyBytes Message.headerBytes
  simp only [List.append_assoc]
  rw [← List.append_assoc, ← List.append_assoc (store32 (htonl type))]
  exact overlay_middle _ (by simp) (by simp)

end Body

/-! ## Messages -/

namespace Message

/-- The ordering values of a message behind their number. -/
def orderingBytes (m : Message) : List UInt8 :=
  store32 (htonl (UInt32.ofNat m.orderingValues.length)) ++
    m.orderingValues.flatMap fun value => store64 (htonll value)

theorem serialize_eq_bodyBytes {m : Message} (h : m.encodedSize ≤ maxMessageSize) :
    m.serialize =
      bodyBytes m.type m.shardId m.senderId m.seqOrCount m.data m.orderingBytes := by
  rw [serialize_eq h]
  unfold bodyBytes orderingBytes
  simp only [List.append_assoc]

/-- The encoders and the decoders agree on the message, and so does the server that overwrites the
sender in its frame. -/
structure OneLayout (m : Message) : Prop where
  built : m.orderingValues = [] →
    buildWireBytes m.type m.shardId m.senderId m.seqOrCount m.data =
      be 2 m.serialize.length ++ m.serialize
  header : ∀ after, MessageHeader.peek (m.serialize ++ after) m.serialize.length =
    .ok (some ⟨m.type, m.shardId, m.senderId, m.seqOrCount⟩)
  dataLen : ∀ after, getDataPtr (m.serialize ++ after) m.serialize.length =
    (some 24, m.data.length)
  data : ∀ after, slice (m.serialize ++ after) 24 m.data.length = m.data
  patched : ∀ serverId, (sendMessage m).map (patchSender serverId) =
    sendMessage { m with senderId := serverId }

/-- The frame of a message with another sender. -/
theorem patchSender_frame {m : Message} (h : m.encodedSize ≤ maxMessageSize) (serverId : UInt32) :
    patchSender serverId (lengthPrefix m.encodedSize ++ m.serialize) =
      lengthPrefix m.encodedSize ++ serialize { m with senderId := serverId } := by
  have hprefix := overlay_append (lengthPrefix m.encodedSize) m.serialize 8
    (store32 (htonl serverId))
  have hpatched : ({ m with senderId := serverId } : Message).encodedSize ≤ maxMessageSize := h
  rw [length_lengthPrefix] at hprefix
  rw [patchSender, hprefix, serialize_eq_bodyBytes h, overlay_bodyBytes,
    serialize_eq_bodyBytes hpatched]
  rfl

/-- **One layout.** On a message that fits a frame, the encoders, the decoders and the change of the
sender in place agree. -/
theorem oneLayout {m : Message} (h : m.encodedSize ≤ maxMessageSize) : m.OneLayout := by
  have hbound : 28 + m.data.length + 8 * m.orderingValues.length ≤ 65535 := h
  have hlen : m.serialize.length = 28 + m.data.length + 8 * m.orderingValues.length :=
    length_serialize h
  constructor
  · intro hnil
    have hsize : m.serialize.length = 4 + 4 + 4 + 8 + 4 + m.data.length + 4 := by
      rw [hlen, hnil, List.length_nil]
      omega
    have hprefix : lengthPrefix (4 + 4 + 4 + 8 + 4 + m.data.length + 4) =
        be 2 m.serialize.length := by
      rw [hsize]
      exact lengthPrefix_eq (by omega)
    rw [buildWireBytes, hprefix, serialize_eq h, hnil]
    simp only [List.append_assoc]
    rfl
  · intro after
    rw [hlen, serialize_eq_bodyBytes h, bodyBytes_append]
    exact peek_bodyBytes (by omega)
  · intro after
    rw [hlen, serialize_eq_bodyBytes h, bodyBytes_append]
    exact getDataPtr_bodyBytes (by omega) (by omega)
  · intro after
    rw [serialize_eq_bodyBytes h, bodyBytes_append]
    exact slice_bodyBytes
  · intro serverId
    have hpatched : ({ m with senderId := serverId } : Message).encodedSize ≤ maxMessageSize := h
    rw [sendMessage_eq h, sendMessage_eq hpatched, Option.map_some, patchSender_frame h]
    rfl

/-- An APPEND of one byte. -/
theorem oneLayout_append : OneLayout ⟨0, 0, 1, 7, [65], []⟩ := oneLayout (by decide)

end Message

end Ziplog
