import Ziplog.Api.Types

/-!
# Messages

A message is serialized as five header fields, the data behind its length and the ordering values
behind their number, all in network order. `serialize` refuses a message that does not fit the
16-bit frame length; its size check and the one of `deserialize` work on 32-bit words, as in the
source.

`deserialize` reads from the memory behind a pointer, which may hold more than the `size` bytes it
is told of. An access that leaves this memory is a fault. `deserialize_serialize` is the round trip.
-/

namespace Ziplog

open ByteImage Cells

/-- An access outside the memory a pointer leads to. -/
inductive MemFault
  | outOfBounds
  deriving DecidableEq, Repr

/-- Copy `len` bytes at `off` out of the memory behind a pointer. -/
def fetch (mem : List UInt8) (off len : ℕ) : Except MemFault (List UInt8) :=
  match read? mem off len with
  | some bytes => .ok bytes
  | none => .error .outOfBounds

/-- A copy has the length asked for. -/
theorem length_fetch {mem data : List UInt8} {off len : ℕ} (h : fetch mem off len = .ok data) :
    data.length = len := by
  unfold fetch read? at h
  split_ifs at h with hin
  cases h
  exact length_slice hin

theorem le_length_of_fetch {mem data : List UInt8} {off len : ℕ}
    (h : fetch mem off len = .ok data) : off + len ≤ mem.length := by
  unfold fetch read? at h
  split_ifs at h with hin
  exact hin

theorem fetch_eq_ok {mem : List UInt8} {off len : ℕ} (h : off + len ≤ mem.length) :
    fetch mem off len = .ok (slice mem off len) := by
  unfold fetch
  rw [read?_eq_some h]

structure Message where
  type : UInt32
  shardId : UInt32
  senderId : UInt32
  seqOrCount : UInt64
  data : List UInt8
  orderingValues : List UInt64
  deriving DecidableEq, Repr

namespace Message

/-- Type, shard, sender and number: the part in front of the data length. -/
def headerBytes (type shardId senderId : UInt32) (seqOrCount : UInt64) : List UInt8 :=
  store32 (htonl type) ++ store32 (htonl shardId) ++ store32 (htonl senderId) ++
    store64 (htonll seqOrCount)

/-- `struct_size`, a 32-bit word. -/
def structSize (m : Message) : UInt32 :=
  4 + 4 + 4 + 8 + 4 + UInt32.ofNat m.data.length + 4 + UInt32.ofNat m.orderingValues.length * 8

def serialize (m : Message) : List UInt8 :=
  if UInt32.ofNat maxMessageSize < m.structSize then []
  else
    headerBytes m.type m.shardId m.senderId m.seqOrCount ++
      store32 (htonl (UInt32.ofNat m.data.length)) ++ m.data ++
      store32 (htonl (UInt32.ofNat m.orderingValues.length)) ++
      m.orderingValues.flatMap fun value => store64 (htonll value)

/-- The loop that reads `count` values from `offset` on. -/
def readValues (mem : List UInt8) : ℕ → ℕ → Except MemFault (List UInt64)
  | 0, _ => .ok []
  | count + 1, offset => do
    let netVal ← fetch mem offset 8
    let values ← readValues mem count (offset + 8)
    return ntohll (load64 netVal) :: values

def deserialize (mem : List UInt8) (size : ℕ) : Except MemFault (Option Message) :=
  if size < 28 then .ok none
  else do
    let netType ← fetch mem 0 4
    let netShardId ← fetch mem 4 4
    let netSenderId ← fetch mem 8 4
    let netSeq ← fetch mem 12 8
    let netDataLen ← fetch mem 20 4
    let dataLen := (ntohl (load32 netDataLen)).toNat
    if size < 24 + dataLen then return none
    else do
      let data ← fetch mem 24 dataLen
      if size < 24 + dataLen + 4 then return none
      else do
        let netOrderingLen ← fetch mem (24 + dataLen) 4
        let orderingLen := ntohl (load32 netOrderingLen)
        -- the product is a 32-bit word
        if size < 24 + dataLen + 4 + (orderingLen * 8).toNat then return none
        else do
          let values ← readValues mem orderingLen.toNat (24 + dataLen + 4)
          return some
            { type := ntohl (load32 netType)
              shardId := ntohl (load32 netShardId)
              senderId := ntohl (load32 netSenderId)
              seqOrCount := ntohll (load64 netSeq)
              data := data
              orderingValues := values }

/-- The size of the encoding, not reduced to a word. -/
def encodedSize (m : Message) : ℕ := 28 + m.data.length + 8 * m.orderingValues.length

/-! ## Sizes -/

@[simp] theorem length_headerBytes (type shardId senderId : UInt32) (seqOrCount : UInt64) :
    (headerBytes type shardId senderId seqOrCount).length = 20 := by
  simp only [headerBytes, List.length_append, length_store32, length_store64]

theorem length_flatMap_store64 (values : List UInt64) :
    (values.flatMap fun value => store64 (htonll value)).length = 8 * values.length := by
  induction values with
  | nil => rfl
  | cons value values ih =>
    rw [List.flatMap_cons, List.length_append, length_store64, ih, List.length_cons]
    omega

/-- The size check does not wrap on messages that fit. -/
theorem toNat_structSize {m : Message} (h : m.encodedSize ≤ maxMessageSize) :
    m.structSize.toNat = m.encodedSize := by
  unfold encodedSize maxMessageSize at *
  unfold structSize
  have hd : (UInt32.ofNat m.data.length).toNat = m.data.length := by
    rw [UInt32.toNat_ofNat', Nat.mod_eq_of_lt (by omega)]
  have ho : (UInt32.ofNat m.orderingValues.length).toNat = m.orderingValues.length := by
    rw [UInt32.toNat_ofNat', Nat.mod_eq_of_lt (by omega)]
  simp only [UInt32.toNat_add, UInt32.toNat_mul, hd, ho]
  simp only [UInt32.reduceToNat]
  omega

/-- A message that fits is not refused. -/
theorem serialize_eq {m : Message} (h : m.encodedSize ≤ maxMessageSize) :
    m.serialize = headerBytes m.type m.shardId m.senderId m.seqOrCount ++
      store32 (htonl (UInt32.ofNat m.data.length)) ++ m.data ++
      store32 (htonl (UInt32.ofNat m.orderingValues.length)) ++
      m.orderingValues.flatMap fun value => store64 (htonll value) := by
  have hsize := toNat_structSize h
  have hle : ¬ UInt32.ofNat maxMessageSize < m.structSize := by
    rw [UInt32.lt_iff_toNat_lt, hsize, UInt32.toNat_ofNat']
    unfold maxMessageSize at *
    omega
  unfold serialize
  rw [if_neg hle]

theorem length_serialize {m : Message} (h : m.encodedSize ≤ maxMessageSize) :
    m.serialize.length = m.encodedSize := by
  rw [serialize_eq h]
  simp only [List.length_append, length_headerBytes, length_store32, length_flatMap_store64]
  unfold encodedSize
  omega

/-! ## The round trip -/

/-- A field in the middle of the memory. -/
theorem fetch_middle {before field : List UInt8} (after : List UInt8) {off len : ℕ}
    (hoff : before.length = off) (hlen : field.length = len) :
    fetch (before ++ (field ++ after)) off len = .ok field := by
  have hin : off + len ≤ (before ++ (field ++ after)).length := by
    simp only [List.length_append]
    omega
  unfold fetch
  rw [read?_eq_some hin, slice_middle after hoff hlen]

theorem readValues_stored {before : List UInt8} (values : List UInt64) (after : List UInt8)
    {off : ℕ} (hoff : before.length = off) :
    readValues (before ++ ((values.flatMap fun value => store64 (htonll value)) ++ after))
      values.length off = .ok values := by
  induction values generalizing before off with
  | nil => rfl
  | cons value values ih =>
    have hfetch : fetch (before ++ (store64 (htonll value) ++
        ((values.flatMap fun value => store64 (htonll value)) ++ after))) off 8 =
        .ok (store64 (htonll value)) := fetch_middle _ hoff (length_store64 _)
    have hlen : (before ++ store64 (htonll value)).length = off + 8 := by
      rw [List.length_append, length_store64, hoff]
    have hrest := ih hlen
    rw [List.append_assoc] at hrest
    rw [List.flatMap_cons, List.append_assoc, List.length_cons, readValues, hfetch]
    simp only [bind, Except.bind, hrest]
    rw [ntohll_load64_htonll]
    rfl

/-- The four header fields are where the readers look for them. -/
structure HeaderAt (mem : List UInt8) (type shardId senderId : UInt32) (seqOrCount : UInt64) :
    Prop where
  type : fetch mem 0 4 = .ok (store32 (htonl type))
  shardId : fetch mem 4 4 = .ok (store32 (htonl shardId))
  senderId : fetch mem 8 4 = .ok (store32 (htonl senderId))
  seqOrCount : fetch mem 12 8 = .ok (store64 (htonll seqOrCount))

theorem headerAt_headerBytes (type shardId senderId : UInt32) (seqOrCount : UInt64)
    (after : List UInt8) :
    HeaderAt (headerBytes type shardId senderId seqOrCount ++ after) type shardId senderId
      seqOrCount := by
  unfold headerBytes
  constructor
  · simp only [List.append_assoc]
    exact @fetch_middle [] _ _ _ _ rfl (length_store32 _)
  · simp only [List.append_assoc]
    exact fetch_middle _ (length_store32 _) (length_store32 _)
  · rw [List.append_assoc, List.append_assoc]
    exact fetch_middle _ (by simp) (length_store32 _)
  · rw [List.append_assoc]
    exact fetch_middle _ (by simp) (length_store64 _)

/-- **Round trip.** `deserialize` reads a message back from its encoding, whatever follows it in
memory. -/
theorem deserialize_serialize {m : Message} (h : m.encodedSize ≤ maxMessageSize)
    (after : List UInt8) :
    deserialize (m.serialize ++ after) m.encodedSize = .ok (some m) := by
  have hbound : 28 + m.data.length + 8 * m.orderingValues.length ≤ 65535 := h
  have hsize : m.encodedSize = 28 + m.data.length + 8 * m.orderingValues.length := rfl
  have hdlen : (UInt32.ofNat m.data.length).toNat = m.data.length := by
    rw [UInt32.toNat_ofNat', Nat.mod_eq_of_lt (by omega)]
  have holen : (UInt32.ofNat m.orderingValues.length).toNat = m.orderingValues.length := by
    rw [UInt32.toNat_ofNat', Nat.mod_eq_of_lt (by omega)]
  have homul : (UInt32.ofNat m.orderingValues.length * 8).toNat = 8 * m.orderingValues.length := by
    rw [UInt32.toNat_mul, holen]
    simp only [UInt32.reduceToNat]
    omega
  have hmem : m.serialize ++ after = headerBytes m.type m.shardId m.senderId m.seqOrCount ++
      (store32 (htonl (UInt32.ofNat m.data.length)) ++ (m.data ++
      (store32 (htonl (UInt32.ofNat m.orderingValues.length)) ++
      ((m.orderingValues.flatMap fun value => store64 (htonll value)) ++ after)))) := by
    rw [serialize_eq h]
    simp only [List.append_assoc]
  generalize m.serialize ++ after = mem at hmem
  have hheader : HeaderAt mem m.type m.shardId m.senderId m.seqOrCount := by
    rw [hmem]
    exact headerAt_headerBytes _ _ _ _ _
  have hdl : fetch mem 20 4 = .ok (store32 (htonl (UInt32.ofNat m.data.length))) := by
    rw [hmem]
    exact fetch_middle _ (length_headerBytes _ _ _ _) (length_store32 _)
  have hda : fetch mem 24 m.data.length = .ok m.data := by
    rw [hmem, ← List.append_assoc]
    exact fetch_middle _ (by simp) rfl
  have hol : fetch mem (24 + m.data.length) 4 =
      .ok (store32 (htonl (UInt32.ofNat m.orderingValues.length))) := by
    rw [hmem, ← List.append_assoc, ← List.append_assoc]
    exact fetch_middle _ (by simp; omega) (length_store32 _)
  have hov : readValues mem m.orderingValues.length (24 + m.data.length + 4) =
      .ok m.orderingValues := by
    rw [hmem, ← List.append_assoc, ← List.append_assoc, ← List.append_assoc]
    exact readValues_stored _ _ (by simp; omega)
  have h1 : ¬ m.encodedSize < 28 := by omega
  have h2 : ¬ m.encodedSize < 24 + m.data.length := by omega
  have h3 : ¬ m.encodedSize < 24 + m.data.length + 4 := by omega
  have h4 : ¬ m.encodedSize < 24 + m.data.length + 4 + 8 * m.orderingValues.length := by omega
  unfold deserialize
  rw [if_neg h1]
  simp only [hheader.type, hheader.shardId, hheader.senderId, hheader.seqOrCount, hdl,
    bind, Except.bind, ntohl_load32_htonl, ntohll_load64_htonll, hdlen, if_neg h2, hda, if_neg h3,
    hol, homul, holen, if_neg h4, hov]
  rfl

end Message

/-! ## Headers -/

structure MessageHeader where
  type : UInt32
  shardId : UInt32
  senderId : UInt32
  seqOrCount : UInt64
  deriving DecidableEq, Repr

/-- `MessageHeader::SIZE`. -/
def MessageHeader.size : ℕ := 20

def MessageHeader.peek (mem : List UInt8) (available : ℕ) :
    Except MemFault (Option MessageHeader) :=
  if available < MessageHeader.size then .ok none
  else do
    let netType ← fetch mem 0 4
    let netShard ← fetch mem 4 4
    let netSender ← fetch mem 8 4
    let netSeq ← fetch mem 12 8
    return some
      { type := ntohl (load32 netType)
        shardId := ntohl (load32 netShard)
        senderId := ntohl (load32 netSender)
        seqOrCount := ntohll (load64 netSeq) }

/-- A frame that lies in the memory is looked at. -/
theorem MessageHeader.exists_peek {mem : List UInt8} {available : ℕ} (h : available ≤ mem.length) :
    ∃ header, peek mem available = .ok header := by
  have hsize : size = 20 := rfl
  unfold peek
  split_ifs with hshort
  · exact ⟨none, rfl⟩
  · rw [fetch_eq_ok (by omega), fetch_eq_ok (by omega), fetch_eq_ok (by omega),
      fetch_eq_ok (by omega)]
    exact ⟨_, rfl⟩

theorem MessageHeader.peek_of_headerAt {mem : List UInt8} {available : ℕ}
    {type shardId senderId : UInt32} {seqOrCount : UInt64}
    (h : Message.HeaderAt mem type shardId senderId seqOrCount) (hsize : size ≤ available) :
    peek mem available = .ok (some ⟨type, shardId, senderId, seqOrCount⟩) := by
  unfold peek
  rw [if_neg (Nat.not_lt.mpr hsize)]
  simp only [h.type, h.shardId, h.senderId, h.seqOrCount, bind, Except.bind,
    ntohl_load32_htonl, ntohll_load64_htonll]
  rfl

end Ziplog
