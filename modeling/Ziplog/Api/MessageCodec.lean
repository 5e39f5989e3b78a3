import Ziplog.Api.Message

/-!
# The limits of the message codec

`serialize` computes the size of an encoding in a 32-bit word, so it refuses a message exactly when
the size, reduced modulo `2 ^ 32`, is above the limit (`serialize_eq_nil_iff`). Below `2 ^ 32` that
is the limit itself (`exactCodec_iff`).

`deserialize` multiplies the number of ordering values by 8 in a 32-bit word. Its other checks are
exact: on a buffer in which this product does not wrap, every read is inside the buffer and what is
read are the bytes of the message (`faithful_iff`).
-/

namespace Ziplog

open ByteImage Cells

namespace Message

/-- The overload on a vector reads from the memory of the vector. -/
def deserializeVector (buffer : List UInt8) : Except MemFault (Option Message) :=
  deserialize buffer buffer.length

/-- The fields in the order of the wire, with the lengths in 32-bit words. -/
def encoding (m : Message) : List UInt8 :=
  headerBytes m.type m.shardId m.senderId m.seqOrCount ++
    store32 (htonl (UInt32.ofNat m.data.length)) ++ m.data ++
    store32 (htonl (UInt32.ofNat m.orderingValues.length)) ++
    m.orderingValues.flatMap fun value => store64 (htonll value)

theorem length_encoding (m : Message) : m.encoding.length = m.encodedSize := by
  unfold encoding
  simp only [List.length_append, length_headerBytes, length_store32, length_flatMap_store64]
  unfold encodedSize
  omega

/-! ## The size limit -/

/-- The size check sees the size modulo `2 ^ 32`. -/
theorem toNat_structSize_eq_mod (m : Message) : m.structSize.toNat = m.encodedSize % 2 ^ 32 := by
  unfold structSize
  unfold encodedSize
  simp only [UInt32.toNat_add, UInt32.toNat_mul, UInt32.toNat_ofNat']
  simp only [UInt32.reduceToNat]
  omega

/-- `serialize` refuses a message or writes all of its fields. -/
theorem serialize_eq_ite (m : Message) :
    m.serialize = if maxMessageSize < m.encodedSize % 2 ^ 32 then [] else m.encoding := by
  have hcheck : UInt32.ofNat maxMessageSize < m.structSize ↔
      maxMessageSize < m.encodedSize % 2 ^ 32 := by
    rw [UInt32.lt_iff_toNat_lt, toNat_structSize_eq_mod]
    rfl
  unfold serialize
  rw [ite_cond_congr (propext hcheck)]
  rfl

theorem serialize_eq_nil_iff (m : Message) :
    m.serialize = [] ↔ maxMessageSize < m.encodedSize % 2 ^ 32 := by
  rw [serialize_eq_ite]
  split_ifs with h
  · exact iff_of_true rfl h
  · refine iff_of_false (fun hnil => ?_) h
    have hlen := length_encoding m
    rw [hnil, List.length_nil] at hlen
    unfold encodedSize at hlen
    omega

/-- `serialize` refuses exactly the messages above the limit, and both overloads of `deserialize`
read the others back. -/
structure ExactCodec (m : Message) : Prop where
  refused : m.serialize = [] ↔ maxMessageSize < m.encodedSize
  length : m.encodedSize ≤ maxMessageSize → m.serialize.length = m.encodedSize
  vector : m.encodedSize ≤ maxMessageSize → deserializeVector m.serialize = .ok (some m)
  pointer : m.encodedSize ≤ maxMessageSize → ∀ after,
    deserialize (m.serialize ++ after) m.serialize.length = .ok (some m)

theorem deserializeVector_serialize {m : Message} (h : m.encodedSize ≤ maxMessageSize) :
    deserializeVector m.serialize = .ok (some m) := by
  have hround := deserialize_serialize h []
  rwa [List.append_nil, ← length_serialize h] at hround

/-- **The codec is exact** for a message up to the limit, and above it as long as the size modulo
`2 ^ 32` is above it too. -/
theorem exactCodec_iff (m : Message) : m.ExactCodec ↔
    m.encodedSize ≤ maxMessageSize ∨ maxMessageSize < m.encodedSize % 2 ^ 32 := by
  constructor
  · intro h
    rcases Nat.lt_or_ge maxMessageSize m.encodedSize with hlarge | hfits
    · exact Or.inr ((serialize_eq_nil_iff m).mp (h.refused.mpr hlarge))
    · exact Or.inl hfits
  · intro h
    refine ⟨?_, fun hfits => length_serialize hfits, fun hfits => deserializeVector_serialize hfits,
      fun hfits after => ?_⟩
    · rw [serialize_eq_nil_iff]
      have hmod : m.encodedSize % 2 ^ 32 ≤ m.encodedSize := Nat.mod_le _ _
      constructor
      · intro hlarge
        omega
      · intro hlarge
        exact h.resolve_left (by omega)
    · rw [length_serialize hfits]
      exact deserialize_serialize hfits after

/-- `2 ^ 29` ordering values take `2 ^ 32` bytes, and the message passes for one without any. -/
theorem not_exactCodec : ¬ ∀ m : Message, m.ExactCodec := by
  intro h
  let m : Message := ⟨6, 0, 0, 0, [], List.replicate (2 ^ 29) 0⟩
  have hsize : m.encodedSize = 28 + 2 ^ 32 := by
    show 28 + 0 + 8 * (List.replicate (2 ^ 29) (0 : UInt64)).length = 28 + 2 ^ 32
    rw [List.length_replicate]
    decide
  have hnil : m.serialize = [] := (h m).refused.mpr (by rw [hsize]; decide)
  rw [serialize_eq_nil_iff, hsize] at hnil
  exact absurd hnil (by decide)

/-! ## Decoding any bytes -/

/-- The field in front of the data. -/
def dataLenField (buffer : List UInt8) : ℕ := (ntohl (load32 (slice buffer 20 4))).toNat

/-- The field in front of the ordering values. -/
def orderingLenField (buffer : List UInt8) : ℕ :=
  (ntohl (load32 (slice buffer (24 + dataLenField buffer) 4))).toNat

/-- The message in a buffer, with these ordering values. -/
def decoded (buffer : List UInt8) (values : List UInt64) : Message where
  type := ntohl (load32 (slice buffer 0 4))
  shardId := ntohl (load32 (slice buffer 4 4))
  senderId := ntohl (load32 (slice buffer 8 4))
  seqOrCount := ntohll (load64 (slice buffer 12 8))
  data := slice buffer 24 (dataLenField buffer)
  orderingValues := values

/-- A decoder rejects the buffer, or returns the message whose fields are its first bytes. A read
outside the buffer is a fault. -/
def Faithful (buffer : List UInt8) : Except MemFault (Option Message) → Prop
  | .ok none => True
  | .ok (some m) => m.encodedSize ≤ buffer.length ∧ m.encoding = buffer.take m.encodedSize
  | .error _ => False

/-- The checks of the decoder let through a number of values whose size in bytes exceeds a 32-bit
word. -/
def Overruns (buffer : List UInt8) : Prop :=
  2 ^ 29 ≤ orderingLenField buffer ∧
    28 + dataLenField buffer + 8 * orderingLenField buffer % 2 ^ 32 ≤ buffer.length

/-- Values read inside the memory are written back. -/
theorem readValues_eq_ok {mem : List UInt8} {count off : ℕ} (h : off + 8 * count ≤ mem.length) :
    ∃ values : List UInt64, readValues mem count off = .ok values ∧ values.length = count ∧
      (values.flatMap fun value => store64 (htonll value)) = slice mem off (8 * count) := by
  induction count generalizing off with
  | zero => exact ⟨[], rfl, rfl, (slice_zero mem off).symm⟩
  | succ count ih =>
    obtain ⟨values, hread, hlen, hbytes⟩ := @ih (off + 8) (by omega)
    have hfirst : (slice mem off 8).length = 8 := length_slice (by omega)
    refine ⟨ntohll (load64 (slice mem off 8)) :: values, ?_, ?_, ?_⟩
    · rw [readValues, fetch_eq_ok (by omega)]
      simp only [bind, Except.bind, hread]
      rfl
    · rw [List.length_cons, hlen]
    · have hwidth : 8 * (count + 1) = 8 + 8 * count := by omega
      rw [List.flatMap_cons, store64_htonll_ntohll hfirst, hbytes, hwidth, slice_add]

/-- Values that do not all lie inside the memory. -/
theorem readValues_eq_error {mem : List UInt8} {count off : ℕ}
    (h : mem.length < off + 8 * count) (hpos : 0 < count) :
    readValues mem count off = .error .outOfBounds := by
  induction count generalizing off with
  | zero => exact absurd hpos (Nat.lt_irrefl 0)
  | succ count ih =>
    rw [readValues]
    by_cases hfirst : off + 8 ≤ mem.length
    · have hcount : 0 < count := by omega
      rw [fetch_eq_ok hfirst]
      simp only [bind, Except.bind, @ih (off + 8) (by omega) hcount]
    · have hout : fetch mem off 8 = .error .outOfBounds := by
        unfold fetch
        unfold read?
        rw [if_neg hfirst]
      rw [hout]
      rfl

instance (buffer : List UInt8) : Decidable (Overruns buffer) := inferInstanceAs (Decidable (_ ∧ _))

/-- What the decoder does on a buffer: three checks, and then the values. -/
theorem deserialize_eq (buffer : List UInt8) :
    deserialize buffer buffer.length =
      if buffer.length < 28 + dataLenField buffer + 8 * orderingLenField buffer % 2 ^ 32 then
        .ok none
      else
        (readValues buffer (orderingLenField buffer) (28 + dataLenField buffer)).map fun values =>
          some (decoded buffer values) := by
  have hmul : ∀ n : UInt32, (n * 8).toNat = 8 * n.toNat % 2 ^ 32 := by
    intro n
    rw [UInt32.toNat_mul, Nat.mul_comm]
    rfl
  by_cases hshort : buffer.length < 28
  · rw [if_pos (by omega)]
    unfold deserialize
    rw [if_pos hshort]
  · unfold deserialize
    rw [if_neg hshort, fetch_eq_ok (by omega), fetch_eq_ok (by omega), fetch_eq_ok (by omega),
      fetch_eq_ok (by omega), fetch_eq_ok (by omega)]
    simp only [bind, Except.bind]
    rw [← dataLenField]
    by_cases hdata : buffer.length < 24 + dataLenField buffer
    · rw [if_pos hdata, if_pos (by omega)]
      rfl
    · rw [if_neg hdata, fetch_eq_ok (by omega)]
      by_cases hcount : buffer.length < 24 + dataLenField buffer + 4
      · simp only [if_pos hcount]
        rw [if_pos (by omega)]
        rfl
      · have hoff : 24 + dataLenField buffer + 4 = 28 + dataLenField buffer := by omega
        simp only [if_neg hcount]
        rw [fetch_eq_ok (by omega)]
        simp only [hmul]
        rw [← orderingLenField, hoff]
        split_ifs
        · rfl
        · cases readValues buffer (orderingLenField buffer) (28 + dataLenField buffer) <;> rfl

/-- The fields read from a buffer are its first bytes. -/
theorem encoding_decoded {buffer : List UInt8} {values : List UInt64}
    (hin : 28 + dataLenField buffer + 8 * orderingLenField buffer ≤ buffer.length)
    (hlen : values.length = orderingLenField buffer)
    (hbytes : (values.flatMap fun value => store64 (htonll value)) =
      slice buffer (28 + dataLenField buffer) (8 * orderingLenField buffer)) :
    Faithful buffer (.ok (some (decoded buffer values))) := by
  have hdlen : (slice buffer 24 (dataLenField buffer)).length = dataLenField buffer :=
    length_slice (by omega)
  have hsize : (decoded buffer values).encodedSize =
      28 + dataLenField buffer + 8 * orderingLenField buffer := by
    rw [encodedSize, decoded, hdlen, hlen]
  refine ⟨by rw [hsize]; exact hin, ?_⟩
  have hword (off : ℕ) (h : off + 4 ≤ buffer.length) :
      store32 (htonl (ntohl (load32 (slice buffer off 4)))) = slice buffer off 4 :=
    store32_htonl_ntohl (length_slice h)
  have hheader : headerBytes (ntohl (load32 (slice buffer 0 4))) (ntohl (load32 (slice buffer 4 4)))
      (ntohl (load32 (slice buffer 8 4))) (ntohll (load64 (slice buffer 12 8))) =
        slice buffer 0 20 := by
    rw [headerBytes, hword 0 (by omega), hword 4 (by omega), hword 8 (by omega),
      store64_htonll_ntohll (length_slice (by omega)), ← slice_add buffer 0 4 4,
      ← slice_add buffer 0 8 4, ← slice_add buffer 0 12 8]
  have hdfield : store32 (htonl (UInt32.ofNat (dataLenField buffer))) = slice buffer 20 4 := by
    rw [dataLenField, UInt32.ofNat_toNat, hword 20 (by omega)]
  have hofield : store32 (htonl (UInt32.ofNat (orderingLenField buffer))) =
      slice buffer (24 + dataLenField buffer) 4 := by
    rw [orderingLenField, UInt32.ofNat_toNat, hword _ (by omega)]
  have hoff : 20 + 4 + dataLenField buffer + 4 = 28 + dataLenField buffer := by omega
  calc (decoded buffer values).encoding
      = slice buffer 0 20 ++ slice buffer 20 4 ++ slice buffer 24 (dataLenField buffer) ++
          slice buffer (24 + dataLenField buffer) 4 ++
          slice buffer (28 + dataLenField buffer) (8 * orderingLenField buffer) := by
        simp only [encoding, decoded, hdlen, hlen, hheader, hdfield, hofield, hbytes]
    _ = slice buffer 0 (20 + 4 + dataLenField buffer + 4 + 8 * orderingLenField buffer) := by
        rw [slice_add _ 0 (20 + 4 + dataLenField buffer + 4), hoff, Nat.zero_add, ← hoff,
          slice_add _ 0 (20 + 4 + dataLenField buffer), slice_add _ 0 (20 + 4), slice_add _ 0 20,
          Nat.zero_add, Nat.zero_add, Nat.zero_add]
    _ = buffer.take (decoded buffer values).encodedSize := by
        rw [hsize, hoff, slice, List.drop_zero]

/-- **Decoding untrusted bytes.** On a buffer that fits a frame, both overloads are faithful exactly
when the checks do not let through more values than the buffer holds. -/
theorem faithful_iff (buffer : List UInt8) (hsize : buffer.length ≤ maxMessageSize) :
    (Faithful buffer (deserializeVector buffer) ∧
      Faithful buffer (deserialize buffer buffer.length)) ↔ ¬ Overruns buffer := by
  have hmax : maxMessageSize = 65535 := rfl
  unfold deserializeVector
  rw [and_self_iff, deserialize_eq]
  unfold Overruns
  split_ifs with hreject
  · exact iff_of_true trivial fun h => absurd h.2 (Nat.not_le.mpr hreject)
  · by_cases hin : 28 + dataLenField buffer + 8 * orderingLenField buffer ≤ buffer.length
    · obtain ⟨values, hread, hlen, hbytes⟩ := readValues_eq_ok hin
      rw [hread]
      refine iff_of_true (encoding_decoded hin hlen hbytes) fun h => ?_
      omega
    · rw [readValues_eq_error (by omega) (by omega)]
      refine iff_of_false id fun h => h ⟨?_, by omega⟩
      -- the product has wrapped, or the check would have rejected
      by_contra hsmall
      rw [Nat.mod_eq_of_lt (by omega)] at hreject
      exact hin (Nat.le_of_not_lt hreject)

/-- A message with data and ordering values, and bytes behind it. -/
theorem faithful_message : ∃ m, deserializeVector (encoding ⟨8, 5, 1, 7, [65, 66], [3, 258]⟩ ++
    [1, 2, 3]) = .ok (some m) ∧ m.data = [65, 66] ∧ m.orderingValues = [3, 258] ∧
      Faithful (encoding ⟨8, 5, 1, 7, [65, 66], [3, 258]⟩ ++ [1, 2, 3]) (.ok (some m)) := by
  have hdecoded : deserializeVector (encoding ⟨8, 5, 1, 7, [65, 66], [3, 258]⟩ ++ [1, 2, 3]) =
      .ok (some ⟨8, 5, 1, 7, [65, 66], [3, 258]⟩) := by
    rfl
  refine ⟨_, hdecoded, rfl, rfl, ?_⟩
  rw [← hdecoded]
  exact ((faithful_iff _ (by decide)).mpr (by decide)).1

/-- A count of `2 ^ 29` values passes the checks of a buffer without any. -/
theorem not_faithful : ¬ ∀ buffer : List UInt8, buffer.length ≤ maxMessageSize →
    Faithful buffer (deserializeVector buffer) ∧
      Faithful buffer (deserialize buffer buffer.length) := by
  intro h
  have hfault : deserializeVector (List.replicate 24 0 ++ [0x20, 0, 0, 0]) =
      .error .outOfBounds := by
    rfl
  have hboth := (h (List.replicate 24 0 ++ [0x20, 0, 0, 0]) (by decide)).1
  rw [hfault] at hboth
  exact hboth

end Message

end Ziplog
