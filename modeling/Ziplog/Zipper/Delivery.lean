import Ziplog.Api.MessageCodec
import Ziplog.Api.StreamReassembly
import Ziplog.Proxy.SlotQueue
import Ziplog.Zipper.Allocation

/-!
# Delivering the slots

`deliver_slot_allocation` sends a proxy its slots in one message, and the allocator has counted them
as handed out by then. The message takes 16 bytes a slot, and the estimate that decides how many
slots there are comes from the network and is not checked (`delivered_iff`).
-/

namespace Ziplog

open Message

/-! ## The response -/

/-- The message of `deliver_slot_allocation`. -/
def zipResponse (shardId : UInt32) (proxyId : ℕ) (values : List ℕ) : Message where
  type := MessageTypes.value .zipResponse
  shardId := shardId
  senderId := UInt32.ofNat proxyId
  seqOrCount := UInt64.ofNat (values.length / 2)
  data := []
  orderingValues := values.map UInt64.ofNat

/-- The response to a proxy gets through: it is not refused, its frame carries its size, and what
the proxy decodes loads exactly the allocated slots. -/
structure Delivered (shardId : UInt32) (proxyId : ℕ) (values : List ℕ) : Prop where
  accepted : (zipResponse shardId proxyId values).serialize ≠ []
  framed : ∀ frame ∈ sendMessage (zipResponse shardId proxyId values),
    (ntohs (load16 (frame.take 2))).toNat + 2 = frame.length
  loaded : ∃ m, deserializeVector (zipResponse shardId proxyId values).serialize = .ok (some m) ∧
    ∀ sch : SlotScheduler, sch.Balanced →
      ∃ sch', sch.loadSlots (m.orderingValues.map UInt64.toNat) = some sch' ∧
        sch'.queue = sch.queue ++ slotPairs values

/-- The response to this many slots is under the limit. -/
def SlotsFit (slots : ℕ) : Prop := 28 + 16 * slots ≤ maxMessageSize

theorem encodedSize_zipResponse (shardId : UInt32) (proxyId : ℕ) (values : List ℕ) :
    (zipResponse shardId proxyId values).encodedSize = 28 + 8 * values.length := by
  unfold encodedSize
  unfold zipResponse
  rw [List.length_nil, List.length_map]

theorem serialize_zipResponse_eq_nil_iff (shardId : UInt32) (proxyId : ℕ) (values : List ℕ) :
    (zipResponse shardId proxyId values).serialize = [] ↔
      maxMessageSize < (28 + 8 * values.length) % 2 ^ 32 := by
  rw [serialize_eq_nil_iff, encodedSize_zipResponse]

/-- A response that is not refused is the encoding behind its size, cut to 16 bits. -/
theorem length_of_framed {shardId : UInt32} {proxyId : ℕ} {values : List ℕ}
    (haccepted : (zipResponse shardId proxyId values).serialize ≠ [])
    (hframed : ∀ frame ∈ sendMessage (zipResponse shardId proxyId values),
      (ntohs (load16 (frame.take 2))).toNat + 2 = frame.length) :
    28 + 8 * values.length < 2 ^ 16 := by
  have hserialize := serialize_eq_ite (zipResponse shardId proxyId values)
  rw [encodedSize_zipResponse,
    if_neg ((serialize_zipResponse_eq_nil_iff shardId proxyId values).not.mp haccepted)]
    at hserialize
  have hlen : (zipResponse shardId proxyId values).serialize.length = 28 + 8 * values.length := by
    rw [hserialize, length_encoding, encodedSize_zipResponse]
  have hframe := hframed _ (if_neg haccepted)
  rw [List.take_left' (length_lengthPrefix _), ntohs_lengthPrefix_mod, List.length_append,
    length_lengthPrefix, hlen] at hframe
  omega

/-- When a response gets through. -/
theorem delivered_iff_slotsFit {values : List ℕ} (shardId : UInt32) (proxyId : ℕ)
    (heven : values.length % 2 = 0) (hwords : ∀ value ∈ values, value < 2 ^ 64) :
    Delivered shardId proxyId values ↔ SlotsFit (values.length / 2) := by
  have hmax : maxMessageSize = 65535 := rfl
  unfold SlotsFit
  constructor
  · intro h
    have hlen := length_of_framed h.accepted h.framed
    omega
  · intro hfits
    have hencoded := encodedSize_zipResponse shardId proxyId values
    have hsize : (zipResponse shardId proxyId values).encodedSize ≤ maxMessageSize := by omega
    have hsend := sendMessage_eq hsize
    have hlen := length_serialize hsize
    refine ⟨fun hnil => ?_, fun frame hframe => ?_, _, deserializeVector_serialize hsize,
      fun sch hsch => ?_⟩
    · rw [hnil, List.length_nil] at hlen
      omega
    · cases hsend.symm.trans hframe
      rw [List.take_left' (length_lengthPrefix _), ntohs_lengthPrefix hsize, List.length_append,
        length_lengthPrefix, hlen, Nat.add_comm]
    · have hloads : (zipResponse shardId proxyId values).orderingValues.map UInt64.toNat =
          values := by
        show (values.map UInt64.ofNat).map UInt64.toNat = values
        rw [List.map_map]
        conv_rhs => rw [← List.map_id values]
        refine List.map_congr_left fun value hvalue => ?_
        exact (UInt64.toNat_ofNat').trans (Nat.mod_eq_of_lt (hwords value hvalue))
      rw [hloads]
      exact SlotScheduler.loadSlots_eq hsch heven

/-! ## After any calls -/

namespace AllocationState

variable {τ : Type*} {D : Doubles τ} {startingSeq : UInt64} {proxies : List Address}
  {s : AllocationState}

theorem globalSeqNum_lt (h : (allocation D startingSeq proxies).Reach s) :
    s.allocator.globalSeqNum < 2 ^ 64 := by
  obtain ⟨n, haccounts⟩ := accounts h
  rw [haccounts.globalSeqNum]
  exact Nat.mod_lt _ (by decide)

/-- A proxy with slots has an entry in what a call returns. -/
theorem exists_values (D : Doubles τ) (nextEpoch epochDuration : ℕ) {p : ℕ}
    (hcount : 0 < s.allocator.slotCount s.registry p) :
    ∃ r values, s.allocator.computeAllocations D s.registry nextEpoch epochDuration = some r ∧
      r.result.lookup p = some values ∧
      values.length = 2 * s.allocator.slotCount s.registry p := by
  obtain ⟨r, hr⟩ := s.allocator.computeAllocations_isSome D s.registry nextEpoch epochDuration
  obtain ⟨values, hvalues, hlen⟩ := (SlotAllocator.lookup_computeAllocations hr p).2 hcount
  exact ⟨r, values, hr, hvalues, hlen⟩

/-- **Delivery.** Whatever was allocated before and whatever the estimates are, the slots of a call
get through to a proxy exactly when their response fits. -/
theorem delivered_iff (h : (allocation D startingSeq proxies).Reach s) {nextEpoch epochDuration : ℕ}
    {r : Recording}
    (hcall : s.allocator.computeAllocations D s.registry nextEpoch epochDuration = some r)
    {p : ℕ} {values : List ℕ} (hvalues : r.result.lookup p = some values) (shardId : UInt32) :
    Delivered shardId p values ↔ SlotsFit (s.allocator.slotCount s.registry p) := by
  have hlookup := SlotAllocator.lookup_computeAllocations hcall p
  have hlen : values.length = 2 * s.allocator.slotCount s.registry p := by
    rcases Nat.eq_zero_or_pos (s.allocator.slotCount s.registry p) with hzero | hpos
    · rw [hlookup.1 hzero] at hvalues
      cases hvalues
    · obtain ⟨values', hvalues', hlen⟩ := hlookup.2 hpos
      rw [hvalues] at hvalues'
      rwa [Option.some.inj hvalues']
  have hget : r.result.get p = values := by
    rw [Buckets.get, hvalues, Option.getD_some]
  have hwords : ∀ value ∈ values, value < 2 ^ 64 := by
    have hall := SlotAllocator.foldlM_recordSlot_lt (globalSeqNum_lt h)
      (fun _ value hvalue => by cases hvalue) hcall p
    rwa [hget] at hall
  rw [delivered_iff_slotsFit shardId p (by omega) hwords, hlen,
    Nat.mul_div_cancel_left _ Nat.two_pos]

/-- A proxy that wants two slots. -/
theorem delivered_twoSlots : ∃ s r values, (allocation wholeNumbers 1
    [⟨"127.0.0.1", 5000⟩]).Reach s ∧
      s.allocator.computeAllocations wholeNumbers s.registry 1000 12 = some r ∧
      r.result.lookup 0 = some values ∧ values.length = 4 ∧ Delivered 0 0 values := by
  obtain ⟨s, hs, hp⟩ := @Lts.exists_reach_of_run _ _ (allocation wholeNumbers 1
      [⟨"127.0.0.1", 5000⟩]) [.updateEstimate 0 2]
    (fun s => decide (s.allocator.slotCount s.registry 0 = 2)) (by decide)
  have hcount := of_decide_eq_true hp
  have hpos : 0 < s.allocator.slotCount s.registry 0 := by omega
  obtain ⟨r, values, hr, hvalues, hlen⟩ := exists_values wholeNumbers 1000 12 hpos
  refine ⟨s, r, values, hs, hr, hvalues, by rw [hlen, hcount], ?_⟩
  apply (delivered_iff hs hr hvalues 0).mpr
  rw [hcount]
  show 28 + 16 * 2 ≤ maxMessageSize
  decide

/-- 4095 slots take 65548 bytes. -/
theorem not_delivered : ¬ ∀ (startingSeq : UInt64) (proxies : List Address) (s : AllocationState),
    (allocation wholeNumbers startingSeq proxies).Reach s →
    ∀ nextEpoch epochDuration r p values,
      s.allocator.computeAllocations wholeNumbers s.registry nextEpoch epochDuration = some r →
      r.result.lookup p = some values → ∀ shardId, Delivered shardId p values := by
  intro h
  obtain ⟨s, hs, hp⟩ := @Lts.exists_reach_of_run _ _ (allocation wholeNumbers 1
      [⟨"127.0.0.1", 5000⟩]) [.updateEstimate 0 4095]
    (fun s => decide (s.allocator.slotCount s.registry 0 = 4095)) (by decide)
  have hcount := of_decide_eq_true hp
  have hpos : 0 < s.allocator.slotCount s.registry 0 := by omega
  obtain ⟨r, values, hr, hvalues, hlen⟩ := exists_values wholeNumbers 1000 12 hpos
  apply (h _ _ s hs 1000 12 r 0 values hr hvalues 0).accepted
  rw [serialize_zipResponse_eq_nil_iff, hlen, hcount]
  decide

end AllocationState

end Ziplog
