import Mathlib.Data.List.Sort
import Ziplog.Library.Buckets
import Ziplog.Zipper.ProxyRegistry

/-!
# The slot allocator of the zipper

`computeAllocations` places the slots of every active proxy in the coming epoch, sorts them by time,
and then hands out the sequence numbers one by one, from a 64-bit counter. The scan of the registry
(`timestamps`) runs under its lock and the recording (`recordSlot`) does not.

The times are computed in floating point. They decide which proxy gets which number, and nothing
below depends on how: the arithmetic is a parameter.
-/

namespace Ziplog

variable {τ : Type*}

/-- The arithmetic of `double` that places the slots. Nothing is assumed of it. -/
structure Doubles (τ : Type*) where
  ofNat : ℕ → τ
  add : τ → τ → τ
  div : τ → τ → τ
  lt : τ → τ → Bool
  toTimestamp : τ → ℕ

/-- The order of `std::pair`. -/
def Doubles.before (D : Doubles τ) (x y : τ × ℕ) : Bool :=
  D.lt x.1 y.1 || (!D.lt y.1 x.1 && decide (x.2 < y.2))

structure SlotAllocator where
  globalSeqNum : ℕ
  estimates : AList fun _ : ℕ => ℕ

/-- What `compute_allocations` returns: for each proxy, send times and numbers in turn. -/
abbrev Allocations := Buckets ℕ ℕ

/-- What the recording of slots works on. -/
structure Recording where
  allocator : SlotAllocator
  registry : ProxyRegistry
  result : Allocations

namespace SlotAllocator

def init (startingSeq : UInt64) : SlotAllocator := ⟨startingSeq.toNat, ∅⟩

def updateEstimate (a : SlotAllocator) (proxyId numRequests : ℕ) : SlotAllocator :=
  { a with estimates := a.estimates.insert proxyId numRequests }

/-- A proxy that has sent no estimate wants no slots. -/
def estimate (a : SlotAllocator) (proxyId : ℕ) : ℕ := (a.estimates.lookup proxyId).getD 0

/-- The loop over `time_point`. -/
def timePoints (D : Doubles τ) (interval : τ) : ℕ → τ → List τ
  | 0, _ => []
  | n + 1, timePoint => timePoint :: timePoints D interval n (D.add timePoint interval)

/-- The slots of one proxy, evenly spaced over the epoch. -/
def slotsOf (a : SlotAllocator) (D : Doubles τ) (epochDuration proxyId : ℕ) (st : ProxyState) :
    List (τ × ℕ) :=
  if st.status ≠ .active then []
  else if a.estimate proxyId = 0 then []
  else
    let interval := D.div (D.ofNat epochDuration) (D.ofNat (a.estimate proxyId))
    (timePoints D interval (a.estimate proxyId) (D.div interval (D.ofNat 2))).map (·, proxyId)

/-- The scan of the registry: the slots of all proxies, sorted. -/
def timestamps (a : SlotAllocator) (D : Doubles τ) (registry : ProxyRegistry)
    (epochDuration : ℕ) : List (τ × ℕ) :=
  (registry.entries.flatMap fun e => a.slotsOf D epochDuration e.1 e.2).insertionSort
    fun x y => D.before y x = false

/-- One slot gets the next number. -/
def recordSlot (D : Doubles τ) (nextEpoch : ℕ) (r : Recording) (slot : τ × ℕ) :
    Option Recording :=
  let seq := r.allocator.globalSeqNum
  (r.registry.lookup slot.2).map fun st =>
    { allocator := { r.allocator with globalSeqNum := (seq + 1) % 2 ^ 64 }
      result := r.result.append slot.2 [(nextEpoch + D.toTimestamp slot.1) % 2 ^ 64, seq]
      registry := r.registry.insert slot.2 (st.allocate seq) }

def computeAllocations (a : SlotAllocator) (D : Doubles τ) (registry : ProxyRegistry)
    (nextEpoch epochDuration : ℕ) : Option Recording :=
  (a.timestamps D registry epochDuration).foldlM (recordSlot D nextEpoch) ⟨a, registry, ∅⟩

end SlotAllocator

/-! ## Values in turn -/

/-- Send times and numbers that stand in turn. -/
def slotPairs : List ℕ → List (ℕ × ℕ)
  | sendTime :: seq :: values => (sendTime, seq) :: slotPairs values
  | _ => []

theorem slotPairs_append {values : List ℕ} (h : values.length % 2 = 0) (more : List ℕ) :
    slotPairs (values ++ more) = slotPairs values ++ slotPairs more := by
  induction values using slotPairs.induct with
  | case1 sendTime seq values ih =>
    rw [List.length_cons, List.length_cons] at h
    rw [List.cons_append, List.cons_append, slotPairs, slotPairs, ih (by omega), List.cons_append]
  | case2 values hvalues =>
    rcases values with _ | ⟨x, _ | ⟨y, values⟩⟩
    · rfl
    · simp at h
    · exact absurd rfl (hvalues x y values)

theorem length_slotPairs (values : List ℕ) : (slotPairs values).length = values.length / 2 := by
  induction values using slotPairs.induct with
  | case1 sendTime seq values ih =>
    rw [slotPairs, List.length_cons, ih, List.length_cons, List.length_cons]
    omega
  | case2 values hvalues =>
    rcases values with _ | ⟨x, _ | ⟨y, values⟩⟩
    · rfl
    · simp [slotPairs]
    · exact absurd rfl (hvalues x y values)

/-- The numbers among the values. -/
def numbersOf (values : List ℕ) : List ℕ := (slotPairs values).map Prod.snd

theorem numbersOf_append {values : List ℕ} (h : values.length % 2 = 0) (sendTime seq : ℕ) :
    numbersOf (values ++ [sendTime, seq]) = numbersOf values ++ [seq] := by
  rw [numbersOf, slotPairs_append h, List.map_append]
  rfl

/-- A slot adds a pair. -/
theorem Allocations.even_append {result : Allocations} (h : ∀ q, (result.get q).length % 2 = 0)
    (p sendTime seq q : ℕ) : ((result.append p [sendTime, seq]).get q).length % 2 = 0 := by
  rw [Buckets.get_append]
  split_ifs
  · rw [List.length_append, List.length_cons, List.length_singleton, Nat.add_mod, h]
  · exact h q

/-- The numbers of all proxies. -/
def Allocations.numbers (result : Allocations) : List ℕ :=
  result.entries.flatMap fun e => numbersOf e.2

namespace SlotAllocator

variable {D : Doubles τ} {nextEpoch : ℕ} {r r' : Recording} {slot : τ × ℕ}

/-! ## The number of slots -/

theorem length_timePoints (D : Doubles τ) (interval : τ) (n : ℕ) (timePoint : τ) :
    (timePoints D interval n timePoint).length = n := by
  induction n generalizing timePoint with
  | zero => rfl
  | succ n ih => rw [timePoints, List.length_cons, ih]

/-- How many slots a proxy gets. -/
def slotCount (a : SlotAllocator) (registry : ProxyRegistry) (proxyId : ℕ) : ℕ :=
  ((registry.lookup proxyId).map fun st =>
    if st.status = .active then a.estimate proxyId else 0).getD 0

theorem map_snd_slotsOf (a : SlotAllocator) (D : Doubles τ) (epochDuration proxyId : ℕ)
    (st : ProxyState) : (a.slotsOf D epochDuration proxyId st).map Prod.snd =
      List.replicate (if st.status = .active then a.estimate proxyId else 0) proxyId := by
  unfold slotsOf
  by_cases hstatus : st.status = .active
  · rw [if_neg (not_not.mpr hstatus), if_pos hstatus]
    by_cases hzero : a.estimate proxyId = 0
    · rw [if_pos hzero, hzero]
      rfl
    · rw [if_neg hzero, List.map_map]
      refine List.eq_replicate_iff.mpr ⟨?_, ?_⟩
      · rw [List.length_map, length_timePoints]
      · intro p hp
        obtain ⟨t, -, rfl⟩ := List.mem_map.mp hp
        rfl
  · rw [if_pos hstatus, if_neg hstatus]
    rfl

/-- Every active proxy with an estimate gets as many slots, and the others none. -/
theorem count_timestamps (a : SlotAllocator) (D : Doubles τ) (registry : ProxyRegistry)
    (epochDuration p : ℕ) :
    ((a.timestamps D registry epochDuration).map Prod.snd).count p = a.slotCount registry p := by
  have hperm := (List.perm_insertionSort (fun x y : τ × ℕ => D.before y x = false)
    (registry.entries.flatMap fun e => a.slotsOf D epochDuration e.1 e.2)).map Prod.snd
  unfold timestamps
  rw [hperm.count_eq, List.map_flatMap]
  simp only [map_snd_slotsOf]
  exact Buckets.count_flatMap_replicate
    (fun q st => if st.status = ProxyStatus.active then a.estimate q else 0) registry.nodupKeys p

/-! ## Recording -/

/-- The slots of a list of the proxies in it are recorded one by one. -/
theorem foldlM_recordSlot_cons {slots : List (τ × ℕ)} {r' : Recording}
    (h : (slot :: slots).foldlM (recordSlot D nextEpoch) r = some r') :
    ∃ mid, recordSlot D nextEpoch r slot = some mid ∧
      slots.foldlM (recordSlot D nextEpoch) mid = some r' := by
  rw [List.foldlM_cons] at h
  exact Option.bind_eq_some_iff.mp h

/-- What a record of a slot does. -/
theorem recordSlot_eq_some (h : recordSlot D nextEpoch r slot = some r') :
    ∃ st sendTime, r.registry.lookup slot.2 = some st ∧ sendTime < 2 ^ 64 ∧
      r'.allocator = { r.allocator with
        globalSeqNum := (r.allocator.globalSeqNum + 1) % 2 ^ 64 } ∧
      r'.registry = r.registry.insert slot.2 (st.allocate r.allocator.globalSeqNum) ∧
      r'.result = r.result.append slot.2 [sendTime, r.allocator.globalSeqNum] := by
  obtain ⟨st, hst, rfl⟩ := Option.map_eq_some_iff.mp h
  exact ⟨st, _, hst, Nat.mod_lt _ (by decide), rfl, rfl, rfl⟩

/-- The list of a proxy grows by two values for each of its slots, and is there when it has one. -/
theorem foldlM_recordSlot_length {slots : List (τ × ℕ)}
    (h : slots.foldlM (recordSlot D nextEpoch) r = some r') (p : ℕ) :
    (r'.result.get p).length = (r.result.get p).length + 2 * (slots.map Prod.snd).count p ∧
      ((slots.map Prod.snd).count p = 0 → r'.result.lookup p = r.result.lookup p) := by
  induction slots generalizing r with
  | nil =>
    cases h
    exact ⟨rfl, fun _ => rfl⟩
  | cons slot slots ih =>
    obtain ⟨mid, hmid, hrest⟩ := foldlM_recordSlot_cons h
    obtain ⟨hlen, hlookup⟩ := ih hrest
    obtain ⟨st, sendTime, -, -, -, -, hresult⟩ := recordSlot_eq_some hmid
    rw [hresult] at hlen hlookup
    rw [List.map_cons, List.count_cons, hlen, Buckets.get_append]
    rw [Buckets.lookup_append] at hlookup
    by_cases hp : p = slot.2
    · subst hp
      rw [if_pos rfl, beq_self_eq_true, if_pos rfl, List.length_append]
      refine ⟨?_, fun hzero => by omega⟩
      show (r.result.get slot.2).length + 2 + _ = _
      omega
    · have hne : (slot.2 == p) = false := beq_false_of_ne (Ne.symm hp)
      rw [if_neg hp] at hlookup ⊢
      rw [hne]
      exact ⟨rfl, hlookup⟩

/-- Send times and numbers are 64-bit words. -/
theorem foldlM_recordSlot_lt {slots : List (τ × ℕ)} (hseq : r.allocator.globalSeqNum < 2 ^ 64)
    (hvalues : ∀ p, ∀ value ∈ r.result.get p, value < 2 ^ 64)
    (h : slots.foldlM (recordSlot D nextEpoch) r = some r') :
    ∀ p, ∀ value ∈ r'.result.get p, value < 2 ^ 64 := by
  induction slots generalizing r with
  | nil =>
    cases h
    exact hvalues
  | cons slot slots ih =>
    obtain ⟨mid, hmid, hrest⟩ := foldlM_recordSlot_cons h
    obtain ⟨st, sendTime, -, htime, hallocator, -, hresult⟩ := recordSlot_eq_some hmid
    refine ih ?_ ?_ hrest
    · rw [hallocator]
      exact Nat.mod_lt _ (by decide)
    · intro p value hvalue
      rw [hresult, Buckets.get_append] at hvalue
      split_ifs at hvalue
      · rcases List.mem_append.mp hvalue with hold | hnew
        · exact hvalues _ value hold
        · rcases List.mem_pair.mp hnew with rfl | rfl
          · exact htime
          · exact hseq
      · exact hvalues p value hvalue

/-- Recording fails only for a proxy that is not registered. -/
theorem foldlM_recordSlot_isSome {slots : List (τ × ℕ)}
    (h : ∀ slot ∈ slots, (r.registry.lookup slot.2).isSome) :
    ∃ r', slots.foldlM (recordSlot D nextEpoch) r = some r' := by
  induction slots generalizing r with
  | nil => exact ⟨r, rfl⟩
  | cons slot slots ih =>
    obtain ⟨st, hst⟩ := Option.isSome_iff_exists.mp (h slot List.mem_cons_self)
    obtain ⟨mid, hmid⟩ : ∃ mid, recordSlot D nextEpoch r slot = some mid :=
      ⟨_, by rw [recordSlot, hst]; rfl⟩
    obtain ⟨st', sendTime, -, -, -, hregistry, -⟩ := recordSlot_eq_some hmid
    obtain ⟨r', hr'⟩ := @ih mid fun other hother => by
      rw [hregistry]
      by_cases hp : other.2 = slot.2
      · rw [hp, AList.lookup_insert]
        rfl
      · rw [AList.lookup_insert_ne hp]
        exact h other (List.mem_cons_of_mem _ hother)
    exact ⟨r', by rw [List.foldlM_cons, hmid]; exact hr'⟩

/-- The slots are those of registered proxies. -/
theorem lookup_of_mem_timestamps {a : SlotAllocator} {registry : ProxyRegistry}
    {epochDuration : ℕ} (h : slot ∈ a.timestamps D registry epochDuration) :
    (registry.lookup slot.2).isSome := by
  have hcount : 0 < ((a.timestamps D registry epochDuration).map Prod.snd).count slot.2 :=
    List.count_pos_iff.mpr (List.mem_map_of_mem h)
  rw [count_timestamps] at hcount
  unfold slotCount at hcount
  cases hlookup : registry.lookup slot.2 with
  | some st => rfl
  | none =>
    rw [hlookup] at hcount
    exact absurd hcount (Nat.lt_irrefl 0)

theorem computeAllocations_isSome (a : SlotAllocator) (D : Doubles τ) (registry : ProxyRegistry)
    (nextEpoch epochDuration : ℕ) :
    ∃ r, a.computeAllocations D registry nextEpoch epochDuration = some r :=
  foldlM_recordSlot_isSome fun _ hslot => lookup_of_mem_timestamps hslot

theorem length_get_computeAllocations {a : SlotAllocator} {registry : ProxyRegistry}
    {epochDuration : ℕ}
    (h : a.computeAllocations D registry nextEpoch epochDuration = some r) (p : ℕ) :
    (r.result.get p).length = 2 * a.slotCount registry p := by
  have hlen := (foldlM_recordSlot_length h p).1
  rw [count_timestamps] at hlen
  rw [hlen]
  exact Nat.zero_add _

/-- **What a call returns** for a proxy: a pair for each of its slots. -/
theorem lookup_computeAllocations {a : SlotAllocator} {registry : ProxyRegistry}
    {epochDuration : ℕ}
    (h : a.computeAllocations D registry nextEpoch epochDuration = some r) (p : ℕ) :
    (a.slotCount registry p = 0 → r.result.lookup p = none) ∧
      (0 < a.slotCount registry p → ∃ values, r.result.lookup p = some values ∧
        values.length = 2 * a.slotCount registry p) := by
  have hlookup := (foldlM_recordSlot_length h p).2
  rw [count_timestamps] at hlookup
  have hget := length_get_computeAllocations h p
  refine ⟨fun hzero => hlookup hzero, fun hpos => ?_⟩
  unfold Buckets.get at hget
  cases hvalues : r.result.lookup p with
  | none =>
    rw [hvalues] at hget
    simp only [Option.getD_none, List.length_nil] at hget
    omega
  | some values =>
    rw [hvalues] at hget
    exact ⟨values, rfl, hget⟩

end SlotAllocator

end Ziplog
