import Mathlib.Data.List.NodupEquivFin
import Ziplog.Library.Lts
import Ziplog.Zipper.SlotAllocator

/-!
# The numbers of all allocations

The runs of a slot allocator, its calls one after another. After `n` slots the counter stands at
`s0 + n` and the numbers handed out are those in between, each once (`Accounts`); one slot adds one
to both sides. Numbers are 64-bit words, so all of this is modulo `2 ^ 64`.
-/

namespace Ziplog

variable {τ : Type*}

structure AllocationState where
  allocator : SlotAllocator
  registry : ProxyRegistry
  /-- What the calls returned. -/
  returned : List Allocations
  /-- The proxies that a rejoin has reset. -/
  rejoined : Finset ℕ

inductive AllocationEvent
  | updateEstimate (proxyId numRequests : ℕ)
  | setStatus (proxyId : ℕ) (status : ProxyStatus)
  | rejoin (proxyId : ℕ)
  | computeAllocations (nextEpoch epochDuration : ℕ)

namespace AllocationState

def init (startingSeq : UInt64) (proxies : List Address) : AllocationState :=
  ⟨.init startingSeq, .ofConfig proxies, [], ∅⟩

def step (D : Doubles τ) (s : AllocationState) : AllocationEvent → Option AllocationState
  | .updateEstimate proxyId numRequests =>
    some { s with allocator := s.allocator.updateEstimate proxyId numRequests }
  | .setStatus proxyId status =>
    (s.registry.lookup proxyId).map fun st =>
      { s with registry := s.registry.insert proxyId (st.setStatus status) }
  | .rejoin proxyId =>
    some { s with
      registry := s.registry.rejoinProxy proxyId
      rejoined := insert proxyId s.rejoined }
  | .computeAllocations nextEpoch epochDuration =>
    (s.allocator.computeAllocations D s.registry nextEpoch epochDuration).map fun r =>
      { s with
        allocator := r.allocator
        registry := r.registry
        returned := s.returned ++ [r.result] }

/-- The numbers in all returned maps. -/
def numbers (s : AllocationState) : List ℕ := s.returned.flatMap Allocations.numbers

/-- The numbers of one proxy, over all calls. -/
def numbersOf (s : AllocationState) (p : ℕ) : List ℕ :=
  s.returned.flatMap fun result => Ziplog.numbersOf (result.get p)

end AllocationState

/-- Whole numbers, for runs in which every division comes out even. -/
def wholeNumbers : Doubles ℕ := ⟨id, (· + ·), (· / ·), fun x y => decide (x < y), id⟩

/-- An allocator and its callers, one call after another. -/
def allocation (D : Doubles τ) (startingSeq : UInt64) (proxies : List Address) :
    Lts AllocationState AllocationEvent :=
  ⟨AllocationState.init startingSeq proxies, AllocationState.step D⟩

/-! ## Accounts -/

/-- The `i`-th number. -/
def seqAt (s0 i : ℕ) : ℕ := (s0 + i) % 2 ^ 64

/-- After `n` slots, over the maps in `calls`. -/
structure Accounts (s0 n : ℕ) (rejoined : Finset ℕ) (calls : List Allocations) (a : SlotAllocator)
    (registry : ProxyRegistry) : Prop where
  globalSeqNum : a.globalSeqNum = seqAt s0 n
  numbers : (calls.flatMap Allocations.numbers).Perm ((List.range n).map (seqAt s0))
  even : ∀ result ∈ calls, ∀ p, (result.get p).length % 2 = 0
  handed : ∀ p, ∃ is : List ℕ, is.Pairwise (· < ·) ∧ (∀ i ∈ is, i < n) ∧
    calls.flatMap (fun result => numbersOf (result.get p)) = is.map (seqAt s0)
  recorded : ∀ p ∉ rejoined, ∀ st, registry.lookup p = some st →
    st.allocatedSequences = calls.flatMap fun result => numbersOf (result.get p)

namespace Accounts

variable {D : Doubles τ} {s0 n nextEpoch epochDuration : ℕ} {rejoined : Finset ℕ}
  {calls : List Allocations} {a : SlotAllocator} {registry : ProxyRegistry}

theorem init (startingSeq : UInt64) (proxies : List Address) :
    Accounts startingSeq.toNat 0 ∅ [] (.init startingSeq) (.ofConfig proxies) := by
  refine ⟨?_, List.Perm.refl _, fun _ h => (by cases h), fun p => ⟨[], .nil, ?_, rfl⟩,
    fun p _ st hst => ?_⟩
  · exact (Nat.mod_eq_of_lt startingSeq.toNat_lt).symm
  · intro i hi
    cases hi
  · obtain ⟨address, rfl⟩ := ProxyRegistry.lookup_ofConfig hst
    rfl

/-- The map of a call that starts is empty. -/
theorem startCall (h : Accounts s0 n rejoined calls a registry) :
    Accounts s0 n rejoined (calls ++ [∅]) a registry := by
  have hnone : ∀ p, (calls ++ [(∅ : Allocations)]).flatMap
      (fun result => numbersOf (result.get p)) =
      calls.flatMap fun result => numbersOf (result.get p) := fun p => by
    rw [List.flatMap_append]
    exact List.append_nil _
  refine ⟨h.globalSeqNum, ?_, ?_, ?_, ?_⟩
  · rw [List.flatMap_append]
    exact (List.append_nil _).symm ▸ h.numbers
  · intro result hresult p
    rcases List.mem_append.mp hresult with hold | hnew
    · exact h.even result hold p
    · rw [List.mem_singleton.mp hnew]
      rfl
  · intro p
    rw [hnone]
    exact h.handed p
  · intro p hp st hst
    rw [hnone]
    exact h.recorded p hp st hst

/-- The next number goes behind ascending ones. -/
theorem exists_handed_append {numbers : List ℕ}
    (h : ∃ is : List ℕ, is.Pairwise (· < ·) ∧ (∀ i ∈ is, i < n) ∧ numbers = is.map (seqAt s0)) :
    ∃ is : List ℕ, is.Pairwise (· < ·) ∧ (∀ i ∈ is, i < n + 1) ∧
      numbers ++ [seqAt s0 n] = is.map (seqAt s0) := by
  obtain ⟨is, hsorted, hlt, rfl⟩ := h
  refine ⟨is ++ [n], ?_, ?_, ?_⟩
  · refine List.pairwise_append.mpr ⟨hsorted, List.pairwise_singleton _ _, ?_⟩
    intro i hi j hj
    rw [List.mem_singleton.mp hj]
    exact hlt i hi
  · intro i hi
    rcases List.mem_append.mp hi with hi | hi
    · exact Nat.lt_succ_of_lt (hlt i hi)
    · rw [List.mem_singleton.mp hi]
      exact Nat.lt_succ_self n
  · rw [List.map_append]
    rfl

/-- **One slot** takes the next number. -/
theorem recordSlot {r r' : Recording} {slot : τ × ℕ}
    (h : Accounts s0 n rejoined (calls ++ [r.result]) r.allocator r.registry)
    (hslot : SlotAllocator.recordSlot D nextEpoch r slot = some r') :
    Accounts s0 (n + 1) rejoined (calls ++ [r'.result]) r'.allocator r'.registry := by
  obtain ⟨st, sendTime, hst, -, hallocator, hregistry, hresult⟩ :=
    SlotAllocator.recordSlot_eq_some hslot
  have heven : ∀ p, (r.result.get p).length % 2 = 0 :=
    h.even _ (List.mem_append_right _ (List.mem_singleton_self _))
  have hseq := h.globalSeqNum
  rw [hseq] at hregistry hresult hallocator
  have hof : ∀ p, numbersOf (r'.result.get p) =
      numbersOf (r.result.get p) ++ if p = slot.2 then [seqAt s0 n] else [] := by
    intro p
    rw [hresult, Buckets.get_append]
    split_ifs with hp
    · rw [hp, numbersOf_append (heven slot.2)]
    · rw [List.append_nil]
  have hof' : ∀ p, (calls ++ [r'.result]).flatMap (fun result => numbersOf (result.get p)) =
      (calls ++ [r.result]).flatMap (fun result => numbersOf (result.get p)) ++
        if p = slot.2 then [seqAt s0 n] else [] := by
    intro p
    simp only [List.flatMap_append, List.flatMap_singleton, hof, List.append_assoc]
  refine ⟨?_, ?_, ?_, ?_, ?_⟩
  · rw [hallocator]
    show (seqAt s0 n + 1) % 2 ^ 64 = seqAt s0 (n + 1)
    unfold seqAt
    rw [Nat.mod_add_mod, Nat.add_assoc]
  · have hmap : r'.result.numbers.Perm (r.result.numbers ++ [seqAt s0 n]) := by
      rw [hresult]
      exact Buckets.flatMap_append_perm numbersOf rfl r.result slot.2
        (numbersOf_append (heven slot.2) sendTime (seqAt s0 n))
    rw [List.range_succ, List.map_append, List.flatMap_append, List.flatMap_singleton]
    apply (hmap.append_left _).trans
    rw [← List.append_assoc]
    apply List.Perm.append_right _
    have hold := h.numbers
    rwa [List.flatMap_append, List.flatMap_singleton] at hold
  · intro result hmem p
    rcases List.mem_append.mp hmem with hold | hnew
    · exact h.even result (List.mem_append_left _ hold) p
    · rw [List.mem_singleton.mp hnew, hresult]
      exact Allocations.even_append heven _ _ _ p
  · intro p
    rw [hof']
    split_ifs with hp
    · exact exists_handed_append (h.handed p)
    · obtain ⟨is, hsorted, hlt, heq⟩ := h.handed p
      rw [List.append_nil]
      exact ⟨is, hsorted, fun i hi => Nat.lt_succ_of_lt (hlt i hi), heq⟩
  · intro p hp st' hst'
    rw [hregistry] at hst'
    rw [hof']
    by_cases hpslot : p = slot.2
    · subst hpslot
      rw [AList.lookup_insert] at hst'
      rw [if_pos rfl, ← h.recorded slot.2 hp st hst, ← Option.some.inj hst']
      rfl
    · rw [AList.lookup_insert_ne hpslot] at hst'
      rw [if_neg hpslot, List.append_nil]
      exact h.recorded p hp st' hst'

/-- The slots of a call. -/
theorem foldlM_recordSlot {slots : List (τ × ℕ)} {r r' : Recording}
    (h : Accounts s0 n rejoined (calls ++ [r.result]) r.allocator r.registry)
    (hslots : slots.foldlM (SlotAllocator.recordSlot D nextEpoch) r = some r') :
    Accounts s0 (n + slots.length) rejoined (calls ++ [r'.result]) r'.allocator r'.registry := by
  induction slots generalizing r n with
  | nil =>
    cases hslots
    exact h
  | cons slot slots ih =>
    obtain ⟨mid, hmid, hrest⟩ := SlotAllocator.foldlM_recordSlot_cons hslots
    have hall := ih (h.recordSlot hmid) hrest
    rwa [Nat.add_assoc, Nat.add_comm 1] at hall

theorem computeAllocations {r : Recording} (h : Accounts s0 n rejoined calls a registry)
    (hcall : a.computeAllocations D registry nextEpoch epochDuration = some r) :
    ∃ n', Accounts s0 n' rejoined (calls ++ [r.result]) r.allocator r.registry :=
  ⟨_, foldlM_recordSlot h.startCall hcall⟩

end Accounts

/-! ## Runs -/

namespace AllocationState

variable {D : Doubles τ} {startingSeq : UInt64} {proxies : List Address} {s : AllocationState}

theorem accounts (h : (allocation D startingSeq proxies).Reach s) :
    ∃ n, Accounts startingSeq.toNat n s.rejoined s.returned s.allocator s.registry := by
  refine h.invariant (fun s => ∃ n, Accounts startingSeq.toNat n s.rejoined s.returned s.allocator
    s.registry) ⟨0, Accounts.init startingSeq proxies⟩ ?_
  rintro s e t - ⟨n, haccounts⟩ - hstep
  cases e with
  | updateEstimate proxyId numRequests =>
    cases hstep
    exact ⟨n, haccounts.globalSeqNum, haccounts.numbers, haccounts.even, haccounts.handed,
      haccounts.recorded⟩
  | setStatus proxyId status =>
    obtain ⟨st, hst, rfl⟩ := Option.map_eq_some_iff.mp hstep
    refine ⟨n, haccounts.globalSeqNum, haccounts.numbers, haccounts.even, haccounts.handed, ?_⟩
    intro p hp st' hst'
    by_cases hpid : p = proxyId
    · rw [hpid, AList.lookup_insert] at hst'
      rw [← Option.some.inj hst', hpid]
      exact haccounts.recorded proxyId (hpid ▸ hp) st hst
    · rw [AList.lookup_insert_ne hpid] at hst'
      exact haccounts.recorded p hp st' hst'
  | rejoin proxyId =>
    cases hstep
    refine ⟨n, haccounts.globalSeqNum, haccounts.numbers, haccounts.even, haccounts.handed, ?_⟩
    intro p hp st' hst'
    obtain ⟨hpid, hp⟩ := not_or.mp (Finset.mem_insert.not.mp hp)
    apply haccounts.recorded p hp st'
    rw [← hst']
    unfold ProxyRegistry.rejoinProxy
    split
    · rfl
    · rw [AList.lookup_insert_ne hpid]
  | computeAllocations nextEpoch epochDuration =>
    obtain ⟨r, hr, rfl⟩ := Option.map_eq_some_iff.mp hstep
    exact haccounts.computeAllocations hr

/-- The numbers are dealt out without gaps, modulo `2 ^ 64`. -/
structure Partitioned (D : Doubles τ) (s0 : ℕ) (s : AllocationState) : Prop where
  globalSeqNum : s.allocator.globalSeqNum = seqAt s0 s.numbers.length
  /-- All numbers from `s0` up to the counter, and no others. -/
  numbers : s.numbers.Perm ((List.range s.numbers.length).map (seqAt s0))
  /-- Each to one proxy, once. -/
  nodup : s.numbers.Nodup
  /-- A next call ends and gives each active proxy a pair for each slot it wants. -/
  call : ∀ nextEpoch epochDuration, ∃ r,
    s.allocator.computeAllocations D s.registry nextEpoch epochDuration = some r ∧
      ∀ p, (s.allocator.slotCount s.registry p = 0 → r.result.lookup p = none) ∧
        (0 < s.allocator.slotCount s.registry p → ∃ values, r.result.lookup p = some values ∧
          values.length = 2 * s.allocator.slotCount s.registry p)
  recorded : ∀ p ∉ s.rejoined, ∀ st, s.registry.lookup p = some st →
    st.allocatedSequences = s.numbersOf p
  /-- As long as the counter has not wrapped. -/
  increasing : s0 + s.numbers.length ≤ 2 ^ 64 → ∀ p, (s.numbersOf p).Pairwise (· < ·)

/-- **Sequence numbers are dealt out without gaps** by any calls of the allocator. -/
theorem partitioned (h : (allocation D startingSeq proxies).Reach s)
    (hfew : s.numbers.length < 2 ^ 64) : s.Partitioned D startingSeq.toNat := by
  obtain ⟨n, haccounts⟩ := accounts h
  have hn : s.numbers.length = n := by
    rw [numbers, haccounts.numbers.length_eq, List.length_map, List.length_range]
  rw [hn] at hfew
  refine ⟨?_, ?_, ?_, ?_, haccounts.recorded, ?_⟩
  · rw [hn]
    exact haccounts.globalSeqNum
  · rw [hn]
    exact haccounts.numbers
  · refine haccounts.numbers.nodup_iff.mpr (List.Nodup.map_on ?_ List.nodup_range)
    intro i hi j hj hij
    rw [List.mem_range] at hi hj
    unfold seqAt at hij
    omega
  · intro nextEpoch epochDuration
    obtain ⟨r, hr⟩ := s.allocator.computeAllocations_isSome D s.registry nextEpoch epochDuration
    exact ⟨r, hr, SlotAllocator.lookup_computeAllocations hr⟩
  · intro hwrap p
    obtain ⟨is, hsorted, hlt, heq⟩ := haccounts.handed p
    rw [hn] at hwrap
    rw [numbersOf, heq, List.pairwise_map]
    refine hsorted.imp_of_mem fun {i j} hi hj hij => ?_
    have := hlt i hi
    have := hlt j hj
    unfold seqAt
    omega

/-- Two proxies that want two slots and one. -/
theorem partitioned_twoProxies : ∃ s, (allocation wholeNumbers 1
    [⟨"127.0.0.1", 5000⟩, ⟨"127.0.0.1", 5001⟩]).Reach s ∧
      s.numbersOf 0 = [1, 3] ∧ s.numbersOf 1 = [2] ∧ s.Partitioned wholeNumbers 1 := by
  obtain ⟨s, hs, hp⟩ := @Lts.exists_reach_of_run _ _ (allocation wholeNumbers 1
      [⟨"127.0.0.1", 5000⟩, ⟨"127.0.0.1", 5001⟩])
    [.updateEstimate 0 2, .updateEstimate 1 1, .computeAllocations 1000 12]
    (fun s => decide (s.numbersOf 0 = [1, 3] ∧ s.numbersOf 1 = [2] ∧ s.numbers.length = 3))
    (by decide)
  obtain ⟨hzero, hone, hlen⟩ := of_decide_eq_true hp
  exact ⟨s, hs, hzero, hone, partitioned hs (by omega)⟩

/-- From the last number on, the counter wraps to 0. -/
theorem not_increasing : ¬ ∀ (startingSeq : UInt64) (proxies : List Address) (s : AllocationState),
    (allocation wholeNumbers startingSeq proxies).Reach s → s.numbers.length < 2 ^ 64 →
    ∀ p ∉ s.rejoined, ∀ st, s.registry.lookup p = some st →
      st.allocatedSequences.Pairwise (· < ·) := by
  intro h
  obtain ⟨s, hs, hp⟩ := @Lts.exists_reach_of_run _ _ (allocation wholeNumbers (2 ^ 64 - 1)
      [⟨"127.0.0.1", 5000⟩])
    [.updateEstimate 0 2, .computeAllocations 1000 12]
    (fun s => decide (s.numbers.length = 2 ∧ 0 ∉ s.rejoined ∧
      (s.registry.lookup 0).map ProxyState.allocatedSequences = some [2 ^ 64 - 1, 0]))
    (by decide +kernel)
  obtain ⟨hlen, hrejoined, hmap⟩ := of_decide_eq_true hp
  obtain ⟨st, hst, hseqs⟩ := Option.map_eq_some_iff.mp hmap
  have hpairwise := h _ _ s hs (by omega) 0 hrejoined st hst
  rw [hseqs] at hpairwise
  exact Nat.not_lt_zero _ (List.rel_of_pairwise_cons hpairwise (List.mem_singleton_self 0))

end AllocationState

end Ziplog
