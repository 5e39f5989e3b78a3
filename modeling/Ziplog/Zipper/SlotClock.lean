import Mathlib.Data.Rat.Floor
import Mathlib.Tactic.Linarith
import Mathlib.Tactic.Positivity
import Ziplog.Library.Lts
import Ziplog.Zipper.SlotAllocator

/-!
# The epochs of the slots

The timer thread of the zipper sets two flags in every epoch and then advances `next_epoch_`; the
worker takes a flag and, for an allocation, reads `next_epoch()` when it gets there. A worker that
is late reads the value of a later epoch, and may read it once more for the request of that epoch.
As long as the timer has advanced `next_epoch_` between any two reads, the slots of a call end
before those of the next call start, and send times follow the sequence numbers
(`inOrder_of_timely`).

The places of the slots are rational numbers here: the arithmetic of the source without rounding.
-/

namespace Ziplog

/-! ## Exact arithmetic -/

/-- The arithmetic of `double`, without rounding; a cast to `Timestamp` cuts the fraction off. -/
def exactDoubles : Doubles ℚ where
  ofNat n := n
  add := (· + ·)
  div := (· / ·)
  lt x y := decide (x < y)
  toTimestamp x := x.floor.toNat

namespace SlotAllocator

/-- One slot does not come after the other. -/
abbrev NotAfter (x y : ℚ × ℕ) : Prop := exactDoubles.before y x = false

theorem notAfter_iff {x y : ℚ × ℕ} : NotAfter x y ↔ x.1 < y.1 ∨ x.1 = y.1 ∧ x.2 ≤ y.2 := by
  unfold NotAfter Doubles.before exactDoubles
  simp only [Bool.or_eq_false_iff, decide_eq_false_iff_not, Bool.and_eq_false_iff,
    decide_eq_true_eq, not_lt, Bool.not_eq_false']
  constructor
  · rintro ⟨hle, hlt | hsnd⟩
    · exact Or.inl hlt
    · rcases lt_or_eq_of_le hle with hlt | heq
      · exact Or.inl hlt
      · exact Or.inr ⟨heq, hsnd⟩
  · rintro (hlt | ⟨heq, hsnd⟩)
    · exact ⟨hlt.le, Or.inl hlt⟩
    · exact ⟨heq.le, Or.inr hsnd⟩

instance : Std.Total NotAfter where
  total x y := by
    rw [notAfter_iff, notAfter_iff]
    rcases lt_trichotomy x.1 y.1 with hlt | heq | hgt
    · exact Or.inl (Or.inl hlt)
    · rcases Nat.le_total x.2 y.2 with hle | hge
      · exact Or.inl (Or.inr ⟨heq, hle⟩)
      · exact Or.inr (Or.inr ⟨heq.symm, hge⟩)
    · exact Or.inr (Or.inl hgt)

instance : IsTrans (ℚ × ℕ) NotAfter where
  trans x y z := by
    rw [notAfter_iff, notAfter_iff, notAfter_iff]
    rintro (hxy | ⟨hxy, hxy'⟩) (hyz | ⟨hyz, hyz'⟩)
    · exact Or.inl (hxy.trans hyz)
    · exact Or.inl (hyz ▸ hxy)
    · exact Or.inl (hxy ▸ hyz)
    · exact Or.inr ⟨hxy.trans hyz, hxy'.trans hyz'⟩

/-- The places run through the multiples of the interval. -/
theorem mem_timePoints {interval start x : ℚ} {n : ℕ}
    (h : x ∈ timePoints exactDoubles interval n start) :
    ∃ i < n, x = start + i * interval := by
  induction n generalizing start with
  | zero => cases h
  | succ n ih =>
    rcases List.mem_cons.mp h with rfl | h
    · exact ⟨0, Nat.succ_pos n, by rw [Nat.cast_zero, zero_mul, add_zero]⟩
    · obtain ⟨i, hi, rfl⟩ := ih h
      refine ⟨i + 1, Nat.succ_lt_succ hi, ?_⟩
      show start + interval + i * interval = _
      push_cast
      ring

/-- The places lie in the epoch. -/
theorem place_of_mem_timestamps {a : SlotAllocator} {registry : ProxyRegistry} {epochDuration : ℕ}
    (hd : 0 < epochDuration) {slot : ℚ × ℕ}
    (h : slot ∈ a.timestamps exactDoubles registry epochDuration) :
    0 ≤ slot.1 ∧ slot.1 < epochDuration := by
  unfold timestamps at h
  rw [List.mem_insertionSort, List.mem_flatMap] at h
  obtain ⟨⟨p, st⟩, -, hslot⟩ := h
  unfold slotsOf at hslot
  split_ifs at hslot with hstatus hzero
  · cases hslot
  · cases hslot
  · obtain ⟨x, hx, rfl⟩ := List.mem_map.mp hslot
    obtain ⟨i, hi, hplace⟩ := mem_timePoints hx
    have hn : (0 : ℚ) < a.estimate p := by exact_mod_cast Nat.pos_of_ne_zero hzero
    have hpos : (0 : ℚ) < epochDuration / a.estimate p := div_pos (by exact_mod_cast hd) hn
    have hi' : (i : ℚ) + 1 ≤ a.estimate p := by exact_mod_cast hi
    have hx' : x = epochDuration / a.estimate p * (1 / 2 + i) := by
      rw [hplace]
      show (epochDuration / a.estimate p : ℚ) / (2 : ℕ) + i * (epochDuration / a.estimate p) = _
      push_cast
      ring
    constructor
    · show (0 : ℚ) ≤ x
      rw [hx']
      positivity
    · calc x = epochDuration / a.estimate p * (1 / 2 + i) := hx'
        _ < epochDuration / a.estimate p * a.estimate p :=
          mul_lt_mul_of_pos_left (by linarith) hpos
        _ = epochDuration := div_mul_cancel₀ _ hn.ne'

/-- The send times of a call, counted from the start of the epoch, ascend, and lie in the epoch. -/
theorem sendTimes_timestamps (a : SlotAllocator) (registry : ProxyRegistry) {epochDuration : ℕ}
    (hd : 0 < epochDuration) :
    (a.timestamps exactDoubles registry epochDuration).Pairwise
        (fun x y => exactDoubles.toTimestamp x.1 ≤ exactDoubles.toTimestamp y.1) ∧
      ∀ slot ∈ a.timestamps exactDoubles registry epochDuration,
        exactDoubles.toTimestamp slot.1 < epochDuration := by
  constructor
  · have hsorted : (a.timestamps exactDoubles registry epochDuration).Pairwise NotAfter :=
      List.pairwise_insertionSort NotAfter _
    refine hsorted.imp fun {x y} hxy => ?_
    have hle : x.1 ≤ y.1 := by
      rcases notAfter_iff.mp hxy with hlt | ⟨heq, -⟩
      · exact hlt.le
      · exact heq.le
    exact Int.toNat_le_toNat (Rat.floor_monotone hle)
  · intro slot hslot
    obtain ⟨hzero, hlt⟩ := place_of_mem_timestamps hd hslot
    have hfloor : slot.1.floor < (epochDuration : ℤ) := by
      rw [Rat.floor_lt_iff]
      exact_mod_cast hlt
    show slot.1.floor.toNat < epochDuration
    omega

end SlotAllocator

/-! ## The order of what was handed out -/

/-- A send time and a number that some call has returned for some proxy. -/
def HandedOut (calls : List Allocations) (x : ℕ × ℕ) : Prop :=
  ∃ result ∈ calls, ∃ p, x ∈ slotPairs (result.get p)

/-- The numbers handed out lie below `count` and the send times do not lie behind `ceiling`, and
both are in the same order. -/
structure InOrder (calls : List Allocations) (count ceiling : ℕ) : Prop where
  even : ∀ result ∈ calls, ∀ p, (result.get p).length % 2 = 0
  below : ∀ x, HandedOut calls x → x.2 < count ∧ x.1 ≤ ceiling
  ordered : ∀ x y, HandedOut calls x → HandedOut calls y → x.2 < y.2 → x.1 ≤ y.1

namespace InOrder

variable {calls : List Allocations} {count ceiling nextEpoch : ℕ}

theorem nil (count ceiling : ℕ) : InOrder [] count ceiling where
  even := fun _ h => nomatch h
  below := fun _ ⟨_, h, _⟩ => nomatch h
  ordered := fun _ _ ⟨_, h, _⟩ => nomatch h

/-- The map of a call that starts is empty. -/
theorem startCall (h : InOrder calls count ceiling) : InOrder (calls ++ [∅]) count ceiling := by
  have hout : ∀ x, HandedOut (calls ++ [∅]) x → HandedOut calls x := by
    rintro x ⟨result, hresult, p, hx⟩
    rcases List.mem_append.mp hresult with hold | hnew
    · exact ⟨result, hold, p, hx⟩
    · rw [List.mem_singleton.mp hnew] at hx
      cases hx
  refine ⟨?_, fun x hx => h.below x (hout x hx), fun x y hx hy => h.ordered x y (hout x hx)
    (hout y hy)⟩
  intro result hresult p
  rcases List.mem_append.mp hresult with hold | hnew
  · exact h.even result hold p
  · rw [List.mem_singleton.mp hnew]
    rfl

/-- What is handed out with one more slot. -/
theorem handedOut_append {result : Allocations} {p sendTime seq : ℕ}
    (heven : (result.get p).length % 2 = 0) {x : ℕ × ℕ}
    (hx : HandedOut (calls ++ [result.append p [sendTime, seq]]) x) :
    HandedOut (calls ++ [result]) x ∨ x = (sendTime, seq) := by
  obtain ⟨result', hresult, q, hx⟩ := hx
  rcases List.mem_append.mp hresult with hold | hnew
  · exact Or.inl ⟨result', List.mem_append_left _ hold, q, hx⟩
  · rw [List.mem_singleton.mp hnew, Buckets.get_append] at hx
    have hself : result ∈ calls ++ [result] :=
      List.mem_append_right _ (List.mem_singleton_self _)
    split_ifs at hx with hq
    · rw [slotPairs_append heven] at hx
      rcases List.mem_append.mp hx with hx | hx
      · exact Or.inl ⟨result, hself, p, hx⟩
      · exact Or.inr (List.mem_singleton.mp hx)
    · exact Or.inl ⟨result, hself, q, hx⟩

/-- **One slot** is handed out behind all others. -/
theorem recordSlot {r r' : Recording} {slot : ℚ × ℕ}
    (h : InOrder (calls ++ [r.result]) count ceiling) (hcount : count < 2 ^ 64)
    (hglobal : r.allocator.globalSeqNum = count % 2 ^ 64)
    (hceiling : ceiling ≤ nextEpoch + exactDoubles.toTimestamp slot.1)
    (hword : nextEpoch + exactDoubles.toTimestamp slot.1 < 2 ^ 64)
    (hslot : SlotAllocator.recordSlot exactDoubles nextEpoch r slot = some r') :
    InOrder (calls ++ [r'.result]) (count + 1) (nextEpoch + exactDoubles.toTimestamp slot.1) ∧
      r'.allocator.globalSeqNum = (count + 1) % 2 ^ 64 := by
  obtain ⟨st, hst, rfl⟩ := Option.map_eq_some_iff.mp hslot
  have hself : r.result ∈ calls ++ [r.result] := List.mem_append_right _ (List.mem_singleton_self _)
  rw [Nat.mod_eq_of_lt hcount] at hglobal
  simp only [hglobal, Nat.mod_eq_of_lt hword]
  generalize nextEpoch + exactDoubles.toTimestamp slot.1 = sendTime at hceiling
  have hout := fun x hx => @handedOut_append calls r.result slot.2 sendTime count
    (h.even _ hself slot.2) x hx
  refine ⟨⟨?_, ?_, ?_⟩, trivial⟩
  · intro result hresult p
    rcases List.mem_append.mp hresult with hold | hnew
    · exact h.even result (List.mem_append_left _ hold) p
    · rw [List.mem_singleton.mp hnew]
      exact Allocations.even_append (h.even _ hself) _ _ _ p
  · intro x hx
    rcases hout x hx with hold | rfl
    · obtain ⟨hlt, hle⟩ := h.below x hold
      exact ⟨Nat.lt_succ_of_lt hlt, hle.trans hceiling⟩
    · exact ⟨Nat.lt_succ_self _, le_rfl⟩
  · intro x y hx hy hlt
    rcases hout x hx with hx | rfl
    · rcases hout y hy with hy | rfl
      · exact h.ordered x y hx hy hlt
      · exact (h.below x hx).2.trans hceiling
    · rcases hout y hy with hy | rfl
      · exact absurd hlt (h.below y hy).1.asymm
      · exact le_rfl

/-- The slots of a call, which ascend and end before `limit`. -/
theorem foldlM_recordSlot {slots : List (ℚ × ℕ)} {r r' : Recording} {limit : ℕ}
    (h : InOrder (calls ++ [r.result]) count ceiling) (hcount : count + slots.length ≤ 2 ^ 64)
    (hglobal : r.allocator.globalSeqNum = count % 2 ^ 64) (hlow : ceiling < limit)
    (hlimit : limit ≤ 2 ^ 64)
    (hsorted : slots.Pairwise fun x y =>
      exactDoubles.toTimestamp x.1 ≤ exactDoubles.toTimestamp y.1)
    (hslots : ∀ slot ∈ slots, ceiling ≤ nextEpoch + exactDoubles.toTimestamp slot.1 ∧
      nextEpoch + exactDoubles.toTimestamp slot.1 < limit)
    (hfold : slots.foldlM (SlotAllocator.recordSlot exactDoubles nextEpoch) r = some r') :
    (∃ ceiling' < limit, InOrder (calls ++ [r'.result]) (count + slots.length) ceiling') ∧
      r'.allocator.globalSeqNum = (count + slots.length) % 2 ^ 64 := by
  induction slots generalizing r count ceiling with
  | nil =>
    cases hfold
    exact ⟨⟨ceiling, hlow, h⟩, hglobal⟩
  | cons slot slots ih =>
    obtain ⟨mid, hmid, hrest⟩ := SlotAllocator.foldlM_recordSlot_cons hfold
    obtain ⟨hfirst, hothers⟩ := List.pairwise_cons.mp hsorted
    obtain ⟨hceiling, hend⟩ := hslots slot List.mem_cons_self
    rw [List.length_cons] at hcount ⊢
    obtain ⟨hnext, hglobal'⟩ := h.recordSlot (by omega) hglobal hceiling (by omega) hmid
    have hcount' : count + (slots.length + 1) = count + 1 + slots.length := by omega
    rw [hcount'] at hcount ⊢
    refine ih hnext hcount hglobal' hend hothers (fun other hother => ⟨?_, ?_⟩) hrest
    · exact Nat.add_le_add_left (hfirst other hother) _
    · exact (hslots other (List.mem_cons_of_mem _ hother)).2

/-- **A call** for an epoch behind all send times so far. -/
theorem computeAllocations {a : SlotAllocator} {registry : ProxyRegistry} {epochDuration : ℕ}
    {r : Recording} (h : InOrder calls count ceiling) (hd : 0 < epochDuration)
    (hcount : count + (a.timestamps exactDoubles registry epochDuration).length ≤ 2 ^ 64)
    (hglobal : a.globalSeqNum = count % 2 ^ 64) (hceiling : ceiling ≤ nextEpoch)
    (hword : nextEpoch + epochDuration ≤ 2 ^ 64)
    (hcall : a.computeAllocations exactDoubles registry nextEpoch epochDuration = some r) :
    (∃ ceiling' < nextEpoch + epochDuration, InOrder (calls ++ [r.result])
      (count + (a.timestamps exactDoubles registry epochDuration).length) ceiling') ∧
      r.allocator.globalSeqNum =
        (count + (a.timestamps exactDoubles registry epochDuration).length) % 2 ^ 64 := by
  obtain ⟨hsorted, hplaces⟩ := a.sendTimes_timestamps registry hd
  refine foldlM_recordSlot h.startCall hcount hglobal (by omega) hword hsorted
    (fun slot hslot => ?_) hcall
  have hplace := hplaces slot hslot
  omega

end InOrder

/-! ## The two threads -/

/-- What the timer thread does next. -/
inductive TimerStage
  | allocate
  | epochEnd
  | advance
  deriving DecidableEq

/-- What the worker is doing. -/
inductive WorkerStage
  | waiting
  | allocating
  | computing (nextEpoch : ℕ)
  | endingEpoch
  deriving DecidableEq

/-- The timer thread, the worker and what they work on. Recorded only are the value of `next_epoch_`
without reduction to a word, whether it was advanced since the last read, the values read and the
number of slots. -/
structure SlotClock where
  timer : TimerStage
  worker : WorkerStage
  allocatePending : Bool
  epochEndPending : Bool
  nextEpoch : ℕ
  allocator : SlotAllocator
  registry : ProxyRegistry
  /-- What the calls of `compute_allocations` returned. -/
  returned : List Allocations
  clock : ℕ
  advanced : Bool
  reads : List ℕ
  slots : ℕ

inductive SlotClockEvent
  | requestAllocation
  | requestEpochEnd
  | advance
  | takeAllocation
  | read
  | compute
  | takeEpochEnd
  | finishEpochEnd
  | updateEstimate (proxyId numRequests : ℕ)
  | changeRegistry (registry : ProxyRegistry)

namespace SlotClock

/-- After the first lines of `run`. -/
def init (epochDuration now : ℕ) (startingSeq : UInt64) (registry : ProxyRegistry) : SlotClock where
  timer := .allocate
  worker := .waiting
  allocatePending := false
  epochEndPending := false
  nextEpoch := (now + epochDuration) % 2 ^ 64
  allocator := .init startingSeq
  registry := registry
  returned := []
  clock := now + epochDuration
  advanced := true
  reads := []
  slots := 0

/-- The other threads change the registry between the steps of these two. -/
def step (epochDuration : ℕ) (s : SlotClock) : SlotClockEvent → Option SlotClock
  | .requestAllocation =>
    if s.timer = .allocate then some { s with timer := .epochEnd, allocatePending := true }
    else none
  | .requestEpochEnd =>
    if s.timer = .epochEnd then some { s with timer := .advance, epochEndPending := true }
    else none
  | .advance =>
    if s.timer = .advance then
      some { s with
        timer := .allocate
        nextEpoch := (s.nextEpoch + epochDuration) % 2 ^ 64
        clock := s.clock + epochDuration
        advanced := true }
    else none
  | .takeAllocation =>
    if s.worker = .waiting ∧ s.allocatePending then
      some { s with worker := .allocating, allocatePending := false }
    else none
  | .read =>
    if s.worker = .allocating then
      some { s with
        worker := .computing s.nextEpoch
        advanced := false
        reads := s.reads ++ [s.nextEpoch] }
    else none
  | .compute =>
    match s.worker with
    | .computing nextEpoch =>
      (s.allocator.computeAllocations exactDoubles s.registry nextEpoch epochDuration).map fun r =>
        { s with
          worker := .waiting
          allocator := r.allocator
          registry := r.registry
          returned := s.returned ++ [r.result]
          slots := s.slots +
            (s.allocator.timestamps exactDoubles s.registry epochDuration).length }
    | _ => none
  | .takeEpochEnd =>
    if s.worker = .waiting ∧ s.allocatePending = false ∧ s.epochEndPending then
      some { s with worker := .endingEpoch, epochEndPending := false }
    else none
  | .finishEpochEnd =>
    if s.worker = .endingEpoch then some { s with worker := .waiting } else none
  | .updateEstimate proxyId numRequests =>
    some { s with allocator := s.allocator.updateEstimate proxyId numRequests }
  | .changeRegistry registry => some { s with registry := registry }

/-- A read comes after `next_epoch_` was advanced since the read before, for an epoch that ends
within 64 bits; and the numbers of a call fit in 64 bits. -/
def Timely (startingSeq : UInt64) (epochDuration : ℕ) (s : SlotClock) : SlotClockEvent → Prop
  | .read => s.advanced = true ∧ s.clock + epochDuration ≤ 2 ^ 64
  | .compute => startingSeq.toNat + s.slots +
      (s.allocator.timestamps exactDoubles s.registry epochDuration).length ≤ 2 ^ 64
  | _ => True

end SlotClock

def slotClock (epochDuration now : ℕ) (startingSeq : UInt64) (registry : ProxyRegistry) :
    Lts SlotClock SlotClockEvent :=
  ⟨SlotClock.init epochDuration now startingSeq registry, SlotClock.step epochDuration⟩

/-! ## Runs -/

namespace SlotClock

variable {epochDuration : ℕ} {startingSeq : UInt64} {registry : ProxyRegistry} {s t : SlotClock}

/-- A value of `next_epoch_` that was read, and the value now. -/
def Behind (epochDuration r : ℕ) (s : SlotClock) : Prop :=
  r ≤ s.clock ∧ (s.advanced = true → r + epochDuration ≤ s.clock)

/-- The send times handed out lie in front of the epoch that the worker reads next, or is working
on. -/
structure Ahead (epochDuration ceiling : ℕ) (s : SlotClock) : Prop where
  computing : ∀ n, s.worker = .computing n →
    ceiling ≤ n ∧ n + epochDuration ≤ 2 ^ 64 ∧ Behind epochDuration n s
  resting : (∀ n, s.worker ≠ .computing n) →
    ceiling < s.clock + epochDuration ∧ (s.advanced = true → ceiling ≤ s.clock)

/-- What holds between the steps. -/
structure Ordered (startingSeq : UInt64) (epochDuration : ℕ) (s : SlotClock) : Prop where
  nextEpoch : s.nextEpoch = s.clock % 2 ^ 64
  increasing : s.reads.Pairwise (· < ·)
  behind : ∀ r ∈ s.reads, Behind epochDuration r s
  last : s.advanced = false → s.nextEpoch ∈ s.reads
  globalSeqNum : s.allocator.globalSeqNum = (startingSeq.toNat + s.slots) % 2 ^ 64
  inOrder : ∃ ceiling, InOrder s.returned (startingSeq.toNat + s.slots) ceiling ∧
    Ahead epochDuration ceiling s

theorem ordered_init (hd : 0 < epochDuration) (now : ℕ) :
    Ordered startingSeq epochDuration (init epochDuration now startingSeq registry) where
  nextEpoch := rfl
  increasing := .nil
  behind := fun _ h => nomatch h
  last := fun h => nomatch h
  globalSeqNum := (Nat.mod_eq_of_lt startingSeq.toNat_lt).symm
  inOrder := ⟨0, .nil _ _, fun _ h => (nomatch h),
    fun _ => ⟨Nat.add_pos_right _ hd, fun _ => Nat.zero_le _⟩⟩

/-- A step of other threads, or of one of the two that concerns its flags only. -/
theorem Ordered.congr (h : Ordered startingSeq epochDuration s) (hnext : t.nextEpoch = s.nextEpoch)
    (hclock : t.clock = s.clock) (hadvanced : t.advanced = s.advanced) (hreads : t.reads = s.reads)
    (hglobal : t.allocator.globalSeqNum = s.allocator.globalSeqNum) (hslots : t.slots = s.slots)
    (hreturned : t.returned = s.returned)
    (hworker : t.worker = s.worker ∨
      (∀ n, s.worker ≠ .computing n) ∧ ∀ n, t.worker ≠ .computing n) :
    Ordered startingSeq epochDuration t := by
  obtain ⟨h₁, h₂, h₃, hlast, h₄, ceiling, h₅, h₆, h₇⟩ := h
  refine ⟨?_, ?_, ?_, ?_, ?_, ceiling, ?_, ?_, ?_⟩
  · rw [hnext, hclock, h₁]
  · rw [hreads]
    exact h₂
  · unfold Behind
    rw [hreads, hadvanced, hclock]
    exact h₃
  · rw [hadvanced, hnext, hreads]
    exact hlast
  · rw [hglobal, hslots, h₄]
  · rw [hreturned, hslots]
    exact h₅
  · intro n hn
    unfold Behind
    rw [hclock, hadvanced]
    rcases hworker with hsame | ⟨-, hnone⟩
    · exact h₆ n (hsame.symm.trans hn)
    · exact absurd hn (hnone n)
  · intro hnone
    rw [hclock, hadvanced]
    rcases hworker with hsame | ⟨hnone', -⟩
    · exact h₇ fun n hn => hnone n (hsame.trans hn)
    · exact h₇ hnone'

/-- The timer starts the next epoch. -/
theorem Ordered.advance (h : Ordered startingSeq epochDuration s) :
    Ordered startingSeq epochDuration { s with
      timer := .allocate
      nextEpoch := (s.nextEpoch + epochDuration) % 2 ^ 64
      clock := s.clock + epochDuration
      advanced := true } := by
  obtain ⟨h₁, h₂, h₃, hlast, h₄, ceiling, h₅, h₆, h₇⟩ := h
  have hbehind : ∀ {r}, Behind epochDuration r s →
      r ≤ s.clock + epochDuration ∧ (True → r + epochDuration ≤ s.clock + epochDuration) :=
    fun hr => ⟨hr.1.trans (Nat.le_add_right _ _), fun _ => Nat.add_le_add_right hr.1 _⟩
  refine ⟨?_, h₂, ?_, fun hfalse => (nomatch hfalse), h₄, ceiling, h₅, ?_, ?_⟩
  · show (s.nextEpoch + epochDuration) % 2 ^ 64 = (s.clock + epochDuration) % 2 ^ 64
    rw [h₁, Nat.mod_add_mod]
  · intro r hr
    exact ⟨(hbehind (h₃ r hr)).1, fun _ => (hbehind (h₃ r hr)).2 trivial⟩
  · intro n hn
    obtain ⟨hceiling, hword, hr⟩ := h₆ n hn
    exact ⟨hceiling, hword, (hbehind hr).1, fun _ => (hbehind hr).2 trivial⟩
  · intro hnone
    have hlt := (h₇ hnone).1
    exact ⟨Nat.lt_add_right _ hlt, fun _ => hlt.le⟩

/-- The worker reads the value of an epoch that it has not read. -/
theorem Ordered.read (hd : 0 < epochDuration) (h : Ordered startingSeq epochDuration s)
    (hworker : s.worker = .allocating) (hadvanced : s.advanced = true)
    (hword : s.clock + epochDuration ≤ 2 ^ 64) :
    Ordered startingSeq epochDuration { s with
      worker := .computing s.nextEpoch
      advanced := false
      reads := s.reads ++ [s.nextEpoch] } := by
  obtain ⟨h₁, h₂, h₃, hlast, h₄, ceiling, h₅, h₆, h₇⟩ := h
  have hnext : s.nextEpoch = s.clock := by
    rw [h₁, Nat.mod_eq_of_lt (by omega)]
  have hnone : ∀ n, s.worker ≠ .computing n := fun n hn => by
    rw [hworker] at hn
    cases hn
  have hself : s.nextEpoch ∈ s.reads ++ [s.nextEpoch] :=
    List.mem_append_right _ (List.mem_singleton_self _)
  refine ⟨h₁, ?_, ?_, fun _ => hself, h₄, ceiling, h₅, ?_, ?_⟩
  · refine List.pairwise_append.mpr ⟨h₂, List.pairwise_singleton _ _, fun r hr n hn => ?_⟩
    rw [List.mem_singleton.mp hn, hnext]
    have := (h₃ r hr).2 hadvanced
    omega
  · intro r hr
    rcases List.mem_append.mp hr with hr | hr
    · exact ⟨(h₃ r hr).1, fun hfalse => nomatch hfalse⟩
    · rw [List.mem_singleton.mp hr]
      exact ⟨hnext.le, fun hfalse => nomatch hfalse⟩
  · intro n hn
    cases hn
    rw [hnext]
    exact ⟨(h₇ hnone).2 hadvanced, hword, le_rfl, fun hfalse => nomatch hfalse⟩
  · intro hcomputing
    exact absurd rfl (hcomputing s.nextEpoch)

/-- The call for that epoch. -/
theorem Ordered.compute (hd : 0 < epochDuration) (h : Ordered startingSeq epochDuration s) {n : ℕ}
    (hworker : s.worker = .computing n) {r : Recording}
    (hcount : startingSeq.toNat + s.slots +
      (s.allocator.timestamps exactDoubles s.registry epochDuration).length ≤ 2 ^ 64)
    (hcall : s.allocator.computeAllocations exactDoubles s.registry n epochDuration = some r) :
    Ordered startingSeq epochDuration { s with
      worker := .waiting
      allocator := r.allocator
      registry := r.registry
      returned := s.returned ++ [r.result]
      slots := s.slots +
        (s.allocator.timestamps exactDoubles s.registry epochDuration).length } := by
  obtain ⟨h₁, h₂, h₃, hlast, h₄, ceiling, h₅, h₆, h₇⟩ := h
  obtain ⟨hceiling, hword, hbehind⟩ := h₆ n hworker
  obtain ⟨⟨ceiling', hlt, hinOrder⟩, hglobal⟩ :=
    h₅.computeAllocations hd hcount h₄ hceiling hword hcall
  rw [Nat.add_assoc] at hinOrder hglobal
  refine ⟨h₁, h₂, h₃, hlast, hglobal, ceiling', hinOrder, fun _ hn => (nomatch hn),
    fun _ => ⟨?_, ?_⟩⟩
  · exact hlt.trans_le (Nat.add_le_add_right hbehind.1 _)
  · intro hadvanced
    exact hlt.le.trans (hbehind.2 hadvanced)

/-- **One step** keeps the order. -/
theorem ordered_step (hd : 0 < epochDuration) (h : Ordered startingSeq epochDuration s)
    {e : SlotClockEvent} (htimely : s.Timely startingSeq epochDuration e)
    (hs : s.step epochDuration e = some t) : Ordered startingSeq epochDuration t := by
  cases e with
  | requestAllocation | requestEpochEnd =>
    simp only [step] at hs
    split_ifs at hs
    cases hs
    exact h.congr rfl rfl rfl rfl rfl rfl rfl (Or.inl rfl)
  | advance =>
    simp only [step] at hs
    split_ifs at hs
    cases hs
    exact h.advance
  | takeAllocation =>
    simp only [step] at hs
    split_ifs at hs with hwaiting
    cases hs
    refine h.congr rfl rfl rfl rfl rfl rfl rfl (Or.inr ⟨fun n hn => ?_, fun n hn => nomatch hn⟩)
    cases hwaiting.1.symm.trans hn
  | read =>
    simp only [step] at hs
    split_ifs at hs with hallocating
    cases hs
    exact h.read hd hallocating htimely.1 htimely.2
  | compute =>
    simp only [step] at hs
    rcases hworker : s.worker with _ | _ | n | _ <;> simp only [hworker] at hs <;> try cases hs
    obtain ⟨r, hr, rfl⟩ := Option.map_eq_some_iff.mp hs
    exact h.compute hd hworker htimely hr
  | takeEpochEnd =>
    simp only [step] at hs
    split_ifs at hs with hwaiting
    cases hs
    refine h.congr rfl rfl rfl rfl rfl rfl rfl (Or.inr ⟨fun n hn => ?_, fun n hn => nomatch hn⟩)
    cases hwaiting.1.symm.trans hn
  | finishEpochEnd =>
    simp only [step] at hs
    split_ifs at hs with hending
    cases hs
    refine h.congr rfl rfl rfl rfl rfl rfl rfl (Or.inr ⟨fun n hn => ?_, fun n hn => nomatch hn⟩)
    cases hending.symm.trans hn
  | updateEstimate | changeRegistry =>
    cases hs
    exact h.congr rfl rfl rfl rfl rfl rfl rfl (Or.inl rfl)

/-- **Every run** of timely steps. -/
theorem ordered {now : ℕ} (hd : 0 < epochDuration)
    (h : (slotClock epochDuration now startingSeq registry).ReachVia
      (Timely startingSeq epochDuration) s) : Ordered startingSeq epochDuration s :=
  h.invariant (Ordered startingSeq epochDuration) (ordered_init hd now)
    fun _ _ _ _ hordered htimely hs => ordered_step hd hordered htimely hs

/-- The calls read ascending values of `next_epoch_`, and send times follow the numbers. -/
structure FollowsClock (s : SlotClock) : Prop where
  reads : s.reads.Pairwise (· < ·)
  sendTimes : ∀ x y, HandedOut s.returned x → HandedOut s.returned y → x.2 < y.2 → x.1 ≤ y.1

/-- **Sequence order agrees with scheduled time** in a run in which the timer has advanced
`next_epoch_` between any two reads of the worker, and no word overflows. A read then ascends
exactly when the timer has advanced `next_epoch_` since the read before. -/
theorem inOrder_of_timely {now : ℕ} (hd : 0 < epochDuration)
    (h : (slotClock epochDuration now startingSeq registry).ReachVia
      (Timely startingSeq epochDuration) s) :
    FollowsClock s ∧ ∀ t, s.clock + epochDuration ≤ 2 ^ 64 →
      s.step epochDuration .read = some t → (t.reads.Pairwise (· < ·) ↔ s.advanced = true) := by
  have hordered := ordered hd h
  obtain ⟨ceiling, hinOrder, -⟩ := hordered.inOrder
  refine ⟨⟨hordered.increasing, hinOrder.ordered⟩,
    fun t hword hs => ⟨fun hreads => ?_, fun hadv => ?_⟩⟩
  · by_contra hsame
    simp only [step] at hs
    split_ifs at hs
    cases hs
    have hlast := hordered.last (Bool.not_eq_true _ ▸ hsame)
    exact absurd ((List.pairwise_append.mp hreads).2.2 _ hlast _ (List.mem_singleton_self _))
      (Nat.lt_irrefl _)
  · exact (ordered_step hd hordered (show Timely _ _ s .read from ⟨hadv, hword⟩) hs).increasing

instance (s : SlotClock) (e : SlotClockEvent) : Decidable (s.Timely startingSeq epochDuration e) :=
  match e with
  | .read => inferInstanceAs (Decidable (_ ∧ _))
  | .compute => inferInstanceAs (Decidable (_ ≤ _))
  | .requestAllocation | .requestEpochEnd | .advance | .takeAllocation | .takeEpochEnd
  | .finishEpochEnd | .updateEstimate _ _ | .changeRegistry _ => .isTrue trivial

/-- One proxy that wants two slots in each of two epochs. -/
theorem inOrder_of_timely_twoEpochs :
    ∃ s, (slotClock 4 0 1 (.ofConfig [⟨"127.0.0.1", 5000⟩])).ReachVia (Timely 1 4) s ∧
      s.reads = [4, 8] ∧ s.slots = 4 ∧ FollowsClock s ∧ ∀ t, s.clock + 4 ≤ 2 ^ 64 →
        s.step 4 .read = some t → (t.reads.Pairwise (· < ·) ↔ s.advanced = true) := by
  obtain ⟨s, hs, hp⟩ := @Lts.exists_reachVia_of_run _ _
    (slotClock 4 0 1 (.ofConfig [⟨"127.0.0.1", 5000⟩])) (Timely 1 4)
    (fun s e => decide (s.Timely 1 4 e)) (fun _ _ => of_decide_eq_true)
    [.updateEstimate 0 2, .requestAllocation, .takeAllocation, .read, .compute, .requestEpochEnd,
      .advance, .takeEpochEnd, .finishEpochEnd, .requestAllocation, .takeAllocation, .read,
      .compute]
    (fun s => decide (s.reads = [4, 8] ∧ s.slots = 4)) (by decide +kernel)
  obtain ⟨hreads, hslots⟩ := of_decide_eq_true hp
  exact ⟨s, hs, hreads, hslots, inOrder_of_timely (by decide) hs⟩

/-- A worker that is late for one epoch and on time for the next reads the same value twice: number
2 is for time 11, and number 3 for time 9. -/
theorem not_followsClock :
    ¬ ∀ (epochDuration now : ℕ) (startingSeq : UInt64) (registry : ProxyRegistry) (s : SlotClock),
      0 < epochDuration → (slotClock epochDuration now startingSeq registry).Reach s →
        FollowsClock s := by
  intro h
  obtain ⟨s, hs, hp⟩ := @Lts.exists_reach_of_run _ _
    (slotClock 4 0 1 (.ofConfig [⟨"127.0.0.1", 5000⟩]))
    [.updateEstimate 0 2, .requestAllocation, .takeAllocation, .requestEpochEnd, .advance, .read,
      .compute, .takeEpochEnd, .finishEpochEnd, .requestAllocation, .takeAllocation, .read,
      .compute]
    (fun s => decide (s.returned.map (fun result => slotPairs (result.get 0)) =
      [[(9, 1), (11, 2)], [(9, 3), (11, 4)]])) (by decide +kernel)
  have hpairs := of_decide_eq_true hp
  have hout : ∀ x ∈ [[(9, 1), (11, 2)], [(9, 3), (11, 4)]].flatten, HandedOut s.returned x := by
    intro x hx
    rw [← hpairs, List.mem_flatten] at hx
    obtain ⟨pairs, hmem, hx⟩ := hx
    obtain ⟨result, hresult, rfl⟩ := List.mem_map.mp hmem
    exact ⟨result, hresult, 0, hx⟩
  have hle := (h 4 0 1 _ s (by decide) hs).sendTimes (11, 2) (9, 3) (hout _ (by decide))
    (hout _ (by decide)) (by decide)
  exact absurd hle (by decide)

end SlotClock

end Ziplog
