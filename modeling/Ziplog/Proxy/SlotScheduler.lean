import Mathlib.Data.Nat.Notation
import Mathlib.Tactic.SplitIfs

/-!
# The slot scheduler of a proxy

Slots are pairs of a send time and a sequence number, kept in two queues. `nextSend` repeats the
first send time and is 0 when there is none. `loadSlots` is `none` when its assertion fails. The
rolling estimate of requests is left out: the proxy assigns its slots itself and never reads it.
-/

namespace Ziplog

structure SlotScheduler where
  sequences : List ℕ
  timeouts : List ℕ
  nextSend : ℕ

namespace SlotScheduler

def init : SlotScheduler := ⟨[], [], 0⟩

/-- The loop of `load_slots`: even positions hold send times, odd ones sequence numbers. -/
def pushValues (sch : SlotScheduler) : List ℕ → SlotScheduler
  | [] => sch
  | [timeout] => { sch with timeouts := sch.timeouts ++ [timeout] }
  | timeout :: seq :: values =>
    pushValues { sch with
      timeouts := sch.timeouts ++ [timeout]
      sequences := sch.sequences ++ [seq] } values

def loadSlots (sch : SlotScheduler) (orderingValues : List ℕ) : Option SlotScheduler :=
  let sch := sch.pushValues orderingValues
  let sch := match sch.timeouts with
    | timeout :: _ => { sch with nextSend := timeout }
    | [] => sch
  if sch.timeouts.length = sch.sequences.length then some sch else none

/-- The send time and number of the first slot. -/
def popNextSlot (sch : SlotScheduler) : Option ((ℕ × ℕ) × SlotScheduler) :=
  if sch.nextSend = 0 then none
  else
    match sch.sequences, sch.timeouts with
    | seq :: sequences, sendTime :: timeouts =>
      some ((sendTime, seq), ⟨sequences, timeouts, timeouts.headD 0⟩)
    | _, _ => none

def pushFront (sch : SlotScheduler) (ts seq : ℕ) : SlotScheduler :=
  ⟨seq :: sch.sequences, ts :: sch.timeouts, ts⟩

/-! ## The numbers in the queue -/

theorem sequences_pushValues_pair (sch : SlotScheduler) (timeout seq : ℕ) :
    (sch.pushValues [timeout, seq]).sequences = sch.sequences ++ [seq] := rfl

theorem sequences_loadSlots {sch sch' : SlotScheduler} {orderingValues : List ℕ}
    (h : sch.loadSlots orderingValues = some sch') :
    sch'.sequences = (sch.pushValues orderingValues).sequences := by
  unfold loadSlots at h
  simp only at h
  split_ifs at h
  cases h
  split <;> rfl

theorem sequences_popNextSlot {sch sch' : SlotScheduler} {sendTime seq : ℕ}
    (h : sch.popNextSlot = some ((sendTime, seq), sch')) :
    sch.sequences = seq :: sch'.sequences := by
  unfold popNextSlot at h
  split_ifs at h
  split at h <;> cases h
  assumption

/-! ## Slots that can be popped -/

/-- Each number has a send time, and none of these is 0. -/
structure Aligned (sch : SlotScheduler) : Prop where
  length : sch.timeouts.length = sch.sequences.length
  nextSend : sch.nextSend = sch.timeouts.headD 0
  pos : ∀ ts ∈ sch.timeouts, 0 < ts

variable {sch sch' : SlotScheduler} {ts seq : ℕ}

theorem aligned_init : init.Aligned := ⟨rfl, rfl, fun _ h => nomatch h⟩

/-- A slot that is loaded can be popped. -/
theorem Aligned.exists_loadSlots (h : sch.Aligned) (seq : ℕ) (hts : 0 < ts) :
    ∃ sch', sch.loadSlots [ts, seq] = some sch' ∧ sch'.Aligned ∧ sch'.timeouts ≠ [] := by
  have hlen : (sch.timeouts ++ [ts]).length = (sch.sequences ++ [seq]).length := by
    rw [List.length_append, List.length_append, h.length]
    rfl
  have hpos : ∀ ts' ∈ sch.timeouts ++ [ts], 0 < ts' := by
    intro ts' hmem
    rcases List.mem_append.mp hmem with hold | hlast
    · exact h.pos ts' hold
    · rw [List.mem_singleton.mp hlast]
      exact hts
  have hne : sch.timeouts ++ [ts] ≠ [] :=
    List.append_ne_nil_of_right_ne_nil _ (List.cons_ne_nil _ _)
  obtain ⟨first, rest, heq⟩ := List.exists_cons_of_ne_nil hne
  unfold loadSlots
  simp only [pushValues, heq]
  rw [heq] at hlen hpos
  rw [if_pos hlen]
  exact ⟨_, rfl, ⟨hlen, rfl, hpos⟩, List.cons_ne_nil _ _⟩

theorem Aligned.exists_popNextSlot (h : sch.Aligned) (hne : sch.timeouts ≠ []) :
    ∃ ts seq sch', sch.popNextSlot = some ((ts, seq), sch') := by
  obtain ⟨sequences, timeouts, nextSend⟩ := sch
  obtain ⟨hlen, hnext, hpos⟩ := h
  cases timeouts with
  | nil => exact absurd rfl hne
  | cons ts timeouts =>
    cases sequences with
    | nil => cases hlen
    | cons seq sequences =>
      have hts : nextSend ≠ 0 := by
        rw [show nextSend = ts from hnext]
        exact Nat.ne_of_gt (hpos ts List.mem_cons_self)
      exact ⟨ts, seq, _, if_neg hts⟩

theorem Aligned.popNextSlot (h : sch.Aligned) (hs : sch.popNextSlot = some ((ts, seq), sch')) :
    0 < ts ∧ sch'.Aligned := by
  obtain ⟨sequences, timeouts, nextSend⟩ := sch
  obtain ⟨hlen, -, hpos⟩ := h
  unfold SlotScheduler.popNextSlot at hs
  split_ifs at hs
  split at hs <;> cases hs
  rename_i hsequences htimeouts
  subst hsequences htimeouts
  exact ⟨hpos _ List.mem_cons_self, Nat.succ.inj hlen, rfl,
    fun ts' hmem => hpos ts' (List.mem_cons_of_mem _ hmem)⟩

theorem Aligned.pushFront (h : sch.Aligned) (seq : ℕ) (hts : 0 < ts) :
    (sch.pushFront ts seq).Aligned := by
  refine ⟨congrArg Nat.succ h.length, rfl, fun ts' hmem => ?_⟩
  rcases List.mem_cons.mp hmem with rfl | hold
  · exact hts
  · exact h.pos ts' hold

end SlotScheduler

end Ziplog
