import Mathlib.Data.Int.Cast.Basic
import Ziplog.Library.Lts
import Ziplog.Proxy.EpochTimer
import Ziplog.Proxy.SlotQueue

/-!
# Slots are used once and in order

`ProxyEpochTimer::run` with the slot scheduler it takes its slots from, and with any other thread
that loads slots. A slot is taken out of the scheduler before the thread knows whether it belongs to
this epoch, so for a while it is in neither queue (`inHand`), and more slots may be loaded then.

Each step of the thread keeps the slots sent, in hand and queued in the order in which they were
loaded (`Kept.step`). A slot is sent at a time not before its timestamp as long as the timestamp
fits into the signed 64-bit count of nanoseconds of `system_clock`; a larger one wraps around.
-/

namespace Ziplog

/-- What `update_slot_estimate` loads at the start of an epoch. -/
theorem SlotScheduler.validSlots_slotValues {t : EpochTimer} {epochDuration now : ℕ}
    (hnow : 0 < now) (hseq : 0 < t.nextSeq) : ValidSlots (t.slotValues epochDuration now) := by
  have hvalues : t.slotValues epochDuration now = [now + epochDuration / 1 * 1, t.nextSeq] := rfl
  rw [hvalues]
  refine ⟨by simp, fun value hvalue => ?_⟩
  rcases List.mem_cons.mp hvalue with rfl | hvalue
  · omega
  · rw [List.mem_singleton.mp hvalue]
    omega

/-! ## Time points -/

/-- `EpochDurationUnit` in the unit of `system_clock`: the unsigned count becomes a signed one, and
what does not fit wraps around. -/
def nanoseconds (microseconds : ℕ) : Int64 := Int64.ofNat microseconds * 1000

/-- `timestamp_to_tp`. -/
def timestampToTp (ts : ℕ) : Int64 := nanoseconds ts

/-- The last timestamp that is a time of `system_clock`. -/
def maxTimestamp : ℕ := 9223372036854775

theorem toInt_timestampToTp {ts : ℕ} (h : ts ≤ maxTimestamp) :
    (timestampToTp ts).toInt = (ts : ℤ) * 1000 := by
  unfold maxTimestamp at h
  have hts : (Int64.ofNat ts).toInt = ts := by
    rw [Int64.toInt_ofNat_of_lt (by omega)]
  rw [timestampToTp, nanoseconds, Int64.toInt_mul, hts,
    show (1000 : Int64).toInt = 1000 from rfl]
  rw [Int.bmod_eq_of_le (by omega) (by omega)]

/-! ## The thread -/

/-- Where the thread is in `run`. In `sending` it is inside `on_send_batch_`. -/
inductive RunPhase
  | stopped
  | starting
  | loopHead
  | loopBody
  | epochStart
  | fetching
  | popped (batchTs batchSeq : ℕ)
  | due (batchTs batchSeq : ℕ)
  | awake (batchTs batchSeq : ℕ)
  | sending
  | epochWait
  deriving DecidableEq

/-- A call of `on_send_batch_` for a slot, with the clock at that moment. -/
structure SentSlot where
  ts : ℕ
  seq : ℕ
  time : Int64
  deriving DecidableEq

/-- `clock` is the last time read; `loaded` and `sent` record the calls. -/
structure SlotRun where
  scheduler : SlotScheduler
  running : Bool
  paused : Bool
  epochEnd : Int64
  phase : RunPhase
  clock : Int64
  loaded : List ℕ
  sent : List SentSlot

/-- The events that carry a time are the points where the thread reads or waits for the clock. -/
inductive RunEvent
  | loadSlots (orderingValues : List ℕ)
  | pause
  | resume
  | stop
  | start
  | begin (now : Int64)
  | checkRunning
  | checkPaused
  | onEpochEnd (orderingValues : List ℕ)
  | nextBatchInfo
  | compare
  | wake (now : Int64)
  | onSendBatch (now : Int64)
  | batchDone
  | endEpoch (now : Int64)
  deriving DecidableEq

namespace SlotRun

def init : SlotRun := ⟨.init, false, false, 0, .stopped, Int64.minValue, [], []⟩

def load (s : SlotRun) (orderingValues : List ℕ) : Option SlotRun :=
  (s.scheduler.loadSlots orderingValues).map fun sch =>
    { s with scheduler := sch, loaded := s.loaded ++ orderingValues }

def step (epochDuration : ℕ) (s : SlotRun) : RunEvent → Option SlotRun
  | .loadSlots orderingValues => s.load orderingValues
  | .pause => some { s with paused := true }
  | .resume => some { s with paused := false }
  | .stop => some { s with running := false }
  | .start =>
    match s.phase with
    | .stopped => some { s with running := true, phase := .starting }
    | _ => none
  | .begin now =>
    match s.phase with
    | .starting => some { s with
        epochEnd := now + nanoseconds epochDuration, clock := now, phase := .loopHead }
    | _ => none
  | .checkRunning =>
    match s.phase with
    | .loopHead => some { s with phase := if s.running then .loopBody else .stopped }
    | _ => none
  | .checkPaused =>
    match s.phase with
    | .loopBody => some { s with phase := if s.paused then .stopped else .epochStart }
    | _ => none
  | .onEpochEnd orderingValues =>
    match s.phase with
    | .epochStart => ({ s with phase := .fetching } : SlotRun).load orderingValues
    | _ => none
  | .nextBatchInfo =>
    match s.phase, s.scheduler.popNextSlot with
    | .fetching, some ((batchTs, batchSeq), sch) =>
      some { s with scheduler := sch, phase := .popped batchTs batchSeq }
    | .fetching, none => some { s with phase := .epochWait }
    | _, _ => none
  | .compare =>
    match s.phase with
    | .popped batchTs batchSeq =>
      if s.epochEnd < timestampToTp batchTs then
        -- the slot belongs to a later epoch
        some { s with scheduler := s.scheduler.pushFront batchTs batchSeq, phase := .epochWait }
      else some { s with phase := .due batchTs batchSeq }
    | _ => none
  | .wake now =>
    match s.phase with
    | .due batchTs batchSeq =>
      -- a time that has passed is not waited for
      if timestampToTp batchTs ≤ now then
        some { s with clock := now, phase := .awake batchTs batchSeq }
      else none
    | _ => none
  | .onSendBatch now =>
    match s.phase with
    | .awake batchTs batchSeq => some { s with
        clock := now, sent := s.sent ++ [⟨batchTs, batchSeq, now⟩], phase := .sending }
    | _ => none
  | .batchDone =>
    match s.phase with
    | .sending => some { s with phase := .fetching }
    | _ => none
  | .endEpoch now =>
    match s.phase with
    | .epochWait =>
      if s.epochEnd ≤ now then
        some { s with
          epochEnd := s.epochEnd + nanoseconds epochDuration, clock := now, phase := .loopHead }
      else none
    | _ => none

/-- What is asked of the callers and of the clock. -/
def Allowed (s : SlotRun) : RunEvent → Prop
  | .loadSlots orderingValues => SlotScheduler.ValidSlots orderingValues
  | .onEpochEnd orderingValues => SlotScheduler.ValidSlots orderingValues
  | .begin now => s.clock ≤ now
  | .wake now => s.clock ≤ now
  | .onSendBatch now => s.clock ≤ now
  | .endEpoch now => s.clock ≤ now
  | _ => True

instance (s : SlotRun) : DecidablePred s.Allowed
  | .loadSlots _ | .onEpochEnd _ => inferInstanceAs (Decidable (SlotScheduler.ValidSlots _))
  | .begin _ | .wake _ | .onSendBatch _ | .endEpoch _ => inferInstanceAs (Decidable (_ ≤ _))
  | .pause | .resume | .stop | .start | .checkRunning | .checkPaused | .nextBatchInfo | .compare
  | .batchDone => inferInstanceAs (Decidable True)

/-- The slot that is in neither queue. -/
def inHand (s : SlotRun) : List (ℕ × ℕ) :=
  match s.phase with
  | .popped batchTs batchSeq => [(batchTs, batchSeq)]
  | .due batchTs batchSeq => [(batchTs, batchSeq)]
  | .awake batchTs batchSeq => [(batchTs, batchSeq)]
  | _ => []

/-! ## What every step keeps -/

/-- No slot is lost, repeated or overtaken, and none is sent before its time point. -/
structure Kept (s : SlotRun) : Prop where
  aligned : s.scheduler.Aligned
  even : s.loaded.length % 2 = 0
  inHand_pos : ∀ x ∈ s.inHand, 0 < x.1
  slots : s.sent.map (fun b => (b.ts, b.seq)) ++ s.inHand ++ s.scheduler.queue = slotPairs s.loaded
  awake : ∀ ts seq, s.phase = .awake ts seq → timestampToTp ts ≤ s.clock
  due : ∀ b ∈ s.sent, timestampToTp b.ts ≤ b.time

variable {s s' : SlotRun} {epochDuration : ℕ}

theorem kept_init : init.Kept :=
  ⟨SlotScheduler.aligned_init, rfl, nofun, rfl, nofun, nofun⟩

/-- A step that moves no slot. -/
theorem Kept.congr (h : s.Kept) (hscheduler : s'.scheduler = s.scheduler)
    (hloaded : s'.loaded = s.loaded) (hsent : s'.sent = s.sent) (hhand : s'.inHand = s.inHand)
    (hawake : ∀ ts seq, s'.phase = .awake ts seq → timestampToTp ts ≤ s'.clock) : s'.Kept := by
  refine ⟨hscheduler ▸ h.aligned, hloaded ▸ h.even, hhand ▸ h.inHand_pos, ?_, hawake,
    hsent ▸ h.due⟩
  rw [hsent, hhand, hscheduler, hloaded]
  exact h.slots

/-- New slots go to the end. -/
theorem Kept.load (h : s.Kept) {values : List ℕ} (hvalid : SlotScheduler.ValidSlots values)
    (hs : s.load values = some s') : s'.Kept := by
  obtain ⟨sch, hsch, haligned, hslots⟩ := h.aligned.loadSlots hvalid
  rw [SlotRun.load, hsch, Option.map_some] at hs
  cases hs
  refine ⟨haligned, ?_, h.inHand_pos, ?_, h.awake, h.due⟩
  · show (s.loaded ++ values).length % 2 = 0
    have heven := h.even
    have hvalues := hvalid.1
    rw [List.length_append]
    omega
  · show s.sent.map _ ++ s.inHand ++ sch.queue = slotPairs (s.loaded ++ values)
    rw [hslots, slotPairs_append h.even, ← List.append_assoc, h.slots]

/-- The first slot is taken out. -/
theorem Kept.pop (h : s.Kept) (hhand : s.inHand = []) {ts seq : ℕ} {sch : SlotScheduler}
    (hpop : s.scheduler.popNextSlot = some ((ts, seq), sch)) :
    ({ s with scheduler := sch, phase := .popped ts seq } : SlotRun).Kept := by
  have hslots := h.slots
  rw [hhand, SlotScheduler.queue_popNextSlot hpop, List.append_nil] at hslots
  obtain ⟨hts, haligned⟩ := h.aligned.popNextSlot hpop
  refine ⟨haligned, h.even, ?_, ?_, nofun, h.due⟩
  · intro x hx
    rw [List.mem_singleton.mp hx]
    exact hts
  · show s.sent.map _ ++ [(ts, seq)] ++ sch.queue = slotPairs s.loaded
    rw [List.append_assoc, List.singleton_append]
    exact hslots

/-- A slot of a later epoch goes back before all others, also those loaded since. -/
theorem Kept.pushBack (h : s.Kept) {ts seq : ℕ} (hhand : s.inHand = [(ts, seq)]) :
    ({ s with scheduler := s.scheduler.pushFront ts seq, phase := .epochWait } : SlotRun).Kept := by
  have hslots := h.slots
  have hts : 0 < ts := h.inHand_pos (ts, seq) (hhand ▸ List.mem_singleton_self _)
  rw [hhand, List.append_assoc, List.singleton_append] at hslots
  refine ⟨h.aligned.pushFront seq hts, h.even, nofun, ?_, nofun, h.due⟩
  show s.sent.map _ ++ [] ++ (s.scheduler.pushFront ts seq).queue = slotPairs s.loaded
  rw [List.append_nil, SlotScheduler.queue_pushFront]
  exact hslots

/-- The slot in hand is sent. -/
theorem Kept.send (h : s.Kept) {ts seq : ℕ} {now : Int64} (hphase : s.phase = .awake ts seq)
    (hclock : s.clock ≤ now) :
    ({ s with clock := now, sent := s.sent ++ [⟨ts, seq, now⟩], phase := .sending } :
      SlotRun).Kept := by
  have hslots := h.slots
  have hhand : s.inHand = [(ts, seq)] := by rw [inHand, hphase]
  have hdue : timestampToTp ts ≤ now := Int64.le_trans (h.awake ts seq hphase) hclock
  refine ⟨h.aligned, h.even, nofun, ?_, nofun, ?_⟩
  · show (s.sent ++ [SentSlot.mk ts seq now]).map _ ++ [] ++ s.scheduler.queue = slotPairs s.loaded
    rw [List.map_append, List.append_nil, List.map_singleton, ← hhand]
    exact hslots
  · intro b hb
    rcases List.mem_append.mp hb with hold | hnew
    · exact h.due b hold
    · rw [List.mem_singleton.mp hnew]
      exact hdue

/-- **One step.** The slots sent, in hand and queued stay in the order in which they were loaded. -/
theorem Kept.step (h : s.Kept) {e : RunEvent} (hallowed : s.Allowed e)
    (hs : s.step epochDuration e = some s') : s'.Kept := by
  cases e with
  | loadSlots values => exact h.load hallowed hs
  | pause =>
    cases hs
    exact h.congr rfl rfl rfl rfl h.awake
  | resume =>
    cases hs
    exact h.congr rfl rfl rfl rfl h.awake
  | stop =>
    cases hs
    exact h.congr rfl rfl rfl rfl h.awake
  | start =>
    simp only [SlotRun.step] at hs
    split at hs <;> cases hs
    rename_i hp
    exact h.congr rfl rfl rfl (by rw [inHand, inHand, hp]) nofun
  | begin now =>
    simp only [SlotRun.step] at hs
    split at hs <;> cases hs
    rename_i hp
    exact h.congr rfl rfl rfl (by rw [inHand, inHand, hp]) nofun
  | checkRunning =>
    simp only [SlotRun.step] at hs
    split at hs <;> cases hs
    rename_i hp
    cases s.running
    · exact h.congr rfl rfl rfl (by rw [inHand, inHand, hp]; rfl) nofun
    · exact h.congr rfl rfl rfl (by rw [inHand, inHand, hp]; rfl) nofun
  | checkPaused =>
    simp only [SlotRun.step] at hs
    split at hs <;> cases hs
    rename_i hp
    cases s.paused
    · exact h.congr rfl rfl rfl (by rw [inHand, inHand, hp]; rfl) nofun
    · exact h.congr rfl rfl rfl (by rw [inHand, inHand, hp]; rfl) nofun
  | onEpochEnd values =>
    simp only [SlotRun.step] at hs
    split at hs
    · rename_i hp
      have hfetching : ({ s with phase := .fetching } : SlotRun).Kept :=
        h.congr rfl rfl rfl (by rw [inHand, inHand, hp]) nofun
      exact hfetching.load hallowed hs
    · cases hs
  | nextBatchInfo =>
    simp only [SlotRun.step] at hs
    split at hs <;> cases hs
    · rename_i hp hpop
      exact h.pop (by rw [inHand, hp]) hpop
    · rename_i hp _
      exact h.congr rfl rfl rfl (by rw [inHand, inHand, hp]) nofun
  | compare =>
    simp only [SlotRun.step] at hs
    split at hs
    · rename_i hp
      split_ifs at hs <;> cases hs
      · exact h.pushBack (by rw [inHand, hp])
      · exact h.congr rfl rfl rfl (by rw [inHand, inHand, hp]) nofun
    · cases hs
  | wake now =>
    simp only [SlotRun.step] at hs
    split at hs
    · rename_i hp
      split_ifs at hs with hdue
      cases hs
      refine h.congr rfl rfl rfl (by rw [inHand, inHand, hp]) fun ts seq heq => ?_
      cases heq
      exact hdue
    · cases hs
  | onSendBatch now =>
    simp only [SlotRun.step] at hs
    split at hs <;> cases hs
    rename_i hp
    exact h.send hp hallowed
  | batchDone =>
    simp only [SlotRun.step] at hs
    split at hs <;> cases hs
    rename_i hp
    exact h.congr rfl rfl rfl (by rw [inHand, inHand, hp]) nofun
  | endEpoch now =>
    simp only [SlotRun.step] at hs
    split at hs
    · rename_i hp
      split_ifs at hs
      cases hs
      exact h.congr rfl rfl rfl (by rw [inHand, inHand, hp]) nofun
    · cases hs

end SlotRun

/-- The scheduler of a proxy with its timer thread and the threads that load slots. -/
def slotRun (epochDuration : ℕ) : Lts SlotRun RunEvent := ⟨.init, SlotRun.step epochDuration⟩

namespace SlotRun

variable {s : SlotRun} {epochDuration : ℕ}

/-- **Invariant.** -/
theorem reach_kept (h : (slotRun epochDuration).ReachVia Allowed s) : s.Kept :=
  h.invariant Kept kept_init fun _ _ _ _ hk hallowed hs => hk.step hallowed hs

/-- **Every slot is used once, in order and not early.** In every run the numbers sent, the one in
hand and the queued ones are the loaded numbers in the order of loading, each with the send time it
was loaded with; no batch with a timestamp of `system_clock` is sent before it; the two queues
match, the cached time is the first one, and no load fails. -/
theorem slots_used_once (h : (slotRun epochDuration).ReachVia Allowed s) :
    s.sent.map SentSlot.seq ++ s.inHand.map Prod.snd ++ s.scheduler.sequences =
        numbersOf s.loaded ∧
      s.sent.map (fun b => (b.ts, b.seq)) ++ s.inHand ++ s.scheduler.queue =
        slotPairs s.loaded ∧
      (∀ b ∈ s.sent, b.ts ≤ maxTimestamp → (b.ts : ℤ) * 1000 ≤ b.time.toInt) ∧
      s.scheduler.timeouts.length = s.scheduler.sequences.length ∧
      s.scheduler.nextSend = s.scheduler.timeouts.headD 0 ∧
      (s.scheduler.nextSend = 0 ↔ s.scheduler.timeouts = []) ∧
      ∀ values, SlotScheduler.ValidSlots values → (s.scheduler.loadSlots values).isSome := by
  have hk := reach_kept h
  refine ⟨?_, hk.slots, fun b hb hts => ?_, hk.aligned.length, hk.aligned.nextSend,
    hk.aligned.nextSend_eq_zero_iff, fun values hvalid => ?_⟩
  · rw [numbersOf, ← hk.slots, List.map_append, List.map_append, List.map_map,
      SlotScheduler.map_snd_queue hk.aligned.length]
    rfl
  · rw [← toInt_timestampToTp hts]
    exact Int64.le_iff_toInt_le.mp (hk.due b hb)
  · obtain ⟨sch, hsch, -⟩ := hk.aligned.loadSlots hvalid
    rw [hsch]
    rfl

/-- A slot is loaded while an earlier one is in hand, which then goes back to the front. -/
def laterSlot : List RunEvent :=
  [.start, .begin 0, .checkRunning, .checkPaused, .onEpochEnd [5, 1, 2000000, 2],
    .nextBatchInfo, .compare, .wake 6000, .onSendBatch 7000, .batchDone, .nextBatchInfo,
    .loadSlots [2000001, 3], .compare]

theorem slots_used_once_laterSlot : ∃ s, (slotRun 1000000).ReachVia Allowed s ∧
    s.scheduler.sequences = [2, 3] ∧
    s.sent.map SentSlot.seq ++ s.inHand.map Prod.snd ++ s.scheduler.sequences =
      numbersOf s.loaded := by
  have hrun : ((slotRun 1000000).runVia (fun s e => decide (s.Allowed e)) laterSlot .init).any
      (fun s => decide (s.scheduler.sequences = [2, 3])) = true := by
    decide +kernel
  obtain ⟨s, hreach, hs⟩ := (slotRun 1000000).exists_reachVia_of_run
    (fun s e => of_decide_eq_true) hrun
  exact ⟨s, hreach, of_decide_eq_true hs, (slots_used_once hreach).1⟩

/-- A slot with the largest timestamp of all. -/
def wrappedSlot : List RunEvent :=
  [.start, .begin 0, .checkRunning, .checkPaused, .onEpochEnd [2 ^ 64 - 1, 1], .nextBatchInfo,
    .compare, .wake 0, .onSendBatch 0]

/-- The largest timestamp becomes a time before the epoch of `system_clock`. -/
theorem not_slots_used_once : ¬ ∀ (epochDuration : ℕ) (s : SlotRun),
    (slotRun epochDuration).ReachVia Allowed s →
      ∀ b ∈ s.sent, (b.ts : ℤ) * 1000 ≤ b.time.toInt := by
  intro hall
  have hrun : ((slotRun 1000000).runVia (fun s e => decide (s.Allowed e)) wrappedSlot .init).any
      (fun s => decide (s.sent = [⟨2 ^ 64 - 1, 1, 0⟩])) = true := by
    decide +kernel
  obtain ⟨s, hreach, hs⟩ := (slotRun 1000000).exists_reachVia_of_run
    (fun s e => of_decide_eq_true) hrun
  have hsent : s.sent = [⟨2 ^ 64 - 1, 1, 0⟩] := of_decide_eq_true hs
  have hle := hall 1000000 s hreach ⟨2 ^ 64 - 1, 1, 0⟩ (hsent ▸ List.mem_singleton_self _)
  revert hle
  decide

end SlotRun

end Ziplog
