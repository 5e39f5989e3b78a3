import Mathlib.Data.List.Range
import Ziplog.Proxy.SlotScheduler

/-!
# The timer thread of a proxy

The loop of `ProxyEpochTimer::run` with the callbacks of the proxy: at the start of an epoch the
proxy assigns itself one slot, numbered by its own counter; then slots are popped, pushed back when
they lie beyond the end of the epoch, and otherwise sent when they are due. The clock values are
part of the events. `outstanding` are the numbers assigned and not sent, and every step of the
thread before the send keeps them in order (`outstanding_step`).
-/

namespace Ziplog

/-- Where the thread is. In `replicating` it is inside `replicate_bytes`. -/
inductive TimerPhase
  | stopped
  | epochStart
  | fetching
  | popped (batchTs batchSeq : ℕ)
  | due (batchTs batchSeq : ℕ)
  | sending (batchSeq : ℕ)
  | replicating
  | epochWait
  deriving DecidableEq

structure EpochTimer where
  scheduler : SlotScheduler
  nextSeq : ℕ
  epochEnd : ℕ
  phase : TimerPhase

inductive TimerEvent
  | start (now : ℕ)
  | updateSlotEstimate (now : ℕ)
  | nextBatchInfo
  | compare
  | wake (now : ℕ)
  | endEpoch
  deriving DecidableEq

namespace EpochTimer

/-- The slots a proxy assigns itself in an epoch. -/
def estimate : ℕ := 1

def init : EpochTimer := ⟨.init, 1, 0, .stopped⟩

/-- Send times and numbers of the slots of one epoch. -/
def slotValues (t : EpochTimer) (epochDuration now : ℕ) : List ℕ :=
  (List.range estimate).flatMap fun i =>
    [now + epochDuration / estimate * (i + 1), t.nextSeq + i]

def updateSlotEstimate (t : EpochTimer) (epochDuration now : ℕ) : Option EpochTimer :=
  (t.scheduler.loadSlots (t.slotValues epochDuration now)).map fun sch =>
    { t with scheduler := sch, nextSeq := t.nextSeq + estimate, phase := .fetching }

def step (t : EpochTimer) (epochDuration : ℕ) : TimerEvent → Option EpochTimer
  | .start now =>
    match t.phase with
    | .stopped => some { t with epochEnd := now + epochDuration, phase := .epochStart }
    | _ => none
  | .updateSlotEstimate now =>
    match t.phase with
    | .epochStart => t.updateSlotEstimate epochDuration now
    | _ => none
  | .nextBatchInfo =>
    match t.phase, t.scheduler.popNextSlot with
    | .fetching, some ((batchTs, batchSeq), sch) =>
      some { t with scheduler := sch, phase := .popped batchTs batchSeq }
    | .fetching, none => some { t with phase := .epochWait }
    | _, _ => none
  | .compare =>
    match t.phase with
    | .popped batchTs batchSeq =>
      if t.epochEnd < batchTs then
        -- the slot belongs to a later epoch
        some { t with scheduler := t.scheduler.pushFront batchTs batchSeq, phase := .epochWait }
      else some { t with phase := .due batchTs batchSeq }
    | _ => none
  | .wake now =>
    match t.phase with
    | .due batchTs batchSeq =>
      if now < batchTs then none else some { t with phase := .sending batchSeq }
    | _ => none
  | .endEpoch =>
    match t.phase with
    | .epochWait => some { t with epochEnd := t.epochEnd + epochDuration, phase := .epochStart }
    | _ => none

/-- The numbers assigned and not handed to `replicate_bytes`, in order. -/
def outstanding (t : EpochTimer) : List ℕ :=
  match t.phase with
  | .popped _ batchSeq => batchSeq :: t.scheduler.sequences
  | .due _ batchSeq => batchSeq :: t.scheduler.sequences
  | .sending batchSeq => batchSeq :: t.scheduler.sequences
  | _ => t.scheduler.sequences

/-- **One step.** The outstanding numbers stay, and the newly assigned ones follow them. -/
theorem outstanding_step {t t' : EpochTimer} {epochDuration : ℕ} {e : TimerEvent}
    (h : t.step epochDuration e = some t') :
    ∃ k, t'.nextSeq = t.nextSeq + k ∧
      t'.outstanding = t.outstanding ++ List.range' t.nextSeq k := by
  cases e with
  | start now =>
    rcases hp : t.phase with _ | _ | _ | ⟨ts, q⟩ | ⟨ts, q⟩ | q | _ | _ <;>
      simp only [step, hp] at h <;> cases h
    exact ⟨0, rfl, by simp [outstanding, hp]⟩
  | updateSlotEstimate now =>
    rcases hp : t.phase with _ | _ | _ | ⟨ts, q⟩ | ⟨ts, q⟩ | q | _ | _ <;>
      simp only [step, hp] at h <;> try cases h
    obtain ⟨sch, hsch, rfl⟩ := Option.map_eq_some_iff.mp h
    refine ⟨1, rfl, ?_⟩
    have hseq := SlotScheduler.sequences_loadSlots hsch
    have hvalues : t.slotValues epochDuration now = [now + epochDuration / 1 * 1, t.nextSeq] := rfl
    rw [hvalues, SlotScheduler.sequences_pushValues_pair] at hseq
    simp only [outstanding, hp, hseq, List.range'_one]
  | nextBatchInfo =>
    rcases hp : t.phase with _ | _ | _ | ⟨ts, q⟩ | ⟨ts, q⟩ | q | _ | _ <;>
      rcases hs : t.scheduler.popNextSlot with _ | ⟨⟨ts', q'⟩, sch⟩ <;>
      simp only [step, hp, hs] at h <;> cases h
    · exact ⟨0, rfl, by simp [outstanding, hp]⟩
    · have hseq := SlotScheduler.sequences_popNextSlot hs
      exact ⟨0, rfl, by simp [outstanding, hp, hseq]⟩
  | compare =>
    rcases hp : t.phase with _ | _ | _ | ⟨ts, q⟩ | ⟨ts, q⟩ | q | _ | _ <;>
      simp only [step, hp] at h <;> try cases h
    split_ifs at h <;> cases h
    · exact ⟨0, rfl, by simp [outstanding, hp, SlotScheduler.pushFront]⟩
    · exact ⟨0, rfl, by simp [outstanding, hp]⟩
  | wake now =>
    rcases hp : t.phase with _ | _ | _ | ⟨ts, q⟩ | ⟨ts, q⟩ | q | _ | _ <;>
      simp only [step, hp] at h <;> try cases h
    split_ifs at h
    cases h
    exact ⟨0, rfl, by simp [outstanding, hp]⟩
  | endEpoch =>
    rcases hp : t.phase with _ | _ | _ | ⟨ts, q⟩ | ⟨ts, q⟩ | q | _ | _ <;>
      simp only [step, hp] at h <;> cases h
    exact ⟨0, rfl, by simp [outstanding, hp]⟩

/-! ## The slots of an epoch -/

/-- The slots can be popped. -/
structure Ready (t : EpochTimer) : Prop where
  aligned : t.scheduler.Aligned
  popped : ∀ ts seq, t.phase = .popped ts seq → 0 < ts

variable {t t' : EpochTimer} {epochDuration : ℕ}

theorem ready_init : init.Ready := ⟨SlotScheduler.aligned_init, by rintro _ _ ⟨⟩⟩

/-- Another place of the thread, which holds no slot there. -/
theorem Ready.setPhase (h : t.Ready) {phase : TimerPhase} (epochEnd : ℕ)
    (hphase : ∀ ts seq, phase ≠ .popped ts seq) :
    ({ t with epochEnd := epochEnd, phase := phase } : EpochTimer).Ready :=
  ⟨h.aligned, fun ts seq heq => absurd heq (hphase ts seq)⟩

/-- At the start of an epoch a slot is assigned. -/
theorem Ready.exists_updateSlotEstimate (h : t.Ready) (hpos : 0 < epochDuration) (now : ℕ) :
    ∃ t', t.updateSlotEstimate epochDuration now = some t' ∧ t'.Ready ∧ t'.phase = .fetching ∧
      t'.scheduler.timeouts ≠ [] := by
  have hts : 0 < now + epochDuration / 1 * 1 := by omega
  obtain ⟨sch, hsch, haligned, hne⟩ := h.aligned.exists_loadSlots t.nextSeq hts
  have hload : t.scheduler.loadSlots (t.slotValues epochDuration now) = some sch := hsch
  unfold updateSlotEstimate
  rw [hload]
  exact ⟨_, rfl, ⟨haligned, by rintro _ _ ⟨⟩⟩, rfl, hne⟩

theorem Ready.step (h : t.Ready) (hpos : 0 < epochDuration) {e : TimerEvent}
    (hs : t.step epochDuration e = some t') : t'.Ready := by
  cases e with
  | start now =>
    rcases hp : t.phase with _ | _ | _ | ⟨ts, q⟩ | ⟨ts, q⟩ | q | _ | _ <;>
      simp only [EpochTimer.step, hp] at hs <;> cases hs
    exact h.setPhase _ (by rintro _ _ ⟨⟩)
  | updateSlotEstimate now =>
    rcases hp : t.phase with _ | _ | _ | ⟨ts, q⟩ | ⟨ts, q⟩ | q | _ | _ <;>
      simp only [EpochTimer.step, hp] at hs <;> try cases hs
    obtain ⟨t'', ht'', hready, -⟩ := h.exists_updateSlotEstimate hpos now
    cases ht''.symm.trans hs
    exact hready
  | nextBatchInfo =>
    rcases hp : t.phase with _ | _ | _ | ⟨ts, q⟩ | ⟨ts, q⟩ | q | _ | _ <;>
      rcases hslot : t.scheduler.popNextSlot with _ | ⟨⟨ts', q'⟩, sch⟩ <;>
      simp only [EpochTimer.step, hp, hslot] at hs <;> cases hs
    · exact h.setPhase _ (by rintro _ _ ⟨⟩)
    · obtain ⟨hts, haligned⟩ := h.aligned.popNextSlot hslot
      refine ⟨haligned, fun ts seq heq => ?_⟩
      cases heq
      exact hts
  | compare =>
    rcases hp : t.phase with _ | _ | _ | ⟨ts, q⟩ | ⟨ts, q⟩ | q | _ | _ <;>
      simp only [EpochTimer.step, hp] at hs <;> try cases hs
    split_ifs at hs <;> cases hs
    · exact ⟨h.aligned.pushFront q (h.popped ts q hp), by rintro _ _ ⟨⟩⟩
    · exact h.setPhase _ (by rintro _ _ ⟨⟩)
  | wake now =>
    rcases hp : t.phase with _ | _ | _ | ⟨ts, q⟩ | ⟨ts, q⟩ | q | _ | _ <;>
      simp only [EpochTimer.step, hp] at hs <;> try cases hs
    split_ifs at hs
    cases hs
    exact h.setPhase _ (by rintro _ _ ⟨⟩)
  | endEpoch =>
    rcases hp : t.phase with _ | _ | _ | ⟨ts, q⟩ | ⟨ts, q⟩ | q | _ | _ <;>
      simp only [EpochTimer.step, hp] at hs <;> cases hs
    exact h.setPhase _ (by rintro _ _ ⟨⟩)

end EpochTimer

end Ziplog
