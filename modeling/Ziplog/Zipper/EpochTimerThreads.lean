import Ziplog.Library.CondVar
import Ziplog.Zipper.SlotClock

/-!
# The threads of the epoch timer

The timer thread of the zipper, its worker and the thread that calls `stop`, with the mutex and the
one condition variable that all three use. The timer sleeps in `wait_until` up to three quarters of
the epoch and up to its end; after each it sets a flag and calls `notify_one`. The worker sleeps in
`wait` until a flag is set. `stop` clears `running_`, calls `notify_all` and joins both threads.

Each event is what one thread does between two points where others can come in: taking the mutex up
to giving it back, or one access outside. The worker does not sleep through a flag (`Attentive`):
`notify_one` can only reach the worker, as the timer is awake when it calls it. And the timer does
not run ahead of the clock (`OnTime`), which may go on by any amount at any time.

Points of time are numbers of microseconds.
-/

namespace Ziplog

/-- The threads that use the condition variable. -/
inductive EpochThread
  | timer
  | worker
  deriving DecidableEq

/-- What the timer waits for: the time to allocate, or the end of the epoch. -/
inductive EpochPart
  | allocation
  | epochEnd
  deriving DecidableEq

/-- Where the timer thread is in `run`. A `wait_until` that has timed out is `expired`, and behind
its return `running_` is `tested`. -/
inductive TimerPoint
  | loop
  | entering (part : EpochPart)
  | waiting (part : EpochPart)
  | expired (part : EpochPart)
  | tested (part : EpochPart)
  | request (part : EpochPart)
  | notify (part : EpochPart)
  | advance
  | ended
  deriving DecidableEq

/-- Where the worker is in `work_loop`. -/
inductive WorkerPoint
  | loop
  | entering
  | waiting
  | allocating
  | computing (nextEpoch : ℕ)
  | endingEpoch
  | ended
  deriving DecidableEq

/-- Where the thread in `stop` is. -/
inductive StopPoint
  | idle
  | notifying
  | joiningTimer
  | joiningWorker
  | stopped
  deriving DecidableEq

/-- The timer, what its callbacks work on, and the clock. Recorded is the number of callbacks that
have begun. -/
structure ZipperEpochTimer where
  running : Bool
  allocatePending : Bool
  epochEndPending : Bool
  cv : CondVar EpochThread Unit
  nextEpoch : ℕ
  now : ℕ
  /-- `epoch_startup_tp`. -/
  startup : ℕ
  timer : TimerPoint
  worker : WorkerPoint
  stopper : StopPoint
  allocator : SlotAllocator
  registry : ProxyRegistry
  /-- What the calls of `compute_allocations` returned. -/
  returned : List Allocations
  begun : ℕ

inductive EpochEvent
  | tick (elapsed : ℕ)
  /-- A step of the timer thread outside its waits. -/
  | timer
  /-- The timer thread calls `notify_one`, which wakes `notified`. -/
  | notify (notified : Option EpochThread)
  | expire
  /-- A step of the worker outside its wait. -/
  | worker
  /-- A woken thread has the mutex again. -/
  | resume (thread : EpochThread)
  /-- A thread leaves its wait without being notified. -/
  | wakeUp (thread : EpochThread)
  | stop
  | updateEstimate (proxyId numRequests : ℕ)
  | changeRegistry (registry : ProxyRegistry)

/-- The timer thread is in one of its waits. -/
def TimerPoint.waits : TimerPoint → Bool
  | .waiting _ | .expired _ => true
  | .loop | .entering _ | .tested _ | .request _ | .notify _ | .advance | .ended => false

/-- The timer thread has set a flag and not yet called `notify_one`. -/
def TimerPoint.notifies : TimerPoint → Bool
  | .notify _ => true
  | .loop | .entering _ | .waiting _ | .expired _ | .tested _ | .request _ | .advance | .ended =>
    false

/-- When the wait ends, counted from the start of the epoch. -/
def EpochPart.offset (epochDuration : ℕ) : EpochPart → ℕ
  | .allocation => epochDuration * 3 % 2 ^ 64 / 4
  | .epochEnd => epochDuration

/-- The part of the epoch that has passed when the timer thread is there. -/
def TimerPoint.due (epochDuration : ℕ) : TimerPoint → ℕ
  | .expired part | .request part | .notify part => part.offset epochDuration
  | .advance => epochDuration
  | .loop | .entering _ | .waiting _ | .tested _ | .ended => 0

/-- Behind the call of `notify_one`. -/
def EpochPart.next : EpochPart → TimerPoint
  | .allocation => .entering .epochEnd
  | .epochEnd => .advance

namespace ZipperEpochTimer

/-- After `start` and the first lines of `run`. -/
def init (epochDuration now : ℕ) (startingSeq : UInt64) (registry : ProxyRegistry) :
    ZipperEpochTimer where
  running := true
  allocatePending := false
  epochEndPending := false
  cv := .empty
  nextEpoch := (now + epochDuration) % 2 ^ 64
  now := now
  startup := now
  timer := .loop
  worker := .loop
  stopper := .idle
  allocator := .init startingSeq
  registry := registry
  returned := []
  begun := 0

/-- The timer thread has the mutex in `wait_until` and tests the predicate. -/
def timerTurn (t : ZipperEpochTimer) (part : EpochPart) : ZipperEpochTimer :=
  if t.running then { t with timer := .waiting part, cv := t.cv.wait .timer () }
  else { t with timer := .tested part }

/-- The worker has the mutex in `wait` and tests the predicate; behind the `wait` it keeps the mutex
until it has looked at all three variables. -/
def workerTurn (t : ZipperEpochTimer) : ZipperEpochTimer :=
  if t.running = false then { t with worker := .ended }
  else if t.allocatePending then
    { t with worker := .allocating, allocatePending := false, begun := t.begun + 1 }
  else if t.epochEndPending then
    { t with worker := .endingEpoch, epochEndPending := false, begun := t.begun + 1 }
  else { t with worker := .waiting, cv := t.cv.wait .worker () }

/-- The timer thread, where it neither waits nor notifies. -/
def timerStep (epochDuration : ℕ) (t : ZipperEpochTimer) : Option ZipperEpochTimer :=
  match t.timer with
  | .loop => some { t with timer := if t.running then .entering .allocation else .ended }
  | .entering part => some (t.timerTurn part)
  | .tested part => some { t with timer := if t.running then .request part else .ended }
  | .request .allocation => some { t with timer := .notify .allocation, allocatePending := true }
  | .request .epochEnd => some { t with timer := .notify .epochEnd, epochEndPending := true }
  | .advance =>
    some { t with
      timer := .loop
      startup := t.startup + epochDuration
      nextEpoch := (t.nextEpoch + epochDuration) % 2 ^ 64 }
  | .waiting _ | .expired _ | .notify _ | .ended => none

/-- The worker, where it does not wait. -/
def workerStep (epochDuration : ℕ) (t : ZipperEpochTimer) : Option ZipperEpochTimer :=
  match t.worker with
  | .loop => some { t with worker := if t.running then .entering else .ended }
  | .entering => some t.workerTurn
  | .allocating => some { t with worker := .computing t.nextEpoch }
  | .computing nextEpoch =>
    (t.allocator.computeAllocations exactDoubles t.registry nextEpoch epochDuration).map fun r =>
      { t with
        worker := .loop
        allocator := r.allocator
        registry := r.registry
        returned := t.returned ++ [r.result] }
  | .endingEpoch => some { t with worker := .loop }
  | .waiting | .ended => none

/-- A thread that was in its wait goes on with the mutex. -/
def resumed (t : ZipperEpochTimer) : EpochThread → Option ZipperEpochTimer
  | .timer =>
    match t.timer with
    | .waiting part => some (t.timerTurn part)
    | .expired part => some { t with timer := .tested part }
    | .loop | .entering _ | .tested _ | .request _ | .notify _ | .advance | .ended => none
  | .worker => some t.workerTurn

/-- `stop`. -/
def stopStep (t : ZipperEpochTimer) : Option ZipperEpochTimer :=
  match t.stopper with
  | .idle => some { t with stopper := .notifying, running := false }
  | .notifying => some { t with stopper := .joiningTimer, cv := t.cv.notifyAll }
  | .joiningTimer => if t.timer = .ended then some { t with stopper := .joiningWorker } else none
  | .joiningWorker => if t.worker = .ended then some { t with stopper := .stopped } else none
  | .stopped => none

def step (epochDuration : ℕ) (t : ZipperEpochTimer) : EpochEvent → Option ZipperEpochTimer
  | .tick elapsed => some { t with now := t.now + elapsed }
  | .timer => t.timerStep epochDuration
  | .notify notified =>
    match t.timer with
    | .notify part =>
      (t.cv.notifyOne notified).map fun cv => { t with timer := part.next, cv := cv }
    | _ => none
  | .expire =>
    match t.timer with
    | .waiting part =>
      if t.startup + part.offset epochDuration ≤ t.now then
        (t.cv.wake .timer).map fun cv => { t with timer := .expired part, cv := cv }
      else none
    | _ => none
  | .worker => t.workerStep epochDuration
  | .resume thread => (t.cv.resume thread).bind fun (_, cv) => { t with cv := cv }.resumed thread
  | .wakeUp thread => (t.cv.wake thread).map fun cv => { t with cv := cv }
  | .stop => t.stopStep
  | .updateEstimate proxyId numRequests =>
    some { t with allocator := t.allocator.updateEstimate proxyId numRequests }
  | .changeRegistry registry => some { t with registry := registry }

end ZipperEpochTimer

def zipperEpochTimer (epochDuration now : ℕ) (startingSeq : UInt64) (registry : ProxyRegistry) :
    Lts ZipperEpochTimer EpochEvent :=
  ⟨.init epochDuration now startingSeq registry, ZipperEpochTimer.step epochDuration⟩

namespace ZipperEpochTimer

variable {epochDuration : ℕ} {t u : ZipperEpochTimer}

/-! ## The steps -/

/-- What each step does. -/
inductive Effect (epochDuration : ℕ) (t : ZipperEpochTimer) : EpochEvent → ZipperEpochTimer → Prop
  | tick {elapsed : ℕ} : Effect epochDuration t (.tick elapsed) { t with now := t.now + elapsed }
  | timerLoop (hat : t.timer = .loop) : Effect epochDuration t .timer
      { t with timer := if t.running then .entering .allocation else .ended }
  | timerEnter {part : EpochPart} (hat : t.timer = .entering part) :
      Effect epochDuration t .timer (t.timerTurn part)
  | timerTest {part : EpochPart} (hat : t.timer = .tested part) : Effect epochDuration t .timer
      { t with timer := if t.running then .request part else .ended }
  | requestAllocation (hat : t.timer = .request .allocation) : Effect epochDuration t .timer
      { t with timer := .notify .allocation, allocatePending := true }
  | requestEpochEnd (hat : t.timer = .request .epochEnd) : Effect epochDuration t .timer
      { t with timer := .notify .epochEnd, epochEndPending := true }
  | advance (hat : t.timer = .advance) : Effect epochDuration t .timer { t with
      timer := .loop
      startup := t.startup + epochDuration
      nextEpoch := (t.nextEpoch + epochDuration) % 2 ^ 64 }
  | notify {notified : Option EpochThread} {part : EpochPart} {cv : CondVar EpochThread Unit}
      (hat : t.timer = .notify part) (hcv : t.cv.notifyOne notified = some cv) :
      Effect epochDuration t (.notify notified) { t with timer := part.next, cv := cv }
  | expire {part : EpochPart} {cv : CondVar EpochThread Unit} (hat : t.timer = .waiting part)
      (hdue : t.startup + part.offset epochDuration ≤ t.now) (hcv : t.cv.wake .timer = some cv) :
      Effect epochDuration t .expire { t with timer := .expired part, cv := cv }
  | timerResume {part : EpochPart} {cv : CondVar EpochThread Unit} (hat : t.timer = .waiting part)
      (hcv : t.cv.resume .timer = some ((), cv)) :
      Effect epochDuration t (.resume .timer) ({ t with cv := cv }.timerTurn part)
  | timerExpired {part : EpochPart} {cv : CondVar EpochThread Unit} (hat : t.timer = .expired part)
      (hcv : t.cv.resume .timer = some ((), cv)) :
      Effect epochDuration t (.resume .timer) { t with timer := .tested part, cv := cv }
  | workerLoop (hat : t.worker = .loop) : Effect epochDuration t .worker
      { t with worker := if t.running then .entering else .ended }
  | workerEnter (hat : t.worker = .entering) : Effect epochDuration t .worker t.workerTurn
  | workerResume {cv : CondVar EpochThread Unit} (hcv : t.cv.resume .worker = some ((), cv)) :
      Effect epochDuration t (.resume .worker) { t with cv := cv }.workerTurn
  | read (hat : t.worker = .allocating) : Effect epochDuration t .worker
      { t with worker := .computing t.nextEpoch }
  | compute {n : ℕ} {r : Recording} (hat : t.worker = .computing n)
      (hcall : t.allocator.computeAllocations exactDoubles t.registry n epochDuration = some r) :
      Effect epochDuration t .worker { t with
        worker := .loop
        allocator := r.allocator
        registry := r.registry
        returned := t.returned ++ [r.result] }
  | finishEpochEnd (hat : t.worker = .endingEpoch) : Effect epochDuration t .worker
      { t with worker := .loop }
  | wakeUp {thread : EpochThread} {cv : CondVar EpochThread Unit}
      (hcv : t.cv.wake thread = some cv) :
      Effect epochDuration t (.wakeUp thread) { t with cv := cv }
  | stop (hat : t.stopper = .idle) : Effect epochDuration t .stop
      { t with stopper := .notifying, running := false }
  | stopNotify (hat : t.stopper = .notifying) : Effect epochDuration t .stop
      { t with stopper := .joiningTimer, cv := t.cv.notifyAll }
  | joinTimer (hat : t.stopper = .joiningTimer) (hended : t.timer = .ended) :
      Effect epochDuration t .stop { t with stopper := .joiningWorker }
  | joinWorker (hat : t.stopper = .joiningWorker) (hended : t.worker = .ended) :
      Effect epochDuration t .stop { t with stopper := .stopped }
  | updateEstimate {proxyId numRequests : ℕ} :
      Effect epochDuration t (.updateEstimate proxyId numRequests)
        { t with allocator := t.allocator.updateEstimate proxyId numRequests }
  | changeRegistry {registry : ProxyRegistry} :
      Effect epochDuration t (.changeRegistry registry) { t with registry := registry }

theorem effect_of_timerStep (hs : t.timerStep epochDuration = some u) :
    Effect epochDuration t .timer u := by
  unfold timerStep at hs
  split at hs <;> cases hs <;> rename_i hat
  · exact .timerLoop hat
  · exact .timerEnter hat
  · exact .timerTest hat
  · exact .requestAllocation hat
  · exact .requestEpochEnd hat
  · exact .advance hat

theorem effect_of_workerStep (hs : t.workerStep epochDuration = some u) :
    Effect epochDuration t .worker u := by
  unfold workerStep at hs
  split at hs <;> rename_i hat
  · cases hs
    exact .workerLoop hat
  · cases hs
    exact .workerEnter hat
  · cases hs
    exact .read hat
  · obtain ⟨r, hr, rfl⟩ := Option.map_eq_some_iff.mp hs
    exact .compute hat hr
  · cases hs
    exact .finishEpochEnd hat
  · cases hs
  · cases hs

theorem effect_of_stopStep (hs : t.stopStep = some u) : Effect epochDuration t .stop u := by
  unfold stopStep at hs
  split at hs <;> rename_i hat
  · cases hs
    exact .stop hat
  · cases hs
    exact .stopNotify hat
  · split_ifs at hs with hended
    cases hs
    exact .joinTimer hat hended
  · split_ifs at hs with hended
    cases hs
    exact .joinWorker hat hended
  · cases hs

theorem effect_of_step {e : EpochEvent} (hs : t.step epochDuration e = some u) :
    Effect epochDuration t e u := by
  cases e with
  | tick elapsed =>
    cases hs
    exact .tick
  | timer => exact effect_of_timerStep hs
  | notify notified =>
    simp only [step] at hs
    split at hs
    · rename_i hat
      obtain ⟨cv, hcv, rfl⟩ := Option.map_eq_some_iff.mp hs
      exact .notify hat hcv
    · cases hs
  | expire =>
    simp only [step] at hs
    split at hs
    · rename_i hat
      split_ifs at hs with hdue
      obtain ⟨cv, hcv, rfl⟩ := Option.map_eq_some_iff.mp hs
      exact .expire hat hdue hcv
    · cases hs
  | worker => exact effect_of_workerStep hs
  | resume thread =>
    obtain ⟨⟨x, cv⟩, hcv, hs⟩ := Option.bind_eq_some_iff.mp hs
    cases thread with
    | timer =>
      simp only [resumed] at hs
      split at hs <;> cases hs <;> rename_i hat
      · exact .timerResume hat hcv
      · exact .timerExpired hat hcv
    | worker =>
      cases hs
      exact .workerResume hcv
  | wakeUp thread =>
    obtain ⟨cv, hcv, rfl⟩ := Option.map_eq_some_iff.mp hs
    exact .wakeUp hcv
  | stop => exact effect_of_stopStep hs
  | updateEstimate proxyId numRequests =>
    cases hs
    exact .updateEstimate
  | changeRegistry registry =>
    cases hs
    exact .changeRegistry

/-! ## Who is in a wait -/

/-- The two threads are in `cv_` where their program has them, and a `wait_until` that has timed
out does not sleep. -/
structure Waits (t : ZipperEpochTimer) : Prop where
  distinct : t.cv.Distinct
  timer : t.cv.Waiting .timer ↔ t.timer.waits = true
  worker : t.cv.Waiting .worker ↔ t.worker = .waiting
  expired : ∀ part, t.timer = .expired part → EpochThread.timer ∉ t.cv.asleep.map Prod.fst

theorem waits_init (now : ℕ) (startingSeq : UInt64) (registry : ProxyRegistry) :
    (init epochDuration now startingSeq registry).Waits where
  distinct := List.nodup_nil
  timer := by simp [init, CondVar.Waiting, CondVar.empty, TimerPoint.waits]
  worker := by simp [init, CondVar.Waiting, CondVar.empty]
  expired := nofun

/-- A step outside the waits. -/
theorem Waits.congr (h : t.Waits) (hcv : u.cv = t.cv) (htimer : u.timer.waits = t.timer.waits)
    (hworker : u.worker = .waiting ↔ t.worker = .waiting)
    (hexpired : ∀ part, u.timer = .expired part → t.timer = .expired part) : u.Waits where
  distinct := hcv ▸ h.distinct
  timer := by rw [hcv, htimer]; exact h.timer
  worker := by rw [hcv, hworker]; exact h.worker
  expired := by
    intro part hpart
    rw [hcv]
    exact h.expired part (hexpired part hpart)

/-- The timer thread tests the predicate of its wait with the mutex. -/
theorem waits_timerTurn {cv : CondVar EpochThread Unit} (hdistinct : cv.Distinct)
    (htimer : ¬ cv.Waiting .timer) (hworker : cv.Waiting .worker ↔ t.worker = .waiting)
    (part : EpochPart) : ({ t with cv := cv }.timerTurn part).Waits := by
  unfold ZipperEpochTimer.timerTurn
  split_ifs
  · refine ⟨hdistinct.wait htimer (), ?_, ?_, nofun⟩
    · simp [CondVar.waiting_wait, TimerPoint.waits]
    · rw [CondVar.waiting_wait, hworker]
      simp
  · exact ⟨hdistinct, by simp [TimerPoint.waits, htimer], hworker, nofun⟩

/-- The worker tests the predicate of its wait with the mutex. -/
theorem Waits.workerTurn (h : t.Waits) {cv : CondVar EpochThread Unit} (hdistinct : cv.Distinct)
    (htimer : cv.Waiting .timer ↔ t.timer.waits = true) (hworker : ¬ cv.Waiting .worker)
    (hasleep : cv.asleep = t.cv.asleep) : ({ t with cv := cv }.workerTurn).Waits := by
  have hexpired : ∀ part, t.timer = .expired part →
      EpochThread.timer ∉ cv.asleep.map Prod.fst := by
    rw [hasleep]
    exact h.expired
  unfold ZipperEpochTimer.workerTurn
  split_ifs
  · exact ⟨hdistinct, htimer, by simp [hworker], hexpired⟩
  · exact ⟨hdistinct, htimer, by simp [hworker], hexpired⟩
  · exact ⟨hdistinct, htimer, by simp [hworker], hexpired⟩
  · refine ⟨hdistinct.wait hworker (), ?_, ?_, fun part hpart => ?_⟩
    · rw [CondVar.waiting_wait, htimer]
      simp
    · simp [CondVar.waiting_wait]
    · have hold := hexpired part hpart
      simpa [CondVar.wait] using hold

/-- **One step.** -/
theorem Waits.step (h : t.Waits) {e : EpochEvent} (hs : t.step epochDuration e = some u) :
    u.Waits := by
  cases effect_of_step hs with
  | tick | updateEstimate | changeRegistry | stop | joinTimer | joinWorker =>
    exact h.congr rfl rfl Iff.rfl fun _ => id
  | timerLoop hat | timerTest hat =>
    refine h.congr rfl ?_ Iff.rfl fun part hpart => ?_
    · simp only [hat]
      split_ifs <;> rfl
    · dsimp only at hpart
      split_ifs at hpart
  | requestAllocation hat | requestEpochEnd hat | advance hat =>
    exact h.congr rfl (by rw [hat]; rfl) Iff.rfl nofun
  | timerEnter hat =>
    exact @waits_timerTurn t t.cv h.distinct (by rw [h.timer, hat]; simp [TimerPoint.waits])
      h.worker _
  | @notify notified part cv hat hcv =>
    have hperm := CondVar.waiters_notifyOne hcv
    refine ⟨h.distinct.perm hperm, ?_, ?_, fun part' hpart => ?_⟩
    · rw [CondVar.waiting_congr hperm, h.timer, hat]
      cases part <;> simp [EpochPart.next, TimerPoint.waits]
    · rw [CondVar.waiting_congr hperm]
      exact h.worker
    · cases part <;> cases hpart
  | @expire part cv hat hdue hcv =>
    have hperm := CondVar.waiters_wake hcv
    refine ⟨h.distinct.perm hperm, ?_, ?_, fun _ _ => h.distinct.not_asleep_of_wake hcv⟩
    · rw [CondVar.waiting_congr hperm, h.timer, hat]
      simp [TimerPoint.waits]
    · rw [CondVar.waiting_congr hperm]
      exact h.worker
  | @timerResume part cv hat hcv =>
    obtain ⟨hdistinct, htimer⟩ := h.distinct.resume hcv
    refine waits_timerTurn hdistinct htimer ?_ part
    rw [h.distinct.waiting_resume hcv, h.worker]
    simp
  | @timerExpired part cv hat hcv =>
    obtain ⟨hdistinct, htimer⟩ := h.distinct.resume hcv
    refine ⟨hdistinct, by simp [TimerPoint.waits, htimer], ?_, nofun⟩
    rw [h.distinct.waiting_resume hcv, h.worker]
    simp
  | workerLoop hat =>
    refine h.congr rfl rfl ?_ fun _ => id
    rw [hat]
    dsimp only
    split_ifs <;> simp
  | workerEnter hat =>
    exact @workerTurn t h t.cv h.distinct h.timer (by rw [h.worker, hat]; simp) rfl
  | @workerResume cv hcv =>
    obtain ⟨hdistinct, hworker⟩ := h.distinct.resume hcv
    refine h.workerTurn hdistinct ?_ hworker (CondVar.length_resume hcv).1
    rw [h.distinct.waiting_resume hcv, h.timer]
    simp
  | read hat | compute hat hcall | finishEpochEnd hat =>
    exact h.congr rfl rfl (by rw [hat]; simp) fun _ => id
  | @wakeUp thread cv hcv =>
    have hperm := CondVar.waiters_wake hcv
    refine ⟨h.distinct.perm hperm, ?_, ?_, fun part hpart hmem => ?_⟩
    · rw [CondVar.waiting_congr hperm]
      exact h.timer
    · rw [CondVar.waiting_congr hperm]
      exact h.worker
    · exact h.expired part hpart (CondVar.asleep_subset_of_wake hcv hmem)
  | stopNotify =>
    have hperm := t.cv.waiters_notifyAll
    refine ⟨h.distinct.perm hperm, ?_, ?_, fun _ _ => List.not_mem_nil⟩
    · rw [CondVar.waiting_congr hperm]
      exact h.timer
    · rw [CondVar.waiting_congr hperm]
      exact h.worker

/-! ## Who sleeps -/

/-- The predicate of the thread's wait holds. -/
def Ready (t : ZipperEpochTimer) : EpochThread → Prop
  | .timer => t.running = false
  | .worker => t.allocatePending = true ∨ t.epochEndPending = true ∨ t.running = false

/-- A thread is about to notify this one. -/
def Owed (t : ZipperEpochTimer) : EpochThread → Prop
  | .timer => t.stopper = .notifying
  | .worker => t.stopper = .notifying ∨ t.timer.notifies = true

/-- No thread sleeps that is ready and that nobody is about to notify. -/
def Attentive (t : ZipperEpochTimer) : Prop :=
  t.cv.NoneMissed fun thread _ => t.Ready thread ∧ ¬ t.Owed thread

/-- A step that makes no thread ready, and after which no thread waits longer to be notified. -/
theorem Attentive.mono (h : t.Attentive) (hcv : u.cv = t.cv)
    (hready : ∀ thread, u.Ready thread → t.Ready thread)
    (howed : ∀ thread, t.Owed thread → u.Owed thread) : u.Attentive := by
  unfold Attentive
  rw [hcv]
  refine CondVar.NoneMissed.mono h fun thread _ hthread => ⟨hready thread hthread.1, ?_⟩
  exact fun hold => hthread.2 (howed thread hold)

/-- A thread that waits no more. -/
theorem Attentive.resume (h : t.Attentive) {thread : EpochThread} {cv : CondVar EpochThread Unit}
    (hcv : t.cv.resume thread = some ((), cv)) : { t with cv := cv }.Attentive :=
  CondVar.NoneMissed.resume h hcv

/-- The timer thread moves on, and did not owe the worker anything. -/
theorem Attentive.move (h : t.Attentive) (hnot : t.timer.notifies = false) (hcv : u.cv = t.cv)
    (hready : ∀ thread, u.Ready thread → t.Ready thread) (hstopper : u.stopper = t.stopper) :
    u.Attentive := by
  refine h.mono hcv hready ?_
  rintro (_ | _) howed
  · exact hstopper.trans howed
  · exact Or.inl (hstopper.trans (howed.resolve_right (by simp [hnot])))

theorem Attentive.timerTurn (h : t.Attentive) {part : EpochPart}
    (hnot : t.timer.notifies = false) : (t.timerTurn part).Attentive := by
  unfold ZipperEpochTimer.timerTurn
  split_ifs with hrunning
  · have hmoved : { t with timer := .waiting part }.Attentive :=
      h.move hnot rfl (fun thread => by cases thread <;> exact id) rfl
    refine CondVar.NoneMissed.wait hmoved ?_
    rintro ⟨hready, -⟩
    exact absurd (hrunning.symm.trans hready) (by simp)
  · exact h.move hnot rfl (fun thread => by cases thread <;> exact id) rfl

theorem Attentive.workerTurn (h : t.Attentive) : t.workerTurn.Attentive := by
  unfold ZipperEpochTimer.workerTurn
  split_ifs with hrunning hallocate hend
  · exact h.mono rfl (fun thread => by cases thread <;> exact id)
      fun thread => by cases thread <;> exact id
  · refine h.mono rfl ?_ fun thread => by cases thread <;> exact id
    rintro (_ | _) hready
    · exact hready
    · exact Or.inl hallocate
  · refine h.mono rfl ?_ fun thread => by cases thread <;> exact id
    rintro (_ | _) hready
    · exact hready
    · exact Or.inr (Or.inl hend)
  · refine CondVar.NoneMissed.wait (c := t.cv) h ?_
    rintro ⟨hready, -⟩
    rcases hready with hready | hready | hready
    · exact hallocate hready
    · exact hend hready
    · exact hrunning hready

/-- **A notification of the timer** reaches the worker if the worker sleeps: the timer itself does
not. -/
theorem Waits.asleep_of_notify (h : t.Waits) (hnot : t.timer.waits = false)
    {notified : Option EpochThread} {cv : CondVar EpochThread Unit}
    (hcv : t.cv.notifyOne notified = some cv) : cv.asleep = [] := by
  refine h.distinct.asleep_of_notifyOne hcv (i := .worker) ?_
  rintro (_ | _) x hx
  · have hwaits := h.timer.mp (Or.inl (List.mem_map_of_mem hx))
    exact absurd (hnot.symm.trans hwaits) (by simp)
  · rfl

theorem attentive_of_nil (h : t.cv.asleep = []) : t.Attentive := by
  intro thread x hx
  rw [h] at hx
  cases hx

/-- **One step.** -/
theorem Attentive.step (h : t.Attentive) (hwaits : t.Waits) {e : EpochEvent}
    (hs : t.step epochDuration e = some u) : u.Attentive := by
  cases effect_of_step hs with
  | tick | updateEstimate | changeRegistry | workerLoop | read | compute | finishEpochEnd =>
    exact h.mono rfl (fun thread => by cases thread <;> exact id)
      fun thread => by cases thread <;> exact id
  | timerLoop hat | timerTest hat | advance hat =>
    exact h.move (by rw [hat]; rfl) rfl (fun thread => by cases thread <;> exact id) rfl
  | timerEnter hat => exact h.timerTurn (by rw [hat]; rfl)
  | requestAllocation hat | requestEpochEnd hat =>
    intro thread x hx ⟨hready, howed⟩
    cases thread with
    | timer => exact h .timer x hx ⟨hready, howed⟩
    | worker => exact howed (Or.inr rfl)
  | notify hat hcv =>
    exact attentive_of_nil (hwaits.asleep_of_notify (by rw [hat]; rfl) hcv)
  | @expire part cv hat hdue hcv =>
    have hmoved : { t with timer := .expired part }.Attentive :=
      h.move (by rw [hat]; rfl) rfl (fun thread => by cases thread <;> exact id) rfl
    exact CondVar.NoneMissed.wake hmoved hcv
  | timerResume hat hcv => exact (h.resume hcv).timerTurn (by simp [hat, TimerPoint.notifies])
  | timerExpired hat hcv =>
    exact (h.resume hcv).move (by rw [hat]; rfl) rfl (fun thread => by cases thread <;> exact id)
      rfl
  | workerEnter => exact h.workerTurn
  | workerResume hcv => exact (h.resume hcv).workerTurn
  | wakeUp hcv => exact CondVar.NoneMissed.wake h hcv
  | stop =>
    rintro thread x - ⟨-, howed⟩
    cases thread with
    | timer => exact howed rfl
    | worker => exact howed (Or.inl rfl)
  | stopNotify => exact CondVar.noneMissed_notifyAll t.cv
  | joinTimer hat | joinWorker hat =>
    refine h.mono rfl (fun thread => by cases thread <;> exact id) ?_
    rintro (_ | _) howed
    · exact absurd (hat.symm.trans howed) (by simp)
    · exact Or.inr (howed.resolve_left (by simp [hat]))

/-! ## The clock -/

/-- The timer never runs ahead of the clock. -/
structure OnTime (epochDuration : ℕ) (t : ZipperEpochTimer) : Prop where
  nextEpoch : t.nextEpoch = (t.startup + epochDuration) % 2 ^ 64
  due : t.startup + t.timer.due epochDuration ≤ t.now
  tested : ∀ part, t.timer = .tested part → t.running = true →
    t.startup + part.offset epochDuration ≤ t.now
  computing : ∀ n, t.worker = .computing n → n ≤ t.now + epochDuration
  stopped : t.stopper = .idle ∨ t.running = false

theorem onTime_init (now : ℕ) (startingSeq : UInt64) (registry : ProxyRegistry) :
    OnTime epochDuration (init epochDuration now startingSeq registry) where
  nextEpoch := rfl
  due := le_rfl
  tested := nofun
  computing := nofun
  stopped := Or.inl rfl

/-- A step that leaves the epoch alone. -/
theorem OnTime.congr (h : OnTime epochDuration t) (hnext : u.nextEpoch = t.nextEpoch)
    (hstartup : u.startup = t.startup) (hnow : t.now ≤ u.now)
    (hdue : t.startup + u.timer.due epochDuration ≤ u.now)
    (htested : ∀ part, u.timer = .tested part → u.running = true →
      t.startup + part.offset epochDuration ≤ u.now)
    (hcomputing : ∀ n, u.worker = .computing n → t.worker = .computing n ∨ n = t.nextEpoch)
    (hstopped : u.stopper = .idle ∨ u.running = false) : OnTime epochDuration u where
  nextEpoch := by rw [hnext, hstartup]; exact h.nextEpoch
  due := by rw [hstartup]; exact hdue
  tested := by rw [hstartup]; exact htested
  computing := by
    intro n hn
    rcases hcomputing n hn with hold | rfl
    · exact (h.computing n hold).trans (Nat.add_le_add_right hnow _)
    · have hle := Nat.mod_le (t.startup + epochDuration) (2 ^ 64)
      have hdue := h.due
      rw [h.nextEpoch]
      omega
  stopped := hstopped

/-- A step of the timer thread between two points of the same epoch. -/
theorem OnTime.move (h : OnTime epochDuration t) {timer : TimerPoint}
    (hdue : t.startup + timer.due epochDuration ≤ t.now)
    (htested : ∀ part, timer = .tested part → t.running = true →
      t.startup + part.offset epochDuration ≤ t.now) :
    OnTime epochDuration { t with timer := timer } :=
  h.congr rfl rfl le_rfl hdue htested (fun _ => Or.inl) h.stopped

theorem OnTime.startup_le (h : OnTime epochDuration t) : t.startup ≤ t.now :=
  (Nat.le_add_right _ _).trans h.due

theorem OnTime.timerTurn (h : OnTime epochDuration t) (part : EpochPart) :
    OnTime epochDuration (t.timerTurn part) := by
  unfold ZipperEpochTimer.timerTurn
  split_ifs with hrunning
  · exact h.congr rfl rfl le_rfl h.startup_le nofun (fun _ => Or.inl) h.stopped
  · exact h.move h.startup_le fun _ _ hrun => absurd hrun hrunning

/-- A step of the worker that computes no slots. -/
theorem OnTime.worker (h : OnTime epochDuration t) (htimer : u.timer = t.timer)
    (hrunning : u.running = t.running) (hnow : u.now = t.now) (hnext : u.nextEpoch = t.nextEpoch)
    (hstartup : u.startup = t.startup) (hstopper : u.stopper = t.stopper)
    (hcomputing : ∀ n, u.worker = .computing n → t.worker = .computing n ∨ n = t.nextEpoch) :
    OnTime epochDuration u := by
  refine h.congr hnext hstartup hnow.ge ?_ ?_ hcomputing ?_
  · rw [htimer, hnow]
    exact h.due
  · rw [htimer, hrunning, hnow]
    exact h.tested
  · rw [hstopper, hrunning]
    exact h.stopped

theorem OnTime.workerTurn (h : OnTime epochDuration t) : OnTime epochDuration t.workerTurn := by
  unfold ZipperEpochTimer.workerTurn
  split_ifs <;> exact h.worker rfl rfl rfl rfl rfl rfl nofun

/-- **One step.** -/
theorem OnTime.step (h : OnTime epochDuration t) {e : EpochEvent}
    (hs : t.step epochDuration e = some u) : OnTime epochDuration u := by
  cases effect_of_step hs with
  | @tick elapsed =>
    have hlater : t.now ≤ t.now + elapsed := Nat.le_add_right _ _
    exact h.congr rfl rfl hlater (h.due.trans hlater)
      (fun part hpart hrunning => (h.tested part hpart hrunning).trans hlater)
      (fun _ => Or.inl) h.stopped
  | timerLoop hat =>
    refine h.move ?_ fun part hpart _ => ?_
    · split_ifs <;> exact h.startup_le
    · split_ifs at hpart
  | timerEnter hat => exact h.timerTurn _
  | timerTest hat =>
    refine h.move ?_ fun part hpart _ => ?_
    · split_ifs with hrunning
      · exact h.tested _ hat hrunning
      · exact h.startup_le
    · split_ifs at hpart
  | requestAllocation hat | requestEpochEnd hat =>
    have hdue := h.due
    rw [hat] at hdue
    exact h.congr rfl rfl le_rfl hdue nofun (fun _ => Or.inl) h.stopped
  | advance hat =>
    have hdue := h.due
    rw [hat] at hdue
    refine ⟨?_, hdue, nofun, h.computing, h.stopped⟩
    rw [h.nextEpoch, Nat.mod_add_mod]
  | @notify notified part cv hat hcv =>
    have hdue := h.due
    rw [hat] at hdue
    cases part with
    | allocation =>
      exact h.congr rfl rfl le_rfl h.startup_le nofun (fun _ => Or.inl) h.stopped
    | epochEnd => exact h.congr rfl rfl le_rfl hdue nofun (fun _ => Or.inl) h.stopped
  | expire hat hdue hcv =>
    exact h.congr rfl rfl le_rfl hdue nofun (fun _ => Or.inl) h.stopped
  | @timerResume part cv hat hcv =>
    have hresumed : OnTime epochDuration { t with cv := cv } :=
      h.congr rfl rfl le_rfl h.due h.tested (fun _ => Or.inl) h.stopped
    exact hresumed.timerTurn part
  | timerExpired hat hcv =>
    have hdue := h.due
    rw [hat] at hdue
    refine h.congr rfl rfl le_rfl h.startup_le ?_ (fun _ => Or.inl) h.stopped
    rintro part ⟨⟩ -
    exact hdue
  | workerLoop hat =>
    refine h.worker rfl rfl rfl rfl rfl rfl fun n hn => ?_
    dsimp only at hn
    split_ifs at hn
  | workerEnter => exact h.workerTurn
  | @workerResume cv hcv =>
    have hresumed : OnTime epochDuration { t with cv := cv } :=
      h.worker rfl rfl rfl rfl rfl rfl fun _ => Or.inl
    exact hresumed.workerTurn
  | read =>
    refine h.worker rfl rfl rfl rfl rfl rfl ?_
    rintro n ⟨⟩
    exact Or.inr rfl
  | compute | finishEpochEnd => exact h.worker rfl rfl rfl rfl rfl rfl nofun
  | wakeUp | updateEstimate | changeRegistry =>
    exact h.worker rfl rfl rfl rfl rfl rfl fun _ => Or.inl
  | stop =>
    exact h.congr rfl rfl le_rfl h.due nofun (fun _ => Or.inl) (Or.inr rfl)
  | stopNotify hat | joinTimer hat | joinWorker hat =>
    refine h.congr rfl rfl le_rfl h.due h.tested (fun _ => Or.inl) (Or.inr ?_)
    exact h.stopped.resolve_left (by simp [hat])

/-! ## Runs -/

/-- What holds between the steps. -/
structure Sound (epochDuration : ℕ) (t : ZipperEpochTimer) : Prop where
  waits : t.Waits
  attentive : t.Attentive
  onTime : OnTime epochDuration t

theorem Sound.step (h : Sound epochDuration t) {e : EpochEvent}
    (hs : t.step epochDuration e = some u) : Sound epochDuration u :=
  ⟨h.waits.step hs, h.attentive.step h.waits hs, h.onTime.step hs⟩

/-- **Every run.** -/
theorem sound_of_reach {now : ℕ} {startingSeq : UInt64} {registry : ProxyRegistry}
    (h : (zipperEpochTimer epochDuration now startingSeq registry).Reach t) :
    Sound epochDuration t :=
  h.invariant (Sound epochDuration)
    ⟨waits_init now startingSeq registry, attentive_of_nil rfl,
      onTime_init now startingSeq registry⟩
    fun _ _ _ _ hsound _ hs => hsound.step hs

end ZipperEpochTimer

end Ziplog
