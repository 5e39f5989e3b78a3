import Ziplog.Zipper.EpochTimerThreads

/-!
# What the epoch timer does, and how it stops

Whatever its threads wait for and whoever wakes them, the callbacks run as `slotClock` has them
(`requests_arrive`): what is proved of the slots there holds of the threads. Once `stop` has cleared
`running_`, no callback begins any more, and once it has notified, the two threads end after at most
seven steps (`stop_ends`).
-/

namespace Ziplog

/-! ## The slots -/

/-- What the timer does next to the flags and to `next_epoch_`. -/
def TimerPoint.stage? : TimerPoint → Option TimerStage
  | .loop => some .allocate
  | .entering .allocation | .waiting .allocation | .expired .allocation | .tested .allocation
  | .request .allocation => some .allocate
  | .entering .epochEnd | .waiting .epochEnd | .expired .epochEnd | .tested .epochEnd
  | .request .epochEnd => some .epochEnd
  | .notify .allocation => some .epochEnd
  | .notify .epochEnd | .advance => some .advance
  | .ended => none

/-- What the worker works on. -/
def WorkerPoint.stage : WorkerPoint → WorkerStage
  | .loop | .entering | .waiting | .ended => .waiting
  | .allocating => .allocating
  | .computing nextEpoch => .computing nextEpoch
  | .endingEpoch => .endingEpoch

namespace ZipperEpochTimer

variable {epochDuration : ℕ} {t u : ZipperEpochTimer} {s : SlotClock}

/-- The threads have done what `slotClock` has. -/
structure Refines (epochDuration : ℕ) (t : ZipperEpochTimer) (s : SlotClock) : Prop where
  timer : ∀ stage, t.timer.stage? = some stage → s.timer = stage
  worker : s.worker = t.worker.stage
  allocatePending : s.allocatePending = t.allocatePending
  epochEndPending : s.epochEndPending = t.epochEndPending
  nextEpoch : s.nextEpoch = t.nextEpoch
  allocator : s.allocator = t.allocator
  registry : s.registry = t.registry
  returned : s.returned = t.returned
  clock : s.clock = t.startup + epochDuration

/-- A step between two waits, or into or out of one. -/
theorem Refines.stay (h : Refines epochDuration t s) {timer : TimerPoint}
    (htimer : ∀ stage, timer.stage? = some stage → t.timer.stage? = some stage)
    {cv : CondVar EpochThread Unit} {stopper : StopPoint} {running : Bool} {now : ℕ} :
    Refines epochDuration { t with
      timer := timer, cv := cv, stopper := stopper, running := running, now := now } s :=
  { h with timer := fun stage hstage => h.timer stage (htimer stage hstage) }

theorem Refines.timerTurn (h : Refines epochDuration t s) {part : EpochPart}
    (hat : t.timer.stage? = (TimerPoint.entering part).stage?)
    {cv : CondVar EpochThread Unit} :
    Refines epochDuration ({ t with cv := cv }.timerTurn part) s := by
  unfold ZipperEpochTimer.timerTurn
  split_ifs <;> refine h.stay fun stage hstage => ?_ <;> rw [hat] <;> cases part <;> exact hstage

/-- The worker takes a flag, or ends, or sleeps. -/
theorem Refines.workerTurn (h : Refines epochDuration t s) (hidle : t.worker.stage = .waiting)
    {cv : CondVar EpochThread Unit} : Refines epochDuration ({ t with cv := cv }.workerTurn) s ∨
      ∃ d s', s.step epochDuration d = some s' ∧
        Refines epochDuration ({ t with cv := cv }.workerTurn) s' := by
  have hwaiting := h.worker.trans hidle
  unfold ZipperEpochTimer.workerTurn
  split_ifs with hrunning hallocate hend
  · exact Or.inl { h with worker := hwaiting }
  · refine Or.inr ⟨.takeAllocation, _, if_pos ⟨hwaiting, h.allocatePending.trans hallocate⟩, ?_⟩
    exact { h with worker := rfl, allocatePending := rfl }
  · have hnot : s.allocatePending = false := by
      rw [h.allocatePending]
      exact Bool.not_eq_true _ ▸ hallocate
    refine Or.inr ⟨.takeEpochEnd, _,
      if_pos ⟨hwaiting, hnot, h.epochEndPending.trans hend⟩, ?_⟩
    exact { h with worker := rfl, epochEndPending := rfl }
  · exact Or.inl { h with worker := hwaiting }

/-- **One step** of the threads is one of `slotClock`, or none. -/
theorem Refines.step (h : Refines epochDuration t s) (hwaits : t.Waits) {e : EpochEvent}
    (hs : t.step epochDuration e = some u) :
    Refines epochDuration u s ∨
      ∃ d s', s.step epochDuration d = some s' ∧ Refines epochDuration u s' := by
  cases effect_of_step hs with
  | tick | stop | stopNotify | joinTimer | joinWorker | wakeUp =>
    exact Or.inl (h.stay fun _ => id)
  | timerLoop hat =>
    refine Or.inl (h.stay fun stage hstage => ?_)
    rw [hat]
    split_ifs at hstage
    · exact hstage
    · cases hstage
  | @timerTest part hat =>
    refine Or.inl (h.stay fun stage hstage => ?_)
    rw [hat]
    split_ifs at hstage
    · cases part <;> exact hstage
    · cases hstage
  | timerEnter hat => exact Or.inl (h.timerTurn (by rw [hat]))
  | requestAllocation hat =>
    have htimer := h.timer .allocate (by rw [hat]; rfl)
    refine Or.inr ⟨.requestAllocation, _, if_pos htimer, ?_⟩
    exact { h with timer := by rintro stage ⟨⟩; rfl, allocatePending := rfl }
  | requestEpochEnd hat =>
    have htimer := h.timer .epochEnd (by rw [hat]; rfl)
    refine Or.inr ⟨.requestEpochEnd, _, if_pos htimer, ?_⟩
    exact { h with timer := by rintro stage ⟨⟩; rfl, epochEndPending := rfl }
  | advance hat =>
    have htimer := h.timer .advance (by rw [hat]; rfl)
    refine Or.inr ⟨.advance, _, if_pos htimer, ?_⟩
    refine { h with timer := by rintro stage ⟨⟩; rfl, nextEpoch := ?_, clock := ?_ }
    · simp only [h.nextEpoch]
    · simp only [h.clock]
  | @notify notified part cv hat hcv =>
    refine Or.inl (h.stay fun stage hstage => ?_)
    rw [hat]
    cases part <;> exact hstage
  | @expire part cv hat hdue hcv =>
    refine Or.inl (h.stay fun stage hstage => ?_)
    rw [hat]
    cases part <;> exact hstage
  | @timerResume part cv hat hcv =>
    exact Or.inl (h.timerTurn (by rw [hat]; cases part <;> rfl))
  | @timerExpired part cv hat hcv =>
    refine Or.inl (h.stay fun stage hstage => ?_)
    rw [hat]
    cases part <;> exact hstage
  | workerLoop hat =>
    refine Or.inl { h with worker := ?_ }
    rw [h.worker, hat]
    split_ifs <;> rfl
  | workerEnter hat =>
    have hturn : Refines epochDuration ({ t with cv := t.cv }.workerTurn) s ∨ _ :=
      h.workerTurn (by rw [hat]; rfl)
    exact hturn
  | workerResume hcv =>
    have hworker := hwaits.worker.mp (CondVar.waiting_of_resume hcv)
    exact h.workerTurn (by rw [hworker]; rfl)
  | read hat =>
    have hworker : s.worker = .allocating := by rw [h.worker, hat]; rfl
    refine Or.inr ⟨.read, _, if_pos hworker, { h with worker := ?_ }⟩
    rw [h.nextEpoch]
    rfl
  | @compute n r hat hcall =>
    have hworker : s.worker = .computing n := by rw [h.worker, hat]; rfl
    rw [← h.allocator, ← h.registry] at hcall
    have hcompute : s.step epochDuration .compute = some { s with
        worker := .waiting
        allocator := r.allocator
        registry := r.registry
        returned := s.returned ++ [r.result]
        slots := s.slots +
          (s.allocator.timestamps exactDoubles s.registry epochDuration).length } := by
      simp only [SlotClock.step, hworker, hcall]
      rfl
    refine Or.inr ⟨.compute, _, hcompute, ?_⟩
    refine { h with worker := rfl, allocator := rfl, registry := rfl, returned := ?_ }
    rw [h.returned]
  | finishEpochEnd hat =>
    have hworker : s.worker = .endingEpoch := by rw [h.worker, hat]; rfl
    exact Or.inr ⟨.finishEpochEnd, _, if_pos hworker, { h with worker := rfl }⟩
  | @updateEstimate proxyId numRequests =>
    refine Or.inr ⟨.updateEstimate proxyId numRequests, _, rfl, { h with allocator := ?_ }⟩
    rw [h.allocator]
  | @changeRegistry registry =>
    exact Or.inr ⟨.changeRegistry registry, _, rfl, { h with registry := rfl }⟩

theorem refines_init (now : ℕ) (startingSeq : UInt64) (registry : ProxyRegistry) :
    Refines epochDuration (init epochDuration now startingSeq registry)
      (.init epochDuration now startingSeq registry) := by
  refine ⟨?_, rfl, rfl, rfl, rfl, rfl, rfl, rfl, rfl⟩
  rintro stage ⟨⟩
  rfl

/-- **Every run** of the threads is one of `slotClock`. -/
theorem exists_refines {now : ℕ} {startingSeq : UInt64} {registry : ProxyRegistry}
    (h : (zipperEpochTimer epochDuration now startingSeq registry).Reach t) :
    ∃ s, (slotClock epochDuration now startingSeq registry).Reach s ∧
      Refines epochDuration t s := by
  suffices hboth : ∃ s, (slotClock epochDuration now startingSeq registry).Reach s ∧
      (t.Waits ∧ Refines epochDuration t s) by
    obtain ⟨s, hs, -, hrefines⟩ := hboth
    exact ⟨s, hs, hrefines⟩
  refine h.simulate (N := slotClock epochDuration now startingSeq registry)
    (fun t s => t.Waits ∧ Refines epochDuration t s)
    ⟨waits_init now startingSeq registry, refines_init now startingSeq registry⟩ ?_
  rintro t e u s ⟨hwaits, hrefines⟩ - hstep
  rcases hrefines.step hwaits hstep with hsame | ⟨d, s', hd, hnext⟩
  · exact Or.inl ⟨hwaits.step hstep, hsame⟩
  · exact Or.inr ⟨d, s', trivial, hd, hwaits.step hstep, hnext⟩

/-! ## The requests of the timer -/

/-- A worker in its wait that nobody is about to notify is not asleep if a flag is set or
`running_` is cleared. -/
theorem Sound.woken (h : Sound epochDuration t) (hworker : t.worker = .waiting)
    (hready : t.Ready .worker) (howed : ¬ t.Owed .worker) :
    ∃ cv, t.cv.resume .worker = some ((), cv) := by
  rcases h.waits.worker.mpr hworker with hasleep | hwoken
  · obtain ⟨⟨thread, x⟩, hmem, rfl⟩ := List.mem_map.mp hasleep
    exact absurd ⟨hready, howed⟩ (h.attentive _ _ hmem)
  · obtain ⟨⟨thread, x⟩, hmem, rfl⟩ := List.mem_map.mp hwoken
    exact h.waits.distinct.resume_of_mem hmem

/-- With a flag set, or `running_` cleared, the worker does not go back to its wait. -/
theorem begun_workerTurn (hready : t.Ready .worker) :
    t.workerTurn.worker = .ended ∧ t.running = false ∨
      t.workerTurn.begun = t.begun + 1 ∧ t.running = true := by
  unfold workerTurn
  split_ifs with hrunning hallocate hend
  · exact Or.inl ⟨rfl, hrunning⟩
  · exact Or.inr ⟨rfl, Bool.not_eq_false _ ▸ hrunning⟩
  · exact Or.inr ⟨rfl, Bool.not_eq_false _ ▸ hrunning⟩
  · rcases hready with hready | hready | hready
    · exact absurd hready hallocate
    · exact absurd hready hend
    · exact absurd hready hrunning

/-- **The requests of the timer arrive.** In every run of the threads, whatever the clock does and
whoever wakes up by itself, the flags, `next_epoch_` and the slots handed out are those of a run of
`slotClock`. A thread sleeps though its wait is over only if another is about to notify it, and a
worker that nobody is about to notify goes on at its next turn to a callback, or to its end if
`running_` is cleared. No request is made before its time, and no slots are computed for an epoch
that starts later than one epoch from now. -/
theorem requests_arrive {now : ℕ} {startingSeq : UInt64} {registry : ProxyRegistry}
    (h : (zipperEpochTimer epochDuration now startingSeq registry).Reach t) :
    (∃ s, (slotClock epochDuration now startingSeq registry).Reach s ∧
      Refines epochDuration t s) ∧
    (∀ thread x, (thread, x) ∈ t.cv.asleep → t.Ready thread → t.Owed thread) ∧
    (t.worker = .waiting → t.Ready .worker → ¬ t.Owed .worker →
      ∃ u, t.step epochDuration (.resume .worker) = some u ∧
        (u.worker = .ended ∧ t.running = false ∨ u.begun = t.begun + 1 ∧ t.running = true)) ∧
    (∀ part, t.timer = .request part → t.startup + part.offset epochDuration ≤ t.now) ∧
    ∀ n, t.worker = .computing n → n ≤ t.now + epochDuration := by
  have hsound := sound_of_reach h
  refine ⟨exists_refines h, fun thread x hx hready => ?_, fun hworker hready howed => ?_,
    fun part hpart => ?_, hsound.onTime.computing⟩
  · by_contra howed
    exact hsound.attentive thread x hx ⟨hready, howed⟩
  · obtain ⟨cv, hcv⟩ := hsound.woken hworker hready howed
    refine ⟨{ t with cv := cv }.workerTurn, ?_, @begun_workerTurn { t with cv := cv } hready⟩
    show (t.cv.resume .worker).bind _ = _
    rw [hcv]
    rfl
  · have hdue := hsound.onTime.due
    rw [hpart] at hdue
    exact hdue

/-- The worker is asleep when the timer sets the flag for the first time. -/
theorem requests_arrive_first : ∃ t u : ZipperEpochTimer, t.worker = .waiting ∧
    t.allocatePending = true ∧ t.step 4 (.resume .worker) = some u ∧ u.begun = t.begun + 1 := by
  have hrun : ((zipperEpochTimer 4 0 1 (.ofConfig [⟨"127.0.0.1", 5000⟩])).run
      [.worker, .worker, .timer, .timer, .tick 3, .expire, .resume .timer, .timer, .timer,
        .notify (some .worker)] (init 4 0 1 (.ofConfig [⟨"127.0.0.1", 5000⟩]))).any (fun t =>
          t.worker = .waiting ∧ t.allocatePending = true ∧ t.stopper = .idle ∧
            t.timer = .entering .epochEnd ∧ t.running = true) = true := by
    decide
  obtain ⟨t, hreach, ht⟩ := Lts.exists_reach_of_run _ hrun
  obtain ⟨hworker, hallocate, hstopper, htimer, hrunning⟩ := of_decide_eq_true ht
  have hnot : ¬ t.Owed .worker := by
    simp [Owed, hstopper, htimer, TimerPoint.notifies]
  obtain ⟨u, hu, hturn⟩ := (requests_arrive hreach).2.2.1 hworker (Or.inl hallocate) hnot
  rcases hturn with ⟨-, hstopped⟩ | ⟨hbegun, -⟩
  · exact absurd (hrunning.symm.trans hstopped) (by simp)
  · exact ⟨t, u, hworker, hallocate, hu, hbegun⟩

/-! ## Stopping -/

/-- The steps left to the timer thread when `running_` is cleared and nobody sleeps. -/
def timerLeft : TimerPoint → ℕ
  | .request _ => 4
  | .notify _ => 3
  | .entering _ | .waiting _ | .expired _ | .advance => 2
  | .loop | .tested _ => 1
  | .ended => 0

/-- The steps left to the worker then. -/
def workerLeft : WorkerPoint → ℕ
  | .allocating => 3
  | .computing _ | .endingEpoch => 2
  | .loop | .entering | .waiting => 1
  | .ended => 0

def stepsLeft (t : ZipperEpochTimer) : ℕ := timerLeft t.timer + workerLeft t.worker

/-- A step of one of the two threads. -/
def ofThread : EpochEvent → Bool
  | .timer | .notify _ | .expire | .worker | .resume _ | .wakeUp _ => true
  | .tick _ | .stop | .updateEstimate _ _ | .changeRegistry _ => false

theorem stepsLeft_le (t : ZipperEpochTimer) : t.stepsLeft ≤ 7 := by
  have htimer : timerLeft t.timer ≤ 4 := by cases t.timer <;> simp [timerLeft]
  have hworker : workerLeft t.worker ≤ 3 := by cases t.worker <;> simp [workerLeft]
  exact Nat.add_le_add htimer hworker

theorem timerTurn_of_stopped (h : t.running = false) (part : EpochPart) :
    t.timerTurn part = { t with timer := .tested part } := if_neg (by simp [h])

theorem workerTurn_of_stopped (h : t.running = false) :
    t.workerTurn = { t with worker := .ended } := if_pos h

/-- **No callback begins** once `running_` is cleared, and it stays so. -/
theorem begun_step (h : t.running = false) {e : EpochEvent}
    (hs : t.step epochDuration e = some u) : u.begun = t.begun ∧ u.running = false := by
  cases effect_of_step hs with
  | timerEnter hat =>
    rw [timerTurn_of_stopped h]
    exact ⟨rfl, h⟩
  | @timerResume part cv hat hcv =>
    rw [@timerTurn_of_stopped { t with cv := cv } h]
    exact ⟨rfl, h⟩
  | workerEnter hat =>
    rw [workerTurn_of_stopped h]
    exact ⟨rfl, h⟩
  | @workerResume cv hcv =>
    rw [@workerTurn_of_stopped { t with cv := cv } h]
    exact ⟨rfl, h⟩
  | stop => exact ⟨rfl, rfl⟩
  | _ => exact ⟨rfl, h⟩

/-- Nobody falls asleep then. -/
theorem asleep_step (h : t.running = false) (hnil : t.cv.asleep = []) {e : EpochEvent}
    (hs : t.step epochDuration e = some u) : u.cv.asleep = [] := by
  cases effect_of_step hs with
  | timerEnter hat =>
    rw [timerTurn_of_stopped h]
    exact hnil
  | @timerResume part cv hat hcv =>
    rw [@timerTurn_of_stopped { t with cv := cv } h]
    exact (CondVar.length_resume hcv).1.trans hnil
  | timerExpired hat hcv => exact (CondVar.length_resume hcv).1.trans hnil
  | workerEnter hat =>
    rw [workerTurn_of_stopped h]
    exact hnil
  | @workerResume cv hcv =>
    rw [@workerTurn_of_stopped { t with cv := cv } h]
    exact (CondVar.length_resume hcv).1.trans hnil
  | notify hat hcv =>
    rcases CondVar.length_notifyOne hcv with hempty | ⟨hlen, -⟩
    · exact hempty
    · rw [hnil] at hlen
      cases hlen
  | expire hat hdue hcv => exact absurd hcv (CondVar.wake_ne_of_nil hnil)
  | wakeUp hcv => exact absurd hcv (CondVar.wake_ne_of_nil hnil)
  | stopNotify => rfl
  | _ => exact hnil

theorem stopper_step {e : EpochEvent} (hs : t.step epochDuration e = some u) :
    u.stopper = t.stopper ∨ u.stopper = .notifying ∨ t.stopper = .notifying ∧ u.cv.asleep = [] ∨
      t.stopper ≠ .idle ∧ t.stopper ≠ .notifying := by
  cases effect_of_step hs with
  | timerEnter | timerResume =>
    unfold timerTurn
    split_ifs <;> exact Or.inl rfl
  | workerEnter | workerResume =>
    unfold workerTurn
    split_ifs <;> exact Or.inl rfl
  | stop hat => exact Or.inr (Or.inl rfl)
  | stopNotify hat => exact Or.inr (Or.inr (Or.inl ⟨hat, rfl⟩))
  | joinTimer hat | joinWorker hat => exact Or.inr (Or.inr (Or.inr (by simp [hat])))
  | _ => exact Or.inl rfl

/-- `stop` does not go back. -/
theorem stopper_ne_step (h : t.stopper ≠ .idle ∧ t.stopper ≠ .notifying) {e : EpochEvent}
    (hs : t.step epochDuration e = some u) : u.stopper ≠ .idle ∧ u.stopper ≠ .notifying := by
  cases effect_of_step hs with
  | timerEnter | timerResume =>
    unfold timerTurn
    split_ifs <;> exact h
  | workerEnter | workerResume =>
    unfold workerTurn
    split_ifs <;> exact h
  | stop hat => exact absurd hat h.1
  | stopNotify hat => exact absurd hat h.2
  | joinTimer | joinWorker => simp
  | _ => exact h

/-- **Behind `notify_all`** nobody sleeps. -/
theorem drained_of_reach {now : ℕ} {startingSeq : UInt64} {registry : ProxyRegistry}
    (h : (zipperEpochTimer epochDuration now startingSeq registry).Reach t) :
    t.stopper = .idle ∨ t.stopper = .notifying ∨ t.cv.asleep = [] := by
  refine h.invariant (fun t => t.stopper = .idle ∨ t.stopper = .notifying ∨ t.cv.asleep = [])
    (Or.inl rfl) fun t e u hreach hdrained _ hs => ?_
  have hstopped := (sound_of_reach hreach).onTime.stopped
  have hkeep : t.stopper ≠ .idle → t.cv.asleep = [] → u.cv.asleep = [] :=
    fun hidle hnil => asleep_step (hstopped.resolve_left hidle) hnil hs
  rcases stopper_step hs with hsame | hnotifying | ⟨-, hnil⟩ | ⟨hidle, hnot⟩
  · rcases hdrained with hidle | hnot | hnil
    · exact Or.inl (hsame.trans hidle)
    · exact Or.inr (Or.inl (hsame.trans hnot))
    · by_cases hidle : t.stopper = .idle
      · exact Or.inl (hsame.trans hidle)
      · exact Or.inr (Or.inr (hkeep hidle hnil))
  · exact Or.inr (Or.inl hnotifying)
  · exact Or.inr (Or.inr hnil)
  · exact Or.inr (Or.inr (hkeep hidle ((hdrained.resolve_left hidle).resolve_left hnot)))

/-- `running_` is cleared, and nobody sleeps. -/
structure Draining (t : ZipperEpochTimer) : Prop where
  waits : t.Waits
  running : t.running = false
  awake : t.cv.asleep = []

theorem Draining.step (h : t.Draining) {e : EpochEvent} (hs : t.step epochDuration e = some u) :
    u.Draining :=
  ⟨h.waits.step hs, (begun_step h.running hs).2, asleep_step h.running h.awake hs⟩

theorem stepsLeft_timer (htimer : timerLeft u.timer + 1 ≤ timerLeft t.timer)
    (hworker : u.worker = t.worker) : 1 + u.stepsLeft ≤ t.stepsLeft := by
  unfold stepsLeft
  rw [hworker]
  omega

theorem stepsLeft_worker (hworker : workerLeft u.worker + 1 ≤ workerLeft t.worker)
    (htimer : u.timer = t.timer) : 1 + u.stepsLeft ≤ t.stepsLeft := by
  unfold stepsLeft
  rw [htimer]
  omega

/-- **One step** of a thread leaves it fewer, and no other step changes what is left. -/
theorem Draining.stepsLeft_step (h : t.Draining) {e : EpochEvent}
    (hs : t.step epochDuration e = some u) :
    (if ofThread e then 1 else 0) + u.stepsLeft ≤ t.stepsLeft := by
  cases effect_of_step hs with
  | tick | stop | stopNotify | joinTimer | joinWorker | updateEstimate | changeRegistry =>
    exact (Nat.zero_add _).le
  | timerLoop hat | timerTest hat =>
    refine stepsLeft_timer ?_ rfl
    rw [hat, if_neg (by simp [h.running])]
    exact le_rfl
  | timerEnter hat =>
    rw [timerTurn_of_stopped h.running]
    exact stepsLeft_timer (by rw [hat]; exact le_rfl) rfl
  | requestAllocation hat | requestEpochEnd hat | advance hat | timerExpired hat =>
    exact stepsLeft_timer (by rw [hat]; simp [timerLeft]) rfl
  | @notify notified part cv hat hcv =>
    exact stepsLeft_timer (by rw [hat]; cases part <;> exact le_rfl) rfl
  | @timerResume part cv hat hcv =>
    rw [@timerTurn_of_stopped { t with cv := cv } h.running]
    exact stepsLeft_timer (by rw [hat]; exact le_rfl) rfl
  | workerLoop hat =>
    refine stepsLeft_worker ?_ rfl
    rw [hat, if_neg (by simp [h.running])]
    exact le_rfl
  | workerEnter hat =>
    rw [workerTurn_of_stopped h.running]
    exact stepsLeft_worker (by rw [hat]; exact le_rfl) rfl
  | @workerResume cv hcv =>
    have hat := h.waits.worker.mp (CondVar.waiting_of_resume hcv)
    rw [@workerTurn_of_stopped { t with cv := cv } h.running]
    exact stepsLeft_worker (by rw [hat]; exact le_rfl) rfl
  | read hat | compute hat | finishEpochEnd hat =>
    exact stepsLeft_worker (by rw [hat]; exact le_rfl) rfl
  | expire hat hdue hcv => exact absurd hcv (CondVar.wake_ne_of_nil h.awake)
  | wakeUp hcv => exact absurd hcv (CondVar.wake_ne_of_nil h.awake)

/-- A thread in its wait has been woken, and gets the mutex. -/
theorem Draining.exists_resume (h : t.Draining) {thread : EpochThread}
    (hwaiting : t.cv.Waiting thread) : ∃ cv, t.cv.resume thread = some ((), cv) := by
  rcases hwaiting with hasleep | hwoken
  · rw [h.awake] at hasleep
    cases hasleep
  · obtain ⟨⟨thread, x⟩, hmem, rfl⟩ := List.mem_map.mp hwoken
    exact h.waits.distinct.resume_of_mem hmem

/-- The timer thread has a step to take unless it has ended. -/
theorem Draining.exists_timer (h : t.Draining) (epochDuration : ℕ) (hended : t.timer ≠ .ended) :
    ∃ e, ofThread e = true ∧ (t.step epochDuration e).isSome = true := by
  have hresume : t.timer.waits = true →
      (t.step epochDuration (.resume .timer)).isSome = true := by
    intro hwaits
    obtain ⟨cv, hcv⟩ := h.exists_resume (h.waits.timer.mpr hwaits)
    show ((t.cv.resume .timer).bind _).isSome = true
    rw [hcv]
    show (resumed { t with cv := cv } .timer).isSome = true
    unfold resumed
    cases hat : t.timer <;> simp [hat, TimerPoint.waits] at hwaits <;> simp
  cases hat : t.timer with
  | loop | entering part | tested part | advance =>
    exact ⟨.timer, rfl, by simp [ZipperEpochTimer.step, timerStep, hat]⟩
  | request part =>
    exact ⟨.timer, rfl, by cases part <;> simp [ZipperEpochTimer.step, timerStep, hat]⟩
  | notify part =>
    refine ⟨.notify none, rfl, ?_⟩
    simp [ZipperEpochTimer.step, hat, CondVar.notifyOne, h.awake]
  | waiting part | expired part =>
    exact ⟨.resume .timer, rfl, hresume (by rw [hat]; rfl)⟩
  | ended => exact absurd hat hended

/-- The worker has a step to take unless it has ended: its callbacks come to an end. -/
theorem Draining.exists_worker (h : t.Draining) (epochDuration : ℕ) (hended : t.worker ≠ .ended) :
    ∃ e, ofThread e = true ∧ (t.step epochDuration e).isSome = true := by
  cases hat : t.worker with
  | loop | entering | allocating | endingEpoch =>
    exact ⟨.worker, rfl, by simp [ZipperEpochTimer.step, workerStep, hat]⟩
  | computing n =>
    obtain ⟨r, hr⟩ := t.allocator.computeAllocations_isSome exactDoubles t.registry n epochDuration
    exact ⟨.worker, rfl, by simp [ZipperEpochTimer.step, workerStep, hat, hr]⟩
  | waiting =>
    obtain ⟨cv, hcv⟩ := h.exists_resume (h.waits.worker.mpr hat)
    refine ⟨.resume .worker, rfl, ?_⟩
    show ((t.cv.resume .worker).bind _).isSome = true
    rw [hcv]
    rfl
  | ended => exact absurd hat hended

/-- `stop` joins two threads that have ended. -/
theorem exists_joined {now : ℕ} {startingSeq : UInt64} {registry : ProxyRegistry}
    (htimer : t.timer = .ended) (hworker : t.worker = .ended)
    (hjoining : t.stopper ≠ .idle ∧ t.stopper ≠ .notifying) :
    ∃ joins u, (zipperEpochTimer epochDuration now startingSeq registry).run
      (List.replicate joins .stop) t = some u ∧ u.stopper = .stopped := by
  cases hat : t.stopper with
  | idle => exact absurd hat hjoining.1
  | notifying => exact absurd hat hjoining.2
  | joiningTimer =>
    refine ⟨2, { t with stopper := .stopped }, ?_, rfl⟩
    simp [Lts.runVia, zipperEpochTimer, ZipperEpochTimer.step, stopStep, hat, htimer, hworker]
  | joiningWorker =>
    refine ⟨1, { t with stopper := .stopped }, ?_, rfl⟩
    simp [Lts.runVia, zipperEpochTimer, ZipperEpochTimer.step, stopStep, hat, hworker]
  | stopped => exact ⟨0, t, rfl, hat⟩

/-- **Stopping ends.** Once `stop` has cleared `running_`, no callback begins any more. Once it has
called `notify_all`, the two threads take at most seven more steps together, whatever else happens
in between; and when none is left, both have ended and `stop` returns. -/
theorem stop_ends {now : ℕ} {startingSeq : UInt64} {registry : ProxyRegistry}
    (h : (zipperEpochTimer epochDuration now startingSeq registry).Reach t)
    (hstop : t.stopper ≠ .idle) {events : List EpochEvent}
    (hrun : (zipperEpochTimer epochDuration now startingSeq registry).run events t = some u) :
    u.begun = t.begun ∧ (t.stopper ≠ .notifying →
      events.countP ofThread ≤ 7 ∧
      ((∀ e, ofThread e = true → u.step epochDuration e = none) →
        u.timer = .ended ∧ u.worker = .ended ∧
        ∃ joins v, (zipperEpochTimer epochDuration now startingSeq registry).run
          (List.replicate joins .stop) u = some v ∧ v.stopper = .stopped)) := by
  have hsound := sound_of_reach h
  have hrunning : t.running = false := hsound.onTime.stopped.resolve_left hstop
  constructor
  · have hbegun := Lts.invariant_of_run (fun v => v.begun = t.begun ∧ v.running = false)
      (fun v e w hv hs => ?_) ⟨rfl, hrunning⟩ hrun
    · exact hbegun.1
    · obtain ⟨hsame, hstays⟩ := begun_step hv.2 hs
      exact ⟨hsame.trans hv.1, hstays⟩
  · intro hnotified
    have hawake := ((drained_of_reach h).resolve_left hstop).resolve_left hnotified
    obtain ⟨⟨hdraining, hjoining⟩, hcount⟩ := Lts.countP_le_of_run
      (fun v => v.Draining ∧ v.stopper ≠ .idle ∧ v.stopper ≠ .notifying) ofThread stepsLeft
      (fun v e w hv hs => ⟨⟨hv.1.step hs, stopper_ne_step hv.2 hs⟩, hv.1.stepsLeft_step hs⟩)
      ⟨⟨hsound.waits, hrunning, hawake⟩, hstop, hnotified⟩ hrun
    refine ⟨(Nat.le_add_right _ _).trans (hcount.trans t.stepsLeft_le), fun hnone => ?_⟩
    have hstuck : ∀ {e}, ofThread e = true → (u.step epochDuration e).isSome ≠ true := by
      intro e he
      rw [hnone e he]
      exact Bool.false_ne_true
    have htimer : u.timer = .ended := by
      by_contra hnot
      obtain ⟨e, he, hsome⟩ := hdraining.exists_timer epochDuration hnot
      exact hstuck he hsome
    have hworker : u.worker = .ended := by
      by_contra hnot
      obtain ⟨e, he, hsome⟩ := hdraining.exists_worker epochDuration hnot
      exact hstuck he hsome
    exact ⟨htimer, hworker, exists_joined htimer hworker hjoining⟩

/-- No step is left to two threads that have ended, when nobody is in `wait`. -/
theorem step_of_ended (htimer : t.timer = .ended) (hworker : t.worker = .ended)
    (hcv : t.cv.asleep = [] ∧ t.cv.woken = []) {e : EpochEvent} (he : ofThread e = true) :
    t.step epochDuration e = none := by
  cases e with
  | timer | notify notified | expire => simp [ZipperEpochTimer.step, timerStep, htimer]
  | worker => simp [ZipperEpochTimer.step, workerStep, hworker]
  | resume thread => simp [ZipperEpochTimer.step, CondVar.resume, hcv.2]
  | wakeUp thread => simp [ZipperEpochTimer.step, CondVar.wake, hcv.1]
  | tick | stop | updateEstimate | changeRegistry => cases he

/-- The worker is asleep when `stop` comes, and the timer waits for the time to allocate. Both end,
and `stop` returns. -/
theorem stop_ends_asleep : ∃ t u v : ZipperEpochTimer, t.stopper = .joiningTimer ∧
    (zipperEpochTimer 4 0 1 (.ofConfig [])).run
      [.resume .timer, .timer, .resume .worker] t = some u ∧ u.begun = t.begun ∧
    [EpochEvent.resume .timer, .timer, .resume .worker].countP ofThread ≤ 7 ∧
    ∃ joins, (zipperEpochTimer 4 0 1 (.ofConfig [])).run (List.replicate joins .stop) u = some v ∧
      v.stopper = .stopped := by
  have hrun : ((zipperEpochTimer 4 0 1 (.ofConfig [])).run
      [.worker, .worker, .timer, .timer, .stop, .stop] (init 4 0 1 (.ofConfig []))).any (fun t =>
        t.stopper = .joiningTimer ∧ ((zipperEpochTimer 4 0 1 (.ofConfig [])).run
          [.resume .timer, .timer, .resume .worker] t).any fun u =>
            u.timer = .ended ∧ u.worker = .ended ∧ u.cv.asleep = [] ∧ u.cv.woken = []) = true := by
    decide
  obtain ⟨t, hreach, ht⟩ := Lts.exists_reach_of_run _ hrun
  obtain ⟨hjoining, hu⟩ := of_decide_eq_true ht
  obtain ⟨u, hu, hended⟩ := (Option.any_eq_true _ _).mp hu
  obtain ⟨htimer, hworker, hcv⟩ := of_decide_eq_true hended
  have hends := stop_ends hreach (by simp [hjoining]) hu
  obtain ⟨hcount, hjoins⟩ := hends.2 (by simp [hjoining])
  obtain ⟨-, -, joins, v, hv, hstopped⟩ := hjoins fun _ he => step_of_ended htimer hworker hcv he
  exact ⟨t, u, v, hjoining, hu, hends.1, hcount, joins, hv, hstopped⟩

end ZipperEpochTimer

end Ziplog
