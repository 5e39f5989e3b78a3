import Ziplog.Library.Lts
import Ziplog.Proxy.EpochTimer

/-!
# Freezing and including a proxy

FREEZE clears `registered_` and then sets `paused_`, which the timer thread tests once in an epoch;
INCLUDE_PROXY sets `registered_` and starts the timer when it was cleared. Both constructors start
the timer as well, whether the proxy is registered or not, nothing resets `paused_`, and a thread
that has come to its end still belongs to its thread object, so that a second `start` ends the
process. `alive_of_orderly` says which runs go well, and that the first step outside them is one
too many.
-/

namespace Ziplog

/-- The flags and the timer thread of a proxy, and the handlers between two of their steps.
Recorded only are `used`, the value of `registered_` whenever a slot was taken or a batch sent,
`frozen`, whether a FREEZE was handled, and `resumed`, whether the timer loop was running and not
paused after each INCLUDE_PROXY that followed. -/
structure ProxyLifecycle where
  registered : Bool
  paused : Bool
  running : Bool
  /-- `thread_` has a thread, which may have come to its end. -/
  joinable : Bool
  aborted : Bool
  /-- The constructor has started the timer. -/
  constructed : Bool
  timer : EpochTimer
  /-- The thread has passed the tests at the top of its loop. -/
  inEpoch : Bool
  /-- FREEZE handlers between their two writes. -/
  freezing : ℕ
  /-- INCLUDE_PROXY handlers in front of the write of `registered_`, and behind it. -/
  including : ℕ
  starting : ℕ
  used : List Bool
  frozen : Bool
  resumed : List Bool

inductive LifecycleEvent
  | construct (now : ℕ)
  | check
  | timer (e : TimerEvent)
  | sendOutBatch
  | batchReplicated
  | freeze
  | pause
  | includeProxy
  | register
  | start (now : ℕ)
  deriving DecidableEq

/-- The events that begin to handle a message. -/
def LifecycleEvent.isMessage : LifecycleEvent → Bool
  | .freeze | .includeProxy => true
  | _ => false

namespace ProxyLifecycle

/-- A proxy that listens and has not started its timer. -/
def init (registered : Bool) : ProxyLifecycle where
  registered := registered
  paused := false
  running := false
  joinable := false
  aborted := false
  constructed := false
  timer := .init
  inEpoch := false
  freezing := 0
  including := 0
  starting := 0
  used := []
  frozen := false
  resumed := []

/-- `ProxyEpochTimer::start`; the assignment to a joinable thread object ends the process. -/
def start (s : ProxyLifecycle) (epochDuration now : ℕ) : ProxyLifecycle :=
  if s.joinable then { s with running := true, aborted := true }
  else
    { s with
      running := true
      joinable := true
      timer := { s.timer with epochEnd := now + epochDuration, phase := .epochStart }
      inEpoch := false }

/-- The timer loop is running and not paused. -/
def looping (s : ProxyLifecycle) : Bool :=
  s.running && !s.paused && decide (s.timer.phase ≠ .stopped)

/-- INCLUDE_PROXY has been handled. -/
def included (s : ProxyLifecycle) : ProxyLifecycle :=
  { s with resumed := if s.frozen then s.resumed ++ [s.looping] else s.resumed }

/-- The thread takes a slot or sends a batch. -/
def use (s : ProxyLifecycle) : ProxyLifecycle := { s with used := s.used ++ [s.registered] }

def setPhase (s : ProxyLifecycle) (phase : TimerPhase) : ProxyLifecycle :=
  { s with timer := { s.timer with phase := phase } }

/-- After a step of the thread inside an epoch. -/
def setTimer (s : ProxyLifecycle) (e : TimerEvent) (timer : EpochTimer) : ProxyLifecycle :=
  let t := { s with timer := timer, inEpoch := decide (timer.phase ≠ .epochStart) }
  match e, timer.phase with
  | .nextBatchInfo, .popped _ _ => t.use
  | _, _ => t

def step (epochDuration : ℕ) (s : ProxyLifecycle) (e : LifecycleEvent) : Option ProxyLifecycle :=
  if s.aborted then none
  else
    match e with
    | .construct now =>
      if s.constructed then none
      else some { s.start epochDuration now with constructed := true }
    | .check =>
      if s.timer.phase = .epochStart ∧ s.inEpoch = false then
        some (if s.running ∧ s.paused = false then { s with inEpoch := true }
          else s.setPhase .stopped)
      else none
    | .timer e =>
      if s.inEpoch then (s.timer.step epochDuration e).map (s.setTimer e) else none
    | .sendOutBatch =>
      match s.timer.phase with
      | .sending _ => some (s.setPhase .replicating).use
      | _ => none
    | .batchReplicated =>
      match s.timer.phase with
      | .replicating => some (s.setPhase .fetching)
      | _ => none
    | .freeze => some { s with registered := false, freezing := s.freezing + 1 }
    | .pause =>
      if s.freezing = 0 then none
      else some { s with paused := true, freezing := s.freezing - 1, frozen := true }
    | .includeProxy =>
      some (if s.registered then s.included else { s with including := s.including + 1 })
    | .register =>
      if s.including = 0 then none
      else some { s with
        registered := true
        including := s.including - 1
        starting := s.starting + 1 }
    | .start now =>
      if s.starting = 0 then none
      else some (({ s with starting := s.starting - 1 }).start epochDuration now).included

/-- The thread takes and sends no slot before it tests `paused_` again. -/
def SlotsOver (s : ProxyLifecycle) : Prop :=
  match s.timer.phase with
  | .stopped | .epochWait => True
  | .epochStart => s.inEpoch = false
  | .fetching | .replicating => s.timer.scheduler.popNextSlot.isNone
  | .popped batchTs _ => s.timer.epochEnd < batchTs
  | .due .. | .sending _ => False

/-- The thread enters an epoch only while the proxy is registered, FREEZE clears `registered_` only
when the slots of the epoch are over, and INCLUDE_PROXY comes only while the proxy is registered. -/
def Orderly (s : ProxyLifecycle) : LifecycleEvent → Prop
  | .check => s.running = true → s.paused = false → s.registered = true
  | .freeze => s.SlotsOver
  | .includeProxy => s.registered = true
  | _ => True

/-- Slots are taken and batches sent only while the proxy is registered, `start` never meets
a joinable thread object, and INCLUDE_PROXY after FREEZE leaves the timer loop running. -/
structure Alive (s : ProxyLifecycle) : Prop where
  used : ∀ registered ∈ s.used, registered = true
  started : s.aborted = false
  resumed : ∀ looping ∈ s.resumed, looping = true

end ProxyLifecycle

def proxyLifecycle (epochDuration : ℕ) (registered : Bool) : Lts ProxyLifecycle LifecycleEvent :=
  ⟨.init registered, ProxyLifecycle.step epochDuration⟩

/-- Without another message the proxy can still come to a state in which it is not alive. -/
def ProxyLifecycle.Doomed (epochDuration : ℕ) (registered : Bool) (s : ProxyLifecycle) : Prop :=
  ∃ es t, (proxyLifecycle epochDuration registered).runVia (fun _ e => !e.isMessage) es s =
    some t ∧ ¬ t.Alive

/-! ## Runs -/

namespace ProxyLifecycle

variable {epochDuration : ℕ} {registered : Bool} {s t : ProxyLifecycle}

/-- Nothing is left to do for a proxy that is not registered, and no handler starts the timer. -/
structure Sound (s : ProxyLifecycle) : Prop where
  slotsOver : s.registered = false → s.SlotsOver
  joinable : s.joinable = s.constructed
  aborted : s.aborted = false
  including : s.including = 0
  starting : s.starting = 0
  freezing : s.freezing ≠ 0 ∨ s.frozen = true → s.registered = false
  used : ∀ registered ∈ s.used, registered = true
  resumed : s.resumed = []

theorem sound_init : (init registered).Sound where
  slotsOver := fun _ => trivial
  joinable := rfl
  aborted := rfl
  including := rfl
  starting := rfl
  freezing := by
    rintro (h | h)
    · exact absurd rfl h
    · cases h
  used := fun _ h => nomatch h
  resumed := rfl

theorem Sound.alive (h : s.Sound) : s.Alive := by
  refine ⟨h.used, h.aborted, fun looping hlooping => ?_⟩
  rw [h.resumed] at hlooping
  cases hlooping

/-- Another place of the thread. -/
theorem Sound.moveTimer (h : s.Sound) {timer : EpochTimer} {inEpoch : Bool}
    (hover : s.registered = false →
      ({ s with timer := timer, inEpoch := inEpoch } : ProxyLifecycle).SlotsOver) :
    ({ s with timer := timer, inEpoch := inEpoch } : ProxyLifecycle).Sound :=
  ⟨hover, h.joinable, h.aborted, h.including, h.starting, h.freezing, h.used, h.resumed⟩

theorem Sound.use (h : s.Sound) (hregistered : s.registered = true) : s.use.Sound := by
  refine ⟨h.slotsOver, h.joinable, h.aborted, h.including, h.starting, h.freezing, fun b hb => ?_,
    h.resumed⟩
  rcases List.mem_append.mp hb with hold | hlast
  · exact h.used b hold
  · rw [List.mem_singleton.mp hlast]
    exact hregistered

/-- A thread whose slots are over takes none up to the end of the epoch. -/
theorem slotsOver_timer {e : TimerEvent} {timer : EpochTimer} (hover : s.SlotsOver)
    (hin : s.inEpoch = true) (hs : s.timer.step epochDuration e = some timer) :
    ({ s with timer := timer, inEpoch := decide (timer.phase ≠ .epochStart) } :
        ProxyLifecycle).SlotsOver ∧
      (e = .nextBatchInfo → timer.phase = .epochWait) := by
  unfold SlotsOver at hover
  cases e with
  | start now =>
    rcases hp : s.timer.phase with _ | _ | _ | ⟨ts, q⟩ | ⟨ts, q⟩ | q | _ | _ <;>
      simp only [EpochTimer.step, hp] at hs <;> cases hs
    refine ⟨rfl, ?_⟩
    rintro ⟨⟩
  | updateSlotEstimate now =>
    rcases hp : s.timer.phase with _ | _ | _ | ⟨ts, q⟩ | ⟨ts, q⟩ | q | _ | _ <;>
      simp only [EpochTimer.step, hp] at hs hover <;> try cases hs
    exact absurd (hover.symm.trans hin) Bool.false_ne_true
  | nextBatchInfo =>
    rcases hp : s.timer.phase with _ | _ | _ | ⟨ts, q⟩ | ⟨ts, q⟩ | q | _ | _ <;>
      rcases hslot : s.timer.scheduler.popNextSlot with _ | ⟨⟨ts', q'⟩, sch⟩ <;>
      simp only [EpochTimer.step, hp, hslot] at hs hover <;> cases hs
    · exact ⟨trivial, fun _ => rfl⟩
    · cases hover
  | compare =>
    rcases hp : s.timer.phase with _ | _ | _ | ⟨ts, q⟩ | ⟨ts, q⟩ | q | _ | _ <;>
      simp only [EpochTimer.step, hp] at hs hover <;> try cases hs
    rw [if_pos hover] at hs
    cases hs
    refine ⟨trivial, ?_⟩
    rintro ⟨⟩
  | wake now =>
    rcases hp : s.timer.phase with _ | _ | _ | ⟨ts, q⟩ | ⟨ts, q⟩ | q | _ | _ <;>
      simp only [EpochTimer.step, hp] at hs hover <;> cases hs
  | endEpoch =>
    rcases hp : s.timer.phase with _ | _ | _ | ⟨ts, q⟩ | ⟨ts, q⟩ | q | _ | _ <;>
      simp only [EpochTimer.step, hp] at hs <;> cases hs
    refine ⟨rfl, ?_⟩
    rintro ⟨⟩

/-- The thread steps inside an epoch. -/
theorem Sound.setTimer (h : s.Sound) {e : TimerEvent} (hin : s.inEpoch = true) {timer : EpochTimer}
    (hs : s.timer.step epochDuration e = some timer) : (s.setTimer e timer).Sound := by
  have hsound : ({ s with
      timer := timer
      inEpoch := decide (timer.phase ≠ .epochStart) } : ProxyLifecycle).Sound :=
    h.moveTimer fun hout => (slotsOver_timer (h.slotsOver hout) hin hs).1
  unfold ProxyLifecycle.setTimer
  split
  · rename_i hpopped
    refine hsound.use ?_
    by_contra hout
    have hwait := (slotsOver_timer (h.slotsOver (Bool.eq_false_iff.mpr hout)) hin hs).2 rfl
    cases hwait.symm.trans hpopped
  · exact hsound

/-- The constructor starts the timer. -/
theorem Sound.construct (h : s.Sound) (hnot : s.constructed = false) (now : ℕ) :
    ({ s.start epochDuration now with constructed := true } : ProxyLifecycle).Sound := by
  have hjoinable : s.joinable = false := h.joinable.trans hnot
  unfold ProxyLifecycle.start
  simp only [hjoinable, Bool.false_eq_true, if_false]
  exact ⟨fun _ => rfl, rfl, h.aborted, h.including, h.starting, h.freezing, h.used, h.resumed⟩

/-- The thread tests the flags at the top of its loop. -/
theorem Sound.check (h : s.Sound) (hguard : s.running = true → s.paused = false →
    s.registered = true) :
    (if s.running ∧ s.paused = false then { s with inEpoch := true }
      else s.setPhase .stopped).Sound := by
  split_ifs with hgo
  · refine h.moveTimer fun hout => ?_
    cases hout.symm.trans (hguard hgo.1 hgo.2)
  · exact h.moveTimer fun _ => trivial

/-- The thread sends a batch. -/
theorem Sound.sendOutBatch (h : s.Sound) {batchSeq : ℕ}
    (hphase : s.timer.phase = .sending batchSeq) : (s.setPhase .replicating).use.Sound := by
  have hregistered : s.registered = true := by
    by_contra hout
    have hover := h.slotsOver (Bool.eq_false_iff.mpr hout)
    rw [SlotsOver, hphase] at hover
    exact hover
  refine Sound.use (h.moveTimer fun hout => ?_) hregistered
  cases hout.symm.trans hregistered

/-- The batch is replicated. -/
theorem Sound.batchReplicated (h : s.Sound) (hphase : s.timer.phase = .replicating) :
    (s.setPhase .fetching).Sound := by
  refine h.moveTimer fun hout => ?_
  have hover := h.slotsOver hout
  rwa [SlotsOver, hphase] at hover

/-- The two writes of FREEZE. -/
theorem Sound.freeze (h : s.Sound) (hover : s.SlotsOver) :
    ({ s with registered := false, freezing := s.freezing + 1 } : ProxyLifecycle).Sound :=
  ⟨fun _ => hover, h.joinable, h.aborted, h.including, h.starting, fun _ => rfl, h.used, h.resumed⟩

theorem Sound.pause (h : s.Sound) (hfreezing : s.freezing ≠ 0) :
    ({ s with paused := true, freezing := s.freezing - 1, frozen := true } :
      ProxyLifecycle).Sound :=
  ⟨h.slotsOver, h.joinable, h.aborted, h.including, h.starting,
    fun _ => h.freezing (Or.inl hfreezing), h.used, h.resumed⟩

/-- INCLUDE_PROXY of a registered proxy, which was not frozen. -/
theorem Sound.included (h : s.Sound) (hregistered : s.registered = true) : s.included.Sound := by
  have hfrozen : s.frozen = false := by
    by_contra hfrozen
    cases hregistered.symm.trans (h.freezing (Or.inr (Bool.not_eq_false _ ▸ hfrozen)))
  unfold ProxyLifecycle.included
  simp only [hfrozen, Bool.false_eq_true, if_false]
  exact ⟨h.slotsOver, h.joinable, h.aborted, h.including, h.starting,
    fun hor => h.freezing (hor.imp_right fun heq => nomatch heq), h.used, h.resumed⟩

/-- **One step** of an orderly run. -/
theorem sound_step (h : s.Sound) {e : LifecycleEvent} (hguard : s.Orderly e)
    (hs : s.step epochDuration e = some t) : t.Sound := by
  have haborted : ¬ s.aborted = true := by
    rw [h.aborted]
    exact Bool.false_ne_true
  unfold step at hs
  rw [if_neg haborted] at hs
  cases e with
  | construct now =>
    simp only at hs
    split_ifs at hs with hnot
    cases hs
    exact h.construct (Bool.eq_false_iff.mpr hnot) now
  | check =>
    simp only at hs
    split at hs
    · cases hs
      exact h.check hguard
    · cases hs
  | timer e =>
    simp only at hs
    split_ifs at hs with hin
    obtain ⟨timer, htimer, rfl⟩ := Option.map_eq_some_iff.mp hs
    exact h.setTimer hin htimer
  | sendOutBatch =>
    simp only at hs
    split at hs
    · rename_i hphase
      cases hs
      exact h.sendOutBatch hphase
    · cases hs
  | batchReplicated =>
    simp only at hs
    split at hs
    · rename_i hphase
      cases hs
      exact h.batchReplicated hphase
    · cases hs
  | freeze =>
    cases hs
    exact h.freeze hguard
  | pause =>
    simp only at hs
    split_ifs at hs with hfreezing
    cases hs
    exact h.pause hfreezing
  | includeProxy =>
    have hregistered : s.registered = true := hguard
    rw [if_pos hregistered] at hs
    cases hs
    exact h.included hregistered
  | register =>
    simp only [h.including, if_true] at hs
    cases hs
  | start now =>
    simp only [h.starting, if_true] at hs
    cases hs

theorem sound (h : (proxyLifecycle epochDuration registered).ReachVia Orderly s) : s.Sound :=
  h.invariant Sound sound_init fun _ _ _ _ hsound hguard hs => sound_step hsound hguard hs

/-! ## Slots under way -/

/-- The slots can be popped, and a thread that goes on in an epoch has entered it. -/
structure Underway (s : ProxyLifecycle) : Prop where
  ready : s.timer.Ready
  inEpoch : s.timer.phase ≠ .stopped → s.timer.phase ≠ .epochStart → s.inEpoch = true

theorem underway_init : (init registered).Underway :=
  ⟨EpochTimer.ready_init, fun hphase => absurd rfl hphase⟩

theorem Underway.congr (h : s.Underway) (htimer : t.timer = s.timer)
    (hin : t.inEpoch = s.inEpoch) : t.Underway := by
  constructor
  · rw [htimer]
    exact h.ready
  · rw [htimer, hin]
    exact h.inEpoch

theorem Underway.setPhase (h : s.Underway) {phase : TimerPhase}
    (hphase : ∀ ts seq, phase ≠ .popped ts seq)
    (hin : phase ≠ .stopped → phase ≠ .epochStart → s.inEpoch = true) :
    (s.setPhase phase).Underway := ⟨h.ready.setPhase _ hphase, hin⟩

theorem Underway.start (h : s.Underway) (now : ℕ) : (s.start epochDuration now).Underway := by
  unfold ProxyLifecycle.start
  split_ifs
  · exact h.congr rfl rfl
  · refine ⟨h.ready.setPhase _ (by rintro _ _ ⟨⟩), fun _ hphase => ?_⟩
    exact absurd rfl hphase

/-- **One step.** -/
theorem underway_step (h : s.Underway) (hpos : 0 < epochDuration) {e : LifecycleEvent}
    (hs : s.step epochDuration e = some t) : t.Underway := by
  have haborted : ¬ s.aborted = true := by
    intro haborted
    unfold step at hs
    rw [if_pos haborted] at hs
    cases hs
  unfold step at hs
  rw [if_neg haborted] at hs
  cases e with
  | construct now =>
    simp only at hs
    split_ifs at hs
    cases hs
    exact (h.start now).congr rfl rfl
  | check =>
    simp only at hs
    split at hs <;> cases hs
    split_ifs
    · exact ⟨h.ready, fun _ _ => rfl⟩
    · exact h.setPhase (by rintro _ _ ⟨⟩) fun hphase => absurd rfl hphase
  | timer e =>
    simp only at hs
    split_ifs at hs
    obtain ⟨timer, htimer, rfl⟩ := Option.map_eq_some_iff.mp hs
    have hin : timer.phase ≠ .stopped → timer.phase ≠ .epochStart →
        decide (timer.phase ≠ .epochStart) = true := fun _ hphase => decide_eq_true hphase
    unfold setTimer
    split <;> exact ⟨h.ready.step hpos htimer, hin⟩
  | sendOutBatch =>
    simp only at hs
    split at hs <;> cases hs
    rename_i hphase
    have hin := h.inEpoch (by rw [hphase]; rintro ⟨⟩) (by rw [hphase]; rintro ⟨⟩)
    exact (h.setPhase (by rintro _ _ ⟨⟩) fun _ _ => hin).congr rfl rfl
  | batchReplicated =>
    simp only at hs
    split at hs <;> cases hs
    rename_i hphase
    have hin := h.inEpoch (by rw [hphase]; rintro ⟨⟩) (by rw [hphase]; rintro ⟨⟩)
    exact h.setPhase (by rintro _ _ ⟨⟩) fun _ _ => hin
  | freeze =>
    cases hs
    exact h.congr rfl rfl
  | pause =>
    simp only at hs
    split_ifs at hs
    cases hs
    exact h.congr rfl rfl
  | includeProxy =>
    cases hs
    split_ifs <;> exact h.congr rfl rfl
  | register =>
    simp only at hs
    split_ifs at hs
    cases hs
    exact h.congr rfl rfl
  | start now =>
    simp only at hs
    split_ifs at hs
    cases hs
    have hbefore : ({ s with starting := s.starting - 1 } : ProxyLifecycle).Underway :=
      h.congr rfl rfl
    exact (hbefore.start now).congr rfl rfl

theorem underway {guard : ProxyLifecycle → LifecycleEvent → Prop} (hpos : 0 < epochDuration)
    (h : (proxyLifecycle epochDuration registered).ReachVia guard s) : s.Underway :=
  h.invariant Underway underway_init fun _ _ _ _ hunderway _ hs => underway_step hunderway hpos hs

/-! ## What a step that is not orderly leads to -/

theorem Doomed.cons {e : LifecycleEvent} (h : t.Doomed epochDuration registered)
    (he : e.isMessage = false) (hs : s.step epochDuration e = some t) :
    s.Doomed epochDuration registered := by
  refine Lts.exists_runVia_cons ?_ hs h
  rw [he]
  rfl

theorem doomed_of_aborted (h : s.aborted = true) : s.Doomed epochDuration registered :=
  ⟨[], s, rfl, fun halive => Bool.false_ne_true (halive.started.symm.trans h)⟩

/-- The thread takes a slot or sends a batch of a proxy that is not registered. -/
theorem doomed_use (h : s.registered = false) : s.use.Doomed epochDuration registered := by
  refine ⟨[], s.use, rfl, fun halive => ?_⟩
  have hmem : s.registered ∈ s.use.used := List.mem_append_right _ (List.mem_singleton_self _)
  exact Bool.false_ne_true (h.symm.trans (halive.used _ hmem))

theorem step_timer (hrunning : s.aborted = false) (hin : s.inEpoch = true) {e : TimerEvent}
    {timer : EpochTimer} (hs : s.timer.step epochDuration e = some timer) :
    s.step epochDuration (.timer e) = some (s.setTimer e timer) := by
  unfold step
  rw [if_neg (Bool.eq_false_iff.mp hrunning)]
  simp only [hin, if_true, hs, Option.map_some]

section Thread

variable (hrunning : s.aborted = false) (hregistered : s.registered = false)

include hrunning hregistered

theorem doomed_of_fetching (hin : s.inEpoch = true) (hphase : s.timer.phase = .fetching)
    (hslot : s.timer.scheduler.popNextSlot ≠ none) : s.Doomed epochDuration registered := by
  obtain ⟨⟨⟨ts, seq⟩, sch⟩, hpop⟩ := Option.ne_none_iff_exists'.mp hslot
  have hs : s.timer.step epochDuration .nextBatchInfo =
      some { s.timer with scheduler := sch, phase := .popped ts seq } := by
    simp only [EpochTimer.step, hphase, hpop]
  refine Doomed.cons ?_ rfl (step_timer hrunning hin hs)
  exact doomed_use hregistered

/-- A thread that has entered an epoch assigns itself a slot and takes one. -/
theorem doomed_of_epochStart (hready : s.timer.Ready) (hpos : 0 < epochDuration)
    (hin : s.inEpoch = true) (hphase : s.timer.phase = .epochStart) :
    s.Doomed epochDuration registered := by
  obtain ⟨timer, htimer, hready', hphase', hne⟩ := hready.exists_updateSlotEstimate hpos 0
  have hs : s.timer.step epochDuration (.updateSlotEstimate 0) = some timer := by
    simp only [EpochTimer.step, hphase]
    exact htimer
  obtain ⟨ts, seq, sch, hpop⟩ := hready'.aligned.exists_popNextSlot hne
  refine Doomed.cons ?_ rfl (step_timer hrunning hin hs)
  refine doomed_of_fetching hrunning hregistered ?_ hphase' ?_
  · exact decide_eq_true (by rw [hphase']; rintro ⟨⟩)
  · show timer.scheduler.popNextSlot ≠ none
    rw [hpop]
    exact Option.some_ne_none _

theorem doomed_of_sending {seq : ℕ} (hphase : s.timer.phase = .sending seq) :
    s.Doomed epochDuration registered := by
  have hs : s.step epochDuration .sendOutBatch = some (s.setPhase .replicating).use := by
    unfold step
    rw [if_neg (Bool.eq_false_iff.mp hrunning)]
    simp only [hphase]
  refine Doomed.cons ?_ rfl hs
  exact doomed_use hregistered

theorem doomed_of_due (hin : s.inEpoch = true) {ts seq : ℕ}
    (hphase : s.timer.phase = .due ts seq) : s.Doomed epochDuration registered := by
  have hs : s.timer.step epochDuration (.wake ts) =
      some { s.timer with phase := .sending seq } := by
    simp only [EpochTimer.step, hphase, Nat.lt_irrefl, if_false]
  refine Doomed.cons ?_ rfl (step_timer hrunning hin hs)
  exact doomed_of_sending hrunning hregistered rfl

theorem doomed_of_popped (hin : s.inEpoch = true) {ts seq : ℕ}
    (hphase : s.timer.phase = .popped ts seq) (hts : ¬ s.timer.epochEnd < ts) :
    s.Doomed epochDuration registered := by
  have hs : s.timer.step epochDuration .compare = some { s.timer with phase := .due ts seq } := by
    simp only [EpochTimer.step, hphase, if_neg hts]
  refine Doomed.cons ?_ rfl (step_timer hrunning hin hs)
  exact doomed_of_due hrunning hregistered rfl rfl

/-- A slot is left of the epoch. -/
theorem doomed_of_not_slotsOver (h : s.Underway) (hpos : 0 < epochDuration)
    (hnot : ¬ s.SlotsOver) : s.Doomed epochDuration registered := by
  have hin := h.inEpoch
  unfold SlotsOver at hnot
  rcases hp : s.timer.phase with _ | _ | _ | ⟨ts, seq⟩ | ⟨ts, seq⟩ | seq | _ | _ <;>
    simp only [hp, ne_eq, reduceCtorEq, not_true_eq_false, not_false_eq_true, forall_const,
      false_implies] at hin hnot
  · exact doomed_of_epochStart hrunning hregistered h.ready hpos (Bool.not_eq_false _ ▸ hnot) hp
  · exact doomed_of_fetching hrunning hregistered hin hp fun hnone => hnot (by rw [hnone]; rfl)
  · exact doomed_of_popped hrunning hregistered hin hp hnot
  · exact doomed_of_due hrunning hregistered hin hp
  · exact doomed_of_sending hrunning hregistered hp
  · have hs : s.step epochDuration .batchReplicated = some (s.setPhase .fetching) := by
      unfold step
      rw [if_neg (Bool.eq_false_iff.mp hrunning)]
      simp only [hp]
    refine Doomed.cons ?_ rfl hs
    exact doomed_of_fetching hrunning hregistered hin rfl fun hnone =>
      hnot (by rw [show s.timer.scheduler.popNextSlot = none from hnone]; rfl)

end Thread

theorem aborted_start (h : s.joinable = true) (now : ℕ) :
    (s.start epochDuration now).aborted = true := by
  unfold ProxyLifecycle.start
  rw [if_pos h]

/-- The constructor starts the timer, which has a thread. -/
theorem doomed_of_joinable (hrunning : s.aborted = false) (hnot : s.constructed = false)
    (hjoinable : s.joinable = true) : s.Doomed epochDuration registered := by
  have hs : s.step epochDuration (.construct 0) =
      some { s.start epochDuration 0 with constructed := true } := by
    unfold step
    rw [if_neg (Bool.eq_false_iff.mp hrunning)]
    exact if_neg (Bool.eq_false_iff.mp hnot)
  refine Doomed.cons (doomed_of_aborted ?_) rfl hs
  exact aborted_start hjoinable 0

/-- The handler of INCLUDE_PROXY and the constructor both start the timer. -/
theorem doomed_of_starting (hrunning : s.aborted = false) (hstarting : s.starting ≠ 0)
    (hjoinable : s.joinable = s.constructed) : s.Doomed epochDuration registered := by
  let u : ProxyLifecycle := { s with starting := s.starting - 1 }
  have hs : s.step epochDuration (.start 0) = some (u.start epochDuration 0).included := by
    unfold step
    rw [if_neg (Bool.eq_false_iff.mp hrunning)]
    exact if_neg hstarting
  refine Doomed.cons ?_ rfl hs
  by_cases hthread : u.joinable = true
  · have haborted : (u.start epochDuration 0).included.aborted = true := aborted_start hthread 0
    exact doomed_of_aborted haborted
  · -- the thread of the handler is there when the constructor starts one
    have hstart : u.start epochDuration 0 = { u with
        running := true
        joinable := true
        timer := { u.timer with epochEnd := 0 + epochDuration, phase := .epochStart }
        inEpoch := false } := if_neg hthread
    rw [hstart]
    refine doomed_of_joinable hrunning ?_ rfl
    exact hjoinable.symm.trans (Bool.eq_false_iff.mpr hthread)

/-- **A step that is not orderly** has begun what ends the life of the proxy. -/
theorem doomed_of_not_orderly (h : s.Sound) (hunderway : s.Underway) (hpos : 0 < epochDuration)
    {e : LifecycleEvent} (hnot : ¬ s.Orderly e) (hs : s.step epochDuration e = some t) :
    t.Doomed epochDuration registered := by
  have hrunning : ¬ s.aborted = true := Bool.eq_false_iff.mp h.aborted
  unfold step at hs
  rw [if_neg hrunning] at hs
  cases e with
  | check =>
    simp only [Orderly, Classical.not_imp] at hnot
    obtain ⟨hgo, hpaused, hregistered⟩ := hnot
    simp only [and_self, hgo, hpaused, if_true] at hs
    split_ifs at hs with hphase
    cases hs
    exact doomed_of_epochStart h.aborted (Bool.eq_false_iff.mpr hregistered) hunderway.ready hpos
      rfl hphase.1
  | freeze =>
    cases hs
    exact doomed_of_not_slotsOver h.aborted rfl (hunderway.congr rfl rfl) hpos hnot
  | includeProxy =>
    have hregistered : ¬ s.registered = true := hnot
    simp only [if_neg hregistered] at hs
    cases hs
    have hregister : ({ s with including := s.including + 1 } : ProxyLifecycle).step epochDuration
        .register = some { s with
          registered := true
          including := s.including + 1 - 1
          starting := s.starting + 1 } := by
      unfold step
      rw [if_neg hrunning]
      exact if_neg (Nat.succ_ne_zero _)
    refine Doomed.cons ?_ rfl hregister
    exact doomed_of_starting h.aborted (Nat.succ_ne_zero _) h.joinable
  | construct | timer | sendOutBatch | batchReplicated | pause | register | start =>
    exact absurd trivial hnot

/-- **The life of a proxy** in a run in which the timer thread enters an epoch only while the proxy
is registered, FREEZE clears `registered_` only when the slots of the epoch are over, and
INCLUDE_PROXY comes only while the proxy is registered. After a step of such a run that breaks one
of these the proxy can come to its end. -/
theorem alive_of_orderly
    (h : (proxyLifecycle epochDuration registered).ReachVia Orderly s) :
    s.Alive ∧ (0 < epochDuration → ∀ e t, ¬ s.Orderly e → s.step epochDuration e = some t →
      t.Doomed epochDuration registered) := by
  refine ⟨(sound h).alive, fun hpos e t hnot hs => ?_⟩
  exact doomed_of_not_orderly (sound h) (underway hpos h) hpos hnot hs

instance (s : ProxyLifecycle) : Decidable s.SlotsOver := by
  unfold SlotsOver
  cases s.timer.phase <;> infer_instance

instance (s : ProxyLifecycle) (e : LifecycleEvent) : Decidable (s.Orderly e) :=
  match e with
  | .check => inferInstanceAs (Decidable (_ → _ → _))
  | .freeze => inferInstanceAs (Decidable s.SlotsOver)
  | .includeProxy => inferInstanceAs (Decidable (_ = _))
  | .construct _ | .timer _ | .sendOutBatch | .batchReplicated | .pause | .register | .start _ =>
    .isTrue trivial

/-- One batch, and FREEZE at the end of the epoch. -/
theorem alive_of_orderly_freeze : ∃ s, (proxyLifecycle 10 true).ReachVia Orderly s ∧
    s.used = [true, true] ∧ s.frozen = true ∧ s.timer.phase = .stopped ∧ s.Alive ∧
      (0 < 10 → ∀ e t, ¬ s.Orderly e → s.step 10 e = some t → t.Doomed 10 true) := by
  obtain ⟨s, hs, hp⟩ := @Lts.exists_reachVia_of_run _ _ (proxyLifecycle 10 true) Orderly
    (fun s e => decide (s.Orderly e)) (fun _ _ => of_decide_eq_true)
    [.construct 0, .includeProxy, .check, .timer (.updateSlotEstimate 0), .timer .nextBatchInfo,
      .timer .compare, .timer (.wake 10), .sendOutBatch, .batchReplicated, .timer .nextBatchInfo,
      .freeze, .pause, .timer .endEpoch, .check]
    (fun s => decide (s.used = [true, true] ∧ s.frozen = true ∧ s.timer.phase = .stopped))
    (by decide)
  obtain ⟨hused, hfrozen, hphase⟩ := of_decide_eq_true hp
  exact ⟨s, hs, hused, hfrozen, hphase, alive_of_orderly hs⟩

/-- A proxy that is frozen takes the slot it has, and INCLUDE_PROXY after it ends the process. -/
theorem not_alive : ¬ ∀ (epochDuration : ℕ) (registered : Bool) (s : ProxyLifecycle),
    (proxyLifecycle epochDuration registered).Reach s → s.Alive := by
  intro h
  obtain ⟨s, hs, hp⟩ := @Lts.exists_reach_of_run _ _ (proxyLifecycle 10 true)
    [.construct 0, .check, .timer (.updateSlotEstimate 0), .freeze, .pause, .timer .nextBatchInfo,
      .includeProxy, .register, .start 20]
    (fun s => decide (s.used = [false] ∧ s.aborted = true ∧ s.resumed = [false])) (by decide)
  obtain ⟨-, haborted, -⟩ := of_decide_eq_true hp
  cases haborted.symm.trans (h 10 true s hs).started

end ProxyLifecycle

end Ziplog
