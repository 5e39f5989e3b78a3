import Ziplog.Library.Sleeper
import Ziplog.Proxy.ServerReplicator

/-!
# The threads of the server replicator

`serverReplicator` lets a worker dequeue whenever its queue holds an item. In the code an idle
worker waits on its condition variable until its queue holds an item or its flag is set.
`replicate_bytes` notifies it with the mutex of the queue in hand. `shutdown` sets the flag with
this mutex in hand, notifies behind it, and joins all workers in the end; it holds `mu_` all the
time, as `replicate_bytes` does while it pushes. Each event is what one thread does with a mutex, or
between two of its waits.

Before `shutdown` is called the threads take the steps of `serverReplicator`, and no worker sleeps
through an item (`threads_refine`).
-/

namespace Ziplog

/-- Where the thread in `shutdown` is; it joins the workers one by one. -/
inductive Closing (n : ℕ)
  | none
  | flagging (todo : Finset (Fin n))
  | notifying (j : Fin n) (todo : Finset (Fin n))
  | joining (todo : Finset (Fin n))
  | closed
  deriving DecidableEq

/-- The replicator with the condition variables and flags of its workers. -/
structure ReplicatorThreads (n : ℕ) where
  replicator : ServerReplicator n
  sleeper : Fin n → Sleeper
  shutdown : Fin n → Bool
  closing : Closing n

inductive ThreadEvent (n : ℕ)
  /-- A step of the replicator; a worker dequeues inside `enter` or `resume` only. -/
  | replicator (e : ReplicatorEvent n)
  /-- A worker at the top of its loop takes the mutex of its queue. -/
  | enter (j : Fin n)
  /-- A woken worker has the mutex again. -/
  | resume (j : Fin n)
  /-- A worker leaves `wait` without being notified. -/
  | wakeUp (j : Fin n)
  /-- A worker finds its flag set in the condition of a loop. -/
  | leave (j : Fin n)
  | shutdown
  | flag (j : Fin n)
  | notify
  | flagged
  | join (j : Fin n)
  | joined

/-- `mu_` is free. -/
def Closing.Free {n : ℕ} : Closing n → Bool
  | .none | .closed => true
  | _ => false

/-- No thread is inside the loop that pushes. -/
def ReplicateStage.NotPushing {n : ℕ} : ReplicateStage n → Bool
  | .pushing _ => false
  | _ => true

/-- The worker is at the top of a loop. -/
def LoopStage.AtTop : LoopStage → Bool
  | .connecting | .idle => true
  | _ => false

namespace ReplicatorThreads

variable {n : ℕ}

def init : ReplicatorThreads n := ⟨.init, fun _ => .init, fun _ => false, .none⟩

def setSleeper (t : ReplicatorThreads n) (j : Fin n) (s : Sleeper) : ReplicatorThreads n :=
  { t with sleeper := Function.update t.sleeper j s }

def setFlag (t : ReplicatorThreads n) (j : Fin n) : ReplicatorThreads n :=
  { t with shutdown := Function.update t.shutdown j true }

def setWorker (t : ReplicatorThreads n) (j : Fin n) (w : ServerWorker) : ReplicatorThreads n :=
  { t with replicator := t.replicator.setWorker j w }

def setStage (t : ReplicatorThreads n) (j : Fin n) (stage : LoopStage) : ReplicatorThreads n :=
  t.setWorker j { t.replicator.worker j with stage := stage }

/-- The worker has the mutex of its queue in `wait`, or before it. -/
def turn (t : ReplicatorThreads n) (j : Fin n) : ReplicatorThreads n :=
  if t.shutdown j then (t.setStage j .exiting).setSleeper j (t.sleeper j).rise
  else match (t.replicator.worker j).queue with
    | [] => t.setSleeper j (t.sleeper j).sleep
    | item :: queue =>
      (t.setWorker j { t.replicator.worker j with
        stage := .dequeued item, queue := queue }).setSleeper j (t.sleeper j).rise

/-- A step of the replicator with what goes with it. -/
def replicatorStep (quorum : ℕ) (t : ReplicatorThreads n) (e : ReplicatorEvent n) :
    Option (ReplicatorThreads n) :=
  (t.replicator.step quorum e).bind fun r =>
    match e with
    | .replicateBytes _ => if t.closing.Free then some { t with replicator := r } else none
    | .push j => some ({ t with replicator := r }.setSleeper j (t.sleeper j).notify)
    | .work _ .dequeue => none
    | .work j .sendFail | .work j .recvFail => some ({ t with replicator := r }.setFlag j)
    | _ => some { t with replicator := r }

def step (quorum : ℕ) (t : ReplicatorThreads n) : ThreadEvent n → Option (ReplicatorThreads n)
  | .replicator e => t.replicatorStep quorum e
  | .enter j =>
    if (t.replicator.worker j).stage = .idle ∧ (t.sleeper j).phase = .awake then some (t.turn j)
    else none
  | .resume j => if (t.sleeper j).phase = .woken then some (t.turn j) else none
  | .wakeUp j => (t.sleeper j).wakeUp.map (t.setSleeper j)
  | .leave j =>
    if (t.replicator.worker j).stage.AtTop ∧ (t.sleeper j).phase = .awake ∧ t.shutdown j then
      some (t.setStage j .exiting)
    else none
  | .shutdown =>
    if t.closing.Free ∧ t.replicator.stage.NotPushing then
      some { t with closing := .flagging Finset.univ }
    else none
  | .flag j =>
    match t.closing with
    | .flagging todo =>
      if j ∈ todo then
        some { (t.setFlag j).setSleeper j (t.sleeper j).owe with
          closing := .notifying j (todo.erase j) }
      else none
    | _ => none
  | .notify =>
    match t.closing with
    | .notifying j todo =>
      (t.sleeper j).pay.map fun s => { t.setSleeper j s with closing := .flagging todo }
    | _ => none
  | .flagged =>
    match t.closing with
    | .flagging todo =>
      if todo = ∅ then some { t with closing := .joining Finset.univ } else none
    | _ => none
  | .join j =>
    match t.closing with
    | .joining todo =>
      if j ∈ todo ∧ (t.replicator.worker j).stage = .terminated then
        some { t with closing := .joining (todo.erase j) }
      else none
    | _ => none
  | .joined =>
    match t.closing with
    | .joining todo => if todo = ∅ then some { t with closing := .closed } else none
    | _ => none

end ReplicatorThreads

def replicatorThreads (n quorum : ℕ) : Lts (ReplicatorThreads n) (ThreadEvent n) :=
  ⟨.init, ReplicatorThreads.step quorum⟩

/-! ## What a step can do -/

namespace ReplicatorThreads

variable {n quorum : ℕ} {t u : ReplicatorThreads n}

/-- The state after a step, with what the step found. -/
inductive Effect (quorum : ℕ) (t : ReplicatorThreads n) :
    ThreadEvent n → ReplicatorThreads n → Prop
  | replicator {e : ReplicatorEvent n} {r : ServerReplicator n}
      (hr : t.replicator.step quorum e = some r) (hpush : ∀ j, e ≠ .push j)
      (hdequeue : ∀ j, e ≠ .work j .dequeue) :
      Effect quorum t (.replicator e) { t with replicator := r }
  | push {j : Fin n} {r : ServerReplicator n} (hr : t.replicator.step quorum (.push j) = some r) :
      Effect quorum t (.replicator (.push j))
        ({ t with replicator := r }.setSleeper j (t.sleeper j).notify)
  | fail {j : Fin n} {e : WorkerEvent} {r : ServerReplicator n}
      (hr : t.replicator.step quorum (.work j e) = some r) (he : e = .sendFail ∨ e = .recvFail) :
      Effect quorum t (.replicator (.work j e)) ({ t with replicator := r }.setFlag j)
  | enter {j : Fin n} (hidle : (t.replicator.worker j).stage = .idle) :
      Effect quorum t (.enter j) (t.turn j)
  | resume {j : Fin n} (hwoken : (t.sleeper j).phase = .woken) :
      Effect quorum t (.resume j) (t.turn j)
  | wakeUp {j : Fin n} {s : Sleeper} (hs : (t.sleeper j).wakeUp = some s) :
      Effect quorum t (.wakeUp j) (t.setSleeper j s)
  | leave {j : Fin n} (htop : (t.replicator.worker j).stage.AtTop = true)
      (hawake : (t.sleeper j).phase = .awake) (hflag : t.shutdown j = true) :
      Effect quorum t (.leave j) (t.setStage j .exiting)
  | shutdown (hfree : t.closing.Free = true) :
      Effect quorum t .shutdown { t with closing := .flagging Finset.univ }
  | flag {j : Fin n} {todo : Finset (Fin n)} (hclosing : t.closing = .flagging todo) :
      Effect quorum t (.flag j) { (t.setFlag j).setSleeper j (t.sleeper j).owe with
        closing := .notifying j (todo.erase j) }
  | notify {j : Fin n} {todo : Finset (Fin n)} {s : Sleeper}
      (hclosing : t.closing = .notifying j todo) (hs : (t.sleeper j).pay = some s) :
      Effect quorum t .notify { t.setSleeper j s with closing := .flagging todo }
  | flagged (hclosing : t.closing = .flagging ∅) :
      Effect quorum t .flagged { t with closing := .joining Finset.univ }
  | join {j : Fin n} {todo : Finset (Fin n)} (hclosing : t.closing = .joining todo) :
      Effect quorum t (.join j) { t with closing := .joining (todo.erase j) }
  | joined {todo : Finset (Fin n)} (hclosing : t.closing = .joining todo) :
      Effect quorum t .joined { t with closing := .closed }

theorem effect_of_replicatorStep {e : ReplicatorEvent n} (hs : t.replicatorStep quorum e = some u) :
    Effect quorum t (.replicator e) u := by
  obtain ⟨r, hr, hs⟩ := Option.bind_eq_some_iff.mp hs
  cases e with
  | replicateBytes frame =>
    dsimp only at hs
    split_ifs at hs
    cases hs
    exact .replicator hr nofun nofun
  | push j =>
    cases hs
    exact .push hr
  | work j e =>
    cases e with
    | dequeue => cases hs
    | sendFail =>
      cases hs
      exact .fail hr (Or.inl rfl)
    | recvFail =>
      cases hs
      exact .fail hr (Or.inr rfl)
    | connect | send | reply | recv =>
      cases hs
      exact .replicator hr nofun nofun
  | pushed | pollAcks | pollLive | count j | exit j =>
    cases hs
    exact .replicator hr nofun nofun

/-- **One step.** -/
theorem effect_of_step {e : ThreadEvent n} (hs : t.step quorum e = some u) :
    Effect quorum t e u := by
  cases e with
  | replicator e => exact effect_of_replicatorStep hs
  | wakeUp j =>
    obtain ⟨s, hwake, rfl⟩ := Option.map_eq_some_iff.mp hs
    exact .wakeUp hwake
  | enter j =>
    simp only [ReplicatorThreads.step] at hs
    split_ifs at hs with henter
    cases hs
    exact .enter henter.1
  | resume j =>
    simp only [ReplicatorThreads.step] at hs
    split_ifs at hs with hwoken
    cases hs
    exact .resume hwoken
  | leave j =>
    simp only [ReplicatorThreads.step] at hs
    split_ifs at hs with hleave
    cases hs
    exact .leave hleave.1 hleave.2.1 hleave.2.2
  | shutdown =>
    simp only [ReplicatorThreads.step] at hs
    split_ifs at hs with hfree
    cases hs
    exact .shutdown hfree.1
  | flag j =>
    simp only [ReplicatorThreads.step] at hs
    split at hs <;> try split_ifs at hs
    all_goals cases hs
    exact .flag (by assumption)
  | notify =>
    simp only [ReplicatorThreads.step] at hs
    split at hs
    · obtain ⟨s, hpay, rfl⟩ := Option.map_eq_some_iff.mp hs
      exact .notify (by assumption) hpay
    · cases hs
  | flagged =>
    simp only [ReplicatorThreads.step] at hs
    split at hs <;> try split_ifs at hs with hnone
    all_goals cases hs
    subst hnone
    exact .flagged (by assumption)
  | join j =>
    simp only [ReplicatorThreads.step] at hs
    split at hs <;> try split_ifs at hs
    all_goals cases hs
    exact .join (by assumption)
  | joined =>
    simp only [ReplicatorThreads.step] at hs
    split at hs <;> try split_ifs at hs
    all_goals cases hs
    exact .joined (by assumption)

end ReplicatorThreads

/-! ## What a step of the replicator does to a worker -/

/-- A bound for the steps that the thread still takes once its flag is set. -/
def LoopStage.left : LoopStage → ℕ
  | .terminated => 0
  | .exiting => 1
  | .idle => 2
  | .connecting | .acked _ => 3
  | .awaiting _ => 4
  | .dequeued _ => 5

/-- The steps of the thread of worker `j`. -/
def ReplicatorEvent.ofThread {n : ℕ} (j : Fin n) : ReplicatorEvent n → Bool
  | .work _ .reply => false
  | .work k _ | .count k | .exit k => decide (k = j)
  | .replicateBytes _ | .push _ | .pushed | .pollAcks | .pollLive => false

/-- A step that leaves the queue alone, and either leaves the thread where it is or takes it on from
a place outside `wait`. -/
structure ServerWorker.Moves (w w' : ServerWorker) : Prop where
  queue : w'.queue = w.queue
  stage : w'.stage = w.stage ∨
    w.stage ≠ .idle ∧ ¬ (w.stage = .terminated) ∧ w'.stage.left < w.stage.left ∧
      (w.stage.Ended → w'.stage.Ended)

theorem ServerWorker.moves_of_step {w w' : ServerWorker} {e : WorkerEvent} (he : e ≠ .dequeue)
    (hs : w.step e = some w') : w.Moves w' := by
  cases e with
  | dequeue => exact absurd rfl he
  | reply =>
    obtain ⟨link, -, rfl⟩ := Option.map_eq_some_iff.mp hs
    exact ⟨rfl, Or.inl rfl⟩
  | recv =>
    simp only [ServerWorker.step] at hs
    split at hs
    · rename_i item hstage
      obtain ⟨link, -, rfl⟩ := Option.map_eq_some_iff.mp hs
      exact ⟨rfl, Or.inr (by simp [hstage, LoopStage.left, LoopStage.Ended])⟩
    · cases hs
  | connect | send | sendFail | recvFail =>
    simp only [ServerWorker.step] at hs
    split at hs <;> cases hs
    rename_i hstage
    exact ⟨rfl, Or.inr (by simp [hstage, LoopStage.left, LoopStage.Ended])⟩

/-- A step of the thread itself takes it on. -/
theorem ServerWorker.left_of_step {w w' : ServerWorker} {e : WorkerEvent} (hreply : e ≠ .reply)
    (hdequeue : e ≠ .dequeue) (hs : w.step e = some w') : w'.stage.left < w.stage.left := by
  cases e with
  | reply => exact absurd rfl hreply
  | dequeue => exact absurd rfl hdequeue
  | recv =>
    simp only [ServerWorker.step] at hs
    split at hs
    · rename_i item hstage
      obtain ⟨link, -, rfl⟩ := Option.map_eq_some_iff.mp hs
      simp [hstage, LoopStage.left]
    · cases hs
  | connect | send | sendFail | recvFail =>
    simp only [ServerWorker.step] at hs
    split at hs <;> cases hs
    rename_i hstage
    simp [hstage, LoopStage.left]

/-- A worker that fails leaves its loop. -/
theorem ServerWorker.stage_of_fail {w w' : ServerWorker}
    (hs : w.step .sendFail = some w' ∨ w.step .recvFail = some w') :
    w.stage ≠ .idle ∧ w'.stage = .exiting := by
  rcases hs with hs | hs
  all_goals
    simp only [ServerWorker.step] at hs
    split at hs <;> cases hs
    rename_i hstage
    exact ⟨by simp [hstage], rfl⟩

namespace ServerReplicator

variable {n quorum : ℕ} {s t : ServerReplicator n}

/-- **One step** seen from a worker: it gets an item, dequeues one, or moves. -/
theorem worker_of_step {e : ReplicatorEvent n} (hs : s.step quorum e = some t) (k : Fin n) :
    (e = .push k ∧ ∃ item, t.worker k = (s.worker k).push item) ∨
    (e = .work k .dequeue ∧ (s.worker k).step .dequeue = some (t.worker k)) ∨
    e ≠ .push k ∧ (s.worker k).Moves (t.worker k) := by
  have hset : ∀ {j w}, (j = k → (s.worker k).Moves w) →
      (s.worker k).Moves ((s.setWorker j w).worker k) := by
    intro j w hw
    by_cases hk : k = j
    · subst hk
      rw [setWorker_self]
      exact hw rfl
    · rw [setWorker_of_ne hk]
      exact ⟨rfl, Or.inl rfl⟩
  cases e with
  | push j =>
    simp only [ServerReplicator.step] at hs
    split at hs
    · split_ifs at hs
      cases hs
      by_cases hk : k = j
      · subst hk
        exact Or.inl ⟨rfl, _, setWorker_self⟩
      · refine Or.inr (Or.inr ⟨fun he => ?_, hset fun h => absurd h.symm hk⟩)
        cases he
        exact hk rfl
    · cases hs
  | work j e =>
    obtain ⟨w, hw, rfl⟩ := Option.map_eq_some_iff.mp hs
    by_cases hdequeue : j = k ∧ e = .dequeue
    · obtain ⟨rfl, rfl⟩ := hdequeue
      exact Or.inr (Or.inl ⟨rfl, by rw [setWorker_self]; exact hw⟩)
    · refine Or.inr (Or.inr ⟨(by rintro ⟨⟩), hset fun hjk => ?_⟩)
      subst hjk
      exact ServerWorker.moves_of_step (fun he => hdequeue ⟨rfl, he⟩) hw
  | count j =>
    simp only [ServerReplicator.step] at hs
    split at hs <;> cases hs
    rename_i hstage
    refine Or.inr (Or.inr ⟨(by rintro ⟨⟩), hset fun hjk => ?_⟩)
    subst hjk
    exact ⟨rfl, Or.inr (by simp [hstage, LoopStage.left, LoopStage.Ended])⟩
  | exit j =>
    simp only [ServerReplicator.step] at hs
    split at hs <;> cases hs
    rename_i hstage
    refine Or.inr (Or.inr ⟨(by rintro ⟨⟩), hset fun hjk => ?_⟩)
    subst hjk
    exact ⟨rfl, Or.inr (by simp [hstage, LoopStage.left, LoopStage.Ended])⟩
  | replicateBytes frame | pushed | pollAcks | pollLive =>
    simp only [ServerReplicator.step] at hs
    split at hs <;> try split_ifs at hs
    all_goals cases hs
    all_goals exact Or.inr (Or.inr ⟨(by rintro ⟨⟩), rfl, Or.inl rfl⟩)

/-- A step of a worker's thread takes this worker on, unless it dequeues. -/
theorem left_of_step {e : ReplicatorEvent n} {j : Fin n} (he : e.ofThread j = true)
    (hdequeue : e ≠ .work j .dequeue) (hs : s.step quorum e = some t) :
    (t.worker j).stage.left < (s.worker j).stage.left := by
  cases e with
  | work k e =>
    obtain ⟨w, hw, rfl⟩ := Option.map_eq_some_iff.mp hs
    have hreply : e ≠ .reply := by
      rintro rfl
      cases he
    obtain rfl : k = j := by
      cases e <;> first | exact of_decide_eq_true he | exact absurd rfl hreply
    rw [setWorker_self]
    exact ServerWorker.left_of_step hreply (fun h => hdequeue (by rw [h])) hw
  | count k =>
    obtain rfl := of_decide_eq_true he
    simp only [ServerReplicator.step] at hs
    split at hs <;> cases hs
    rename_i hstage
    simp [hstage, LoopStage.left]
  | exit k =>
    obtain rfl := of_decide_eq_true he
    simp only [ServerReplicator.step] at hs
    split at hs <;> cases hs
    rename_i hstage
    simp [hstage, LoopStage.left]
  | replicateBytes frame | push j | pushed | pollAcks | pollLive => cases he

/-- `live_workers_` counts the workers whose threads have not ended. -/
theorem liveWorkers_step {e : ReplicatorEvent n} (h : s.liveWorkers = s.live.card)
    (hs : s.step quorum e = some t) : t.liveWorkers = t.live.card := by
  cases e with
  | push j =>
    simp only [ServerReplicator.step] at hs
    split at hs
    · split_ifs at hs
      cases hs
      refine h.trans (congrArg Finset.card (live_setWorker ?_).symm)
      exact Iff.rfl
    · cases hs
  | work j e =>
    obtain ⟨w, hw, rfl⟩ := Option.map_eq_some_iff.mp hs
    rw [live_setWorker (ServerWorker.step_keeps hw).2]
    exact h
  | count j =>
    simp only [ServerReplicator.step] at hs
    split at hs <;> cases hs
    rename_i hstage
    refine h.trans (congrArg Finset.card (live_setWorker ?_).symm)
    simp [hstage]
  | exit j =>
    simp only [ServerReplicator.step] at hs
    split at hs <;> cases hs
    rename_i hstage
    have hj : j ∈ s.live := by simp [hstage]
    have hlive : (s.setWorker j { s.worker j with stage := .terminated }).live =
        s.live.erase j := by
      ext k
      rw [mem_live, Finset.mem_erase, mem_live]
      by_cases hk : k = j
      · rw [hk, setWorker_self]
        simp
      · rw [setWorker_of_ne hk]
        simp [hk]
    show s.liveWorkers - 1 = (s.setWorker j { s.worker j with stage := .terminated }).live.card
    rw [hlive, Finset.card_erase_of_mem hj, h]
  | replicateBytes frame | pushed | pollAcks | pollLive =>
    simp only [ServerReplicator.step] at hs
    split at hs <;> try split_ifs at hs
    all_goals cases hs
    all_goals exact h

end ServerReplicator

/-! ## The invariant of one worker -/

/-- `shutdown` has set the flag of the worker. -/
def Closing.Passed {n : ℕ} (c : Closing n) (j : Fin n) : Prop :=
  match c with
  | .none => False
  | .flagging todo => j ∉ todo
  | .notifying i todo => j = i ∨ j ∉ todo
  | .joining _ | .closed => True

/-- How often `shutdown` is still to notify the worker whose flag it has set. -/
def Closing.owes {n : ℕ} (c : Closing n) (j : Fin n) : ℕ :=
  match c with
  | .notifying i _ => if i = j then 1 else 0
  | _ => 0

/-- Worker `j` with its condition variable and its flag. It is ready to go on when its queue holds
an item or its flag is set. -/
structure WorkerOk {n : ℕ} (j : Fin n) (closing : Closing n) (w : ServerWorker) (s : Sleeper)
    (flag : Bool) : Prop where
  justified : s.Justified (w.queue ≠ [] ∨ flag = true)
  waiting : s.phase ≠ .awake → w.stage = .idle
  owed : s.owed = closing.owes j
  flagged : closing.Passed j → flag = true
  ended : closing = .none → flag = true → w.stage.Ended

namespace WorkerOk

variable {n : ℕ} {j : Fin n} {closing closing' : Closing n} {w w' : ServerWorker} {s s' : Sleeper}
  {flag : Bool}

theorem moves (h : WorkerOk j closing w s flag) (hw : w.Moves w') :
    WorkerOk j closing w' s flag where
  justified := by
    rw [hw.queue]
    exact h.justified
  waiting := by
    intro hphase
    have hidle := h.waiting hphase
    rcases hw.stage with hsame | ⟨hmoved, -⟩
    · rw [hsame]
      exact hidle
    · exact absurd hidle hmoved
  owed := h.owed
  flagged := h.flagged
  ended := by
    intro hopen hflag
    rcases hw.stage with hsame | ⟨-, -, -, hended⟩
    · rw [hsame]
      exact h.ended hopen hflag
    · exact hended (h.ended hopen hflag)

/-- A worker outside `wait` leaves its loop, with its flag set. -/
theorem exits (h : WorkerOk j closing w s flag) (hw : w'.stage = .exiting) (hs : s'.phase = .awake)
    (howed : s'.owed = s.owed) : WorkerOk j closing w' s' true where
  justified := Sleeper.justified_of_ne (by simp [hs])
  waiting := fun hphase => absurd hs hphase
  owed := howed.trans h.owed
  flagged := fun _ => rfl
  ended := fun _ _ => Or.inl hw

/-- An item is pushed and the worker notified. -/
theorem push (h : WorkerOk j closing w s flag) (item : WorkItem) :
    WorkerOk j closing (w.push item) s.notify flag where
  justified := s.justified_notify
  waiting := by
    rw [ne_eq, Sleeper.notify_awake_iff]
    exact h.waiting
  owed := s.notify_owed.trans h.owed
  flagged := h.flagged
  ended := h.ended

/-- The worker finds nothing to do. -/
theorem sleep (h : WorkerOk j closing w s false) (hidle : w.stage = .idle) (hqueue : w.queue = []) :
    WorkerOk j closing w s.sleep false where
  justified := Sleeper.justified_sleep (by simp [hqueue])
  waiting := fun _ => hidle
  owed := h.owed
  flagged := h.flagged
  ended := h.ended

/-- The worker takes an item. -/
theorem take (h : WorkerOk j closing w s false) :
    WorkerOk j closing w' s.rise false where
  justified := Sleeper.justified_of_ne nofun
  waiting := fun hphase => absurd rfl hphase
  owed := h.owed
  flagged := h.flagged
  ended := nofun

theorem wakeUp (h : WorkerOk j closing w s flag) (hs : s.wakeUp = some s') :
    WorkerOk j closing w s' flag := by
  obtain ⟨hasleep, rfl⟩ := Sleeper.eq_of_wakeUp hs
  refine { h with justified := Sleeper.justified_of_ne nofun, waiting := fun _ => h.waiting ?_ }
  rw [hasleep]
  exact nofun

/-- The thread in `shutdown` goes on. -/
theorem close (h : WorkerOk j closing w s flag) (howes : closing'.owes j = closing.owes j)
    (hflagged : closing'.Passed j → flag = true) (hnone : closing' ≠ .none) :
    WorkerOk j closing' w s flag :=
  { h with
    owed := h.owed.trans howes.symm
    flagged := hflagged
    ended := fun hopen => absurd hopen hnone }

/-- The thread in `shutdown` sets the flag; it will notify the worker. -/
theorem shutdown (h : WorkerOk j closing w s flag) (howes : closing.owes j = 0)
    (todo : Finset (Fin n)) : WorkerOk j (.notifying j todo) w s.owe true where
  justified := s.justified_owe
  waiting := h.waiting
  owed := by
    show s.owed + 1 = if j = j then 1 else 0
    rw [if_pos rfl, h.owed, howes]
  flagged := fun _ => rfl
  ended := nofun

/-- It notifies the worker. -/
theorem notify {todo : Finset (Fin n)} (h : WorkerOk j (.notifying j todo) w s flag)
    (hflag : flag = true) (hs : s.pay = some s') : WorkerOk j (.flagging todo) w s' flag := by
  obtain ⟨-, hphase, howed⟩ := Sleeper.eq_of_pay hs
  refine ⟨Sleeper.justified_of_ne ?_, ?_, ?_, fun _ => hflag, nofun⟩
  · rw [hphase]
    exact s.notify_phase_ne
  · rw [hphase, ne_eq, Sleeper.notify_awake_iff]
    exact h.waiting
  · rw [howed, h.owed]
    simp [Closing.owes]

end WorkerOk

/-! ## The invariant of the threads -/

namespace ReplicatorThreads

variable {n quorum : ℕ} {t u : ReplicatorThreads n}

@[simp] theorem setWorker_worker (t : ReplicatorThreads n) (j : Fin n) (w : ServerWorker) :
    (t.setWorker j w).replicator.worker j = w := ServerReplicator.setWorker_self

theorem setWorker_worker_of_ne {j k : Fin n} (h : k ≠ j) (w : ServerWorker) :
    (t.setWorker j w).replicator.worker k = t.replicator.worker k :=
  ServerReplicator.setWorker_of_ne h

@[simp] theorem setSleeper_sleeper (t : ReplicatorThreads n) (j : Fin n) (s : Sleeper) :
    (t.setSleeper j s).sleeper j = s := Function.update_self ..

theorem setSleeper_sleeper_of_ne {j k : Fin n} (h : k ≠ j) (s : Sleeper) :
    (t.setSleeper j s).sleeper k = t.sleeper k := Function.update_of_ne h _ _

@[simp] theorem setFlag_shutdown (t : ReplicatorThreads n) (j : Fin n) :
    (t.setFlag j).shutdown j = true := Function.update_self ..

theorem setFlag_shutdown_of_ne {j k : Fin n} (h : k ≠ j) :
    (t.setFlag j).shutdown k = t.shutdown k := Function.update_of_ne h _ _

structure Watchful (t : ReplicatorThreads n) : Prop where
  worker : ∀ j, WorkerOk j t.closing (t.replicator.worker j) (t.sleeper j) (t.shutdown j)
  live : t.replicator.liveWorkers = t.replicator.live.card

theorem watchful_init : (init : ReplicatorThreads n).Watchful where
  worker := fun _ =>
    { justified := Sleeper.justified_of_ne nofun
      waiting := fun hphase => absurd rfl hphase
      owed := rfl
      flagged := nofun
      ended := nofun }
  live := (@ServerReplicator.sound_init n 0).live

/-- A step of one worker. -/
theorem Watchful.set (h : t.Watchful) {j : Fin n} (hclosing : u.closing = t.closing)
    (hother : ∀ k, k ≠ j → u.replicator.worker k = t.replicator.worker k ∧
      u.sleeper k = t.sleeper k ∧ u.shutdown k = t.shutdown k)
    (hj : WorkerOk j t.closing (u.replicator.worker j) (u.sleeper j) (u.shutdown j))
    (hlive : u.replicator.liveWorkers = u.replicator.live.card) : u.Watchful where
  worker := by
    intro k
    rw [hclosing]
    by_cases hk : k = j
    · rw [hk]
      exact hj
    · obtain ⟨hworker, hsleeper, hshutdown⟩ := hother k hk
      rw [hworker, hsleeper, hshutdown]
      exact h.worker k
  live := hlive

/-- The thread in `shutdown` leaves the workers as they are. -/
theorem Watchful.close (h : t.Watchful) {closing : Closing n}
    (howes : ∀ j, closing.owes j = t.closing.owes j)
    (hflagged : ∀ j, closing.Passed j → t.shutdown j = true) (hnone : closing ≠ .none) :
    Watchful { t with closing := closing } where
  worker := fun j => (h.worker j).close (howes j) (hflagged j) hnone
  live := h.live

theorem live_setStage {j : Fin n} {stage : LoopStage}
    (h : stage = .terminated ↔ (t.replicator.worker j).stage = .terminated) :
    (t.setStage j stage).replicator.live = t.replicator.live :=
  ServerReplicator.live_setWorker h

/-- **A worker with the mutex of its queue.** -/
theorem Watchful.turn (h : t.Watchful) {j : Fin n} (hidle : (t.replicator.worker j).stage = .idle) :
    (t.turn j).Watchful := by
  have hj := h.worker j
  unfold ReplicatorThreads.turn
  split_ifs with hflag
  · have hother : ∀ k, k ≠ j → ((t.setStage j .exiting).replicator.worker k =
        t.replicator.worker k ∧
        ((t.setStage j .exiting).setSleeper j (t.sleeper j).rise).sleeper k = t.sleeper k ∧
        t.shutdown k = t.shutdown k) :=
      fun k hk => ⟨setWorker_worker_of_ne hk _, setSleeper_sleeper_of_ne hk _, rfl⟩
    refine h.set rfl hother ?_ ?_
    · show WorkerOk j t.closing ((t.setStage j .exiting).replicator.worker j) _ (t.shutdown j)
      rw [hflag, setStage, setWorker_worker, setSleeper_sleeper]
      exact hj.exits rfl rfl rfl
    · have hlive := @live_setStage _ t j .exiting (by simp [hidle])
      exact h.live.trans (congrArg Finset.card hlive.symm)
  · rw [Bool.not_eq_true] at hflag
    rw [hflag] at hj
    split
    · rename_i hqueue
      refine h.set rfl (fun k hk => ⟨rfl, setSleeper_sleeper_of_ne hk _, rfl⟩) ?_ h.live
      show WorkerOk j t.closing (t.replicator.worker j) _ (t.shutdown j)
      rw [hflag, setSleeper_sleeper]
      exact hj.sleep hidle hqueue
    · rename_i item queue hqueue
      refine h.set rfl (fun k hk => ⟨setWorker_worker_of_ne hk _, setSleeper_sleeper_of_ne hk _,
        rfl⟩) ?_ ?_
      · show WorkerOk j t.closing _ _ (t.shutdown j)
        rw [hflag, setSleeper_sleeper]
        exact hj.take
      · refine h.live.trans (congrArg Finset.card (ServerReplicator.live_setWorker ?_).symm)
        simp [hidle]

/-- A step of the replicator that no thread in `wait` notices. -/
theorem Watchful.moves (h : t.Watchful) {e : ReplicatorEvent n} {r : ServerReplicator n}
    (hr : t.replicator.step quorum e = some r) (hpush : ∀ j, e ≠ .push j)
    (hdequeue : ∀ j, e ≠ .work j .dequeue) : Watchful { t with replicator := r } where
  worker := by
    intro k
    rcases ServerReplicator.worker_of_step hr k with ⟨he, -⟩ | ⟨he, -⟩ | ⟨-, hmoves⟩
    · exact absurd he (hpush k)
    · exact absurd he (hdequeue k)
    · exact (h.worker k).moves hmoves
  live := ServerReplicator.liveWorkers_step h.live hr

/-- An item is pushed. -/
theorem Watchful.push (h : t.Watchful) {j : Fin n} {r : ServerReplicator n}
    (hr : t.replicator.step quorum (.push j) = some r) :
    Watchful ({ t with replicator := r }.setSleeper j (t.sleeper j).notify) where
  worker := by
    intro k
    show WorkerOk k t.closing (r.worker k) _ (t.shutdown k)
    rcases ServerReplicator.worker_of_step hr k with ⟨he, item, hitem⟩ | ⟨he, -⟩ | ⟨he, hmoves⟩
    · cases he
      rw [setSleeper_sleeper, hitem]
      exact (h.worker j).push item
    · cases he
    · have hk : k ≠ j := fun hk => he (by rw [hk])
      rw [setSleeper_sleeper_of_ne hk]
      exact (h.worker k).moves hmoves
  live := ServerReplicator.liveWorkers_step h.live hr

/-- A worker fails, and sets its own flag. -/
theorem Watchful.fail (h : t.Watchful) {j : Fin n} {e : WorkerEvent} {r : ServerReplicator n}
    (hr : t.replicator.step quorum (.work j e) = some r) (he : e = .sendFail ∨ e = .recvFail) :
    Watchful ({ t with replicator := r }.setFlag j) := by
  have hmoves : Watchful { t with replicator := r } := by
    refine h.moves hr nofun fun k hk => ?_
    rcases he with rfl | rfl <;> cases hk
  obtain ⟨w, hw, rfl⟩ := Option.map_eq_some_iff.mp hr
  have hfail : (t.replicator.worker j).step .sendFail = some w ∨
      (t.replicator.worker j).step .recvFail = some w := by
    rcases he with rfl | rfl
    · exact Or.inl hw
    · exact Or.inr hw
  obtain ⟨hbusy, hexiting⟩ := ServerWorker.stage_of_fail hfail
  have hawake : (t.sleeper j).phase = .awake := by
    by_contra hphase
    exact hbusy ((h.worker j).waiting hphase)
  refine hmoves.set rfl (fun k hk => ⟨rfl, rfl, setFlag_shutdown_of_ne hk⟩) ?_ hmoves.live
  rw [setFlag_shutdown]
  refine (h.worker j).exits ?_ hawake rfl
  show ((t.replicator.setWorker j w).worker j).stage = .exiting
  rw [ServerReplicator.setWorker_self]
  exact hexiting

/-- **One step.** -/
theorem Watchful.step (h : t.Watchful) {e : ThreadEvent n} (hs : t.step quorum e = some u) :
    u.Watchful := by
  cases effect_of_step hs with
  | replicator hr hpush hdequeue => exact h.moves hr hpush hdequeue
  | push hr => exact h.push hr
  | fail hr he => exact h.fail hr he
  | enter hidle => exact h.turn hidle
  | @resume j hwoken => exact h.turn ((h.worker j).waiting (by simp [hwoken]))
  | @wakeUp j s hwake =>
    refine h.set rfl (fun k hk => ⟨rfl, setSleeper_sleeper_of_ne hk _, rfl⟩) ?_ h.live
    rw [setSleeper_sleeper]
    exact (h.worker j).wakeUp hwake
  | @leave j htop hawake hflag =>
    refine h.set rfl (fun k hk => ⟨setWorker_worker_of_ne hk _, rfl, rfl⟩) ?_ ?_
    · show WorkerOk j t.closing _ (t.sleeper j) (t.shutdown j)
      rw [hflag, setStage, setWorker_worker]
      exact (h.worker j).exits rfl hawake rfl
    · have hlive := @live_setStage _ t j .exiting (by
        cases hstage : (t.replicator.worker j).stage <;> simp [hstage, LoopStage.AtTop] at htop ⊢)
      exact h.live.trans (congrArg Finset.card hlive.symm)
  | shutdown hfree =>
    refine h.close (fun j => ?_) (fun j hpassed => absurd (Finset.mem_univ j) hpassed) nofun
    cases hclosing : t.closing <;> simp [hclosing, Closing.Free] at hfree <;> rfl
  | @flag j todo hclosing =>
    refine ⟨fun k => ?_, h.live⟩
    show WorkerOk k (.notifying j (todo.erase j)) (t.replicator.worker k)
      (((t.setFlag j).setSleeper j _).sleeper k) ((t.setFlag j).shutdown k)
    have hk := h.worker k
    rw [hclosing] at hk
    by_cases hkj : k = j
    · subst hkj
      rw [setSleeper_sleeper, setFlag_shutdown]
      exact hk.shutdown rfl _
    · rw [setSleeper_sleeper_of_ne hkj, setFlag_shutdown_of_ne hkj]
      refine hk.close (if_neg fun hjk => hkj hjk.symm) (fun hpassed => hk.flagged ?_) nofun
      rcases hpassed with heq | hpassed
      · exact absurd heq hkj
      · exact fun htodo => hpassed (Finset.mem_erase.mpr ⟨hkj, htodo⟩)
  | @notify j todo s hclosing hpay =>
    refine ⟨fun k => ?_, h.live⟩
    show WorkerOk k (.flagging todo) (t.replicator.worker k) ((t.setSleeper j s).sleeper k)
      (t.shutdown k)
    have hk := h.worker k
    rw [hclosing] at hk
    by_cases hkj : k = j
    · subst hkj
      rw [setSleeper_sleeper]
      exact hk.notify (hk.flagged (Or.inl rfl)) hpay
    · rw [setSleeper_sleeper_of_ne hkj]
      refine hk.close (if_neg fun hjk => hkj hjk.symm).symm (fun hpassed => ?_) nofun
      exact hk.flagged (Or.inr hpassed)
  | flagged hclosing =>
    refine h.close (fun j => by rw [hclosing]; rfl) (fun j _ => (h.worker j).flagged ?_) nofun
    rw [hclosing]
    exact Finset.notMem_empty j
  | join hclosing | joined hclosing =>
    refine h.close (fun j => by rw [hclosing]; rfl) (fun j _ => (h.worker j).flagged ?_) nofun
    rw [hclosing]
    trivial

theorem watchful_of_reach (h : (replicatorThreads n quorum).Reach t) : t.Watchful :=
  h.invariant Watchful watchful_init fun _ _ _ _ hwatchful _ hs => hwatchful.step hs

/-! ## Before `shutdown` is called -/

theorem Watchful.flag_of_idle (h : t.Watchful) (hopen : t.closing = .none) {j : Fin n}
    (hidle : (t.replicator.worker j).stage = .idle) : t.shutdown j = false := by
  by_contra hflag
  have hended := (h.worker j).ended hopen (by simpa using hflag)
  rw [hidle] at hended
  rcases hended with hended | hended <;> cases hended

/-- A worker with the mutex of its queue dequeues, or sleeps. -/
theorem turn_of_open {j : Fin n} (hflag : t.shutdown j = false)
    (hidle : (t.replicator.worker j).stage = .idle) :
    (t.replicator.worker j).queue = [] ∧ (t.turn j).replicator = t.replicator ∨
      t.replicator.step quorum (.work j .dequeue) = some (t.turn j).replicator := by
  unfold turn
  rw [hflag, if_neg Bool.false_ne_true]
  split
  · rename_i hqueue
    exact Or.inl ⟨hqueue, rfl⟩
  · rename_i item queue hqueue
    refine Or.inr ?_
    simp only [ServerReplicator.step, ServerWorker.step, hidle, hqueue]
    rfl

@[simp] theorem turn_closing (t : ReplicatorThreads n) (j : Fin n) :
    (t.turn j).closing = t.closing := by
  unfold turn
  split
  · rfl
  · split <;> rfl

/-- **One step** before `shutdown` is called is a step of the replicator, or none. -/
theorem Watchful.step_open (h : t.Watchful) {e : ThreadEvent n} (hs : t.step quorum e = some u)
    (hopen : u.closing = .none) :
    t.closing = .none ∧ (u.replicator = t.replicator ∨
      ∃ d, t.replicator.step quorum d = some u.replicator) := by
  have hturn : ∀ j, (t.replicator.worker j).stage = .idle → (t.turn j).closing = .none →
      t.closing = .none ∧ ((t.turn j).replicator = t.replicator ∨
        ∃ d, t.replicator.step quorum d = some (t.turn j).replicator) := by
    intro j hidle hopen
    rw [turn_closing] at hopen
    refine ⟨hopen, ?_⟩
    rcases @turn_of_open _ quorum _ j (h.flag_of_idle hopen hidle) hidle with ⟨-, hsame⟩ | hd
    · exact Or.inl hsame
    · exact Or.inr ⟨_, hd⟩
  cases effect_of_step hs with
  | replicator hr | push hr | fail hr => exact ⟨hopen, Or.inr ⟨_, hr⟩⟩
  | @enter j hidle => exact hturn j hidle hopen
  | @resume j hwoken => exact hturn j ((h.worker j).waiting (by simp [hwoken])) hopen
  | wakeUp => exact ⟨hopen, Or.inl rfl⟩
  | @leave j htop _ hflag =>
    -- only `shutdown` sets the flag of a worker at the top of a loop
    rcases (h.worker j).ended hopen hflag with hended | hended
    all_goals
      rw [hended] at htop
      cases htop
  | shutdown | flag | notify | flagged | join | joined => cases hopen

theorem reach_of_open (h : (replicatorThreads n quorum).Reach t) (hopen : t.closing = .none) :
    (serverReplicator n quorum).Reach t.replicator := by
  revert hopen
  refine h.invariant (fun t => t.closing = .none → (serverReplicator n quorum).Reach t.replicator)
    (fun _ => .init) ?_
  intro s e v hreach ih _ hs hopen
  obtain ⟨hbefore, hsame | ⟨d, hd⟩⟩ := (watchful_of_reach hreach).step_open hs hopen
  · rw [hsame]
    exact ih hbefore
  · exact .step (ih hbefore) trivial hd

/-- A worker that may dequeue does so with its next turn. -/
theorem Watchful.dequeues (h : t.Watchful) (hopen : t.closing = .none) {j : Fin n}
    {r : ServerReplicator n} (hr : t.replicator.step quorum (.work j .dequeue) = some r) :
    (t.turn j).replicator = r ∧
      (t.step quorum (.enter j) = some (t.turn j) ∨
        t.step quorum (.resume j) = some (t.turn j)) := by
  obtain ⟨w, hw, rfl⟩ := Option.map_eq_some_iff.mp hr
  obtain ⟨hidle, hqueue⟩ : (t.replicator.worker j).stage = .idle ∧
      (t.replicator.worker j).queue ≠ [] := by
    simp only [ServerWorker.step] at hw
    split at hw <;> cases hw
    rename_i hstage hqueue
    exact ⟨hstage, by simp [hqueue]⟩
  have hok := h.worker j
  constructor
  · rcases @turn_of_open _ quorum _ j (h.flag_of_idle hopen hidle) hidle with
      ⟨hnone, -⟩ | hturn
    · exact absurd hnone hqueue
    · exact Option.some.inj (hturn.symm.trans hr)
  · cases hphase : (t.sleeper j).phase with
    | awake => exact Or.inl (if_pos ⟨hidle, hphase⟩)
    | woken => exact Or.inr (if_pos hphase)
    | asleep =>
      -- it would sleep through the item
      have hpos := hok.justified hphase (Or.inl hqueue)
      rw [hok.owed, hopen] at hpos
      exact absurd hpos (Nat.lt_irrefl 0)

/-- **The threads are those of the replicator.** Until `shutdown` is called, the threads with their
condition variables have taken the steps of `serverReplicator`, and each step that it can take next
is possible for a thread: no worker sleeps through an item of its queue. -/
theorem threads_refine (h : (replicatorThreads n quorum).Reach t) (hopen : t.closing = .none) :
    (serverReplicator n quorum).Reach t.replicator ∧
    ∀ e r, t.replicator.step quorum e = some r →
      ∃ d u, t.step quorum d = some u ∧ u.replicator = r ∧ u.closing = .none := by
  refine ⟨reach_of_open h hopen, fun e r hr => ?_⟩
  by_cases hdequeue : ∃ j, e = .work j .dequeue
  · obtain ⟨j, rfl⟩ := hdequeue
    obtain ⟨hsame, henter | hresume⟩ := (watchful_of_reach h).dequeues hopen hr
    · exact ⟨_, _, henter, hsame, by rw [turn_closing, hopen]⟩
    · exact ⟨_, _, hresume, hsame, by rw [turn_closing, hopen]⟩
  · obtain ⟨u, hu⟩ : ∃ u, t.replicatorStep quorum e = some u := by
      unfold replicatorStep
      rw [hr, Option.bind_some]
      cases e with
      | replicateBytes frame =>
        dsimp only
        rw [hopen]
        exact ⟨_, rfl⟩
      | work j e =>
        cases e with
        | dequeue => exact absurd ⟨j, rfl⟩ hdequeue
        | connect | send | sendFail | reply | recv | recvFail => exact ⟨_, rfl⟩
      | push j | pushed | pollAcks | pollLive | count j | exit j => exact ⟨_, rfl⟩
    refine ⟨.replicator e, u, hu, ?_⟩
    cases effect_of_replicatorStep hu with
    | replicator hr' | push hr' | fail hr' => exact ⟨Option.some.inj (hr'.symm.trans hr), hopen⟩

/-- A worker that has fallen asleep, and is notified of the first item. -/
def notified : List (ThreadEvent 1) :=
  [.replicator (.work 0 .connect), .enter 0, .replicator (.replicateBytes ⟨0, 1, .skip⟩),
    .replicator (.push 0)]

theorem threads_refine_notified : ∃ t : ReplicatorThreads 1, (t.sleeper 0).phase = .woken ∧
    (serverReplicator 1 1).Reach t.replicator ∧
    ∃ r d u, t.replicator.step 1 (.work 0 .dequeue) = some r ∧ t.step 1 d = some u ∧
      u.replicator = r := by
  have hrun : ((replicatorThreads 1 1).run notified .init).any (fun t =>
      t.closing = .none ∧ (t.sleeper 0).phase = .woken ∧
        (t.replicator.step 1 (.work 0 .dequeue)).isSome) = true := by
    decide
  obtain ⟨t, hreach, ht⟩ := (replicatorThreads 1 1).exists_reach_of_run hrun
  obtain ⟨hopen, hwoken, hr⟩ := of_decide_eq_true ht
  obtain ⟨r, hr⟩ := Option.isSome_iff_exists.mp hr
  obtain ⟨hrefines, hsteps⟩ := threads_refine hreach hopen
  obtain ⟨d, u, hstep, hsame, -⟩ := hsteps _ r hr
  exact ⟨t, hwoken, hrefines, r, d, u, hr, hstep, hsame⟩

end ReplicatorThreads

end Ziplog
