import Ziplog.Api.Types
import Ziplog.Library.Multicast
import Ziplog.Library.Sleeper

/-!
# The subscriber broadcaster

A worker for each subscriber with a queue, a condition variable and a flag. `broadcast` holds `mu_`
while it goes over the workers; it gives the mutex of a queue back before it notifies the worker.
`add_subscriber` puts the worker into the map with `mu_` in hand and starts its thread behind that.
`shutdown` sets the flags and notifies in the same way as `broadcast`, and joins. A worker sets its
own flag when its connection fails.

Whatever the workers do meanwhile, the broadcasts are atomic: each subscriber gets the broadcasts
that follow its `add_subscriber`, all in the same order, and no worker sleeps through one
(`broadcasts_ordered`).
-/

namespace Ziplog

/-- Where the thread of a worker is. At `created` it has not been started. -/
inductive BroadcastStage
  | created
  | top
  | taken (wire : List UInt8)
  | awaiting
  | ended
  deriving DecidableEq

/-- What the thread does that has `mu_`. The worker that it will notify next is `pending`. -/
inductive BroadcasterHolder (ι : Type)
  | free
  | broadcasting (pending : Option ι)
  | flagging (pending : Option ι) (todo : Finset ι)
  | joining (todo : Finset ι)
  deriving DecidableEq

/-- The broadcaster. A worker without a queue is not in the map. -/
structure SubscriberBroadcaster (ι : Type) where
  queues : Multicast ι (List UInt8)
  sleeper : ι → Sleeper
  shutdown : ι → Bool
  stage : ι → BroadcastStage
  holder : BroadcasterHolder ι

inductive BroadcasterEvent (ι : Type)
  | broadcast (wire : List UInt8)
  | push (j : ι)
  | notify
  | broadcasted
  | addSubscriber (j : ι)
  | startThread (j : ι)
  /-- A worker at the top of its loop takes the mutex of its queue. -/
  | enter (j : ι)
  /-- A woken worker has the mutex again. -/
  | resume (j : ι)
  /-- A worker leaves `wait` without being notified. -/
  | wakeUp (j : ι)
  /-- A worker finds its flag set in the condition of the loop. -/
  | leave (j : ι)
  | send (j : ι)
  | recv (j : ι)
  /-- The pool has no connection, or the send or the receive of the ack fails. -/
  | fail (j : ι)
  | shutdown
  | flag (j : ι)
  | flagged
  | join (j : ι)
  | joined

/-- The worker that the holder of `mu_` will notify next. -/
def BroadcasterHolder.pending? {ι : Type} : BroadcasterHolder ι → Option ι
  | .broadcasting pending | .flagging pending _ => pending
  | .free | .joining _ => none

/-- The notification has been made. -/
def BroadcasterHolder.notified {ι : Type} : BroadcasterHolder ι → BroadcasterHolder ι
  | .broadcasting _ => .broadcasting none
  | .flagging _ todo => .flagging none todo
  | holder => holder

namespace SubscriberBroadcaster

variable {ι : Type} [DecidableEq ι] [Fintype ι]

def init : SubscriberBroadcaster ι :=
  ⟨.init, fun _ => .init, fun _ => false, fun _ => .created, .free⟩

def setSleeper (t : SubscriberBroadcaster ι) (j : ι) (s : Sleeper) : SubscriberBroadcaster ι :=
  { t with sleeper := Function.update t.sleeper j s }

def setFlag (t : SubscriberBroadcaster ι) (j : ι) (flag : Bool) : SubscriberBroadcaster ι :=
  { t with shutdown := Function.update t.shutdown j flag }

def setStage (t : SubscriberBroadcaster ι) (j : ι) (stage : BroadcastStage) :
    SubscriberBroadcaster ι :=
  { t with stage := Function.update t.stage j stage }

/-- The worker has the mutex of its queue in `wait`, or before it. -/
def turn (t : SubscriberBroadcaster ι) (j : ι) : SubscriberBroadcaster ι :=
  if t.shutdown j then (t.setStage j .ended).setSleeper j (t.sleeper j).rise
  else match t.queues.queue j, t.queues.step (.take j) with
    | some (wire :: _), some queues =>
      ({ t with queues := queues }.setStage j (.taken wire)).setSleeper j (t.sleeper j).rise
    | _, _ => t.setSleeper j (t.sleeper j).sleep

def step (t : SubscriberBroadcaster ι) : BroadcasterEvent ι → Option (SubscriberBroadcaster ι)
  | .broadcast wire =>
    match t.holder with
    | .free => (t.queues.step (.start wire)).map fun queues =>
        { t with queues := queues, holder := .broadcasting none }
    | _ => none
  | .push j =>
    match t.holder with
    | .broadcasting none => (t.queues.step (.push j)).map fun queues =>
        { t.setSleeper j (t.sleeper j).owe with
          queues := queues, holder := .broadcasting (some j) }
    | _ => none
  | .notify =>
    match t.holder.pending? with
    | some j => (t.sleeper j).pay.map fun s =>
        { t.setSleeper j s with holder := t.holder.notified }
    | none => none
  | .broadcasted =>
    match t.holder with
    | .broadcasting none => (t.queues.step .finish).map fun queues =>
        { t with queues := queues, holder := .free }
    | _ => none
  | .addSubscriber j =>
    match t.holder with
    | .free => (t.queues.step (.join j)).map fun queues =>
        { ((t.setSleeper j .init).setFlag j false).setStage j .created with queues := queues }
    | _ => none
  | .startThread j =>
    if (t.queues.queue j).isSome ∧ t.stage j = .created then some (t.setStage j .top) else none
  | .enter j =>
    if t.stage j = .top ∧ (t.sleeper j).phase = .awake then some (t.turn j) else none
  | .resume j => if (t.sleeper j).phase = .woken then some (t.turn j) else none
  | .wakeUp j => (t.sleeper j).wakeUp.map (t.setSleeper j)
  | .leave j =>
    if t.stage j = .top ∧ (t.sleeper j).phase = .awake ∧ t.shutdown j then
      some (t.setStage j .ended)
    else none
  | .send j =>
    match t.stage j with
    | .taken _ => some (t.setStage j .awaiting)
    | _ => none
  | .recv j =>
    match t.stage j with
    | .awaiting => some (t.setStage j .top)
    | _ => none
  | .fail j =>
    match t.stage j with
    | .taken _ | .awaiting => some ((t.setStage j .ended).setFlag j true)
    | _ => none
  | .shutdown =>
    match t.holder with
    | .free => some { t with holder := .flagging none t.queues.readers }
    | _ => none
  | .flag j =>
    match t.holder with
    | .flagging none todo =>
      if j ∈ todo then
        some { (t.setFlag j true).setSleeper j (t.sleeper j).owe with
          holder := .flagging (some j) (todo.erase j) }
      else none
    | _ => none
  | .flagged =>
    match t.holder with
    | .flagging none todo =>
      if todo = ∅ then some { t with holder := .joining t.queues.readers } else none
    | _ => none
  | .join j =>
    match t.holder with
    | .joining todo =>
      -- a thread that has not been started cannot be joined
      if j ∈ todo ∧ (t.stage j = .ended ∨ t.stage j = .created) then
        some { t with holder := .joining (todo.erase j) }
      else none
    | _ => none
  | .joined =>
    match t.holder with
    | .joining todo => if todo = ∅ then some { t with holder := .free } else none
    | _ => none

end SubscriberBroadcaster

def subscriberBroadcaster (ι : Type) [DecidableEq ι] [Fintype ι] :
    Lts (SubscriberBroadcaster ι) (BroadcasterEvent ι) :=
  ⟨.init, SubscriberBroadcaster.step⟩

namespace SubscriberBroadcaster

/-! ## What a step can do -/

section

variable {ι : Type} [DecidableEq ι] [Fintype ι] {t u : SubscriberBroadcaster ι}

/-- The state after a step, with what the step found. -/
inductive Effect (t : SubscriberBroadcaster ι) : SubscriberBroadcaster ι → Prop
  | broadcast {wire : List UInt8} {queues : Multicast ι (List UInt8)} (hfree : t.holder = .free)
      (hq : t.queues.step (.start wire) = some queues) :
      Effect t { t with queues := queues, holder := .broadcasting none }
  | push {j : ι} {queues : Multicast ι (List UInt8)} (hholder : t.holder = .broadcasting none)
      (hq : t.queues.step (.push j) = some queues) :
      Effect t { t.setSleeper j (t.sleeper j).owe with
        queues := queues, holder := .broadcasting (some j) }
  | notify {j : ι} {s : Sleeper} (hpending : t.holder.pending? = some j)
      (hs : (t.sleeper j).pay = some s) :
      Effect t { t.setSleeper j s with holder := t.holder.notified }
  | broadcasted {queues : Multicast ι (List UInt8)} (hholder : t.holder = .broadcasting none)
      (hq : t.queues.step .finish = some queues) :
      Effect t { t with queues := queues, holder := .free }
  | addSubscriber {j : ι} {queues : Multicast ι (List UInt8)} (hfree : t.holder = .free)
      (hq : t.queues.step (.join j) = some queues) :
      Effect t
        { ((t.setSleeper j .init).setFlag j false).setStage j .created with queues := queues }
  | turn {j : ι} (htop : t.stage j = .top ∨ (t.sleeper j).phase = .woken) : Effect t (t.turn j)
  | wakeUp {j : ι} {s : Sleeper} (hs : (t.sleeper j).wakeUp = some s) : Effect t (t.setSleeper j s)
  | move {j : ι} {stage : BroadcastStage} (hout : t.stage j ≠ .top ∨ (t.sleeper j).phase = .awake) :
      Effect t (t.setStage j stage)
  | fail {j : ι} (hout : t.stage j ≠ .top) : Effect t ((t.setStage j .ended).setFlag j true)
  | flag {j : ι} {todo : Finset ι} (hholder : t.holder = .flagging none todo) :
      Effect t { (t.setFlag j true).setSleeper j (t.sleeper j).owe with
        holder := .flagging (some j) (todo.erase j) }
  | close {holder : BroadcasterHolder ι} (hpending : t.holder.pending? = none)
      (hpending' : holder.pending? = none) (hholder : ∀ p, t.holder ≠ .broadcasting p)
      (hholder' : ∀ p, holder ≠ .broadcasting p) : Effect t { t with holder := holder }

theorem effect_of_step {e : BroadcasterEvent ι} (hs : t.step e = some u) : Effect t u := by
  cases e with
  | broadcast wire =>
    simp only [SubscriberBroadcaster.step] at hs
    split at hs
    · obtain ⟨queues, hq, rfl⟩ := Option.map_eq_some_iff.mp hs
      exact .broadcast (by assumption) hq
    · cases hs
  | push j =>
    simp only [SubscriberBroadcaster.step] at hs
    split at hs
    · obtain ⟨queues, hq, rfl⟩ := Option.map_eq_some_iff.mp hs
      exact .push (by assumption) hq
    · cases hs
  | notify =>
    simp only [SubscriberBroadcaster.step] at hs
    split at hs
    · obtain ⟨s, hpay, rfl⟩ := Option.map_eq_some_iff.mp hs
      exact .notify (by assumption) hpay
    · cases hs
  | broadcasted =>
    simp only [SubscriberBroadcaster.step] at hs
    split at hs
    · obtain ⟨queues, hq, rfl⟩ := Option.map_eq_some_iff.mp hs
      exact .broadcasted (by assumption) hq
    · cases hs
  | addSubscriber j =>
    simp only [SubscriberBroadcaster.step] at hs
    split at hs
    · obtain ⟨queues, hq, rfl⟩ := Option.map_eq_some_iff.mp hs
      exact .addSubscriber (by assumption) hq
    · cases hs
  | startThread j =>
    simp only [SubscriberBroadcaster.step] at hs
    split_ifs at hs with hcreated
    cases hs
    exact .move (Or.inl (by simp [hcreated.2]))
  | enter j =>
    simp only [SubscriberBroadcaster.step] at hs
    split_ifs at hs with htop
    cases hs
    exact .turn (Or.inl htop.1)
  | resume j =>
    simp only [SubscriberBroadcaster.step] at hs
    split_ifs at hs with hwoken
    cases hs
    exact .turn (Or.inr hwoken)
  | wakeUp j =>
    obtain ⟨s, hwake, rfl⟩ := Option.map_eq_some_iff.mp hs
    exact .wakeUp hwake
  | leave j =>
    simp only [SubscriberBroadcaster.step] at hs
    split_ifs at hs with hleave
    cases hs
    exact .move (Or.inr hleave.2.1)
  | send j | recv j =>
    simp only [SubscriberBroadcaster.step] at hs
    split at hs <;> cases hs
    rename_i hstage
    exact .move (Or.inl (by simp [hstage]))
  | fail j =>
    simp only [SubscriberBroadcaster.step] at hs
    split at hs <;> cases hs
    all_goals
      rename_i hstage
      exact .fail (by simp [hstage])
  | shutdown =>
    simp only [SubscriberBroadcaster.step] at hs
    split at hs <;> cases hs
    rename_i hfree
    exact .close (by rw [hfree]; rfl) rfl (by simp [hfree]) nofun
  | flag j =>
    simp only [SubscriberBroadcaster.step] at hs
    split at hs <;> try split_ifs at hs
    all_goals cases hs
    exact .flag (by assumption)
  | flagged | join j | joined =>
    simp only [SubscriberBroadcaster.step] at hs
    split at hs <;> try split_ifs at hs
    all_goals cases hs
    rename_i hholder _
    exact .close (by rw [hholder]; rfl) rfl (by simp [hholder]) nofun

end

/-! ## The invariant -/

variable {ι : Type} [DecidableEq ι] {t u : SubscriberBroadcaster ι}

/-- The worker may go on: its queue holds a wire, or its flag is set. -/
def Ready (t : SubscriberBroadcaster ι) (j : ι) : Prop :=
  (∃ wire rest, t.queues.queue j = some (wire :: rest)) ∨ t.shutdown j = true

/-- How often the holder of `mu_` is still to notify the worker. -/
def owes (t : SubscriberBroadcaster ι) (j : ι) : ℕ := if t.holder.pending? = some j then 1 else 0

/-- What holds of one worker in every state. -/
structure WorkerOk (t : SubscriberBroadcaster ι) (j : ι) : Prop where
  justified : (t.sleeper j).Justified (t.Ready j)
  waiting : (t.sleeper j).phase ≠ .awake → t.stage j = .top
  owed : (t.sleeper j).owed = t.owes j

structure Watchful (t : SubscriberBroadcaster ι) : Prop where
  worker : ∀ j, t.WorkerOk j
  held : t.queues.writing.isSome = true ↔ ∃ p, t.holder = .broadcasting p

theorem watchful_init : (init : SubscriberBroadcaster ι).Watchful where
  worker := fun _ =>
    { justified := Sleeper.justified_of_ne nofun
      waiting := fun hphase => absurd rfl hphase
      owed := rfl }
  held := ⟨nofun, fun ⟨_, h⟩ => nomatch h⟩

/-- A worker that the step leaves alone. -/
theorem WorkerOk.frame {j : ι} (h : t.WorkerOk j) (hqueue : u.queues.queue j = t.queues.queue j)
    (hsleeper : u.sleeper j = t.sleeper j) (hflag : u.shutdown j = t.shutdown j)
    (hstage : u.stage j = t.stage j) (howes : u.owes j = t.owes j) : u.WorkerOk j where
  justified := by
    rw [hsleeper]
    refine h.justified.mono fun hready => ?_
    rwa [Ready, hqueue, hflag] at hready
  waiting := by
    rw [hsleeper, hstage]
    exact h.waiting
  owed := by
    rw [hsleeper, howes]
    exact h.owed

/-- A worker outside `wait`. -/
theorem workerOk_awake {j : ι} (hphase : (t.sleeper j).phase = .awake)
    (howed : (t.sleeper j).owed = t.owes j) : t.WorkerOk j where
  justified := Sleeper.justified_of_ne (by simp [hphase])
  waiting := fun hout => absurd hphase hout
  owed := howed

theorem WorkerOk.phase_of_stage {j : ι} (h : t.WorkerOk j) (hstage : t.stage j ≠ .top) :
    (t.sleeper j).phase = .awake := by
  by_contra hphase
  exact hstage (h.waiting hphase)

theorem owes_of_none (h : t.holder.pending? = none) (j : ι) : t.owes j = 0 := by
  unfold owes
  rw [h]
  exact if_neg nofun

theorem owes_of_some {j : ι} (h : t.holder.pending? = some j) (k : ι) :
    t.owes k = if k = j then 1 else 0 := by
  unfold owes
  rw [h]
  simp only [Option.some.injEq, eq_comm]

/-- The holder of `mu_` owes the worker a notification. -/
theorem WorkerOk.owe {j : ι} (h : t.WorkerOk j) (hpending : t.holder.pending? = none)
    (hsleeper : u.sleeper j = (t.sleeper j).owe) (hstage : u.stage j = t.stage j)
    (howes : u.owes j = 1) : u.WorkerOk j where
  justified := by
    rw [hsleeper]
    exact Sleeper.justified_owe _
  waiting := by
    rw [hsleeper, hstage]
    exact h.waiting
  owed := by
    rw [hsleeper, howes]
    show (t.sleeper j).owed + 1 = 1
    rw [h.owed, owes_of_none hpending]

variable [Fintype ι]

theorem WorkerOk.turn {j : ι} (h : t.WorkerOk j) (htop : t.stage j = .top) :
    (t.turn j).WorkerOk j := by
  unfold SubscriberBroadcaster.turn
  split_ifs with hflag
  · refine workerOk_awake ?_ ?_
    all_goals simp only [setSleeper, setStage, Function.update_self]
    · rfl
    · exact h.owed
  · split
    · refine workerOk_awake ?_ ?_
      all_goals simp only [setSleeper, setStage, Function.update_self]
      · rfl
      · exact h.owed
    · rename_i hnone
      refine ⟨?_, fun _ => htop, ?_⟩
      · simp only [setSleeper, Function.update_self]
        refine Sleeper.justified_sleep ?_
        rintro (⟨wire, rest, hqueue⟩ | hshutdown)
        · obtain ⟨queues, hq⟩ : ∃ queues, t.queues.step (.take j) = some queues := by
            have hqueue' : t.queues.queue j = some (wire :: rest) := hqueue
            simp only [Multicast.step, hqueue']
            exact ⟨_, rfl⟩
          exact hnone wire rest queues hqueue hq
        · exact hflag hshutdown
      · simp only [setSleeper, Function.update_self]
        exact h.owed

/-- A worker takes the first wire of its queue, or none. -/
theorem turn_queues (t : SubscriberBroadcaster ι) (j : ι) :
    (t.turn j).queues = t.queues ∨ t.queues.step (.take j) = some (t.turn j).queues := by
  unfold turn
  split
  · exact Or.inl rfl
  · split
    · rename_i hq
      exact Or.inr hq
    · exact Or.inl rfl

/-- A turn of one worker leaves the others alone. -/
theorem turn_other (t : SubscriberBroadcaster ι) {j k : ι} (hk : k ≠ j) :
    (t.turn j).sleeper k = t.sleeper k ∧ (t.turn j).shutdown k = t.shutdown k ∧
      (t.turn j).stage k = t.stage k := by
  unfold turn
  split
  · exact ⟨Function.update_of_ne hk .., rfl, Function.update_of_ne hk ..⟩
  · split
    · exact ⟨Function.update_of_ne hk .., rfl, Function.update_of_ne hk ..⟩
    · exact ⟨Function.update_of_ne hk .., rfl, rfl⟩

@[simp] theorem turn_holder (t : SubscriberBroadcaster ι) (j : ι) :
    (t.turn j).holder = t.holder := by
  unfold turn
  split
  · rfl
  · split <;> rfl

/-- **One step.** -/
theorem Watchful.step (h : t.Watchful) {e : BroadcasterEvent ι} (hs : t.step e = some u) :
    u.Watchful := by
  cases effect_of_step hs with
  | @broadcast wire queues hfree hq =>
    have hpending : t.holder.pending? = none := by rw [hfree]; rfl
    refine ⟨fun k => ?_, ?_⟩
    · refine (h.worker k).frame (Multicast.queue_of_step hq nofun nofun nofun) rfl rfl rfl ?_
      rw [owes_of_none hpending]
      exact owes_of_none rfl k
    · rw [Multicast.writing_of_step hq]
      exact ⟨fun _ => ⟨_, rfl⟩, fun _ => rfl⟩
  | @push j queues hholder hq =>
    have hpending : t.holder.pending? = none := by rw [hholder]; rfl
    refine ⟨fun k => ?_, ?_⟩
    · by_cases hk : k = j
      · subst hk
        refine (h.worker k).owe hpending (Function.update_self ..) rfl ?_
        rw [owes_of_some rfl, if_pos rfl]
      · refine (h.worker k).frame (Multicast.queue_of_step hq ?_ nofun nofun)
          (Function.update_of_ne hk ..) rfl rfl ?_
        · rintro ⟨⟩
          exact hk rfl
        · rw [owes_of_none hpending, owes_of_some rfl, if_neg hk]
    · rw [Multicast.writing_of_step hq]
      exact ⟨fun _ => ⟨_, rfl⟩, fun _ => rfl⟩
  | @notify j s hpending hpay =>
    obtain ⟨hpos, hphase, howed⟩ := Sleeper.eq_of_pay hpay
    have hnone : t.holder.notified.pending? = none := by
      cases hholder : t.holder <;> rfl
    refine ⟨fun k => ?_, ?_⟩
    · by_cases hk : k = j
      · subst hk
        have hsleeper : (t.setSleeper k s).sleeper k = s := Function.update_self ..
        have hk := h.worker k
        refine ⟨?_, ?_, ?_⟩
        · refine Sleeper.justified_of_ne ?_
          rw [hsleeper, hphase]
          exact Sleeper.notify_phase_ne _
        · rw [hsleeper, hphase, ne_eq, Sleeper.notify_awake_iff]
          exact hk.waiting
        · rw [hsleeper, howed, hk.owed, owes_of_some hpending, if_pos rfl, owes_of_none hnone]
      · refine (h.worker k).frame rfl (Function.update_of_ne hk ..) rfl rfl ?_
        rw [owes_of_some hpending, if_neg hk, owes_of_none hnone]
    · refine h.held.trans ?_
      cases hholder : t.holder <;> simp [BroadcasterHolder.notified]
  | @broadcasted queues hholder hq =>
    refine ⟨fun k => ?_, ?_⟩
    · refine (h.worker k).frame (Multicast.queue_of_step hq nofun nofun nofun) rfl rfl rfl ?_
      rw [owes_of_none rfl, owes_of_none (by rw [hholder]; rfl)]
    · rw [Multicast.writing_of_step hq]
      exact ⟨nofun, fun ⟨_, hp⟩ => nomatch hp⟩
  | @addSubscriber j queues hfree hq =>
    have hnone : t.holder.pending? = none := by rw [hfree]; rfl
    refine ⟨fun k => ?_, ?_⟩
    · by_cases hk : k = j
      · subst hk
        have hsleeper : (t.setSleeper k .init).sleeper k = .init := Function.update_self ..
        refine workerOk_awake ?_ ?_
        · exact congrArg Sleeper.phase hsleeper
        · exact (congrArg Sleeper.owed hsleeper).trans (owes_of_none hnone k).symm
      · refine (h.worker k).frame (Multicast.queue_of_step hq nofun ?_ nofun)
          (Function.update_of_ne hk ..) (Function.update_of_ne hk ..)
          (Function.update_of_ne hk ..) rfl
        rintro ⟨⟩
        exact hk rfl
    · rw [Multicast.writing_of_step hq]
      refine ⟨nofun, fun ⟨p, hp⟩ => ?_⟩
      exact nomatch hfree.symm.trans hp
  | @turn j hat =>
    have htop : t.stage j = .top :=
      hat.elim id fun hwoken => (h.worker j).waiting (by simp [hwoken])
    refine ⟨fun k => ?_, ?_⟩
    · by_cases hk : k = j
      · rw [hk]
        exact (h.worker j).turn htop
      · obtain ⟨hsleeper, hflag, hstage⟩ := t.turn_other hk
        refine (h.worker k).frame ?_ hsleeper hflag hstage (by rw [owes, turn_holder]; rfl)
        rcases t.turn_queues j with hsame | htake
        · rw [hsame]
        · refine Multicast.queue_of_step htake nofun nofun ?_
          rintro ⟨⟩
          exact hk rfl
    · rw [turn_holder]
      rcases t.turn_queues j with hsame | htake
      · rw [hsame]
        exact h.held
      · rw [Multicast.writing_of_step htake]
        exact h.held
  | @wakeUp j s hwake =>
    obtain ⟨hasleep, rfl⟩ := Sleeper.eq_of_wakeUp hwake
    refine ⟨fun k => ?_, h.held⟩
    by_cases hk : k = j
    · subst hk
      have hsleeper : (t.setSleeper k { t.sleeper k with phase := .woken }).sleeper k =
          { t.sleeper k with phase := .woken } := Function.update_self ..
      have hk := h.worker k
      refine ⟨?_, fun _ => hk.waiting (by simp [hasleep]), ?_⟩
      · refine Sleeper.justified_of_ne ?_
        rw [hsleeper]
        exact nofun
      · rw [hsleeper]
        exact hk.owed
    · exact (h.worker k).frame rfl (Function.update_of_ne hk ..) rfl rfl rfl
  | @move j stage hout =>
    refine ⟨fun k => ?_, h.held⟩
    by_cases hk : k = j
    · subst hk
      refine workerOk_awake ?_ (h.worker k).owed
      exact hout.elim (h.worker k).phase_of_stage id
    · exact (h.worker k).frame rfl rfl rfl (Function.update_of_ne hk ..) rfl
  | @fail j hout =>
    refine ⟨fun k => ?_, h.held⟩
    by_cases hk : k = j
    · subst hk
      exact workerOk_awake ((h.worker k).phase_of_stage hout) (h.worker k).owed
    · exact (h.worker k).frame rfl rfl (Function.update_of_ne hk ..) (Function.update_of_ne hk ..)
        rfl
  | @flag j todo hholder =>
    have hnone : t.holder.pending? = none := by rw [hholder]; rfl
    refine ⟨fun k => ?_, ?_⟩
    · by_cases hk : k = j
      · subst hk
        refine (h.worker k).owe hnone (Function.update_self ..) rfl ?_
        rw [owes_of_some rfl, if_pos rfl]
      · refine (h.worker k).frame rfl (Function.update_of_ne hk ..) (Function.update_of_ne hk ..)
          rfl ?_
        rw [owes_of_none hnone, owes_of_some rfl, if_neg hk]
    · refine h.held.trans ⟨fun ⟨p, hp⟩ => ?_, fun ⟨p, hp⟩ => nomatch hp⟩
      exact nomatch hholder.symm.trans hp
  | @close holder hpending hpending' hholder hholder' =>
    refine ⟨fun k => ?_, h.held.trans ⟨fun ⟨p, hp⟩ => ?_, fun ⟨p, hp⟩ => ?_⟩⟩
    · refine (h.worker k).frame rfl rfl rfl rfl ?_
      rw [owes_of_none hpending, owes_of_none hpending']
    · exact absurd hp (hholder p)
    · exact absurd hp (hholder' p)

theorem watchful_of_reach (h : (subscriberBroadcaster ι).Reach t) : t.Watchful :=
  h.invariant Watchful watchful_init fun _ _ _ _ hwatchful _ hs => hwatchful.step hs

/-! ## The queues -/

/-- **One step** of the threads is a step of the multicast, or none. -/
theorem queues_step {e : BroadcasterEvent ι} (hs : t.step e = some u) :
    u.queues = t.queues ∨ ∃ d, t.queues.step d = some u.queues := by
  cases effect_of_step hs with
  | broadcast _ hq | push _ hq | broadcasted _ hq | addSubscriber _ hq => exact Or.inr ⟨_, hq⟩
  | turn => exact (t.turn_queues _).imp id fun htake => ⟨_, htake⟩
  | notify | wakeUp | move | fail | flag | close => exact Or.inl rfl

theorem queues_reach (h : (subscriberBroadcaster ι).Reach t) :
    (multicast ι (List UInt8)).Reach t.queues := by
  refine h.abs queues rfl ?_
  intro s e u _ _ hs
  rcases queues_step hs with hsame | ⟨d, hd⟩
  · exact Or.inl hsame
  · exact Or.inr ⟨d, trivial, hd⟩

/-- **Broadcasts are atomic and ordered, and none is slept through.** In every run of the threads
that broadcast, add subscribers and shut the workers down, and of the workers, the queues are those
of an atomic multicast, with the wire in hand in all of them. While no thread has `mu_`, what a
worker has taken and what is in its queue are the broadcasts since it was added, in the order in
which all workers get them. A worker that sleeps while its queue holds a wire or its flag is set is
the one that the holder of `mu_` is about to notify. -/
theorem broadcasts_ordered (h : (subscriberBroadcaster ι).Reach t) :
    (atomicMulticast ι (List UInt8)).Reach t.queues.settle ∧
    (t.holder = .free → ∀ j q, t.queues.queue j = some q →
      t.queues.taken j ++ q = t.queues.sent.drop (t.queues.joined j)) ∧
    ∀ j, (t.sleeper j).phase = .asleep → t.Ready j → t.holder.pending? = some j := by
  have hwatchful := watchful_of_reach h
  have hatomic := Multicast.settle_reach (queues_reach h)
  refine ⟨hatomic, fun hfree j q hq => ?_, fun j hasleep hready => ?_⟩
  · have hidle : t.queues.writing = none := by
      rw [← Option.not_isSome_iff_eq_none, hwatchful.held, hfree]
      rintro ⟨p, ⟨⟩⟩
    rw [Multicast.settle_of_none hidle] at hatomic
    exact (Mailboxes.ordered_of_reach hatomic j q hq).2
  · have hpos := (hwatchful.worker j).justified hasleep hready
    rw [(hwatchful.worker j).owed, owes] at hpos
    by_contra hne
    rw [if_neg hne] at hpos
    exact absurd hpos (Nat.lt_irrefl 0)

/-- Two workers, the first of which wakes up and takes the wire before the second has got it. -/
def twoWorkers : List (BroadcasterEvent (Fin 2)) :=
  [.addSubscriber 0, .startThread 0, .enter 0, .broadcast [1], .push 0, .notify, .resume 0,
    .broadcasted, .addSubscriber 1, .broadcast [2], .push 0, .notify, .push 1, .notify,
    .broadcasted]

theorem broadcasts_ordered_two : ∃ t : SubscriberBroadcaster (Fin 2),
    t.queues.taken 0 ++ [[2]] = t.queues.sent.drop (t.queues.joined 0) ∧
      t.queues.taken 1 ++ [[2]] = t.queues.sent.drop (t.queues.joined 1) ∧
        t.queues.sent = [[1], [2]] := by
  have hrun : ((subscriberBroadcaster (Fin 2)).run twoWorkers .init).any (fun t =>
      t.holder = .free ∧ t.queues.queue 0 = some [[2]] ∧ t.queues.queue 1 = some [[2]] ∧
        t.queues.sent = [[1], [2]]) = true := by
    decide
  obtain ⟨t, hreach, ht⟩ := (subscriberBroadcaster (Fin 2)).exists_reach_of_run hrun
  obtain ⟨hfree, hfirst, hsecond, hsent⟩ := of_decide_eq_true ht
  have hordered := (broadcasts_ordered hreach).2.1 hfree
  exact ⟨t, hordered 0 _ hfirst, hordered 1 _ hsecond, hsent⟩

end SubscriberBroadcaster

end Ziplog
