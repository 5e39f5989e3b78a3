import Ziplog.Proxy.ReplicatorThreads

/-!
# The end of the server replicator

Once `shutdown` joins, all flags are set and all workers notified. From then on a worker that has
the mutex of its queue leaves its loop, so none falls asleep again, and the place of each worker
bounds the steps that it still takes. Only one that waits in `recv` depends on its server, or on the
failure of the connection. Other threads may call `replicate_bytes` meanwhile; the call waits for
`mu_`, or is already in its loop and reads that no worker is alive.
-/

namespace Ziplog

namespace ReplicatorThreads

variable {n quorum : ℕ} {t u : ReplicatorThreads n}

/-! ## No worker sleeps -/

/-- The steps of the thread of worker `j`. -/
def ofWorker (j : Fin n) : ThreadEvent n → Bool
  | .replicator e => e.ofThread j
  | .enter k | .resume k | .wakeUp k | .leave k => decide (k = j)
  | .shutdown | .flag _ | .notify | .flagged | .join _ | .joined => false

/-- The connection of a worker fails. -/
def Fails : ThreadEvent n → Bool
  | .replicator (.work _ .sendFail) | .replicator (.work _ .recvFail) => true
  | _ => false

/-- A bound for the steps that a worker still takes once its flag is set. -/
def stepsLeft (t : ReplicatorThreads n) (j : Fin n) : ℕ := (t.replicator.worker j).stage.left

/-- All flags are set and no worker sleeps. -/
structure Draining (t : ReplicatorThreads n) : Prop where
  watchful : t.Watchful
  flagged : ∀ j, t.shutdown j = true
  awake : ∀ j, (t.sleeper j).phase ≠ .asleep

theorem Watchful.draining (h : t.Watchful) {todo : Finset (Fin n)}
    (hjoin : t.closing = .joining todo) : t.Draining := by
  have hflagged : ∀ j, t.shutdown j = true := by
    intro j
    refine (h.worker j).flagged ?_
    rw [hjoin]
    trivial
  refine ⟨h, hflagged, fun j hasleep => ?_⟩
  have hpos := (h.worker j).justified hasleep (Or.inr (hflagged j))
  rw [(h.worker j).owed, hjoin] at hpos
  exact absurd hpos (Nat.lt_irrefl 0)

theorem setFlag_flagged (h : ∀ k, t.shutdown k = true) (j k : Fin n) :
    (t.setFlag j).shutdown k = true := by
  by_cases hk : k = j
  · rw [hk, setFlag_shutdown]
  · rw [setFlag_shutdown_of_ne hk]
    exact h k

theorem setSleeper_awake (h : ∀ k, (t.sleeper k).phase ≠ .asleep) (j : Fin n) {s : Sleeper}
    (hs : s.phase ≠ .asleep) (k : Fin n) : ((t.setSleeper j s).sleeper k).phase ≠ .asleep := by
  by_cases hk : k = j
  · rw [hk, setSleeper_sleeper]
    exact hs
  · rw [setSleeper_sleeper_of_ne hk]
    exact h k

/-- A worker with its flag set leaves its loop. -/
theorem turn_of_flag {j : Fin n} (hflag : t.shutdown j = true) :
    t.turn j = (t.setStage j .exiting).setSleeper j (t.sleeper j).rise := by
  unfold turn
  rw [hflag, if_pos rfl]

theorem Draining.step (h : t.Draining) {e : ThreadEvent n} (hs : t.step quorum e = some u) :
    u.Draining := by
  have hu := h.watchful.step hs
  have hturn : ∀ j, (t.turn j).Watchful → (t.turn j).Draining := by
    intro j hwatchful
    rw [turn_of_flag (h.flagged j)] at hwatchful ⊢
    exact ⟨hwatchful, h.flagged, setSleeper_awake (t := t.setStage j .exiting) h.awake j nofun⟩
  cases effect_of_step hs with
  | replicator => exact ⟨hu, h.flagged, h.awake⟩
  | @push j r =>
    exact ⟨hu, h.flagged, setSleeper_awake (t := { t with replicator := r }) h.awake j
      (Sleeper.notify_phase_ne _)⟩
  | @fail j _ r =>
    exact ⟨hu, setFlag_flagged (t := { t with replicator := r }) h.flagged j, h.awake⟩
  | enter | resume => exact hturn _ hu
  | @wakeUp j _ hwake => exact absurd (Sleeper.eq_of_wakeUp hwake).1 (h.awake j)
  | @flag j =>
    exact ⟨hu, setFlag_flagged h.flagged j, setSleeper_awake (t := t.setFlag j) h.awake j
      (h.awake j)⟩
  | notify _ hpay =>
    refine ⟨hu, h.flagged, setSleeper_awake h.awake _ ?_⟩
    rw [(Sleeper.eq_of_pay hpay).2.1]
    exact Sleeper.notify_phase_ne _
  | leave | shutdown | flagged | join | joined => exact ⟨hu, h.flagged, h.awake⟩

/-! ## The end of the workers -/

/-- A worker at the top of a loop leaves it. -/
theorem stepsLeft_setStage {j k : Fin n} (htop : 1 < t.stepsLeft k) :
    (if decide (k = j) then 1 else 0) + (t.setStage k .exiting).stepsLeft j ≤ t.stepsLeft j := by
  by_cases hk : k = j
  · subst hk
    have hleft : (t.setStage k .exiting).stepsLeft k = 1 := by
      rw [stepsLeft, setStage, setWorker_worker]
      rfl
    rw [hleft, decide_eq_true rfl, if_pos rfl]
    exact htop
  · rw [decide_eq_false hk, if_neg Bool.false_ne_true, Nat.zero_add]
    rw [stepsLeft, setStage, setWorker_worker_of_ne (Ne.symm hk)]
    exact le_rfl

/-- No step of the replicator gives a worker that does not dequeue more to do. -/
theorem stepsLeft_replicator {e : ReplicatorEvent n} {j : Fin n}
    (hr : t.replicator.step quorum e = some u.replicator) (hdequeue : e ≠ .work j .dequeue) :
    (if ofWorker j (.replicator e) then 1 else 0) + u.stepsLeft j ≤ t.stepsLeft j := by
  rw [ofWorker]
  split_ifs with he
  · rw [Nat.add_comm]
    exact ServerReplicator.left_of_step he hdequeue hr
  · rw [Nat.zero_add]
    rcases ServerReplicator.worker_of_step hr j with ⟨-, item, hitem⟩ | ⟨he, -⟩ | ⟨-, hmoves⟩
    · rw [stepsLeft, hitem]
      exact le_rfl
    · exact absurd he hdequeue
    · rcases hmoves.stage with hsame | ⟨-, -, hless, -⟩
      · rw [stepsLeft, hsame]
        exact le_rfl
      · exact le_of_lt hless

/-- **One step** once no worker sleeps. -/
theorem Draining.stepsLeft_step (h : t.Draining) (j : Fin n) {e : ThreadEvent n}
    (hs : t.step quorum e = some u) :
    (if ofWorker j e then 1 else 0) + u.stepsLeft j ≤ t.stepsLeft j := by
  have hturn : ∀ k, (t.replicator.worker k).stage = .idle →
      (if decide (k = j) then 1 else 0) + (t.turn k).stepsLeft j ≤ t.stepsLeft j := by
    intro k hidle
    rw [turn_of_flag (h.flagged k)]
    refine @stepsLeft_setStage _ t j k ?_
    simp [stepsLeft, hidle, LoopStage.left]
  cases effect_of_step hs with
  | replicator hr _ hdequeue => exact stepsLeft_replicator hr (hdequeue j)
  | push hr => exact stepsLeft_replicator hr (by rintro ⟨⟩)
  | fail hr he =>
    refine stepsLeft_replicator hr fun hk => ?_
    rcases he with rfl | rfl <;> cases hk
  | @enter k hidle => exact hturn k hidle
  | @resume k hwoken => exact hturn k ((h.watchful.worker k).waiting (by simp [hwoken]))
  | @wakeUp k _ hwake => exact absurd (Sleeper.eq_of_wakeUp hwake).1 (h.awake k)
  | @leave k htop =>
    refine @stepsLeft_setStage _ t j k ?_
    cases hstage : (t.replicator.worker k).stage <;>
      simp [hstage, LoopStage.AtTop] at htop <;> simp [stepsLeft, hstage, LoopStage.left]
  | shutdown | flag | notify | flagged | join | joined =>
    rw [ofWorker, if_neg Bool.false_ne_true, Nat.zero_add]
    exact le_rfl

/-- A worker that has not ended has a step of its own to take, and only in `recv` it may be that
nothing but the failure of its connection is one. -/
theorem Draining.exists_step (h : t.Draining) (quorum : ℕ) {j : Fin n}
    (hj : (t.replicator.worker j).stage ≠ .terminated) :
    ∃ e u, ofWorker j e = true ∧ t.step quorum e = some u ∧
      (Fails e = true → ∃ item, (t.replicator.worker j).stage = .awaiting item) := by
  have hok := h.watchful.worker j
  have hown : decide (j = j) = true := decide_eq_true rfl
  have hawake : (t.replicator.worker j).stage ≠ .idle → (t.sleeper j).phase = .awake := by
    intro hbusy
    by_contra hphase
    exact hbusy (hok.waiting hphase)
  cases hstage : (t.replicator.worker j).stage with
  | terminated => exact absurd hstage hj
  | connecting =>
    refine ⟨.leave j, _, hown, if_pos ⟨?_, hawake (by simp [hstage]), h.flagged j⟩, by rintro ⟨⟩⟩
    rw [hstage]
    rfl
  | idle =>
    cases hphase : (t.sleeper j).phase with
    | awake => exact ⟨.enter j, _, hown, if_pos ⟨hstage, hphase⟩, by rintro ⟨⟩⟩
    | woken => exact ⟨.resume j, _, hown, if_pos hphase, by rintro ⟨⟩⟩
    | asleep => exact absurd hphase (h.awake j)
  | dequeued item =>
    refine ⟨.replicator (.work j .send), ?_⟩
    simp only [ReplicatorThreads.step, replicatorStep, ServerReplicator.step, ServerWorker.step,
      hstage]
    exact ⟨_, hown, rfl, by rintro ⟨⟩⟩
  | awaiting item =>
    refine ⟨.replicator (.work j .recvFail), ?_⟩
    simp only [ReplicatorThreads.step, replicatorStep, ServerReplicator.step, ServerWorker.step,
      hstage]
    exact ⟨_, hown, rfl, fun _ => ⟨item, rfl⟩⟩
  | acked item =>
    refine ⟨.replicator (.count j), ?_⟩
    simp only [ReplicatorThreads.step, replicatorStep, ServerReplicator.step, hstage]
    exact ⟨_, hown, rfl, by rintro ⟨⟩⟩
  | exiting =>
    refine ⟨.replicator (.exit j), ?_⟩
    simp only [ReplicatorThreads.step, replicatorStep, ServerReplicator.step, hstage]
    exact ⟨_, hown, rfl, by rintro ⟨⟩⟩

theorem stepsLeft_le (t : ReplicatorThreads n) (j : Fin n) : t.stepsLeft j ≤ 5 := by
  unfold stepsLeft
  cases (t.replicator.worker j).stage <;> simp [LoopStage.left]

/-- **`shutdown` ends the workers.** From the moment it joins, whatever the servers and the callers
of `replicate_bytes` do, each worker takes at most five steps, and as long as it has not ended it
has a step of its own to take, which is the failure of its connection at most while it waits for a
reply. A worker that has ended can be joined. When all have, a call of `replicate_bytes` that reads
`live_workers_` returns false. -/
theorem shutdown_ends (h : (replicatorThreads n quorum).Reach t) {todo : Finset (Fin n)}
    (hjoin : t.closing = .joining todo) {es : List (ThreadEvent n)}
    (hrun : (replicatorThreads n quorum).run es t = some u) :
    (∀ j, es.countP (ofWorker j) ≤ 5 ∧
      ((u.replicator.worker j).stage ≠ .terminated →
        ∃ e v, ofWorker j e = true ∧ u.step quorum e = some v ∧
          (Fails e = true → ∃ item, (u.replicator.worker j).stage = .awaiting item)) ∧
      ((u.replicator.worker j).stage = .terminated →
        ∀ todo', u.closing = .joining todo' → j ∈ todo' →
          ∃ v, u.step quorum (.join j) = some v)) ∧
    ((∀ j, (u.replicator.worker j).stage = .terminated) → u.replicator.liveWorkers = 0 ∧
      (u.replicator.stage = .polled → ∃ v, u.step quorum (.replicator .pollLive) = some v ∧
        v.replicator.stage = .returned false)) := by
  have hdraining := (watchful_of_reach h).draining hjoin
  have hfinal : u.Draining :=
    Lts.invariant_of_run Draining (fun s e v hs hstep => hs.step hstep) hdraining hrun
  refine ⟨fun j => ⟨?_, hfinal.exists_step quorum, fun hended todo' hclosing hj => ?_⟩,
    fun hended => ?_⟩
  · obtain ⟨-, hcount⟩ := Lts.countP_le_of_run Draining (ofWorker j) (stepsLeft · j)
      (fun s e v hs hstep => ⟨hs.step hstep, hs.stepsLeft_step j hstep⟩) hdraining hrun
    have hle := t.stepsLeft_le j
    omega
  · simp only [ReplicatorThreads.step, hclosing, hj, hended, and_self, if_true]
    exact ⟨_, rfl⟩
  · have hlive : u.replicator.liveWorkers = 0 := by
      rw [hfinal.watchful.live, Finset.card_eq_zero]
      ext j
      simp [hended j]
    refine ⟨hlive, fun hpolled => ?_⟩
    simp only [ReplicatorThreads.step, replicatorStep, ServerReplicator.step, hpolled, hlive,
      if_true, Option.bind_some]
    exact ⟨_, rfl, rfl⟩

/-- Of two workers one is asleep when `shutdown` comes, and the other still connects. -/
theorem shutdown_ends_asleep : ∃ t u : ReplicatorThreads 2, t.closing = .joining Finset.univ ∧
    (replicatorThreads 2 1).run [.resume 0, .replicator (.exit 0)] t = some u ∧
    [ThreadEvent.resume (0 : Fin 2), .replicator (.exit 0)].countP (ofWorker 0) ≤ 5 ∧
    (∃ v, u.step 1 (.join 0) = some v) ∧
    ∃ e v, ofWorker 1 e = true ∧ u.step 1 e = some v := by
  have hrun : ((replicatorThreads 2 1).run
      [.replicator (.work 0 .connect), .enter 0, .shutdown, .flag 0, .notify, .flag 1, .notify,
        .flagged] .init).any
      (fun t => t.closing = .joining Finset.univ ∧
        ((replicatorThreads 2 1).run [.resume 0, .replicator (.exit 0)] t).any fun u =>
          u.closing = .joining Finset.univ ∧ (u.replicator.worker 0).stage = .terminated ∧
            (u.replicator.worker 1).stage = .connecting) = true := by
    decide
  obtain ⟨t, hreach, ht⟩ := (replicatorThreads 2 1).exists_reach_of_run hrun
  obtain ⟨hjoin, hu⟩ := of_decide_eq_true ht
  obtain ⟨u, hu, hstages⟩ := (Option.any_eq_true _ _).mp hu
  obtain ⟨hclosing, hended, hconnecting⟩ := of_decide_eq_true hstages
  obtain ⟨hworkers, -⟩ := shutdown_ends hreach hjoin hu
  obtain ⟨e, v, he, hstep, -⟩ := (hworkers 1).2.1 (by simp [hconnecting])
  exact ⟨t, u, hjoin, hu, (hworkers 0).1,
    (hworkers 0).2.2 hended _ hclosing (Finset.mem_univ 0), e, v, he, hstep⟩

end ReplicatorThreads

end Ziplog
