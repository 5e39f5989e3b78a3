import Ziplog.Proxy.ServerReplicator

/-!
# The wait in `replicate_bytes`

The loop returns when `ack_count` has reached the quorum or `live_workers_` is zero. Once every
worker has counted the item or ended, both counters stay where they are: the workers that are alive
are those that have counted. Fewer of them than a quorum, but not none, satisfy neither condition,
and the loop never ends. `waitLoop_exits_iff` says exactly when it does.
-/

namespace Ziplog

/-- The steps of the workers and servers. -/
def ReplicatorEvent.ofWorker {n : ℕ} : ReplicatorEvent n → Bool
  | .work _ _ | .count _ | .exit _ => true
  | .replicateBytes _ | .push _ | .pushed | .pollAcks | .pollLive => false

namespace ServerReplicator

variable {n quorum : ℕ} {s t : ServerReplicator n}

/-- Each worker has counted the last call or has ended. -/
def Settled (s : ServerReplicator n) : Prop :=
  ∀ j, s.current ∈ (s.worker j).counted ∨ (s.worker j).stage = .terminated

instance (s : ServerReplicator n) : Decidable s.Settled :=
  inferInstanceAs (Decidable (∀ _, _))

/-- The calling thread is in the loop. -/
def InLoop (s : ServerReplicator n) : Prop := s.stage = .waiting ∨ s.stage = .polled

/-- The next iteration of the loop, with steps of the workers between its two reads. -/
def iteration (quorum : ℕ) (s : ServerReplicator n) (between : List (ReplicatorEvent n)) :
    Option (ServerReplicator n) :=
  (s.step quorum .pollAcks).bind fun t =>
    if t.stage = .polled then
      ((serverReplicator n quorum).runVia (fun _ e => e.ofWorker) between t).bind fun u =>
        u.step quorum .pollLive
    else some t

/-! ## Settled states -/

theorem given_of_inLoop (h : s.InLoop) (j : Fin n) : s.given j = s.calls.length := by
  unfold given
  rcases h with hstage | hstage <;> rw [hstage]

/-- A worker that has counted the last call has nothing more to do. -/
theorem Sound.pending_nil (h : Sound quorum s) (hloop : s.InLoop) {j : Fin n}
    (hj : j ∈ s.counters s.current) : (s.worker j).pending = [] := by
  refine List.eq_nil_iff_forall_not_mem.mpr fun item hitem => ?_
  have hlt := (h.attended j).counted_lt hitem _ (mem_counters.mp hj)
  have hbelow := (h.attended j).below _ (List.mem_append_right _ (List.mem_map_of_mem hitem))
  rw [given_of_inLoop hloop] at hbelow
  unfold current at hlt
  omega

/-- The workers that are alive are those that have counted. -/
theorem Sound.live_eq (h : Sound quorum s) (hsettled : s.Settled) :
    s.live = s.counters s.current := by
  ext j
  constructor
  · intro hj
    exact mem_counters.mpr ((hsettled j).resolve_right (mem_live.mp hj))
  · intro hj
    exact mem_live.mpr fun hended => h.not_ended hj (Or.inr hended)

/-- **A step of a worker** in a settled state changes nothing that the loop reads. -/
theorem Sound.settled_step (h : Sound quorum s) (hloop : s.InLoop) (hsettled : s.Settled)
    {e : ReplicatorEvent n} (he : e.ofWorker = true) (hs : s.step quorum e = some t) :
    t.stage = s.stage ∧ t.Settled ∧ t.live = s.live := by
  cases e with
  | work j e =>
    obtain ⟨w, hw, rfl⟩ := Option.map_eq_some_iff.mp hs
    obtain ⟨hcounted, hended⟩ := ServerWorker.step_keeps hw
    refine ⟨rfl, fun k => ?_, live_setWorker hended⟩
    by_cases hk : k = j
    · rw [hk, setWorker_self, hcounted, hended]
      exact hsettled j
    · rw [setWorker_of_ne hk]
      exact hsettled k
  | count j =>
    -- a worker with an item in hand has not counted the last call and has not ended
    simp only [ServerReplicator.step] at hs
    split at hs <;> cases hs
    rename_i hstage
    rcases hsettled j with hcounted | hended
    · have hnil := h.pending_nil hloop (mem_counters.mpr hcounted)
      rw [ServerWorker.pending, hstage] at hnil
      cases hnil
    · rw [hstage] at hended
      cases hended
  | exit j =>
    simp only [ServerReplicator.step] at hs
    split at hs <;> cases hs
    rename_i hstage
    rcases hsettled j with hcounted | hended
    · exact absurd (Or.inl hstage) (h.not_ended (mem_counters.mpr hcounted))
    · rw [hstage] at hended
      cases hended
  | replicateBytes frame => cases he
  | push j => cases he
  | pushed => cases he
  | pollAcks => cases he
  | pollLive => cases he

/-- **Any steps of the workers.** -/
theorem settled_run (h : (serverReplicator n quorum).Reach s) (hloop : s.InLoop)
    (hsettled : s.Settled) {es : List (ReplicatorEvent n)}
    (hrun : (serverReplicator n quorum).runVia (fun _ e => e.ofWorker) es s = some t) :
    (serverReplicator n quorum).Reach t ∧ t.stage = s.stage ∧ t.live = s.live := by
  induction es generalizing s with
  | nil =>
    cases hrun
    exact ⟨h, rfl, rfl⟩
  | cons e es ih =>
    unfold Lts.runVia at hrun
    split_ifs at hrun with he
    obtain ⟨u, hu, hrun⟩ := Option.bind_eq_some_iff.mp hrun
    obtain ⟨hstage, hsettled', hlive⟩ := (sound_of_reach h).settled_step hloop hsettled he hu
    have hloop' : u.InLoop := by
      unfold InLoop
      rw [hstage]
      exact hloop
    obtain ⟨hreach, hstage', hlive'⟩ := ih (.step h trivial hu) hloop' hsettled' hrun
    exact ⟨hreach, hstage'.trans hstage, hlive'.trans hlive⟩

/-! ## The end of the loop -/

/-- What an iteration leads to, in a settled state. -/
theorem stage_iteration (h : (serverReplicator n quorum).Reach s) (hwait : s.stage = .waiting)
    (hsettled : s.Settled) {between : List (ReplicatorEvent n)}
    (hs : iteration quorum s between = some t) :
    t.stage =
      if (s.live.card : ℤ) < toInt quorum then
        if s.live = ∅ then .returned false else .waiting
      else .returned true := by
  have hsound := sound_of_reach h
  have hacks : s.acks = s.live.card := by
    rw [hsound.live_eq hsettled]
    exact hsound.acks s.current
  have hpoll : s.step quorum .pollAcks = some { s with
      stage := if (s.live.card : ℤ) < toInt quorum then .polled else .returned true } := by
    simp only [ServerReplicator.step, hwait, hacks]
  unfold iteration at hs
  rw [hpoll, Option.bind_some] at hs
  have hreach : (serverReplicator n quorum).Reach _ := .step (e := .pollAcks) h trivial hpoll
  by_cases hless : (s.live.card : ℤ) < toInt quorum
  · rw [if_pos hless] at hs hreach
    rw [if_pos hless]
    rw [if_pos rfl] at hs
    obtain ⟨u, hu, hlive⟩ := Option.bind_eq_some_iff.mp hs
    obtain ⟨hreach', hstage, hsame⟩ := settled_run hreach (Or.inr rfl) hsettled hu
    have hstage' : u.stage = .polled := hstage
    have hcount := (sound_of_reach hreach').live
    rw [hsame] at hcount
    simp only [ServerReplicator.step, hstage', Option.some.injEq] at hlive
    rw [← hlive]
    show (if u.liveWorkers = 0 then _ else _) = _
    rw [hcount]
    exact if_congr Finset.card_eq_zero rfl rfl
  · rw [if_neg hless, if_neg (by rintro ⟨⟩)] at hs
    rw [if_neg hless]
    cases hs
    rfl

/-- With no step between its two reads an iteration can always take place. -/
theorem exists_iteration (hwait : s.stage = .waiting) :
    ∃ t, iteration quorum s [] = some t := by
  unfold iteration
  simp only [ServerReplicator.step, hwait, Option.bind_some]
  by_cases hless : (s.acks : ℤ) < toInt quorum
  · rw [if_pos hless, if_pos rfl]
    exact ⟨_, rfl⟩
  · rw [if_neg hless, if_neg (by rintro ⟨⟩)]
    exact ⟨_, rfl⟩

/-- **The wait ends** at the next iteration, with the answer that the counts call for, exactly when
a quorum of workers is alive or none is. -/
theorem waitLoop_exits_iff (h : (serverReplicator n quorum).Reach s) (hwait : s.stage = .waiting)
    (hsettled : s.Settled) :
    (∀ between t, iteration quorum s between = some t →
      t.stage = .returned (decide (quorum ≤ (s.counters s.current).card))) ↔
    quorum ≤ s.live.card ∨ s.live = ∅ ∧ 0 < toInt quorum := by
  rw [← (sound_of_reach h).live_eq hsettled]
  have hle := toInt_le quorum
  constructor
  · intro hall
    obtain ⟨t, ht⟩ := @exists_iteration _ quorum _ hwait
    have hstage := (stage_iteration h hwait hsettled ht).symm.trans (hall [] t ht)
    split_ifs at hstage with hless hnone
    · rw [hnone, Finset.card_empty] at hless
      exact Or.inr ⟨hnone, hless⟩
    · injection hstage with hanswer
      exact Or.inl (of_decide_eq_true hanswer.symm)
  · intro hcond between t ht
    rw [stage_iteration h hwait hsettled ht]
    rcases hcond with henough | ⟨hnone, hpos⟩
    · rw [if_neg (by omega), decide_eq_true henough]
    · have hcard : s.live.card = 0 := Finset.card_eq_zero.mpr hnone
      rw [if_pos (by omega), if_pos hnone, decide_eq_false (by omega)]

theorem waitLoop_exits_two : ∃ s : ServerReplicator 3, s.Settled ∧
    ∀ between t, iteration 2 s between = some t →
      t.stage = .returned (decide (2 ≤ (s.counters s.current).card)) := by
  have hrun : ((serverReplicator 3 2).run
      (firstCall ++ acknowledged 0 ++ refused 1 ++ acknowledged 2) .init).any
      (fun s => s.stage = .waiting ∧ s.Settled ∧ 2 ≤ s.live.card) = true := by
    decide
  obtain ⟨s, hreach, hs⟩ := (serverReplicator 3 2).exists_reach_of_run hrun
  obtain ⟨hwait, hsettled, hlive⟩ := of_decide_eq_true hs
  exact ⟨s, hsettled, (waitLoop_exits_iff hreach hwait hsettled).mpr (Or.inl hlive)⟩

/-- Two of three servers are gone and the third has replied: the loop goes on forever. -/
theorem waitLoop_stuck : ¬ ∀ (n quorum : ℕ) (s : ServerReplicator n), 1 ≤ quorum →
    (serverReplicator n quorum).Reach s → s.stage = .waiting → s.Settled →
    ∀ between t, iteration quorum s between = some t →
      t.stage = .returned (decide (quorum ≤ (s.counters s.current).card)) := by
  intro hall
  have hrun : ((serverReplicator 3 2).run
      (firstCall ++ acknowledged 0 ++ refused 1 ++ refused 2) .init).any
      (fun s => s.stage = .waiting ∧ s.Settled ∧ s.live.card = 1) = true := by
    decide
  obtain ⟨s, hreach, hs⟩ := (serverReplicator 3 2).exists_reach_of_run hrun
  obtain ⟨hwait, hsettled, hlive⟩ := of_decide_eq_true hs
  obtain ⟨t, ht⟩ := @exists_iteration _ 2 _ hwait
  have hstage := hall 3 2 s (by decide) hreach hwait hsettled [] t ht
  rw [stage_iteration hreach hwait hsettled ht, hlive, if_pos (by decide), if_neg] at hstage
  · cases hstage
  · intro hnone
    rw [hnone] at hlive
    cases hlive

end ServerReplicator

end Ziplog
