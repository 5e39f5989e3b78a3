import Ziplog.Zipper.ReconfigManager

/-!
# What stands behind a skip

A skip is sent for a number above the last one of a call of `send_freeze_complete` (`Grounded`),
among those that the call has copied (`mem_sendSkips_step`, `mem_skip_step`), and each such call
follows an answer that completes an agreeing quorum (`mem_completions_step`). The servers counted
are ones that have answered (`mem_responders_step`). All this holds in every run of the
reconfiguration, with repeated decisions and rejoining proxies as well.
-/

namespace Ziplog

namespace ReconfigState

variable {quorum : ℕ} {s t : ReconfigState}

/-- `send_freeze_complete` has been called with these arguments. -/
def Completed (s : ReconfigState) (failedProxy lastSeq : ℕ) : Prop :=
  ∃ call ∈ s.completions, call.failedProxy = failedProxy ∧ call.lastSeq = lastSeq

structure Grounded (s : ReconfigState) : Prop where
  blocks : ∀ p lastSeq, .sendFreezeComplete p lastSeq ∈ s.tasks → s.Completed p lastSeq
  skips : ∀ p lastSeq allocated, .sendSkips p lastSeq allocated ∈ s.tasks → s.Completed p lastSeq
  sent : ∀ p seq, .skip p seq ∈ s.sent → ∃ lastSeq < seq, s.Completed p lastSeq

theorem grounded_init (proxies : List Address) : Grounded (init proxies) where
  blocks := by
    intro p lastSeq htask
    cases htask
  skips := by
    intro p lastSeq allocated htask
    cases htask
  sent := by
    intro p seq hsent
    cases hsent

/-! ## Changing one part -/

theorem Grounded.setProxy (h : Grounded s) (p : ℕ) (st : ProxyState) :
    Grounded (s.setProxy p st) := ⟨h.blocks, h.skips, h.sent⟩

theorem Grounded.record (h : Grounded s) (answer : Answer) : Grounded (s.record answer) :=
  ⟨h.blocks, h.skips, h.sent⟩

theorem Grounded.finish (h : Grounded s) (task : ReconfigTask) : Grounded (s.finish task) where
  blocks := fun p lastSeq htask => h.blocks p lastSeq (List.mem_of_mem_erase htask)
  skips := fun p lastSeq allocated htask =>
    h.skips p lastSeq allocated (List.mem_of_mem_erase htask)
  sent := h.sent

theorem Grounded.start (h : Grounded s) {task : ReconfigTask}
    (hblocks : ∀ p lastSeq, task = .sendFreezeComplete p lastSeq → s.Completed p lastSeq)
    (hskips : ∀ p lastSeq allocated, task = .sendSkips p lastSeq allocated →
      s.Completed p lastSeq) : Grounded (s.start task) where
  blocks := by
    intro p lastSeq htask
    rcases List.mem_append.mp htask with hmem | hmem
    · exact h.blocks p lastSeq hmem
    · exact hblocks p lastSeq (List.mem_singleton.mp hmem).symm
  skips := by
    intro p lastSeq allocated htask
    rcases List.mem_append.mp htask with hmem | hmem
    · exact h.skips p lastSeq allocated hmem
    · exact hskips p lastSeq allocated (List.mem_singleton.mp hmem).symm
  sent := h.sent

theorem Grounded.send (h : Grounded s) {message : ZipperMessage}
    (hskip : ∀ p seq, message = .skip p seq → ∃ lastSeq < seq, s.Completed p lastSeq) :
    Grounded (s.send message) where
  blocks := h.blocks
  skips := h.skips
  sent := by
    intro p seq hsent
    rcases List.mem_append.mp hsent with hmem | hmem
    · exact h.sent p seq hmem
    · exact hskip p seq (List.mem_singleton.mp hmem).symm

theorem Completed.complete {p lastSeq : ℕ} (h : s.Completed p lastSeq) (call : Completion) :
    (s.complete call).Completed p lastSeq := by
  obtain ⟨call', hcall', heq⟩ := h
  exact ⟨call', List.mem_append_left _ hcall', heq⟩

theorem Grounded.complete (h : Grounded s) (call : Completion) : Grounded (s.complete call) where
  blocks := fun p lastSeq htask => (h.blocks p lastSeq htask).complete call
  skips := fun p lastSeq allocated htask => (h.skips p lastSeq allocated htask).complete call
  sent := by
    intro p seq hsent
    obtain ⟨lastSeq, hlt, hcompleted⟩ := h.sent p seq hsent
    exact ⟨lastSeq, hlt, hcompleted.complete call⟩

/-! ## One step -/

/-- **One step.** -/
theorem grounded_step {e : ReconfigEvent} (h : Grounded s) (hs : s.step quorum e = some t) :
    Grounded t := by
  have hother (u : ReconfigState) (hu : Grounded u) (task : ReconfigTask)
      (hb : ∀ p lastSeq, task ≠ .sendFreezeComplete p lastSeq)
      (hk : ∀ p lastSeq allocated, task ≠ .sendSkips p lastSeq allocated) :
      Grounded (u.start task) :=
    hu.start (fun p lastSeq htask => absurd htask (hb p lastSeq))
      fun p lastSeq allocated htask => absurd htask (hk p lastSeq allocated)
  cases effect_of_step hs with
  | reportIgnored hst => exact h
  | reported hst hactive => exact h.setProxy _ _
  | reconfiguring hst hactive hquorum =>
    exact hother _ (h.setProxy _ _) _ (by rintro _ _ ⟨⟩) (by rintro _ _ _ ⟨⟩)
  | stale hst => exact h.record _
  | waiting hst hv => exact (h.setProxy _ _).record _
  | noConsensus hst hv =>
    exact (hother _ (h.setProxy _ _) _ (by rintro _ _ ⟨⟩) (by rintro _ _ _ ⟨⟩)).record _
  | @consensus sender p seq lastSeq st hst hv =>
    refine Grounded.record ?_ _
    have hcall : Grounded ((s.setProxy p (st.addResponse sender seq)).complete
        ⟨p, lastSeq, (st.addResponse sender seq).freezeResponders⟩) := (h.setProxy _ _).complete _
    refine hcall.start (fun q last htask => ?_) (fun q last allocated htask => by cases htask)
    cases htask
    exact ⟨_, List.mem_append_right _ (List.mem_singleton_self _), rfl, rfl⟩
  | startRound htask hst =>
    exact hother _ ((h.finish _).setProxy _ _) _ (by rintro _ _ ⟨⟩) (by rintro _ _ _ ⟨⟩)
  | readRound htask hst =>
    exact hother _ (h.finish _) _ (by rintro _ _ ⟨⟩) (by rintro _ _ _ ⟨⟩)
  | broadcastFreeze htask =>
    refine (h.finish _).send fun q seq hmessage => ?_
    cases hmessage
  | @block p lastSeq st htask hst =>
    refine ((h.finish _).setProxy _ _).start (fun q last htask' => ?_)
      (fun q last allocated htask' => ?_)
    · cases htask'
    · cases htask'
      exact h.blocks p lastSeq htask
  | completed htask =>
    refine (h.finish _).send fun q seq hmessage => ?_
    cases hmessage
  | @skip p lastSeq seq allocated htask hseq =>
    have hcompleted : s.Completed p lastSeq := h.skips p lastSeq _ htask
    have hsend : Grounded ((s.finish (.sendSkips p lastSeq (seq :: allocated))).send
        (.skip p seq)) := by
      refine (h.finish _).send fun q seq' hmessage => ?_
      cases hmessage
      exact ⟨lastSeq, hseq, hcompleted⟩
    refine hsend.start (fun q last htask' => by cases htask') (fun q last allocated' htask' => ?_)
    cases htask'
    exact hcompleted
  | @used p lastSeq seq allocated htask =>
    refine (h.finish _).start (fun q last htask' => by cases htask')
      (fun q last allocated' htask' => ?_)
    cases htask'
    exact h.skips p lastSeq _ htask
  | rejoin => exact ⟨h.blocks, h.skips, h.sent⟩
  | allocate hst => exact h.setProxy _ _

/-- **Each call** follows an answer of the current round that completes an agreeing quorum. -/
theorem mem_completions_step {e : ReconfigEvent} (hs : s.step quorum e = some t) {call : Completion}
    (hcall : call ∈ t.completions) : call ∈ s.completions ∨
      ∃ sender seq st, e = .freezeResponse sender call.failedProxy st.freezeRound seq ∧
        s.registry.lookup call.failedProxy = some st ∧
        (st.addResponse sender seq).verdict quorum = .consensus call.lastSeq ∧
        call.responders = (st.addResponse sender seq).freezeResponders := by
  cases effect_of_step hs with
  | @consensus sender p seq lastSeq st hst hv =>
    rcases List.mem_append.mp hcall with hcall | hcall
    · exact Or.inl hcall
    · rw [List.mem_singleton] at hcall
      subst hcall
      exact Or.inr ⟨sender, seq, st, rfl, hst, hv, rfl⟩
  | _ => exact Or.inl hcall

/-- Where a task stands that was not there before. -/
theorem mem_tasks_start {u : ReconfigState} {task task' : ReconfigTask}
    (h : task' ∈ (u.start task).tasks) : task' ∈ u.tasks ∨ task' = task := by
  rcases List.mem_append.mp h with hmem | hmem
  · exact Or.inl hmem
  · exact Or.inr (List.mem_singleton.mp hmem)

/-- **What is to be skipped** is what is left of it before the step, or the numbers that the call
copies. -/
theorem mem_sendSkips_step {e : ReconfigEvent} (hs : s.step quorum e = some t) {p lastSeq : ℕ}
    {allocated : List ℕ} (htask : .sendSkips p lastSeq allocated ∈ t.tasks) :
    (∃ before, .sendSkips p lastSeq before ∈ s.tasks ∧ allocated ⊆ before) ∨
      e = .proceed (.sendFreezeComplete p lastSeq) ∧ ∃ st, s.registry.lookup p = some st ∧
        allocated = st.allocatedSequences := by
  have hkeep : .sendSkips p lastSeq allocated ∈ s.tasks →
      ∃ before, .sendSkips p lastSeq before ∈ s.tasks ∧ allocated ⊆ before := fun hmem =>
    ⟨allocated, hmem, List.Subset.refl _⟩
  have herase : ∀ task, .sendSkips p lastSeq allocated ∈ s.tasks.erase task →
      ∃ before, .sendSkips p lastSeq before ∈ s.tasks ∧ allocated ⊆ before := fun task hmem =>
    hkeep (List.mem_of_mem_erase hmem)
  cases effect_of_step hs with
  | reportIgnored | reported | stale | waiting | rejoin | allocate => exact Or.inl (hkeep htask)
  | reconfiguring | noConsensus | consensus =>
    rcases mem_tasks_start htask with hmem | ⟨⟨⟩⟩
    exact Or.inl (hkeep hmem)
  | startRound | readRound =>
    rcases mem_tasks_start htask with hmem | ⟨⟨⟩⟩
    exact Or.inl (herase _ hmem)
  | broadcastFreeze | completed => exact Or.inl (herase _ htask)
  | @block q last st htask' hst =>
    rcases mem_tasks_start htask with hmem | heq
    · exact Or.inl (herase _ hmem)
    · cases heq
      exact Or.inr ⟨rfl, st, hst, rfl⟩
  | @skip q last seq rest htask' hseq | @used q last seq rest htask' =>
    rcases mem_tasks_start htask with hmem | heq
    · exact Or.inl (herase _ hmem)
    · cases heq
      exact Or.inl ⟨_, htask', List.subset_cons_self _ _⟩

/-- **A skip** is sent for a number that is to be skipped. -/
theorem mem_skip_step {e : ReconfigEvent} (hs : s.step quorum e = some t) {p seq : ℕ}
    (hsent : .skip p seq ∈ t.sent) : .skip p seq ∈ s.sent ∨ ∃ lastSeq < seq, ∃ allocated,
      .sendSkips p lastSeq (seq :: allocated) ∈ s.tasks := by
  have hnew : ∀ message, .skip p seq ∈ s.sent ++ [message] →
      .skip p seq ∈ s.sent ∨ message = .skip p seq := by
    intro message hmem
    rcases List.mem_append.mp hmem with hmem | hmem
    · exact Or.inl hmem
    · exact Or.inr (List.mem_singleton.mp hmem).symm
  cases effect_of_step hs with
  | broadcastFreeze | completed =>
    rcases hnew _ hsent with hmem | ⟨⟨⟩⟩
    exact Or.inl hmem
  | @skip q last n rest htask hseq =>
    rcases hnew _ hsent with hmem | heq
    · exact Or.inl hmem
    · cases heq
      exact Or.inr ⟨last, hseq, rest, htask⟩
  | _ => exact Or.inl hsent

/-- **The servers counted** are those counted before and the one that answers. -/
theorem mem_responders_step {e : ReconfigEvent} (hs : s.step quorum e = some t) {p n : ℕ}
    {st' : ProxyState} (hst' : t.registry.lookup p = some st') (hn : n ∈ st'.freezeResponders) :
    (∃ st, s.registry.lookup p = some st ∧ n ∈ st.freezeResponders) ∨
      ∃ round seq, e = .freezeResponse n p round seq := by
  have hset : ∀ (q : ℕ) (st u : ProxyState), s.registry.lookup q = some st →
      (s.registry.insert q u).lookup p = some st' →
      (n ∈ u.freezeResponders → n ∈ st.freezeResponders ∨
        ∃ round seq, e = .freezeResponse n q round seq) →
      (∃ st, s.registry.lookup p = some st ∧ n ∈ st.freezeResponders) ∨
        ∃ round seq, e = .freezeResponse n p round seq := by
    intro q st u hst hlookup hu
    by_cases hq : p = q
    · subst hq
      rw [AList.lookup_insert] at hlookup
      cases hlookup
      rcases hu hn with hold | hnew
      · exact Or.inl ⟨st, hst, hold⟩
      · exact Or.inr hnew
    · rw [AList.lookup_insert_ne hq] at hlookup
      exact Or.inl ⟨st', hlookup, hn⟩
  have hresponse : ∀ (sender round seq : ℕ) (st : ProxyState) (q : ℕ),
      e = .freezeResponse sender q round seq → n ∈ (st.addResponse sender seq).freezeResponders →
      n ∈ st.freezeResponders ∨ ∃ round seq, e = .freezeResponse n q round seq := by
    intro sender round seq st q he hmem
    rcases Finset.mem_insert.mp hmem with rfl | hmem
    · exact Or.inr ⟨round, seq, he⟩
    · exact Or.inl hmem
  cases effect_of_step hs with
  | reported hst hactive => exact hset _ _ _ hst hst' Or.inl
  | reconfiguring hst hactive hquorum => exact hset _ _ _ hst hst' Or.inl
  | waiting hst hv => exact hset _ _ _ hst hst' (hresponse _ _ _ _ _ rfl)
  | noConsensus hst hv => exact hset _ _ _ hst hst' (hresponse _ _ _ _ _ rfl)
  | consensus hst hv => exact hset _ _ _ hst hst' (hresponse _ _ _ _ _ rfl)
  | startRound htask hst =>
    refine hset _ _ _ hst hst' fun hmem => ?_
    exact absurd hmem (Finset.notMem_empty n)
  | block htask hst => exact hset _ _ _ hst hst' Or.inl
  | @rejoin id =>
    change (s.registry.rejoinProxy id).lookup p = some st' at hst'
    unfold ProxyRegistry.rejoinProxy at hst'
    split at hst'
    · exact Or.inl ⟨st', hst', hn⟩
    · rename_i st hst
      refine hset _ _ _ hst hst' fun hmem => ?_
      exact absurd hmem (Finset.notMem_empty n)
  | allocate hst => exact hset _ _ _ hst hst' Or.inl
  | _ => exact Or.inl ⟨st', hst', hn⟩

end ReconfigState

end Ziplog
