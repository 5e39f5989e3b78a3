import Ziplog.Zipper.ReconfigManager

/-!
# Agreement on the end of a proxy

From the moment a quorum has reported a proxy until the proxy rejoins, the manager should decide on
one last number: `send_freeze_complete` runs once, and nothing changes after it. `Episode` says what
the tasks and the completions of a proxy are at each status, and a step other than the rejoining
keeps it (`episode_step`) when the answers of the current round come in time: not before the proxy
is reconfigured, not after the decision, and no deciding one while the next round is about to start.
The proxy rejoins in time when no section of the episode before is left. The manager itself checks
none of this: an answer beyond the quorum decides again (`not_freezeAgreement`).
-/

namespace Ziplog

def ReconfigTask.failedProxy : ReconfigTask → ℕ
  | .sendFreeze p _ => p
  | .readRound p => p
  | .broadcastFreeze p _ => p
  | .sendFreezeComplete p _ => p
  | .sendSkips p _ _ => p

def ReconfigEvent.failedProxy : ReconfigEvent → ℕ
  | .report _ p => p
  | .freezeResponse _ p _ _ => p
  | .proceed task => task.failedProxy
  | .rejoin id => id
  | .allocate id _ => id

/-- A freeze round of the proxy is about to start. -/
def ReconfigTask.isSendFreeze (p : ℕ) : ReconfigTask → Bool
  | .sendFreeze q _ => q == p
  | _ => false

/-- The proxy is about to be blocked. -/
def ReconfigTask.isSendFreezeComplete (p : ℕ) : ReconfigTask → Bool
  | .sendFreezeComplete q _ => q == p
  | _ => false

/-- What a reconfiguration keeps about a proxy. -/
def ProxyState.freezeState (st : ProxyState) :
    ProxyStatus × ℕ × Finset ℕ × Finset ℕ × Finset ℕ :=
  (st.status, st.freezeRound, st.freezeResponders, st.reporters, st.lastSequences)

namespace ReconfigState

variable {quorum p : ℕ} {s t : ReconfigState}

/-- The rounds of a proxy that are about to start. -/
def freezes (s : ReconfigState) (p : ℕ) : ℕ := s.tasks.countP (ReconfigTask.isSendFreeze p)

/-- The calls of `send_freeze_complete` that have not blocked the proxy yet. -/
def blocks (s : ReconfigState) (p : ℕ) : ℕ := s.tasks.countP (ReconfigTask.isSendFreezeComplete p)

/-- The calls of `send_freeze_complete`. -/
def calls (s : ReconfigState) (p : ℕ) : ℕ := s.completions.countP fun c => c.failedProxy == p

section Counts

variable (s : ReconfigState) (p q : ℕ) (st : ProxyState) (task : ReconfigTask)
  (message : ZipperMessage) (answer : Answer) (completion : Completion)

@[simp] theorem freezes_setProxy : (s.setProxy q st).freezes p = s.freezes p := rfl
@[simp] theorem freezes_send : (s.send message).freezes p = s.freezes p := rfl
@[simp] theorem freezes_record : (s.record answer).freezes p = s.freezes p := rfl
@[simp] theorem freezes_complete : (s.complete completion).freezes p = s.freezes p := rfl
@[simp] theorem blocks_setProxy : (s.setProxy q st).blocks p = s.blocks p := rfl
@[simp] theorem blocks_send : (s.send message).blocks p = s.blocks p := rfl
@[simp] theorem blocks_record : (s.record answer).blocks p = s.blocks p := rfl
@[simp] theorem blocks_complete : (s.complete completion).blocks p = s.blocks p := rfl
@[simp] theorem calls_setProxy : (s.setProxy q st).calls p = s.calls p := rfl
@[simp] theorem calls_start : (s.start task).calls p = s.calls p := rfl
@[simp] theorem calls_finish : (s.finish task).calls p = s.calls p := rfl
@[simp] theorem calls_send : (s.send message).calls p = s.calls p := rfl
@[simp] theorem calls_record : (s.record answer).calls p = s.calls p := rfl

@[simp] theorem freezes_start :
    (s.start task).freezes p = s.freezes p + if task.isSendFreeze p then 1 else 0 := by
  rw [freezes, start, List.countP_append, List.countP_singleton, ← freezes]

@[simp] theorem blocks_start :
    (s.start task).blocks p = s.blocks p + if task.isSendFreezeComplete p then 1 else 0 := by
  rw [blocks, start, List.countP_append, List.countP_singleton, ← blocks]

@[simp] theorem calls_complete : (s.complete completion).calls p =
    s.calls p + if completion.failedProxy == p then 1 else 0 := by
  rw [calls, complete, List.countP_append, List.countP_singleton, ← calls]

end Counts

theorem freezes_finish {task : ReconfigTask} (htask : task ∈ s.tasks) (p : ℕ) :
    s.freezes p = (s.finish task).freezes p + if task.isSendFreeze p then 1 else 0 := by
  rw [freezes, (List.perm_cons_erase htask).countP_eq, List.countP_cons]
  rfl

theorem blocks_finish {task : ReconfigTask} (htask : task ∈ s.tasks) (p : ℕ) :
    s.blocks p = (s.finish task).blocks p + if task.isSendFreezeComplete p then 1 else 0 := by
  rw [blocks, (List.perm_cons_erase htask).countP_eq, List.countP_cons]
  rfl

/-! ## One proxy at a time -/

/-- Nothing about the proxy `p` differs, except that it has fewer tasks and messages. -/
structure SameFor (p : ℕ) (s t : ReconfigState) : Prop where
  registry : t.registry.lookup p = s.registry.lookup p
  freezes : t.freezes p = s.freezes p
  blocks : t.blocks p = s.blocks p
  calls : t.calls p = s.calls p
  tasks : ∀ task ∈ t.tasks, task.failedProxy = p → task ∈ s.tasks
  sent : ∀ round, .freeze p round ∈ t.sent → .freeze p round ∈ s.sent

theorem SameFor.trans {u : ReconfigState} (h : SameFor p s t) (h' : SameFor p t u) :
    SameFor p s u where
  registry := h'.registry.trans h.registry
  freezes := h'.freezes.trans h.freezes
  blocks := h'.blocks.trans h.blocks
  calls := h'.calls.trans h.calls
  tasks := fun task htask hp => h.tasks task (h'.tasks task htask hp) hp
  sent := fun round hround => h.sent round (h'.sent round hround)

theorem isSendFreeze_of_ne {task : ReconfigTask} (h : task.failedProxy ≠ p) :
    task.isSendFreeze p = false := by
  cases task with
  | sendFreeze q firstRound => exact beq_false_of_ne h
  | _ => rfl

theorem isSendFreezeComplete_of_ne {task : ReconfigTask} (h : task.failedProxy ≠ p) :
    task.isSendFreezeComplete p = false := by
  cases task with
  | sendFreezeComplete q lastSeq => exact beq_false_of_ne h
  | _ => rfl

theorem sameFor_setProxy {q : ℕ} (hq : q ≠ p) (s : ReconfigState) (st : ProxyState) :
    SameFor p s (s.setProxy q st) :=
  ⟨AList.lookup_insert_ne hq.symm, rfl, rfl, rfl, fun _ h _ => h, fun _ h => h⟩

theorem sameFor_start {task : ReconfigTask} (htask : task.failedProxy ≠ p) (s : ReconfigState) :
    SameFor p s (s.start task) where
  registry := rfl
  freezes := by simp [isSendFreeze_of_ne htask]
  blocks := by simp [isSendFreezeComplete_of_ne htask]
  calls := rfl
  tasks := by
    intro task' htask' hp
    rcases List.mem_append.mp htask' with hmem | hmem
    · exact hmem
    · rw [List.mem_singleton.mp hmem] at hp
      exact absurd hp htask
  sent := fun _ h => h

theorem sameFor_finish {task : ReconfigTask} (hmem : task ∈ s.tasks)
    (htask : task.failedProxy ≠ p) : SameFor p s (s.finish task) where
  registry := rfl
  freezes := by simp [freezes_finish hmem p, isSendFreeze_of_ne htask]
  blocks := by simp [blocks_finish hmem p, isSendFreezeComplete_of_ne htask]
  calls := rfl
  tasks := fun _ hmem' _ => List.mem_of_mem_erase hmem'
  sent := fun _ h => h

theorem sameFor_send {message : ZipperMessage} (hmessage : ∀ round, message ≠ .freeze p round)
    (s : ReconfigState) : SameFor p s (s.send message) where
  registry := rfl
  freezes := rfl
  blocks := rfl
  calls := rfl
  tasks := fun _ h _ => h
  sent := by
    intro round hround
    rcases List.mem_append.mp hround with hmem | hmem
    · exact hmem
    · exact absurd (List.mem_singleton.mp hmem).symm (hmessage round)

theorem sameFor_complete {completion : Completion} (hp : completion.failedProxy ≠ p)
    (s : ReconfigState) : SameFor p s (s.complete completion) where
  registry := rfl
  freezes := rfl
  blocks := rfl
  calls := by simp [hp]
  tasks := fun _ h _ => h
  sent := fun _ h => h

theorem sameFor_record (s : ReconfigState) (answer : Answer) : SameFor p s (s.record answer) :=
  ⟨rfl, rfl, rfl, rfl, fun _ h _ => h, fun _ h => h⟩

theorem lookup_rejoinProxy_ne {q : ℕ} (hq : q ≠ p) (registry : ProxyRegistry) :
    (registry.rejoinProxy q).lookup p = registry.lookup p := by
  unfold ProxyRegistry.rejoinProxy
  split
  · rfl
  · exact AList.lookup_insert_ne hq.symm

/-- **A step for another proxy.** -/
theorem sameFor_step {e : ReconfigEvent} (hs : s.step quorum e = some t)
    (hp : e.failedProxy ≠ p) : SameFor p s t := by
  have hrefl : SameFor p s s := ⟨rfl, rfl, rfl, rfl, fun _ h _ => h, fun _ h => h⟩
  have hstart (u : ReconfigState) (task : ReconfigTask) (h : task.failedProxy = e.failedProxy) :
      SameFor p u (u.start task) := sameFor_start (by rwa [h]) u
  cases effect_of_step hs with
  | reportIgnored hst => exact hrefl
  | reported hst hactive => exact sameFor_setProxy hp _ _
  | reconfiguring hst hactive hquorum => exact (sameFor_setProxy hp _ _).trans (hstart _ _ rfl)
  | stale hst => exact sameFor_record _ _
  | waiting hst hv => exact (sameFor_setProxy hp _ _).trans (sameFor_record _ _)
  | noConsensus hst hv =>
    exact ((sameFor_setProxy hp _ _).trans (hstart _ _ rfl)).trans (sameFor_record _ _)
  | consensus hst hv =>
    exact (((sameFor_setProxy hp _ _).trans (hstart _ _ rfl)).trans
      (sameFor_complete hp _)).trans (sameFor_record _ _)
  | startRound htask hst =>
    exact ((sameFor_finish htask hp).trans (sameFor_setProxy hp _ _)).trans (hstart _ _ rfl)
  | readRound htask hst => exact (sameFor_finish htask hp).trans (hstart _ _ rfl)
  | broadcastFreeze htask =>
    refine (sameFor_finish htask hp).trans (sameFor_send ?_ _)
    rintro round ⟨⟩
    exact hp rfl
  | block htask hst =>
    exact ((sameFor_finish htask hp).trans (sameFor_setProxy hp _ _)).trans (hstart _ _ rfl)
  | completed htask =>
    refine (sameFor_finish htask hp).trans (sameFor_send ?_ _)
    rintro round ⟨⟩
  | skip htask hseq =>
    refine ((sameFor_finish htask hp).trans (sameFor_send ?_ _)).trans (hstart _ _ rfl)
    rintro round ⟨⟩
  | used htask => exact (sameFor_finish htask hp).trans (hstart _ _ rfl)
  | rejoin => exact ⟨lookup_rejoinProxy_ne hp _, rfl, rfl, rfl, fun _ h _ => h, fun _ h => h⟩
  | allocate hst => exact sameFor_setProxy hp _ _

/-- Only `send_freeze_complete` blocks a proxy. -/
theorem eq_block_of_blocked {e : ReconfigEvent} (hs : s.step quorum e = some t)
    {st st' : ProxyState} (hst : s.registry.lookup p = some st) (hopen : st.status ≠ .blocked)
    (hst' : t.registry.lookup p = some st') (hblocked : st'.status = .blocked) :
    ∃ lastSeq, e = .proceed (.sendFreezeComplete p lastSeq) := by
  have hsame : t.registry.lookup p ≠ s.registry.lookup p := by
    intro heq
    rw [heq, hst] at hst'
    cases hst'
    exact hopen hblocked
  have hp : e.failedProxy = p := by
    by_contra hne
    exact hsame (sameFor_step hs hne).registry
  subst hp
  -- the other steps leave the entry alone, or its status, or set another one
  have hset : ∀ u v : ProxyState, t.registry.lookup e.failedProxy = some u →
      s.registry.lookup e.failedProxy = some v → u.status ≠ v.status := by
    intro u v hu hv heq
    cases hu.symm.trans hst'
    cases hv.symm.trans hst
    exact hopen (heq.symm.trans hblocked)
  cases effect_of_step hs with
  | reportIgnored | stale | readRound | broadcastFreeze | completed | skip | used =>
    exact absurd rfl hsame
  | reported hu | waiting hu | noConsensus hu | consensus hu | allocate hu =>
    exact (hset _ _ (AList.lookup_insert _) hu rfl).elim
  | startRound htask hu => exact (hset _ _ (AList.lookup_insert _) hu rfl).elim
  | reconfiguring =>
    cases (AList.lookup_insert _).symm.trans hst'
    cases hblocked
  | @block p lastSeq st htask hst => exact ⟨lastSeq, rfl⟩
  | rejoin =>
    obtain ⟨address, rfl⟩ := ProxyRegistry.lookup_rejoinProxy hst'
    cases hblocked

/-! ## One episode -/

/-- What the servers send: each answers a round that was broadcast, and each round once. -/
def Answers (s : ReconfigState) : ReconfigEvent → Prop
  | .freezeResponse sender q round _ => .freeze q round ∈ s.sent ∧ ⟨sender, q, round⟩ ∉ s.answers
  | _ => True

/-- An answer of the current round comes while the proxy is reconfigured and not about to be
blocked, and one that completes an agreeing quorum comes while no round is about to start. The proxy
rejoins while neither a round is about to start nor a block is due. -/
def InTime (quorum p : ℕ) (s : ReconfigState) : ReconfigEvent → Prop
  | .freezeResponse sender q round seq =>
    ∀ st ∈ s.registry.lookup q, q = p → round = st.freezeRound →
      st.status = .reconfiguring ∧ s.blocks p = 0 ∧
        ((st.addResponse sender seq).verdict quorum =
          .consensus (st.addResponse sender seq).lastSeq → s.freezes p = 0)
  | .rejoin id => id = p → s.freezes p = 0 ∧ s.blocks p = 0
  | _ => True

instance (s : ReconfigState) (e : ReconfigEvent) : Decidable (Answers s e) :=
  match e with
  | .freezeResponse _ _ _ _ => inferInstanceAs (Decidable (_ ∧ _))
  | .report _ _ | .proceed _ | .rejoin _ | .allocate _ _ => .isTrue trivial

instance (quorum p : ℕ) (s : ReconfigState) (e : ReconfigEvent) :
    Decidable (InTime quorum p s e) :=
  match e with
  | .freezeResponse _ q _ _ =>
    inferInstanceAs (Decidable (∀ st ∈ s.registry.lookup q, _ → _ → _ ∧ _ ∧ _))
  | .rejoin id => inferInstanceAs (Decidable (id = p → _ ∧ _))
  | .report _ _ | .proceed _ | .allocate _ _ => .isTrue trivial

/-- An unknown proxy has not failed. -/
def statusOf (s : ReconfigState) (p : ℕ) : ProxyStatus :=
  ((s.registry.lookup p).map ProxyState.status).getD .active

theorem statusOf_eq {st : ProxyState} (hst : s.registry.lookup p = some st) :
    s.statusOf p = st.status := by
  rw [statusOf, hst]
  rfl

@[simp] theorem lookup_setProxy (s : ReconfigState) (p : ℕ) (st : ProxyState) :
    (s.setProxy p st).registry.lookup p = some st := AList.lookup_insert _

/-- The tasks and the calls at each status, where there were `b` calls before the episode. -/
def Busy (p b : ℕ) (s : ReconfigState) : ProxyStatus → Prop
  | .active => s.freezes p = 0 ∧ s.blocks p = 0 ∧ s.calls p = b
  | .reconfiguring =>
    s.calls p = b + s.blocks p ∧ s.blocks p ≤ 1 ∧ (s.blocks p = 1 → s.freezes p = 0)
  | .blocked => s.freezes p = 0 ∧ s.blocks p = 0 ∧ s.calls p = b + 1

def Episode (p b : ℕ) (s : ReconfigState) : Prop := Busy p b s (s.statusOf p)

variable {b : ℕ}

theorem Busy.congr {status : ProxyStatus} (h : Busy p b s status)
    (hfreezes : t.freezes p = s.freezes p)
    (hblocks : t.blocks p = s.blocks p) (hcalls : t.calls p = s.calls p) : Busy p b t status := by
  unfold Busy at h ⊢
  rwa [hfreezes, hblocks, hcalls]

/-- The calls of an episode. -/
theorem Busy.calls {status : ProxyStatus} (h : Busy p b s status) :
    b ≤ s.calls p ∧ s.calls p ≤ b + 1 := by
  cases status with
  | active =>
    obtain ⟨-, -, hcalls⟩ := h
    omega
  | reconfiguring =>
    obtain ⟨hcalls, hle, -⟩ := h
    omega
  | blocked =>
    obtain ⟨-, -, hcalls⟩ := h
    omega

/-- Only a proxy that is reconfigured has a round that is about to start, or is about to be blocked.
-/
theorem Busy.reconfiguring {status : ProxyStatus} (h : Busy p b s status)
    (hwork : s.freezes p ≠ 0 ∨ s.blocks p ≠ 0) : status = .reconfiguring := by
  cases status with
  | reconfiguring => rfl
  | active | blocked =>
    obtain ⟨hfreezes, hblocks, -⟩ := h
    omega

theorem SameFor.episode (h : Episode p b s) (hsame : SameFor p s t) : Episode p b t := by
  have hstatus : t.statusOf p = s.statusOf p := by rw [statusOf, statusOf, hsame.registry]
  unfold Episode
  rw [hstatus]
  exact h.congr hsame.freezes hsame.blocks hsame.calls

/-- A step that changes no count and leaves the status alone. -/
theorem Episode.congr (h : Episode p b s) (hstatus : t.statusOf p = s.statusOf p)
    (hfreezes : t.freezes p = s.freezes p) (hblocks : t.blocks p = s.blocks p)
    (hcalls : t.calls p = s.calls p) : Episode p b t := by
  unfold Episode
  rw [hstatus]
  exact Busy.congr h hfreezes hblocks hcalls

/-- The entry changes, and its status stays. -/
theorem statusOf_setProxy {st st' : ProxyState} (hst : s.registry.lookup p = some st)
    (hsame : st'.status = st.status) : (s.setProxy p st').statusOf p = s.statusOf p := by
  rw [statusOf_eq (lookup_setProxy s p st'), hsame, statusOf_eq hst]

/-- A task that neither starts a round nor blocks the proxy changes no count. -/
theorem Episode.finish (h : Episode p b s) {task : ReconfigTask}
    (htask : task ∈ s.tasks) (hfreeze : task.isSendFreeze p = false)
    (hblock : task.isSendFreezeComplete p = false) : Episode p b (s.finish task) := by
  refine h.congr rfl ?_ ?_ rfl
  · simp [freezes_finish htask p, hfreeze]
  · simp [blocks_finish htask p, hblock]

theorem Episode.start (h : Episode p b s) {task : ReconfigTask}
    (hfreeze : task.isSendFreeze p = false) (hblock : task.isSendFreezeComplete p = false) :
    Episode p b (s.start task) := by
  refine h.congr rfl ?_ ?_ rfl
  · simp [hfreeze]
  · simp [hblock]

/-! ## The turns of an episode -/

section Turns

variable {st : ProxyState} (answer : Answer)

/-- The servers report the proxy, and the first round is about to start. -/
theorem Episode.reconfiguring (h : Episode p b s) (hst : s.registry.lookup p = some st)
    (hactive : st.status = .active) (st' : ProxyState) (hst' : st'.status = .reconfiguring) :
    Episode p b ((s.setProxy p st').start (.sendFreeze p true)) := by
  unfold Episode at h ⊢
  rw [statusOf_eq hst, hactive] at h
  obtain ⟨-, hblocks, hcalls⟩ := h
  have hstatus : ((s.setProxy p st').start (.sendFreeze p true)).statusOf p = .reconfiguring :=
    (statusOf_eq (lookup_setProxy s p st')).trans hst'
  rw [hstatus]
  refine ⟨?_, ?_, ?_⟩ <;> simp [hblocks, hcalls, ReconfigTask.isSendFreezeComplete]

/-- The answers differ, and another round is about to start. -/
theorem Episode.noConsensus (h : Episode p b s) (hst : s.registry.lookup p = some st)
    (hopen : st.status = .reconfiguring) (hblocks : s.blocks p = 0) (sender seq : ℕ) :
    Episode p b
      (((s.setProxy p (st.addResponse sender seq)).start (.sendFreeze p false)).record answer) := by
  unfold Episode at h ⊢
  rw [statusOf_eq hst, hopen] at h
  obtain ⟨hcalls, -, -⟩ := h
  have hstatus : (((s.setProxy p (st.addResponse sender seq)).start (.sendFreeze p false)).record
      answer).statusOf p = .reconfiguring := (statusOf_eq (lookup_setProxy _ _ _)).trans hopen
  rw [hstatus]
  refine ⟨?_, ?_, ?_⟩ <;> simp [hblocks, hcalls, ReconfigTask.isSendFreezeComplete]

/-- The answers agree, and the proxy is about to be blocked. -/
theorem Episode.consensus (h : Episode p b s) (hst : s.registry.lookup p = some st)
    (hopen : st.status = .reconfiguring) (hblocks : s.blocks p = 0) (hfreezes : s.freezes p = 0)
    (sender seq lastSeq : ℕ) (responders : Finset ℕ) :
    Episode p b ((((s.setProxy p (st.addResponse sender seq)).start
      (.sendFreezeComplete p lastSeq)).complete ⟨p, lastSeq, responders⟩).record answer) := by
  unfold Episode at h ⊢
  rw [statusOf_eq hst, hopen] at h
  obtain ⟨hcalls, -, -⟩ := h
  have hstatus : ((((s.setProxy p (st.addResponse sender seq)).start
      (.sendFreezeComplete p lastSeq)).complete ⟨p, lastSeq, responders⟩).record answer).statusOf
        p = .reconfiguring := (statusOf_eq (lookup_setProxy _ _ _)).trans hopen
  rw [hstatus]
  refine ⟨?_, ?_, ?_⟩ <;>
    simp [hblocks, hcalls, hfreezes, ReconfigTask.isSendFreeze, ReconfigTask.isSendFreezeComplete]

/-- A round starts. -/
theorem Episode.startRound (h : Episode p b s) (hst : s.registry.lookup p = some st)
    {firstRound : Bool} (htask : .sendFreeze p firstRound ∈ s.tasks) :
    Episode p b (((s.finish (.sendFreeze p firstRound)).setProxy p (st.startRound firstRound)).start
      (.readRound p)) := by
  have hfreezes := freezes_finish htask p
  have hblocks := blocks_finish htask p
  simp only [ReconfigTask.isSendFreeze, ReconfigTask.isSendFreezeComplete, beq_self_eq_true,
    if_true, Bool.false_eq_true, if_false] at hfreezes hblocks
  unfold Episode at h ⊢
  have hopen := h.reconfiguring (Or.inl (by omega))
  rw [hopen] at h
  obtain ⟨hcalls, hle, hnone⟩ := h
  have hstatus : (((s.finish (.sendFreeze p firstRound)).setProxy p
      (st.startRound firstRound)).start (.readRound p)).statusOf p = .reconfiguring :=
    (statusOf_eq (lookup_setProxy _ _ _)).trans ((statusOf_eq hst).symm.trans hopen)
  rw [hstatus]
  refine ⟨?_, ?_, fun hone => ?_⟩
  · simp [ReconfigTask.isSendFreezeComplete, hcalls, hblocks]
  · simp [ReconfigTask.isSendFreezeComplete]
    omega
  · simp [ReconfigTask.isSendFreezeComplete] at hone
    have := hnone (by omega)
    omega

/-- The proxy is blocked. -/
theorem Episode.block (h : Episode p b s) {lastSeq : ℕ}
    (htask : .sendFreezeComplete p lastSeq ∈ s.tasks) (allocated : List ℕ) :
    Episode p b (((s.finish (.sendFreezeComplete p lastSeq)).setProxy p
      (st.setStatus .blocked)).start (.sendSkips p lastSeq allocated)) := by
  have hfreezes := freezes_finish htask p
  have hblocks := blocks_finish htask p
  simp only [ReconfigTask.isSendFreeze, ReconfigTask.isSendFreezeComplete, beq_self_eq_true,
    if_true, Bool.false_eq_true, if_false] at hfreezes hblocks
  unfold Episode at h ⊢
  have hopen := h.reconfiguring (Or.inr (by omega))
  rw [hopen] at h
  obtain ⟨hcalls, hle, hnone⟩ := h
  have hnone := hnone (by omega)
  have hstatus : (((s.finish (.sendFreezeComplete p lastSeq)).setProxy p
      (st.setStatus .blocked)).start (.sendSkips p lastSeq allocated)).statusOf p = .blocked :=
    statusOf_eq (lookup_setProxy _ _ _)
  rw [hstatus]
  refine ⟨?_, ?_, ?_⟩
  · simp [ReconfigTask.isSendFreeze]
    omega
  · simp [ReconfigTask.isSendFreezeComplete]
    omega
  · simp
    omega

end Turns

/-! ## One step and every run -/

/-- **One step** other than the rejoining. -/
theorem episode_step {e : ReconfigEvent} (h : Episode p b s) (htime : InTime quorum p s e)
    (hrejoin : e ≠ .rejoin p) (hs : s.step quorum e = some t) : Episode p b t := by
  by_cases hp : e.failedProxy = p
  swap
  · exact (sameFor_step hs hp).episode h
  cases effect_of_step hs with
  | reportIgnored hst => exact h
  | @reported sender q st hst hactive =>
    obtain rfl : q = p := hp
    exact h.congr (statusOf_setProxy hst rfl) rfl rfl rfl
  | @reconfiguring sender q st hst hactive hquorum =>
    obtain rfl : q = p := hp
    exact h.reconfiguring hst hactive _ rfl
  | stale hst => exact (sameFor_record _ _).episode h
  | @waiting sender q seq st hst hv =>
    obtain rfl : q = p := hp
    have hset : Episode q b (s.setProxy q (st.addResponse sender seq)) :=
      h.congr (statusOf_setProxy hst rfl) rfl rfl rfl
    exact (sameFor_record _ _).episode hset
  | @noConsensus sender q seq st hst hv =>
    obtain rfl : q = p := hp
    obtain ⟨hopen, hblocks, -⟩ := htime st hst rfl rfl
    exact h.noConsensus _ hst hopen hblocks _ _
  | @consensus sender q seq lastSeq st hst hv =>
    obtain rfl : q = p := hp
    obtain ⟨hopen, hblocks, hfreezes⟩ := htime st hst rfl rfl
    have hnone : s.freezes q = 0 := by
      apply hfreezes
      rw [(ProxyState.verdict_consensus hv).2.2, hv]
    exact h.consensus _ hst hopen hblocks hnone _ _ _ _
  | @startRound q firstRound st htask hst =>
    obtain rfl : q = p := hp
    exact h.startRound hst htask
  | @readRound q st htask hst =>
    obtain rfl : q = p := hp
    exact (h.finish htask rfl rfl).start rfl rfl
  | @broadcastFreeze q round htask =>
    obtain rfl : q = p := hp
    exact (h.finish htask rfl rfl).congr rfl rfl rfl rfl
  | @block q lastSeq st htask hst =>
    obtain rfl : q = p := hp
    exact h.block htask _
  | @completed q lastSeq htask =>
    obtain rfl : q = p := hp
    exact (h.finish htask rfl rfl).congr rfl rfl rfl rfl
  | @skip q lastSeq seq allocated htask hseq =>
    obtain rfl : q = p := hp
    have hsend : Episode q b ((s.finish (.sendSkips q lastSeq (seq :: allocated))).send
        (.skip q seq)) := (h.finish htask rfl rfl).congr rfl rfl rfl rfl
    exact hsend.start rfl rfl
  | @used q lastSeq seq allocated htask =>
    obtain rfl : q = p := hp
    exact (h.finish htask rfl rfl).start rfl rfl
  | rejoin => exact absurd (congrArg ReconfigEvent.rejoin hp) hrejoin
  | @allocate q seq st hst =>
    obtain rfl : q = p := hp
    exact h.congr (statusOf_setProxy hst rfl) rfl rfl rfl

/-- The proxy rejoins, and all calls were made before. -/
theorem episode_rejoin (hfreezes : s.freezes p = 0) (hblocks : s.blocks p = 0) :
    Episode p (s.calls p) { s with registry := s.registry.rejoinProxy p } := by
  have hstatus : ({ s with registry := s.registry.rejoinProxy p } : ReconfigState).statusOf p =
      .active := by
    unfold statusOf
    cases hst : (s.registry.rejoinProxy p).lookup p with
    | none => rfl
    | some st =>
      obtain ⟨address, rfl⟩ := ProxyRegistry.lookup_rejoinProxy hst
      rfl
  unfold Episode
  rw [hstatus]
  exact ⟨hfreezes, hblocks, rfl⟩

theorem episode_init (proxies : List Address) (p : ℕ) : Episode p 0 (init proxies) := by
  have hstatus : (init proxies).statusOf p = .active := by
    unfold statusOf
    cases hst : (init proxies).registry.lookup p with
    | none => rfl
    | some st =>
      obtain ⟨address, rfl⟩ := ProxyRegistry.lookup_ofConfig hst
      rfl
  unfold Episode
  rw [hstatus]
  exact ⟨rfl, rfl, rfl⟩

/-- **Every run** in which answers and rejoinings come in time is in some episode. -/
theorem exists_episode {proxies : List Address}
    (h : (reconfig quorum proxies).ReachVia (InTime quorum p) s) : ∃ b, Episode p b s := by
  refine h.invariant (fun s => ∃ b, Episode p b s) ⟨0, episode_init proxies p⟩ ?_
  rintro s e t - ⟨b, hb⟩ htime hs
  by_cases hrejoin : e = .rejoin p
  · subst hrejoin
    cases hs
    obtain ⟨hfreezes, hblocks⟩ := htime rfl
    exact ⟨s.calls p, episode_rejoin hfreezes hblocks⟩
  · exact ⟨b, episode_step hb htime hrejoin hs⟩

end ReconfigState

/-- The manager from a state on. -/
def reconfigFrom (quorum : ℕ) (s : ReconfigState) : Lts ReconfigState ReconfigEvent :=
  ⟨s, ReconfigState.step quorum⟩

namespace ReconfigState

variable {quorum p b : ℕ} {s t u : ReconfigState}

/-- The steps of one episode. -/
def Within (quorum p : ℕ) (s : ReconfigState) (e : ReconfigEvent) : Prop :=
  InTime quorum p s e ∧ e ≠ .rejoin p

instance (quorum p : ℕ) (s : ReconfigState) (e : ReconfigEvent) :
    Decidable (Within quorum p s e) := inferInstanceAs (Decidable (_ ∧ _))

/-- Until the proxy rejoins, the episode is the same. -/
theorem episode_of_within (h : Episode p b s)
    (ht : (reconfigFrom quorum s).ReachVia (Within quorum p) t) : Episode p b t :=
  ht.invariant (Episode p b) h fun _ _ _ _ he hguard hs => episode_step he hguard.1 hguard.2 hs

/-! ## Agreement -/

/-- Once the proxy is blocked, no round is about to start and a step leaves its freeze state
alone. -/
def Final (p : ℕ) (s t : ReconfigState) : Prop :=
  ∀ st, s.registry.lookup p = some st → st.status = .blocked → t.freezes p = 0 ∧
    ∃ st', t.registry.lookup p = some st' ∧ st'.freezeState = st.freezeState

/-- A step leaves the freeze state of a blocked proxy alone. -/
theorem freezeState_step {e : ReconfigEvent} (hbusy : Busy p b s .blocked)
    (hwithin : Within quorum p s e) (hs : s.step quorum e = some t) {st : ProxyState}
    (hst : s.registry.lookup p = some st) (hblocked : st.status = .blocked) :
    ∃ st', t.registry.lookup p = some st' ∧ st'.freezeState = st.freezeState := by
  by_cases hp : e.failedProxy = p
  swap
  · exact ⟨st, (sameFor_step hs hp).registry.trans hst, rfl⟩
  obtain ⟨hfreezes, hblocks, -⟩ := hbusy
  obtain ⟨htime, hrejoin⟩ := hwithin
  cases effect_of_step hs with
  | @reported sender q st' hst' hactive | @reconfiguring sender q st' hst' hactive hquorum =>
    obtain rfl : q = p := hp
    cases hst.symm.trans hst'
    cases hactive.symm.trans hblocked
  | @waiting sender q seq st' hst' hv | @noConsensus sender q seq st' hst' hv
  | @consensus sender q seq lastSeq st' hst' hv =>
    obtain rfl : q = p := hp
    cases hst.symm.trans hst'
    cases (htime _ hst rfl rfl).1.symm.trans hblocked
  | startRound htask hst' =>
    have hnone := List.countP_eq_zero.mp hfreezes _ htask
    exact absurd (beq_iff_eq.mpr hp) hnone
  | block htask hst' =>
    have hnone := List.countP_eq_zero.mp hblocks _ htask
    exact absurd (beq_iff_eq.mpr hp) hnone
  | rejoin => exact absurd (congrArg ReconfigEvent.rejoin hp) hrejoin
  | @allocate q seq st' hst' =>
    obtain rfl : q = p := hp
    cases hst.symm.trans hst'
    exact ⟨_, lookup_setProxy _ _ _, rfl⟩
  | _ => exact ⟨st, hst, rfl⟩

theorem final_step {e : ReconfigEvent} (h : Episode p b s) (hwithin : Within quorum p s e)
    (hs : s.step quorum e = some t) : Final p s t := by
  intro st hst hblocked
  have hbusy : Busy p b s .blocked := by
    rwa [Episode, statusOf_eq hst, hblocked] at h
  obtain ⟨st', hst', hfreeze⟩ := freezeState_step hbusy hwithin hs hst hblocked
  refine ⟨?_, st', hst', hfreeze⟩
  have hstatus : st'.status = .blocked := (congrArg Prod.fst hfreeze).trans hblocked
  have hafter := episode_step h hwithin.1 hwithin.2 hs
  rw [Episode, statusOf_eq hst', hstatus] at hafter
  exact hafter.1

/-- **Freeze agreement.** In every run in which answers of the current round and rejoinings come in
time, and in every episode of it: as long as the proxy does not rejoin, `send_freeze_complete` is
called at most once for it, and once it is blocked no round starts and its freeze state stays. -/
theorem freezeAgreement (quorum : ℕ) (proxies : List Address) (p : ℕ) {s t : ReconfigState}
    (hs : (reconfig quorum proxies).ReachVia (InTime quorum p) s)
    (ht : (reconfigFrom quorum s).ReachVia (Within quorum p) t) :
    t.calls p ≤ s.calls p + 1 ∧
      ∀ e u, Within quorum p t e → t.step quorum e = some u → Final p t u := by
  obtain ⟨b, hb⟩ := exists_episode hs
  have hepisode := episode_of_within hb ht
  refine ⟨?_, fun e u hwithin hu => final_step hepisode hwithin hu⟩
  have hbefore := hb.calls.1
  have hafter := hepisode.calls.2
  omega

/-- Proxy 0 is blocked, rejoins, is reported again, two servers disagree about it and agree in the
next round. -/
theorem freezeAgreement_second_episode :
    ∃ s t : ReconfigState, s.calls 0 = 1 ∧ t.statusOf 0 = .blocked ∧
      t.calls 0 ≤ s.calls 0 + 1 ∧
        ∀ e u, Within 2 0 t e → t.step 2 e = some u → Final 0 t u := by
  obtain ⟨s, hs, hp⟩ := @Lts.exists_reachVia_of_run _ _ (reconfig 2 [⟨"127.0.0.1", 5000⟩])
    (InTime 2 0) (fun s e => decide (InTime 2 0 s e)) (fun _ _ => of_decide_eq_true)
    [.report 0 0, .report 1 0, .proceed (.sendFreeze 0 true), .proceed (.readRound 0),
      .proceed (.broadcastFreeze 0 1), .freezeResponse 0 0 1 4, .freezeResponse 1 0 1 4,
      .proceed (.sendFreezeComplete 0 4), .rejoin 0, .report 0 0, .report 1 0]
    (fun s : ReconfigState => decide (s.calls 0 = 1) && ((reconfigFrom 2 s).runVia
      (fun s e => decide (Within 2 0 s e))
      [.proceed (.sendFreeze 0 true), .proceed (.readRound 0), .proceed (.broadcastFreeze 0 1),
        .freezeResponse 0 0 1 4, .freezeResponse 1 0 1 5, .proceed (.sendFreeze 0 false),
        .proceed (.readRound 0), .proceed (.broadcastFreeze 0 2), .freezeResponse 0 0 2 5,
        .freezeResponse 1 0 2 5, .proceed (.sendFreezeComplete 0 5)] s).any
          fun t : ReconfigState => decide (t.statusOf 0 = .blocked)) (by decide)
  obtain ⟨hcalls, hrun⟩ := (Bool.and_eq_true _ _).mp hp
  obtain ⟨t, ht, hblocked⟩ := @Lts.exists_reachVia_of_run _ _ (reconfigFrom 2 s) (Within 2 0) _
    (fun _ _ => of_decide_eq_true) _ _ hrun
  exact ⟨s, t, of_decide_eq_true hcalls, of_decide_eq_true hblocked, freezeAgreement 2 _ 0 hs ht⟩

/-- With a quorum of one, the second server's answer decides again. -/
theorem not_freezeAgreement :
    ¬ ∀ (quorum : ℕ) (proxies : List Address) (p : ℕ) (s t : ReconfigState), 1 ≤ quorum →
      (reconfig quorum proxies).ReachVia Answers s →
        (reconfigFrom quorum s).ReachVia (fun u e => Answers u e ∧ e ≠ .rejoin p) t →
          t.calls p ≤ s.calls p + 1 ∧ ∀ e u, Answers t e → e ≠ .rejoin p →
            t.step quorum e = some u → Final p t u := by
  intro h
  obtain ⟨t, ht, hp⟩ := @Lts.exists_reachVia_of_run _ _
    (reconfigFrom 1 (init [⟨"127.0.0.1", 5000⟩])) (fun u e => Answers u e ∧ e ≠ .rejoin 0)
    (fun u e => decide (Answers u e ∧ e ≠ .rejoin 0)) (fun _ _ => of_decide_eq_true)
    [.report 0 0, .proceed (.sendFreeze 0 true), .proceed (.readRound 0),
      .proceed (.broadcastFreeze 0 1), .freezeResponse 0 0 1 5,
      .proceed (.sendFreezeComplete 0 5), .freezeResponse 1 0 1 5]
    (fun t => decide (t.calls 0 = 2)) (by decide)
  have hcalls := (h 1 _ 0 _ t (by decide) .init ht).1
  rw [of_decide_eq_true hp] at hcalls
  exact absurd hcalls (by decide)

end ReconfigState

end Ziplog
