import Mathlib.Logic.Function.Basic
import Ziplog.Zipper.FreezeAgreement

/-!
# Episodes of a proxy

Every rejoin of a proxy starts a new episode, and its rounds are counted from 1 again. A response
carries its round and not its episode, and `handle_freeze_response` compares rounds only. Here every
FREEZE is recorded with the episode it was broadcast in, every response with the FREEZE it answers,
and every call of `send_freeze_complete` with the responses it was decided by, so that one can say
which episode a proxy is blocked for (`blockedInEpisode`).
-/

namespace Ziplog

/-- A broadcast, with the episode of the proxy at that time. -/
structure Freeze where
  failedProxy : ℕ
  round : ℕ
  episode : ℕ
  deriving DecidableEq

/-- A FREEZE_RESPONSE, with the broadcast it answers. -/
structure FreezeReply where
  sender : ℕ
  freeze : Freeze
  seq : ℕ
  deriving DecidableEq

/-- A call of `send_freeze_complete` that has not blocked the proxy yet, with the round and the
responses it was decided by. -/
structure Decision where
  failedProxy : ℕ
  lastSeq : ℕ
  round : ℕ
  counted : List FreezeReply
  deriving DecidableEq

structure EpisodeState where
  zipper : ReconfigState
  /-- How often a proxy has rejoined. -/
  episode : ℕ → ℕ
  /-- The servers that have reported a proxy since. -/
  reported : ℕ → Finset ℕ
  freezes : List Freeze
  /-- The responses on their way. -/
  replies : List FreezeReply
  /-- The responses counted in the current round of a proxy. -/
  counted : ℕ → List FreezeReply
  decisions : List Decision

inductive EpisodeEvent
  | zipper (e : ReconfigEvent)
  | reply (r : FreezeReply)
  | deliver (r : FreezeReply)
  | block (d : Decision)
  deriving DecidableEq

/-- The steps of the manager that neither handle a response nor block a proxy. -/
def ReconfigEvent.isPlain : ReconfigEvent → Bool
  | .freezeResponse .. => false
  | .proceed (.sendFreezeComplete ..) => false
  | _ => true

namespace EpisodeState

def init (proxies : List Address) : EpisodeState :=
  ⟨.init proxies, fun _ => 0, fun _ => ∅, [], [], fun _ => [], []⟩

/-- The records after a plain step to `z`. -/
def observe (s : EpisodeState) (z : ReconfigState) : ReconfigEvent → EpisodeState
  | .report sender p =>
    { s with zipper := z, reported := Function.update s.reported p (insert sender (s.reported p)) }
  | .rejoin p =>
    { s with
      zipper := z
      episode := Function.update s.episode p (s.episode p + 1)
      reported := Function.update s.reported p ∅
      counted := Function.update s.counted p [] }
  | .proceed (.sendFreeze p _) =>
    { s with zipper := z, counted := Function.update s.counted p [] }
  | .proceed (.broadcastFreeze p round) =>
    { s with zipper := z, freezes := s.freezes ++ [⟨p, round, s.episode p⟩] }
  | _ => { s with zipper := z }

/-- The records of a response that is handled in its round. -/
def count (s : EpisodeState) (quorum : ℕ) (r : FreezeReply) (st : ProxyState) : EpisodeState :=
  let p := r.freeze.failedProxy
  let counted := s.counted p ++ [r]
  { s with
    counted := Function.update s.counted p counted
    decisions := s.decisions ++
      match (st.addResponse r.sender r.seq).verdict quorum with
      | .consensus lastSeq => [⟨p, lastSeq, st.freezeRound, counted⟩]
      | _ => [] }

/-- The records of a response. -/
def receive (s : EpisodeState) (quorum : ℕ) (r : FreezeReply) : EpisodeState :=
  match s.zipper.registry.lookup r.freeze.failedProxy with
  | none => s
  | some st => if r.freeze.round = st.freezeRound then s.count quorum r st else s

def step (quorum : ℕ) (s : EpisodeState) : EpisodeEvent → Option EpisodeState
  | .zipper e =>
    if e.isPlain then (s.zipper.step quorum e).map fun z => s.observe z e else none
  | .reply r => if r.freeze ∈ s.freezes then some { s with replies := s.replies ++ [r] } else none
  | .deliver r =>
    if r ∈ s.replies then
      (s.zipper.step quorum
        (.freezeResponse r.sender r.freeze.failedProxy r.freeze.round r.seq)).map fun z =>
          { s.receive quorum r with zipper := z, replies := s.replies.erase r }
    else none
  | .block d =>
    if d ∈ s.decisions then
      (s.zipper.step quorum (.proceed (.sendFreezeComplete d.failedProxy d.lastSeq))).map fun z =>
        { s with zipper := z, decisions := s.decisions.erase d }
    else none

/-- A proxy that becomes blocked was being reconfigured, a quorum of servers had reported it since
it last rejoined, and every response counted answers a broadcast of that episode and round. -/
def BlockedInEpisode (quorum : ℕ) (s : EpisodeState) (e : EpisodeEvent) (t : EpisodeState) : Prop :=
  ∀ p st st', s.zipper.registry.lookup p = some st → st.status ≠ .blocked →
    t.zipper.registry.lookup p = some st' → st'.status = .blocked →
    ∃ d ∈ s.decisions, e = .block d ∧ d.failedProxy = p ∧ st.status = .reconfiguring ∧
      quorum ≤ (s.reported p).card ∧
      ∀ r ∈ d.counted, r.freeze ∈ s.freezes ∧ r.freeze = ⟨p, d.round, s.episode p⟩

/-- The responses counted of a proxy answer broadcasts of its episode and round. -/
def CountedInEpisode (s : EpisodeState) : Prop :=
  ∀ p st, s.zipper.registry.lookup p = some st →
    ∀ r ∈ s.counted p, r.freeze ∈ s.freezes ∧ r.freeze = ⟨p, st.freezeRound, s.episode p⟩

/-- A proxy rejoins while no thread of the manager is about to start a round, to read it or to block
the proxy, and a response that is handled in its round answers a broadcast of the episode. -/
def InEpisode (s : EpisodeState) : EpisodeEvent → Prop
  | .zipper (.rejoin p) =>
    s.zipper.freezes p = 0 ∧ .readRound p ∉ s.zipper.tasks ∧ s.zipper.blocks p = 0
  | .deliver r =>
    ∀ st ∈ s.zipper.registry.lookup r.freeze.failedProxy, r.freeze.round = st.freezeRound →
      r.freeze.episode = s.episode r.freeze.failedProxy
  | _ => True

instance (s : EpisodeState) (e : EpisodeEvent) : Decidable (s.InEpisode e) :=
  match e with
  | .zipper (.rejoin _) => inferInstanceAs (Decidable (_ ∧ _ ∧ _))
  | .deliver r =>
    inferInstanceAs (Decidable (∀ st ∈ s.zipper.registry.lookup r.freeze.failedProxy, _ → _))
  | .zipper (.report ..) | .zipper (.freezeResponse ..) | .zipper (.proceed _)
  | .zipper (.allocate ..) | .reply _ | .block _ => .isTrue trivial

def status? (s : EpisodeState) (p : ℕ) : Option ProxyStatus :=
  (s.zipper.registry.lookup p).map ProxyState.status

/-- A thread of the manager is about to block a proxy. -/
def blocks? (s : EpisodeState) (quorum p : ℕ) : Bool :=
  s.decisions.any fun d =>
    (s.step quorum (.block d)).any fun t => decide (t.status? p = some .blocked)

end EpisodeState

def episodes (quorum : ℕ) (proxies : List Address) : Lts EpisodeState EpisodeEvent :=
  ⟨EpisodeState.init proxies, EpisodeState.step quorum⟩

namespace EpisodeState

open ReconfigState

variable {quorum p : ℕ} {proxies : List Address} {s t : EpisodeState} {z : ReconfigState}

/-! ## The invariant -/

/-- What holds for a proxy. An active one has no round running: none counted, none about to start
and none to be read. -/
structure Sound (quorum p : ℕ) (s : EpisodeState) : Prop where
  counted : ∀ st, s.zipper.registry.lookup p = some st →
    ∀ r ∈ s.counted p, r.freeze ∈ s.freezes ∧ r.freeze = ⟨p, st.freezeRound, s.episode p⟩
  decided : ∀ d ∈ s.decisions, d.failedProxy = p →
    ∀ r ∈ d.counted, r.freeze ∈ s.freezes ∧ r.freeze = ⟨p, d.round, s.episode p⟩
  pending : (s.decisions.countP fun d => d.failedProxy == p) = s.zipper.blocks p
  active : ∀ st, s.zipper.registry.lookup p = some st → st.status = .active →
    st.freezeRound = 0 ∧ s.zipper.freezes p = 0 ∧ .readRound p ∉ s.zipper.tasks ∧
      s.zipper.blocks p = 0
  reported : ∀ st, s.zipper.registry.lookup p = some st →
    st.reporters ⊆ s.reported p ∧ (st.status = .reconfiguring → quorum ≤ st.reporters.card)
  started : .readRound p ∈ s.zipper.tasks →
    ∀ st, s.zipper.registry.lookup p = some st → 1 ≤ st.freezeRound
  toSend : ∀ round, .broadcastFreeze p round ∈ s.zipper.tasks → 1 ≤ round
  freezes : ∀ f ∈ s.freezes, f.failedProxy = p → 1 ≤ f.round

/-- What a step for another proxy, or for later tasks of `p`, leaves as it is. -/
structure SameRound (p : ℕ) (s t : ReconfigState) : Prop where
  registry : t.registry.lookup p = s.registry.lookup p
  freezes : t.freezes p = s.freezes p
  blocks : t.blocks p = s.blocks p
  readRound : .readRound p ∈ t.tasks → .readRound p ∈ s.tasks
  toSend : ∀ round, .broadcastFreeze p round ∈ t.tasks → .broadcastFreeze p round ∈ s.tasks

theorem sameRound_of_sameFor {u v : ReconfigState} (h : SameFor p u v) : SameRound p u v :=
  ⟨h.registry, h.freezes, h.blocks, fun hmem => h.tasks _ hmem rfl,
    fun _ hmem => h.tasks _ hmem rfl⟩

/-- The records about a proxy, where more may have been broadcast about others. -/
structure SameRecords (p : ℕ) (s t : EpisodeState) : Prop where
  episode : t.episode p = s.episode p
  reported : t.reported p = s.reported p
  counted : t.counted p = s.counted p
  decisions : ∀ d ∈ t.decisions, d.failedProxy = p → d ∈ s.decisions
  pending : (t.decisions.countP fun d => d.failedProxy == p) =
    s.decisions.countP fun d => d.failedProxy == p
  sent : s.freezes ⊆ t.freezes
  freezes : ∀ f ∈ t.freezes, f.failedProxy = p → f ∈ s.freezes

theorem Sound.frame (h : Sound quorum p s) (hround : SameRound p s.zipper t.zipper)
    (hrecords : SameRecords p s t) : Sound quorum p t where
  counted := by
    intro st hst r hr
    rw [hround.registry] at hst
    rw [hrecords.counted] at hr
    rw [hrecords.episode]
    obtain ⟨hmem, heq⟩ := h.counted st hst r hr
    exact ⟨hrecords.sent hmem, heq⟩
  decided := by
    intro d hd hp r hr
    rw [hrecords.episode]
    obtain ⟨hmem, heq⟩ := h.decided d (hrecords.decisions d hd hp) hp r hr
    exact ⟨hrecords.sent hmem, heq⟩
  pending := by rw [hrecords.pending, hround.blocks, h.pending]
  active := by
    intro st hst hactive
    rw [hround.registry] at hst
    rw [hround.freezes, hround.blocks]
    obtain ⟨hzero, hfreezes, hread, hblocks⟩ := h.active st hst hactive
    exact ⟨hzero, hfreezes, fun hmem => hread (hround.readRound hmem), hblocks⟩
  reported := by
    intro st hst
    rw [hround.registry] at hst
    rw [hrecords.reported]
    exact h.reported st hst
  started := by
    intro hmem st hst
    rw [hround.registry] at hst
    exact h.started (hround.readRound hmem) st hst
  toSend := fun round hmem => h.toSend round (hround.toSend round hmem)
  freezes := fun f hf hp => h.freezes f (hrecords.freezes f hf hp) hp

/-- Only the own records of a step change. -/
theorem sameRecords_observe {e : ReconfigEvent} (hp : e.failedProxy ≠ p) (s : EpisodeState)
    (z : ReconfigState) : SameRecords p s (s.observe z e) := by
  have hrefl : SameRecords p s { s with zipper := z } :=
    ⟨rfl, rfl, rfl, fun _ h _ => h, rfl, List.Subset.refl _, fun _ h _ => h⟩
  have hne : p ≠ e.failedProxy := hp.symm
  cases e with
  | report sender q =>
    exact { hrefl with reported := Function.update_of_ne hne _ _ }
  | freezeResponse sender q round seq => exact hrefl
  | rejoin q =>
    exact { hrefl with
      episode := Function.update_of_ne hne _ _
      reported := Function.update_of_ne hne _ _
      counted := Function.update_of_ne hne _ _ }
  | allocate q seq => exact hrefl
  | proceed task =>
    cases task with
    | sendFreeze q firstRound =>
      exact { hrefl with counted := Function.update_of_ne hne _ _ }
    | broadcastFreeze q round =>
      refine { hrefl with sent := List.subset_append_left _ _, freezes := ?_ }
      intro f hf hfp
      rcases List.mem_append.mp hf with hmem | hmem
      · exact hmem
      · rw [List.mem_singleton.mp hmem] at hfp
        exact absurd hfp hp
    | _ => exact hrefl

/-! ## Steps for the proxy itself -/

/-- The entry of the proxy changes within its round. -/
theorem Sound.setProxy (h : Sound quorum p s) {st st' : ProxyState}
    (hst : s.zipper.registry.lookup p = some st) (hround : st'.freezeRound = st.freezeRound)
    (hactive : st'.status = .active → st.status = .active)
    (hreported : st'.reporters ⊆ s.reported p ∧
      (st'.status = .reconfiguring → quorum ≤ st'.reporters.card)) :
    Sound quorum p { s with zipper := s.zipper.setProxy p st' } := by
  refine ⟨?_, h.decided, h.pending, ?_, ?_, ?_, h.toSend, h.freezes⟩
  · intro u hu
    cases (AList.lookup_insert _).symm.trans hu
    rw [hround]
    exact h.counted st hst
  · intro u hu hstatus
    cases (AList.lookup_insert _).symm.trans hu
    rw [hround]
    exact h.active st hst (hactive hstatus)
  · intro u hu
    cases (AList.lookup_insert _).symm.trans hu
    exact hreported
  · intro hmem u hu
    cases (AList.lookup_insert _).symm.trans hu
    rw [hround]
    exact h.started hmem st hst

/-- A task is started. One for a round belongs to a proxy that is not active. -/
theorem Sound.start (h : Sound quorum p s) {task : ReconfigTask}
    (hactive : task.isSendFreeze p = true ∨ task = .readRound p →
      ∀ st, s.zipper.registry.lookup p = some st → st.status ≠ .active)
    (hread : task = .readRound p →
      ∀ st, s.zipper.registry.lookup p = some st → 1 ≤ st.freezeRound)
    (hsend : ∀ round, task = .broadcastFreeze p round → 1 ≤ round)
    (hblock : task.isSendFreezeComplete p = false) :
    Sound quorum p { s with zipper := s.zipper.start task } := by
  have hblocks : (s.zipper.start task).blocks p = s.zipper.blocks p := by
    rw [blocks_start, hblock]
    rfl
  refine ⟨h.counted, h.decided, h.pending.trans hblocks.symm, fun st hst hstatus => ?_,
    h.reported, fun hmem => ?_, fun round hmem => ?_, h.freezes⟩
  · obtain ⟨hzero, hfreezes, hnot, hblocked⟩ := h.active st hst hstatus
    refine ⟨hzero, ?_, fun hmem => ?_, hblocks.trans hblocked⟩
    · show (s.zipper.start task).freezes p = 0
      rw [freezes_start, hfreezes, if_neg fun hfreeze => hactive (Or.inl hfreeze) st hst hstatus]
    · rcases List.mem_append.mp hmem with hold | hnew
      · exact hnot hold
      · exact hactive (Or.inr (List.mem_singleton.mp hnew).symm) st hst hstatus
  · rcases List.mem_append.mp hmem with hold | hnew
    · exact h.started hold
    · exact hread (List.mem_singleton.mp hnew).symm
  · rcases List.mem_append.mp hmem with hold | hnew
    · exact h.toSend round hold
    · exact hsend round (List.mem_singleton.mp hnew).symm

/-- The tasks that send the skips concern no round. -/
theorem Sound.startSkips (h : Sound quorum p s) (q lastSeq : ℕ) (allocated : List ℕ) :
    Sound quorum p { s with zipper := s.zipper.start (.sendSkips q lastSeq allocated) } := by
  refine h.start (fun heq => ?_) (fun heq => ?_) (fun round heq => ?_) rfl
  · rcases heq with heq | heq <;> cases heq
  · cases heq
  · cases heq

/-- Of the messages only the rounds are recorded. -/
theorem Sound.send (h : Sound quorum p s) (message : ZipperMessage) :
    Sound quorum p { s with zipper := s.zipper.send message } :=
  ⟨h.counted, h.decided, h.pending, h.active, h.reported, h.started, h.toSend, h.freezes⟩

/-- A task ends that does not block the proxy. -/
theorem Sound.finish (h : Sound quorum p s) {task : ReconfigTask} (htask : task ∈ s.zipper.tasks)
    (hblock : task.isSendFreezeComplete p = false) :
    Sound quorum p { s with zipper := s.zipper.finish task } := by
  have hblocks : s.zipper.blocks p = (s.zipper.finish task).blocks p := by
    rw [blocks_finish htask p, hblock]
    rfl
  have hfreezes := freezes_finish htask p
  refine ⟨h.counted, h.decided, h.pending.trans hblocks, fun st hst hstatus => ?_, h.reported,
    fun hmem => h.started (List.mem_of_mem_erase hmem),
    fun round hmem => h.toSend round (List.mem_of_mem_erase hmem), h.freezes⟩
  obtain ⟨hzero, hnone, hread, hblocked⟩ := h.active st hst hstatus
  refine ⟨hzero, ?_, fun hmem => hread (List.mem_of_mem_erase hmem), hblocks ▸ hblocked⟩
  show (s.zipper.finish task).freezes p = 0
  omega

/-- A proxy with a round about to start, to be read or to be decided is not active. -/
theorem Sound.not_active (h : Sound quorum p s) (hbusy : s.zipper.freezes p ≠ 0 ∨
    .readRound p ∈ s.zipper.tasks ∨ s.zipper.blocks p ≠ 0) {st : ProxyState}
    (hst : s.zipper.registry.lookup p = some st) : st.status ≠ .active := by
  intro hstatus
  obtain ⟨-, hfreezes, hread, hblocks⟩ := h.active st hst hstatus
  rcases hbusy with hfreeze | hmem | hblock
  · exact hfreeze hfreezes
  · exact hread hmem
  · exact hblock hblocks

/-- The records that a plain step keeps of the proxy grow. -/
theorem Sound.recorded (h : Sound quorum p s) {sender : ℕ} :
    Sound quorum p { s with
      reported := Function.update s.reported p (insert sender (s.reported p)) } := by
  refine ⟨h.counted, h.decided, h.pending, h.active, fun st hst => ?_, h.started, h.toSend,
    h.freezes⟩
  obtain ⟨hsubset, hquorum⟩ := h.reported st hst
  refine ⟨?_, hquorum⟩
  show st.reporters ⊆ Function.update s.reported p (insert sender (s.reported p)) p
  rw [Function.update_self]
  exact hsubset.trans (Finset.subset_insert _ _)

/-- A round starts: its responses are yet to come. -/
theorem Sound.startRound (h : Sound quorum p s) {firstRound : Bool} {st : ProxyState}
    (hst : s.zipper.registry.lookup p = some st) (hactive : st.status ≠ .active) :
    Sound quorum p { s with
      zipper := s.zipper.setProxy p (st.startRound firstRound)
      counted := Function.update s.counted p [] } := by
  refine ⟨fun u _ r hr => ?_, h.decided, h.pending, fun u hu hstatus => ?_, fun u hu => ?_,
    fun _ u hu => ?_, h.toSend, h.freezes⟩
  · change r ∈ Function.update s.counted p [] p at hr
    rw [Function.update_self] at hr
    cases hr
  · cases (AList.lookup_insert _).symm.trans hu
    exact absurd hstatus hactive
  · cases (AList.lookup_insert _).symm.trans hu
    exact h.reported st hst
  · cases (AList.lookup_insert _).symm.trans hu
    show 1 ≤ if firstRound then 1 else st.freezeRound + 1
    split_ifs <;> omega

/-- A round is broadcast. -/
theorem Sound.broadcast (h : Sound quorum p s) {round : ℕ} (hround : 1 ≤ round) :
    Sound quorum p { s with
      zipper := s.zipper.send (.freeze p round)
      freezes := s.freezes ++ [⟨p, round, s.episode p⟩] } := by
  refine ⟨fun st hst r hr => ?_, fun d hd hp r hr => ?_, h.pending, h.active, h.reported,
    h.started, h.toSend, fun f hf hp => ?_⟩
  · obtain ⟨hmem, heq⟩ := h.counted st hst r hr
    exact ⟨List.mem_append_left _ hmem, heq⟩
  · obtain ⟨hmem, heq⟩ := h.decided d hd hp r hr
    exact ⟨List.mem_append_left _ hmem, heq⟩
  · rcases List.mem_append.mp hf with hold | hnew
    · exact h.freezes f hold hp
    · rw [List.mem_singleton.mp hnew]
      exact hround

/-- An episode starts when no work for the proxy is left over from the one before. -/
theorem Sound.rejoin (h : Sound quorum p s) (hidle : s.zipper.freezes p = 0 ∧
    .readRound p ∉ s.zipper.tasks ∧ s.zipper.blocks p = 0) :
    Sound quorum p (s.observe { s.zipper with registry := s.zipper.registry.rejoinProxy p }
      (.rejoin p)) := by
  obtain ⟨hfreezes, hread, hblocks⟩ := hidle
  have hnone : ∀ d ∈ s.decisions, d.failedProxy ≠ p := by
    intro d hd hp
    have hzero := h.pending
    rw [hblocks, List.countP_eq_zero] at hzero
    exact hzero d hd (beq_iff_eq.mpr hp)
  refine ⟨fun u _ r hr => ?_, fun d hd hp => absurd hp (hnone d hd), h.pending,
    fun u hu _ => ?_, fun u hu => ?_, fun hmem => absurd hmem hread, h.toSend, h.freezes⟩
  · change r ∈ Function.update s.counted p [] p at hr
    rw [Function.update_self] at hr
    cases hr
  · obtain ⟨address, rfl⟩ := ProxyRegistry.lookup_rejoinProxy hu
    exact ⟨rfl, hfreezes, hread, hblocks⟩
  · obtain ⟨address, rfl⟩ := ProxyRegistry.lookup_rejoinProxy hu
    exact ⟨Finset.empty_subset _, fun hstatus => by cases hstatus⟩

/-- A plain step for the proxy. -/
theorem Sound.plain (h : Sound quorum p s) {e : ReconfigEvent} (hplain : e.isPlain = true)
    (hp : e.failedProxy = p) (hguard : s.InEpisode (.zipper e))
    (hs : s.zipper.step quorum e = some z) : Sound quorum p (s.observe z e) := by
  have hreporters : ∀ (sender : ℕ) (st : ProxyState), s.zipper.registry.lookup p = some st →
      (st.addReporter sender).reporters ⊆
        Function.update s.reported p (insert sender (s.reported p)) p := by
    intro sender st hst
    rw [Function.update_self]
    exact Finset.insert_subset_insert _ (h.reported st hst).1
  cases effect_of_step hs with
  | reportIgnored hst =>
    cases hp
    exact h.recorded
  | @reported sender q st hst hactive =>
    cases hp
    refine h.recorded.setProxy hst rfl id ⟨hreporters sender st hst, fun hstatus => ?_⟩
    exact absurd (hactive.symm.trans hstatus) (by decide)
  | @reconfiguring sender q st hst hactive hquorum =>
    cases hp
    have hround : ((st.addReporter sender).setStatus .reconfiguring).freezeRound =
        st.freezeRound := rfl
    have hset := h.recorded.setProxy hst hround (fun hstatus => by cases hstatus)
      ⟨hreporters sender st hst, fun _ => hquorum⟩
    refine hset.start (fun _ u hu => ?_) (fun heq => by cases heq) (fun round heq => by cases heq)
      rfl
    cases (AList.lookup_insert _).symm.trans hu
    exact fun hstatus => by cases hstatus
  | stale hst => cases hplain
  | waiting hst hv => cases hplain
  | noConsensus hst hv => cases hplain
  | consensus hst hv => cases hplain
  | @startRound q firstRound st htask hst =>
    cases hp
    have hactive : st.status ≠ .active := by
      refine h.not_active (Or.inl ?_) hst
      have hcount := freezes_finish htask q
      have hown : (ReconfigTask.sendFreeze q firstRound).isSendFreeze q = true :=
        beq_self_eq_true q
      rw [if_pos hown] at hcount
      exact hcount ▸ Nat.succ_ne_zero _
    refine ((h.finish htask rfl).startRound hst hactive).start (fun _ u hu => ?_)
      (fun _ u hu => ?_) (fun round heq => by cases heq) rfl
    · cases (AList.lookup_insert _).symm.trans hu
      exact hactive
    · cases (AList.lookup_insert _).symm.trans hu
      show 1 ≤ if firstRound then 1 else st.freezeRound + 1
      split_ifs <;> omega
  | @readRound q st htask hst =>
    cases hp
    refine (h.finish htask rfl).start (fun heq => ?_) (fun heq => by cases heq)
      (fun round heq => ?_) rfl
    · rcases heq with heq | heq <;> cases heq
    · cases heq
      exact h.started htask st hst
  | @broadcastFreeze q round htask =>
    cases hp
    exact (h.finish htask rfl).broadcast (h.toSend round htask)
  | block htask hst => cases hplain
  | completed htask =>
    cases hp
    exact (h.finish htask rfl).send _
  | skip htask hseq =>
    cases hp
    exact ((h.finish htask rfl).send _).startSkips _ _ _
  | used htask =>
    cases hp
    exact (h.finish htask rfl).startSkips _ _ _
  | rejoin =>
    cases hp
    exact h.rejoin hguard
  | @allocate q seq st hst =>
    cases hp
    exact h.setProxy hst rfl id (h.reported st hst)

/-! ## Responses and blocking -/

/-- A response of the round is counted. -/
theorem Sound.counting (h : Sound quorum p s) {st : ProxyState} {r : FreezeReply}
    (hst : s.zipper.registry.lookup p = some st) (hmem : r.freeze ∈ s.freezes)
    (hfreeze : r.freeze = ⟨p, st.freezeRound, s.episode p⟩) :
    Sound quorum p { s with
      zipper := s.zipper.setProxy p (st.addResponse r.sender r.seq)
      counted := Function.update s.counted p (s.counted p ++ [r]) } := by
  have hset := @Sound.setProxy quorum p s h st (st.addResponse r.sender r.seq) hst rfl id
    (h.reported st hst)
  refine { hset with counted := fun u hu r' hr' => ?_ }
  cases (AList.lookup_insert _).symm.trans hu
  change r' ∈ Function.update s.counted p (s.counted p ++ [r]) p at hr'
  rw [Function.update_self] at hr'
  rcases List.mem_append.mp hr' with hold | hnew
  · exact h.counted st hst r' hold
  · rw [List.mem_singleton.mp hnew]
    exact ⟨hmem, hfreeze⟩

/-- A call of `send_freeze_complete` is decided by the responses counted. -/
theorem Sound.decide (h : Sound quorum p s) (lastSeq : ℕ) {st : ProxyState}
    {counted : List FreezeReply} (hcounted : s.counted p = counted)
    (hst : s.zipper.registry.lookup p = some st) (hactive : st.status ≠ .active) :
    Sound quorum p { s with
      zipper := s.zipper.start (.sendFreezeComplete p lastSeq)
      decisions := s.decisions ++ [⟨p, lastSeq, st.freezeRound, counted⟩] } := by
  subst hcounted
  refine ⟨h.counted, fun d hd hp => ?_, ?_, fun u hu hstatus => ?_, h.reported, fun hmem => ?_,
    fun round hmem => ?_, h.freezes⟩
  · rcases List.mem_append.mp hd with hold | hnew
    · exact h.decided d hold hp
    · rw [List.mem_singleton.mp hnew]
      exact h.counted st hst
  · show _ = (s.zipper.start (.sendFreezeComplete p lastSeq)).blocks p
    rw [blocks_start, List.countP_append, h.pending, List.countP_singleton]
    rfl
  · cases hst.symm.trans hu
    exact absurd hstatus hactive
  · rcases List.mem_append.mp hmem with hold | hnew
    · exact h.started hold
    · cases List.mem_singleton.mp hnew
  · rcases List.mem_append.mp hmem with hold | hnew
    · exact h.toSend round hold
    · cases List.mem_singleton.mp hnew

/-- The proxy is blocked. -/
theorem Sound.block (h : Sound quorum p s) {d : Decision} (hd : d ∈ s.decisions)
    (hp : d.failedProxy = p) (htask : .sendFreezeComplete p d.lastSeq ∈ s.zipper.tasks)
    {st : ProxyState} (hst : s.zipper.registry.lookup p = some st) :
    Sound quorum p { s with
      zipper := (s.zipper.finish (.sendFreezeComplete p d.lastSeq)).setProxy p
        (st.setStatus .blocked)
      decisions := s.decisions.erase d } := by
  refine ⟨fun u hu => ?_, fun d' hd' => h.decided d' (List.mem_of_mem_erase hd'), ?_,
    fun u hu hstatus => ?_, fun u hu => ?_, fun hmem u hu => ?_, fun round hmem => ?_, h.freezes⟩
  · cases (AList.lookup_insert _).symm.trans hu
    exact h.counted st hst
  · have hown : (ReconfigTask.sendFreezeComplete p d.lastSeq).isSendFreezeComplete p = true :=
      beq_self_eq_true p
    have hblocks := blocks_finish htask p
    have hpending := h.pending
    rw [(List.perm_cons_erase hd).countP_eq, List.countP_cons, if_pos (beq_iff_eq.mpr hp), hblocks,
      if_pos hown] at hpending
    exact Nat.succ.inj hpending
  · cases (AList.lookup_insert _).symm.trans hu
    cases hstatus
  · cases (AList.lookup_insert _).symm.trans hu
    exact ⟨(h.reported st hst).1, fun hstatus => by cases hstatus⟩
  · cases (AList.lookup_insert _).symm.trans hu
    exact h.started (List.mem_of_mem_erase hmem) st hst
  · exact h.toSend round (List.mem_of_mem_erase hmem)

/-- Nothing is recorded of a response outside its round. -/
theorem receive_stale {r : FreezeReply} (hst : ∀ st,
    s.zipper.registry.lookup r.freeze.failedProxy = some st → r.freeze.round ≠ st.freezeRound) :
    s.receive quorum r = s := by
  unfold receive
  split
  · rfl
  · rename_i st hlookup
    exact if_neg (hst st hlookup)

theorem receive_counted {r : FreezeReply} {st : ProxyState}
    (hst : s.zipper.registry.lookup r.freeze.failedProxy = some st)
    (hround : r.freeze.round = st.freezeRound) : s.receive quorum r = s.count quorum r st := by
  unfold receive
  rw [hst]
  exact if_pos hround

/-- Neither the answers handled nor the calls made are looked at. -/
theorem Sound.log (h : Sound quorum p s) (answer : Answer) (call : Completion) :
    Sound quorum p { s with zipper := s.zipper.record answer } ∧
      Sound quorum p { s with zipper := s.zipper.complete call } :=
  ⟨⟨h.counted, h.decided, h.pending, h.active, h.reported, h.started, h.toSend, h.freezes⟩,
    ⟨h.counted, h.decided, h.pending, h.active, h.reported, h.started, h.toSend, h.freezes⟩⟩

/-- A response about the proxy. -/
theorem Sound.deliver (h : Sound quorum p s) {r : FreezeReply} (hp : r.freeze.failedProxy = p)
    (hmem : r.freeze ∈ s.freezes) (hguard : s.InEpisode (.deliver r))
    (hs : s.zipper.step quorum
      (.freezeResponse r.sender r.freeze.failedProxy r.freeze.round r.seq) = some z) :
    Sound quorum p { s.receive quorum r with zipper := z } := by
  obtain ⟨sender, ⟨q, round, episode⟩, seq⟩ := r
  obtain rfl : q = p := hp
  have hactive : ∀ st, s.zipper.registry.lookup q = some st → round = st.freezeRound →
      st.status ≠ .active := by
    intro st hst hround hactive
    have hzero := (h.active st hst hactive).1
    have hone : 1 ≤ round := h.freezes _ hmem rfl
    omega
  have hfreeze : ∀ st, s.zipper.registry.lookup q = some st → round = st.freezeRound →
      (⟨q, round, episode⟩ : Freeze) = ⟨q, st.freezeRound, s.episode q⟩ := by
    intro st hst hround
    rw [← hround, ← hguard st hst hround]
  cases effect_of_step hs with
  | stale hst =>
    rw [receive_stale hst]
    exact (h.log _ ⟨0, 0, ∅⟩).1
  | @waiting _ _ _ st hst hv =>
    have hcounted := h.counting hst hmem (hfreeze st hst rfl)
    rw [receive_counted hst rfl, count, hv, List.append_nil]
    exact (hcounted.log _ ⟨0, 0, ∅⟩).1
  | @noConsensus _ _ _ st hst hv =>
    have hcounted := h.counting hst hmem (hfreeze st hst rfl)
    rw [receive_counted hst rfl, count, hv, List.append_nil]
    refine ((hcounted.start (fun _ u hu => ?_) (fun heq => by cases heq)
      (fun round heq => by cases heq) rfl).log _ ⟨0, 0, ∅⟩).1
    cases (AList.lookup_insert _).symm.trans hu
    exact hactive st hst rfl
  | @consensus _ _ _ lastSeq st hst hv =>
    have hcounted := h.counting hst hmem (hfreeze st hst rfl)
    have hdecided := hcounted.decide lastSeq (Function.update_self _ _ _) (AList.lookup_insert _)
      (hactive st hst rfl)
    have hcompleted := (hdecided.log ⟨0, 0, 0⟩
      ⟨q, lastSeq, (st.addResponse sender seq).freezeResponders⟩).2
    rw [receive_counted hst rfl, count, hv]
    exact (hcompleted.log _ ⟨0, 0, ∅⟩).1

/-! ## Runs -/

/-- What holds in a run. -/
structure Inv (quorum : ℕ) (s : EpisodeState) : Prop where
  sound : ∀ p, Sound quorum p s
  replies : ∀ r ∈ s.replies, r.freeze ∈ s.freezes

theorem inv_init (quorum : ℕ) (proxies : List Address) : Inv quorum (init proxies) := by
  refine ⟨fun p => ⟨?_, ?_, rfl, ?_, ?_, ?_, ?_, ?_⟩, fun r hr => by cases hr⟩
  · intro st _ r hr
    cases hr
  · intro d hd
    cases hd
  · intro st hst _
    obtain ⟨address, rfl⟩ := ProxyRegistry.lookup_ofConfig hst
    exact ⟨rfl, rfl, List.not_mem_nil, rfl⟩
  · intro st hst
    obtain ⟨address, rfl⟩ := ProxyRegistry.lookup_ofConfig hst
    exact ⟨Finset.empty_subset _, fun hstatus => by cases hstatus⟩
  · intro hmem
    cases hmem
  · intro round hmem
    cases hmem
  · intro f hf
    cases hf

/-- The responses on their way do not matter to what was counted. -/
theorem Sound.withReplies (h : Sound quorum p s) (replies : List FreezeReply) :
    Sound quorum p { s with replies := replies } :=
  ⟨h.counted, h.decided, h.pending, h.active, h.reported, h.started, h.toSend, h.freezes⟩

/-- A response adds to the records of its proxy only. -/
theorem sameRecords_receive {r : FreezeReply} (hp : r.freeze.failedProxy ≠ p) (s : EpisodeState)
    (z : ReconfigState) : SameRecords p s { s.receive quorum r with zipper := z } := by
  have hrefl : SameRecords p s { s with zipper := z } :=
    ⟨rfl, rfl, rfl, fun _ h _ => h, rfl, List.Subset.refl _, fun _ h _ => h⟩
  unfold receive
  split
  · exact hrefl
  · rename_i st hst
    split_ifs with hround
    · unfold count
      have hdecisions : ∀ d ∈ (match (st.addResponse r.sender r.seq).verdict quorum with
          | .consensus lastSeq => [(⟨r.freeze.failedProxy, lastSeq, st.freezeRound,
              s.counted r.freeze.failedProxy ++ [r]⟩ : Decision)]
          | _ => []), d.failedProxy ≠ p := by
        intro d hd
        split at hd
        · rw [List.mem_singleton.mp hd]
          exact hp
        · cases hd
      refine { hrefl with
        counted := Function.update_of_ne hp.symm _ _
        decisions := fun d hd hdp => ?_
        pending := ?_ }
      · rcases List.mem_append.mp hd with hold | hnew
        · exact hold
        · exact absurd hdp (hdecisions d hnew)
      · rw [List.countP_append, Nat.add_eq_left, List.countP_eq_zero]
        intro d hd hdp
        exact hdecisions d hd (beq_iff_eq.mp hdp)
    · exact hrefl

/-- **What a step keeps.** -/
theorem inv_step {e : EpisodeEvent} (h : Inv quorum s) (hguard : s.InEpisode e)
    (hs : s.step quorum e = some t) : Inv quorum t := by
  cases e with
  | zipper e =>
    simp only [step] at hs
    split_ifs at hs with hplain
    obtain ⟨z, hz, rfl⟩ := Option.map_eq_some_iff.mp hs
    constructor
    · intro p
      by_cases hp : e.failedProxy = p
      · exact (h.sound p).plain hplain hp hguard hz
      · have hzipper : (s.observe z e).zipper = z := by
          unfold observe
          split <;> rfl
        refine (h.sound p).frame ?_ (sameRecords_observe hp s z)
        rw [hzipper]
        exact sameRound_of_sameFor (sameFor_step hz hp)
    · intro r hr
      have hreplies : (s.observe z e).replies = s.replies := by
        unfold observe
        split <;> rfl
      have hsent : s.freezes ⊆ (s.observe z e).freezes := by
        unfold observe
        split <;> first | exact List.Subset.refl _ | exact List.subset_append_left _ _
      rw [hreplies] at hr
      exact hsent (h.replies r hr)
  | reply r =>
    simp only [step] at hs
    split_ifs at hs with hmem
    cases hs
    refine ⟨fun p => (h.sound p).withReplies _, fun r' hr' => ?_⟩
    rcases List.mem_append.mp hr' with hold | hnew
    · exact h.replies r' hold
    · rw [List.mem_singleton.mp hnew]
      exact hmem
  | deliver r =>
    simp only [step] at hs
    split_ifs at hs with hmem
    obtain ⟨z, hz, rfl⟩ := Option.map_eq_some_iff.mp hs
    constructor
    · intro p
      by_cases hp : r.freeze.failedProxy = p
      · exact ((h.sound p).deliver hp (h.replies r hmem) hguard hz).withReplies _
      · have hrecords := @sameRecords_receive quorum p r hp s z
        have hround := sameRound_of_sameFor (@sameFor_step quorum p _ _ _ hz hp)
        exact ((h.sound p).frame hround hrecords).withReplies _
    · intro r' hr'
      have hfreezes : (s.receive quorum r).freezes = s.freezes := by
        unfold receive
        split
        · rfl
        · split_ifs <;> rfl
      show r'.freeze ∈ (s.receive quorum r).freezes
      rw [hfreezes]
      exact h.replies r' (List.mem_of_mem_erase hr')
  | block d =>
    simp only [step] at hs
    split_ifs at hs with hd
    obtain ⟨z, hz, rfl⟩ := Option.map_eq_some_iff.mp hs
    refine ⟨fun p => ?_, h.replies⟩
    by_cases hp : d.failedProxy = p
    · subst hp
      cases effect_of_step hz with
      | block htask hst => exact ((h.sound _).block hd rfl htask hst).startSkips _ _ _
    · refine (h.sound p).frame (sameRound_of_sameFor (sameFor_step hz hp))
        ⟨rfl, rfl, rfl, fun d' hd' _ => List.mem_of_mem_erase hd', ?_, List.Subset.refl _,
          fun _ hf _ => hf⟩
      rw [(List.perm_cons_erase hd).countP_eq, List.countP_cons,
        if_neg (by simpa using hp)]
      rfl

theorem inv (h : (episodes quorum proxies).ReachVia InEpisode s) : Inv quorum s :=
  h.invariant _ (inv_init quorum proxies) fun _ _ _ _ hinv hguard hs => inv_step hinv hguard hs

/-! ## Blocked in the episode -/

theorem Inv.blocked_of_step (h : Inv quorum s) {e : EpisodeEvent} (hs : s.step quorum e = some t) :
    BlockedInEpisode quorum s e t := by
  intro p st st' hst hopen hst' hblocked
  cases e with
  | zipper e =>
    simp only [step] at hs
    split_ifs at hs with hplain
    obtain ⟨z, hz, rfl⟩ := Option.map_eq_some_iff.mp hs
    have hzipper : (s.observe z e).zipper = z := by
      unfold observe
      split <;> rfl
    rw [hzipper] at hst'
    obtain ⟨lastSeq, rfl⟩ := ReconfigState.eq_block_of_blocked hz hst hopen hst' hblocked
    cases hplain
  | reply r =>
    simp only [step] at hs
    split_ifs at hs
    cases hs
    cases hst.symm.trans hst'
    exact absurd hblocked hopen
  | deliver r =>
    simp only [step] at hs
    split_ifs at hs
    obtain ⟨z, hz, rfl⟩ := Option.map_eq_some_iff.mp hs
    obtain ⟨lastSeq, heq⟩ := ReconfigState.eq_block_of_blocked hz hst hopen hst' hblocked
    cases heq
  | block d =>
    simp only [step] at hs
    split_ifs at hs with hd
    obtain ⟨z, hz, rfl⟩ := Option.map_eq_some_iff.mp hs
    obtain ⟨lastSeq, heq⟩ := ReconfigState.eq_block_of_blocked hz hst hopen hst' hblocked
    have hp : d.failedProxy = p := by
      cases heq
      rfl
    have hbusy : s.zipper.blocks p ≠ 0 := by
      rw [← (h.sound p).pending, Ne, List.countP_eq_zero]
      exact fun hnone => hnone d hd (beq_iff_eq.mpr hp)
    have hactive := (h.sound p).not_active (Or.inr (Or.inr hbusy)) hst
    have hstatus : st.status = .reconfiguring := by
      cases hcase : st.status with
      | active => exact absurd hcase hactive
      | reconfiguring => rfl
      | blocked => exact absurd hcase hopen
    obtain ⟨hsubset, hquorum⟩ := (h.sound p).reported st hst
    exact ⟨d, hd, rfl, hp, hstatus, (hquorum hstatus).trans (Finset.card_le_card hsubset),
      (h.sound p).decided d hd hp⟩

/-- **Episodes.** In a run in which rejoins wait for the threads of the manager, and responses from
before a rejoin are handled in no round of their number, a proxy is blocked for what was decided
about it since. -/
theorem blockedInEpisode {e : EpisodeEvent}
    (h : (episodes quorum proxies).ReachVia InEpisode s) (hs : s.step quorum e = some t) :
    BlockedInEpisode quorum s e t ∧ s.CountedInEpisode :=
  ⟨(inv h).blocked_of_step hs, fun p st hst => ((inv h).sound p).counted st hst⟩

theorem exists_of_blocks? (h : s.blocks? quorum p = true) :
    ∃ e t, s.step quorum e = some t ∧ t.status? p = some .blocked := by
  obtain ⟨d, -, hd⟩ := List.any_eq_true.mp h
  obtain ⟨t, ht, hblocked⟩ := (Option.any_eq_true _ _).mp hd
  exact ⟨.block d, t, ht, of_decide_eq_true hblocked⟩

/-- Two servers report a proxy and agree on its last number. -/
theorem blockedInEpisode_twoServers : ∃ s e t,
    (episodes 2 [⟨"127.0.0.1", 5000⟩]).ReachVia InEpisode s ∧ s.step 2 e = some t ∧
      t.status? 0 = some .blocked ∧ BlockedInEpisode 2 s e t ∧ s.CountedInEpisode := by
  obtain ⟨s, hs, hp⟩ := @Lts.exists_reachVia_of_run _ _ (episodes 2 [⟨"127.0.0.1", 5000⟩])
    InEpisode (fun s e => decide (s.InEpisode e)) (fun _ _ => of_decide_eq_true)
    [.zipper (.report 7 0), .zipper (.report 8 0), .zipper (.proceed (.sendFreeze 0 true)),
      .zipper (.proceed (.readRound 0)), .zipper (.proceed (.broadcastFreeze 0 1)),
      .reply ⟨7, ⟨0, 1, 0⟩, 5⟩, .reply ⟨8, ⟨0, 1, 0⟩, 5⟩, .deliver ⟨7, ⟨0, 1, 0⟩, 5⟩,
      .deliver ⟨8, ⟨0, 1, 0⟩, 5⟩]
    (fun s => s.blocks? 2 0) (by decide)
  obtain ⟨e, t, ht, hblocked⟩ := exists_of_blocks? hp
  exact ⟨s, e, t, hs, ht, hblocked, blockedInEpisode hs ht⟩

/-- The proxy rejoins between the decision and the blocking. -/
theorem not_blockedInEpisode : ¬ ∀ (quorum : ℕ) (proxies : List Address) (s t : EpisodeState)
    (e : EpisodeEvent), (episodes quorum proxies).Reach s → s.step quorum e = some t →
      BlockedInEpisode quorum s e t ∧ s.CountedInEpisode := by
  intro h
  obtain ⟨s, hs, hp⟩ := @Lts.exists_reach_of_run _ _ (episodes 1 [⟨"127.0.0.1", 5000⟩])
    [.zipper (.report 7 0), .zipper (.proceed (.sendFreeze 0 true)),
      .zipper (.proceed (.readRound 0)), .zipper (.proceed (.broadcastFreeze 0 1)),
      .reply ⟨7, ⟨0, 1, 0⟩, 5⟩, .deliver ⟨7, ⟨0, 1, 0⟩, 5⟩, .zipper (.rejoin 0)]
    (fun s => decide (s.status? 0 = some .active) && s.blocks? 1 0) (by decide)
  obtain ⟨hactive, hblocks⟩ := Bool.and_eq_true_iff.mp hp
  obtain ⟨e, t, ht, hblocked⟩ := exists_of_blocks? hblocks
  obtain ⟨st, hst, hstatus⟩ := Option.map_eq_some_iff.mp (of_decide_eq_true hactive)
  obtain ⟨st', hst', hstatus'⟩ := Option.map_eq_some_iff.mp hblocked
  have hopen : st.status ≠ .blocked := by
    rw [hstatus]
    decide
  obtain ⟨d, -, -, -, hreconfiguring, -⟩ := (h _ _ s t e hs ht).1 0 st st' hst hopen hst' hstatus'
  cases hstatus.symm.trans hreconfiguring

end EpisodeState

end Ziplog
