import Ziplog.Api.NetworkUtils
import Ziplog.Server.Server

/-!
# A subscriber that joins late

`introduce_subscriber` takes a snapshot of the store, replays it, and only then adds the worker that
gets the broadcasts, while other connections store frames and broadcast them. A frame that is stored
after the snapshot and broadcast before the worker is added is in neither (`not_nothingMissed`);
every other frame reaches the subscriber (`nothingMissed`).
-/

namespace Ziplog

/-- The steps of an introduction, and of the frames that come meanwhile. -/
def ServerEvent.isHandOver : ServerEvent → Bool
  | .append _ | .broadcast _ | .introduce _ | .snapshot | .connect _ | .replay
  | .addSubscriber => true
  | _ => false

/-- A server on which only frames come and subscribers are introduced. Who is blocked does not
change. -/
def handOver (serverId : UInt32) (liveness : ProxyLivenessTracker) (subscribers : List Address) :
    Lts Server ServerEvent :=
  ⟨Server.init liveness subscribers,
    fun s e => if e.isHandOver then s.step serverId e else none⟩

namespace Server

variable {serverId : UInt32} {liveness : ProxyLivenessTracker} {subscribers : List Address}
  {s t : Server}

/-- The frame was sent to the subscriber or is queued for it, from the store or with the id of the
server. -/
def Reaches (serverId : UInt32) (s : Server) (subscriber : Address) (wire : List UInt8) : Prop :=
  (subscriber, wire) ∈ s.outbox ∨ (subscriber, patchSender serverId wire) ∈ s.outbox

/-- Once no frame is between its store and its broadcast, the subscribers that were introduced have
all frames of the proxies that are not blocked. -/
def NothingMissed (serverId : UInt32) (s : Server) : Prop :=
  s.pending = [] → ∀ subscriber ∈ s.introduced, ∀ proxyId, s.liveness.isBlocked proxyId = false →
    ∀ wire ∈ s.store.stored proxyId, s.Reaches serverId subscriber wire

/-- The snapshot of a running introduction. -/
def snap? (s : Server) : Option (List (Sigma fun _ : ℕ => List (List UInt8))) :=
  match s.introduction with
  | some (.connecting _ snap) => some snap
  | some (.replaying _ snap _) => some snap
  | _ => none

theorem snap?_of_connecting {subscriber : Address}
    {snap : List (Sigma fun _ : ℕ => List (List UInt8))}
    (h : s.introduction = some (.connecting subscriber snap)) : s.snap? = some snap := by
  unfold snap?
  rw [h]

theorem snap?_of_replaying {subscriber : Address}
    {snap rest : List (Sigma fun _ : ℕ => List (List UInt8))}
    (h : s.introduction = some (.replaying subscriber snap rest)) : s.snap? = some snap := by
  unfold snap?
  rw [h]

/-- The subscriber can be connected to, and a frame that is broadcast between the snapshot and the
end of the introduction is in the snapshot. -/
def InSnapshot (s : Server) : ServerEvent → Prop
  | .connect connected => connected = true
  | .broadcast wire => ∀ snap ∈ s.snap?, ∃ e ∈ snap, wire ∈ e.2
  | _ => True

instance (s : Server) (e : ServerEvent) : Decidable (s.InSnapshot e) :=
  match e with
  | .connect connected => inferInstanceAs (Decidable (connected = true))
  | .broadcast wire => inferInstanceAs (Decidable (∀ snap ∈ s.snap?, ∃ e ∈ snap, wire ∈ e.2))
  | .append _ | .zipResponse .. | .freeze .. | .transferRequest .. | .transfer ..
  | .freezeResponse .. | .introduce _ | .snapshot | .replay | .addSubscriber => .isTrue trivial

/-! ## The invariant -/

/-- While an introduction runs, its subscriber has no worker yet. -/
def workerBound (s : Server) : ℕ :=
  if s.introduction = none then s.subscribers.length else s.subscribers.length - 1

/-- What the workers of a server and the addresses recorded have to do with each other. -/
structure WorkersInv (s : Server) : Prop where
  bound : ∀ idx subscriber, s.workers.lookup idx = some subscriber → idx < s.workerBound
  recorded : s.introduction ≠ none → s.subscribers ≠ []
  live : ∀ subscriber ∈ s.introduced, ∃ idx, s.workers.lookup idx = some subscriber

/-- Where the frames stored are, seen from the subscribers introduced and from a running
introduction. -/
structure FramesReach (serverId : UInt32) (s : Server) : Prop where
  /-- Nothing is stored for a blocked proxy. -/
  unblocked : ∀ proxyId, ∀ wire ∈ s.store.stored proxyId, s.liveness.isBlocked proxyId = false
  reached : ∀ subscriber ∈ s.introduced, ∀ proxyId, ∀ wire ∈ s.store.stored proxyId,
    s.Reaches serverId subscriber wire ∨ wire ∈ s.pending
  snapped : ∀ snap ∈ s.snap?, ∀ proxyId, ∀ wire ∈ s.store.stored proxyId,
    (∃ e ∈ snap, wire ∈ e.2) ∨ wire ∈ s.pending
  snapUnblocked : ∀ snap ∈ s.snap?, ∀ e ∈ snap, ∀ wire ∈ e.2, s.liveness.isBlocked e.1 = false
  replayed : ∀ subscriber snap rest, s.introduction = some (.replaying subscriber snap rest) →
    ∀ e ∈ snap, e ∈ rest ∨ ∀ wire ∈ e.2, s.Reaches serverId subscriber wire

theorem Reaches.mono {subscriber : Address} {wire : List UInt8}
    (h : s.Reaches serverId subscriber wire) (hsub : s.outbox ⊆ t.outbox) :
    t.Reaches serverId subscriber wire :=
  h.imp (fun h => hsub h) fun h => hsub h

/-- Each frame of a proxy that is not blocked has reached the subscribers, or is pending. -/
theorem FramesReach.complete (h : FramesReach serverId s) : s.NothingMissed serverId := by
  intro hpending subscriber hsubscriber proxyId _ wire hwire
  apply (h.reached subscriber hsubscriber proxyId wire hwire).resolve_right
  rw [hpending]
  exact List.not_mem_nil

/-! ## The workers -/

/-- The workers of the configuration have the numbers of its subscribers. -/
theorem lookup_init (liveness : ProxyLivenessTracker) (subscribers : List Address) :
    ∀ idx subscriber, (init liveness subscribers).workers.lookup idx = some subscriber →
      idx < subscribers.length := by
  have hfold : ∀ (l : List (Address × ℕ)) (workers : AList fun _ : ℕ => Address),
      (∀ entry ∈ l, entry.2 < subscribers.length) →
      (∀ idx a, workers.lookup idx = some a → idx < subscribers.length) →
      ∀ idx a, (l.foldl (fun workers entry => workers.insert entry.2 entry.1) workers).lookup idx =
        some a → idx < subscribers.length := by
    intro l
    induction l with
    | nil => exact fun workers _ h => h
    | cons entry l ih =>
      intro workers hl h
      refine ih _ (fun e he => hl e (List.mem_cons_of_mem _ he)) fun idx a ha => ?_
      by_cases hidx : idx = entry.2
      · exact hidx ▸ hl entry List.mem_cons_self
      · rw [AList.lookup_insert_ne hidx] at ha
        exact h idx a ha
  refine hfold subscribers.zipIdx ∅ (fun entry hentry => ?_) fun idx a ha => ?_
  · have hlt := List.snd_lt_add_of_mem_zipIdx hentry
    omega
  · rw [AList.lookup_empty] at ha
    cases ha

theorem workersInv_init (liveness : ProxyLivenessTracker) (subscribers : List Address) :
    WorkersInv (init liveness subscribers) where
  bound := lookup_init liveness subscribers
  recorded := fun h => absurd rfl h
  live := fun _ h => nomatch h

/-- Steps that leave the workers alone. -/
theorem WorkersInv.congr (h : WorkersInv s) (hworkers : t.workers = s.workers)
    (hsubscribers : t.subscribers = s.subscribers) (hintroduced : t.introduced = s.introduced)
    (hintroduction : t.introduction = none ↔ s.introduction = none) : WorkersInv t := by
  have hbound : t.workerBound = s.workerBound := by
    unfold workerBound
    rw [hsubscribers]
    exact if_congr hintroduction rfl rfl
  refine ⟨?_, ?_, ?_⟩
  · rw [hworkers, hbound]
    exact h.bound
  · rw [hsubscribers, ne_eq, hintroduction]
    exact h.recorded
  · rw [hintroduced, hworkers]
    exact h.live

theorem WorkersInv.introduce {subscriber : Address} (h : WorkersInv s)
    (hs : s.step serverId (.introduce subscriber) = some t) : WorkersInv t := by
  obtain ⟨hidle, rfl⟩ := eq_of_introduce hs
  refine ⟨fun idx a ha => ?_, fun _ => List.append_ne_nil_of_right_ne_nil _ (by simp), h.live⟩
  have hlt := h.bound idx a ha
  unfold workerBound at hlt ⊢
  rw [if_pos hidle] at hlt
  rw [if_neg (by simp), List.length_append, List.length_singleton]
  exact hlt

/-- The worker added is a new one, so the others stay. -/
theorem WorkersInv.addSubscriber (h : WorkersInv s)
    (hs : s.step serverId .addSubscriber = some t) : WorkersInv t := by
  obtain ⟨subscriber, snap, hintroduction, rfl⟩ := eq_of_addSubscriber hs
  have hne : s.introduction ≠ none := by simp [hintroduction]
  have hpos := List.length_pos_of_ne_nil (h.recorded hne)
  have hfresh : ∀ idx a, s.workers.lookup idx = some a → idx < s.subscribers.length - 1 := by
    intro idx a ha
    have hlt := h.bound idx a ha
    unfold workerBound at hlt
    rwa [if_neg hne] at hlt
  refine ⟨fun idx a ha => ?_, fun hnone => absurd rfl hnone, fun a ha => ?_⟩
  · show idx < s.subscribers.length
    by_cases hidx : idx = s.subscribers.length - 1
    · omega
    · have hlt := hfresh idx a ((AList.lookup_insert_ne hidx).symm.trans ha)
      omega
  · rcases List.mem_append.mp ha with hold | hnew
    · obtain ⟨idx, hidx⟩ := h.live a hold
      exact ⟨idx, (AList.lookup_insert_ne (hfresh idx a hidx).ne).trans hidx⟩
    · rw [List.mem_singleton.mp hnew]
      exact ⟨_, AList.lookup_insert _⟩

/-! ## The frames -/

/-- Without a snapshot there is only what the introduced subscribers have. -/
theorem FramesReach.of_snap?_eq_none (hsnap : s.snap? = none)
    (hunblocked : ∀ proxyId, ∀ wire ∈ s.store.stored proxyId,
      s.liveness.isBlocked proxyId = false)
    (hreached : ∀ subscriber ∈ s.introduced, ∀ proxyId, ∀ wire ∈ s.store.stored proxyId,
      s.Reaches serverId subscriber wire ∨ wire ∈ s.pending) : FramesReach serverId s := by
  refine ⟨hunblocked, hreached, fun snap h => ?_, fun snap h => ?_, fun a snap rest h => ?_⟩
  · rw [hsnap] at h
    cases h
  · rw [hsnap] at h
    cases h
  · rw [snap?_of_replaying h] at hsnap
    cases hsnap

theorem framesReach_init (serverId : UInt32) (liveness : ProxyLivenessTracker)
    (subscribers : List Address) : FramesReach serverId (init liveness subscribers) :=
  .of_snap?_eq_none rfl (fun _ _ h => nomatch h) fun _ h => nomatch h

/-- What a frame that comes changes: it may be stored, and is pending then. -/
theorem FramesReach.append {wire : List UInt8} (h : FramesReach serverId s)
    (hs : s.step serverId (.append wire) = some t) : FramesReach serverId t := by
  obtain ⟨m, -, rfl | ⟨proxyId, liveness, hunblocked, hsame, rfl⟩⟩ := eq_of_append hs
  · exact ⟨h.unblocked, h.reached, h.snapped, h.snapUnblocked, h.replayed⟩
  · have hpending : ∀ w ∈ s.pending, w ∈ s.pending ++ [wire] := fun _ =>
      List.mem_append_left _
    have hnew : wire ∈ s.pending ++ [wire] := List.mem_append_right _ (List.mem_singleton_self _)
    refine ⟨fun q w hw => ?_, fun a ha q w hw => ?_, fun snap hsnap q w hw => ?_,
      fun snap hsnap e he w hw => ?_, h.replayed⟩
    · show liveness.isBlocked q = false
      rw [hsame]
      rcases MessageStore.mem_stored_store.mp hw with hold | ⟨rfl, rfl⟩
      · exact h.unblocked q w hold
      · exact hunblocked
    · rcases MessageStore.mem_stored_store.mp hw with hold | ⟨rfl, rfl⟩
      · exact (h.reached a ha q w hold).imp_right (hpending w)
      · exact Or.inr hnew
    · rcases MessageStore.mem_stored_store.mp hw with hold | ⟨rfl, rfl⟩
      · exact (h.snapped snap hsnap q w hold).imp_right (hpending w)
      · exact Or.inr hnew
    · show liveness.isBlocked e.1 = false
      rw [hsame]
      exact h.snapUnblocked snap hsnap e he w hw

/-- A broadcast reaches the subscribers that have a worker; a running introduction has the frame in
its snapshot. -/
theorem FramesReach.broadcast {wire : List UInt8} (h : FramesReach serverId s)
    (hworkers : WorkersInv s) (hsnapshot : s.InSnapshot (.broadcast wire))
    (hs : s.step serverId (.broadcast wire) = some t) : FramesReach serverId t := by
  obtain ⟨hpending, rfl⟩ := eq_of_broadcast hs
  have hsub : s.outbox ⊆ s.outbox ++ s.workers.entries.map fun e =>
      (e.2, patchSender serverId wire) := List.subset_append_left _ _
  have hkeep : ∀ w ∈ s.pending, w ≠ wire → w ∈ s.pending.erase wire := fun w hw hne =>
    (List.mem_erase_of_ne hne).mpr hw
  refine ⟨h.unblocked, fun a ha q w hw => ?_, fun snap hsnap q w hw => ?_, h.snapUnblocked,
    fun a snap rest hintroduction e he => ?_⟩
  · rcases h.reached a ha q w hw with hreached | hw
    · exact Or.inl (hreached.mono hsub)
    · by_cases hwire : w = wire
      · obtain ⟨idx, hidx⟩ := hworkers.live a ha
        refine Or.inl (Or.inr (List.mem_append_right _ ?_))
        exact List.mem_map.mpr ⟨⟨idx, a⟩, AList.mem_lookup_iff.mp hidx, by rw [hwire]⟩
      · exact Or.inr (hkeep w hw hwire)
  · rcases h.snapped snap hsnap q w hw with hin | hw
    · exact Or.inl hin
    · by_cases hwire : w = wire
      · rw [hwire]
        exact Or.inl (hsnapshot snap hsnap)
      · exact Or.inr (hkeep w hw hwire)
  · exact (h.replayed a snap rest hintroduction e he).imp_right fun hreached w hw =>
      (hreached w hw).mono hsub

theorem FramesReach.snapshot (h : FramesReach serverId s)
    (hs : s.step serverId .snapshot = some t) : FramesReach serverId t := by
  obtain ⟨subscriber, hintroduction, rfl⟩ := eq_of_snapshot hs
  refine ⟨h.unblocked, h.reached, fun snap hsnap q w hw => ?_, fun snap hsnap e he w hw => ?_,
    fun _ _ _ hintroduction => nomatch hintroduction⟩
  · cases hsnap
    obtain ⟨e, he, -, hw⟩ := MessageStore.mem_stored_iff.mp hw
    exact Or.inl ⟨e, he, hw⟩
  · cases hsnap
    exact h.unblocked e.1 w (MessageStore.mem_stored_iff.mpr ⟨e, he, rfl, hw⟩)

theorem FramesReach.connect {connected : Bool} (h : FramesReach serverId s)
    (hconnected : connected = true) (hs : s.step serverId (.connect connected) = some t) :
    FramesReach serverId t := by
  obtain ⟨subscriber, snap, hintroduction, rfl⟩ := eq_of_connect hs
  rw [if_pos hconnected]
  have hsnap := snap?_of_connecting hintroduction
  refine ⟨h.unblocked, h.reached, fun _ heq => ?_, fun _ heq => ?_, fun _ _ _ heq e he => ?_⟩
  · cases heq
    exact h.snapped snap hsnap
  · cases heq
    exact h.snapUnblocked snap hsnap
  · cases heq
    exact Or.inl he

/-- A replay sends the frames of one more proxy, which is not blocked if it has any. -/
theorem FramesReach.replay (h : FramesReach serverId s) (hs : s.step serverId .replay = some t) :
    FramesReach serverId t := by
  obtain ⟨subscriber, snap, e, rest, hintroduction, rfl⟩ := eq_of_replay hs
  have hsnap := snap?_of_replaying hintroduction
  have hsub : s.outbox ⊆ (s.replayProxy subscriber e.1 e.2).outbox := by
    unfold replayProxy
    split_ifs
    · exact List.Subset.refl _
    · exact List.subset_append_left _ _
  have hsame : (s.replayProxy subscriber e.1 e.2).store = s.store ∧
      (s.replayProxy subscriber e.1 e.2).liveness = s.liveness ∧
      (s.replayProxy subscriber e.1 e.2).pending = s.pending ∧
      (s.replayProxy subscriber e.1 e.2).introduced = s.introduced := by
    unfold replayProxy
    split_ifs <;> exact ⟨rfl, rfl, rfl, rfl⟩
  obtain ⟨hstore, hliveness, hpending, hintroduced⟩ := hsame
  refine ⟨?_, ?_, ?_, ?_, ?_⟩
  · intro q w hw
    rw [hstore] at hw
    rw [hliveness]
    exact h.unblocked q w hw
  · intro a ha q w hw
    rw [hstore] at hw
    rw [hintroduced] at ha
    rw [hpending]
    exact (h.reached a ha q w hw).imp_left fun hreached => hreached.mono hsub
  · intro _ heq q w hw
    cases heq
    rw [hstore] at hw
    rw [hpending]
    exact h.snapped snap hsnap q w hw
  · intro _ heq
    cases heq
    rw [hliveness]
    exact h.snapUnblocked snap hsnap
  · intro _ _ _ heq e' he'
    cases heq
    rcases h.replayed subscriber snap (e :: rest) hintroduction e' he' with hrest | hreached
    · rcases List.mem_cons.mp hrest with rfl | hrest
      · refine Or.inr fun w hw => Or.inl ?_
        have hunblocked := h.snapUnblocked snap hsnap e' he' w hw
        show (subscriber, w) ∈ (s.replayProxy subscriber e'.1 e'.2).outbox
        unfold replayProxy
        rw [if_neg (by rw [hunblocked]; exact Bool.false_ne_true)]
        exact List.mem_append_right _ (List.mem_map_of_mem hw)
      · exact Or.inl hrest
    · exact Or.inr fun w hw => (hreached w hw).mono hsub

/-- With the snapshot replayed, everything stored has reached the subscriber or is pending. -/
theorem FramesReach.addSubscriber (h : FramesReach serverId s)
    (hs : s.step serverId .addSubscriber = some t) : FramesReach serverId t := by
  obtain ⟨subscriber, snap, hintroduction, rfl⟩ := eq_of_addSubscriber hs
  have hsnap := snap?_of_replaying hintroduction
  refine .of_snap?_eq_none rfl h.unblocked fun a ha q w hw => ?_
  rcases List.mem_append.mp ha with hold | hnew
  · exact h.reached a hold q w hw
  · rw [List.mem_singleton.mp hnew]
    refine (h.snapped snap hsnap q w hw).imp_left fun ⟨e, he, hw⟩ => ?_
    exact (h.replayed subscriber snap [] hintroduction e he).resolve_left List.not_mem_nil w hw

/-! ## Runs -/

/-- **What a step keeps.** -/
theorem late_step {e : ServerEvent} (hworkers : WorkersInv s) (hframes : FramesReach serverId s)
    (hsnapshot : s.InSnapshot e) (hs : (handOver serverId liveness subscribers).step s e = some t) :
    WorkersInv t ∧ FramesReach serverId t := by
  simp only [handOver] at hs
  split_ifs at hs with hkind
  cases e with
  | append wire =>
    refine ⟨?_, hframes.append hs⟩
    obtain ⟨m, -, rfl | ⟨proxyId, liveness, -, -, rfl⟩⟩ := eq_of_append hs <;>
      exact hworkers.congr rfl rfl rfl Iff.rfl
  | broadcast wire =>
    refine ⟨?_, hframes.broadcast hworkers hsnapshot hs⟩
    obtain ⟨hpending, rfl⟩ := eq_of_broadcast hs
    exact hworkers.congr rfl rfl rfl Iff.rfl
  | introduce subscriber =>
    refine ⟨hworkers.introduce hs, ?_⟩
    obtain ⟨hidle, rfl⟩ := eq_of_introduce hs
    exact .of_snap?_eq_none rfl hframes.unblocked hframes.reached
  | snapshot =>
    refine ⟨?_, hframes.snapshot hs⟩
    obtain ⟨subscriber, hintroduction, rfl⟩ := eq_of_snapshot hs
    exact hworkers.congr rfl rfl rfl (by simp [hintroduction])
  | connect connected =>
    refine ⟨?_, hframes.connect hsnapshot hs⟩
    obtain ⟨subscriber, snap, hintroduction, rfl⟩ := eq_of_connect hs
    rw [if_pos (show connected = true from hsnapshot)]
    exact hworkers.congr rfl rfl rfl (by simp [hintroduction])
  | replay =>
    refine ⟨?_, hframes.replay hs⟩
    obtain ⟨subscriber, snap, e, rest, hintroduction, rfl⟩ := eq_of_replay hs
    unfold replayProxy
    split_ifs <;> exact hworkers.congr rfl rfl rfl (by simp [hintroduction])
  | addSubscriber => exact ⟨hworkers.addSubscriber hs, hframes.addSubscriber hs⟩
  | _ => cases hkind

theorem late (h : (handOver serverId liveness subscribers).ReachVia InSnapshot s) :
    WorkersInv s ∧ FramesReach serverId s :=
  h.invariant (fun s => WorkersInv s ∧ FramesReach serverId s)
    ⟨workersInv_init liveness subscribers, framesReach_init serverId liveness subscribers⟩
    fun _ _ _ _ hinv hsnapshot hs => late_step hinv.1 hinv.2 hsnapshot hs

/-- **No frame is missed** in a run in which each subscriber can be connected to and no frame is
broadcast between a snapshot that lacks it and the end of the introduction. -/
theorem nothingMissed (h : (handOver serverId liveness subscribers).ReachVia InSnapshot s) :
    s.NothingMissed serverId :=
  (late h).2.complete

/-- A subscriber is introduced between two SKIP frames, the second of which is stored before the
worker is added and broadcast after it. -/
theorem nothingMissed_twoSkips : ∃ s, (handOver 1 .init []).ReachVia InSnapshot s ∧
    (s.pending = [] ∧ s.introduced = [⟨"127.0.0.1", 6001⟩] ∧ (s.store.stored 0).length = 2) ∧
      s.NothingMissed 1 := by
  obtain ⟨s, hs, hp⟩ := @Lts.exists_reachVia_of_run _ _ (handOver 1 .init [])
    InSnapshot (fun s e => decide (s.InSnapshot e)) (fun _ _ => of_decide_eq_true)
    [.append (buildWireBytes 1 0 0 7 []), .introduce ⟨"127.0.0.1", 6001⟩, .snapshot,
      .broadcast (buildWireBytes 1 0 0 7 []), .connect true,
      .append (buildWireBytes 1 0 0 8 []), .replay, .addSubscriber,
      .broadcast (buildWireBytes 1 0 0 8 [])]
    (fun s => decide (s.pending = [] ∧ s.introduced = [⟨"127.0.0.1", 6001⟩] ∧
      (s.store.stored 0).length = 2)) (by decide)
  exact ⟨s, hs, of_decide_eq_true hp, nothingMissed hs⟩

/-- A SKIP that is broadcast during the introduction and is not in the snapshot never reaches the
subscriber. -/
theorem not_nothingMissed : ¬ ∀ (serverId : UInt32) (liveness : ProxyLivenessTracker)
    (subscribers : List Address) (s : Server), (handOver serverId liveness subscribers).Reach s →
      s.NothingMissed serverId := by
  intro h
  obtain ⟨s, hs, hp⟩ := @Lts.exists_reach_of_run _ _ (handOver 1 .init [])
    [.introduce ⟨"127.0.0.1", 6001⟩, .snapshot, .append (buildWireBytes 1 0 0 7 []),
      .broadcast (buildWireBytes 1 0 0 7 []), .connect true, .addSubscriber]
    (fun s => decide (s.pending = [] ∧ s.introduced = [⟨"127.0.0.1", 6001⟩] ∧
      s.liveness.isBlocked 0 = false ∧ s.store.stored 0 = [buildWireBytes 1 0 0 7 []] ∧
      s.outbox = [])) (by decide)
  obtain ⟨hpending, hintroduced, hblocked, hstored, houtbox⟩ := of_decide_eq_true hp
  have hreaches := h 1 .init [] s hs hpending ⟨"127.0.0.1", 6001⟩
    (hintroduced ▸ List.mem_singleton_self _) 0 hblocked (buildWireBytes 1 0 0 7 [])
    (hstored ▸ List.mem_singleton_self _)
  unfold Reaches at hreaches
  rw [houtbox] at hreaches
  simp at hreaches

end Server

end Ziplog
