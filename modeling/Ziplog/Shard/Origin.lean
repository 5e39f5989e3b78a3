import Ziplog.Shard.Batches
import Ziplog.Shard.Visibility

/-!
# Where stored frames come from

Whatever lies in a queue, on a connection, with a handler or in a store is a frame that its proxy
has handed to `replicate_bytes` (`Origin`). With the provenance of the subscribers' logs this ties
every log entry to a batch that was sent under its number (`entry_of_log`).
-/

namespace Ziplog

namespace Link

/-- The frames on a connection that are not stored yet. -/
def frames (l : Link) : List Frame :=
  l.queue.map WorkItem.frame ++ l.wire ++
    match l.handler with
    | .ready => []
    | .acked frame => [frame]
    | .checked frame => [frame]
    | .stored frame => [frame]

variable {l l' : Link}

theorem mem_frames_push {item : WorkItem} {f : Frame} (h : f ∈ (l.push item).frames) :
    f ∈ l.frames ∨ f = item.frame := by
  simp only [frames, push, List.map_append, List.mem_append, List.map_cons, List.map_nil,
    List.mem_singleton] at h ⊢
  tauto

theorem mem_frames_send (hl : l.send = some l') {f : Frame} (h : f ∈ l'.frames) :
    f ∈ l.frames := by
  obtain ⟨item, queue, -, hq, rfl⟩ := send_eq_some hl
  simp only [frames, hq, List.map_cons, List.mem_append, List.mem_cons] at h ⊢
  tauto

theorem mem_frames_fail (hl : l.fail = some l') {f : Frame} (h : f ∈ l'.frames) :
    f ∈ l.frames := by
  obtain ⟨queue, hsuffix, rfl⟩ := fail_eq_some hl
  simp only [frames, List.mem_append, List.mem_map] at h ⊢
  rcases h with (⟨item, hitem, hf⟩ | h) | h
  · exact Or.inl (Or.inl ⟨item, hsuffix.subset hitem, hf⟩)
  · exact Or.inl (Or.inr h)
  · exact Or.inr h

theorem mem_frames_ack (hl : l.ack = some l') {f : Frame} (h : f ∈ l'.frames) : f ∈ l.frames := by
  obtain ⟨frame, wire, hr, hwire, rfl⟩ := ack_eq_some hl
  simp only [frames, hr, hwire, List.mem_append, List.mem_cons] at h ⊢
  tauto

theorem mem_frames_check {isBlocked : ℕ → Bool} (hl : l.check isBlocked = some l') {f : Frame}
    (h : f ∈ l'.frames) : f ∈ l.frames := by
  obtain ⟨frame, hr, rfl⟩ := check_eq_some hl
  simp only [frames, hr] at h ⊢
  split_ifs at h
  · exact List.mem_append_left _ (by rwa [List.append_nil] at h)
  · exact h

theorem mem_frames_store {frame : Frame} (hl : l.store = some (frame, l')) :
    frame ∈ l.frames ∧ l'.frames = l.frames := by
  obtain ⟨hr, rfl⟩ := store_eq_some hl
  simp only [frames, hr]
  exact ⟨List.mem_append_right _ (List.mem_singleton_self frame), trivial⟩

theorem mem_frames_broadcast {frame : Frame} (hl : l.broadcast = some (frame, l')) {f : Frame}
    (h : f ∈ l'.frames) : f ∈ l.frames := by
  obtain ⟨hr, rfl⟩ := broadcast_eq_some hl
  simp only [frames, List.append_nil] at h ⊢
  exact List.mem_append_left _ h

end Link

namespace ShardState

variable {c : ShardConfig} {s t : ShardState c}

structure Origin (s : ShardState c) : Prop where
  link : ∀ k : Fin c.proxies × Fin c.servers, ∀ f ∈ (s.link k).frames, s.Sent k.1 f
  store : ∀ j f, (s.server j).Holds f → ∃ p, s.Sent p f

theorem origin_init : Origin (init : ShardState c) where
  link := fun k f hf => by cases hf
  store := fun j f hf => by cases hf

/-- Nothing is on a connection after a step that was not there before, except a new batch. -/
theorem frames_step {e : ShardEvent c} (hs : s.step e = some t)
    {k : Fin c.proxies × Fin c.servers} {f : Frame} (hf : f ∈ (t.link k).frames) :
    f ∈ (s.link k).frames ∨ t.Sent k.1 f := by
  have hset : ∀ p j l, (∀ f ∈ l.frames, f ∈ (s.link (p, j)).frames) →
      f ∈ (Function.update s.link (p, j) l k).frames → f ∈ (s.link k).frames := by
    intro p j l hl hf
    by_cases hk : k = (p, j)
    · subst hk
      rw [Function.update_self] at hf
      exact hl f hf
    · rwa [Function.update_of_ne hk] at hf
  cases effect_of_step hs with
  | @replicate p seq payload clients idle =>
    change f ∈ (if k.1 = p then (s.link k).push _ else s.link k).frames at hf
    split_ifs at hf with hk
    · rcases Link.mem_frames_push hf with hf | rfl
      · exact Or.inl hf
      · refine Or.inr ⟨⟨⟨p, seq, payload⟩, clients, []⟩, ?_, rfl⟩
        simp only [setProxy, hk, Function.update_self, ReplicatorState.replicate]
        exact List.mem_append_right _ (List.mem_singleton_self _)
    · exact Or.inl hf
  | connect up hl =>
    obtain ⟨-, rfl⟩ := Link.connect_eq_some hl
    refine Or.inl (hset _ _ _ ?_ hf)
    exact fun _ h => h
  | send hl => exact Or.inl (hset _ _ _ (fun _ => Link.mem_frames_send hl) hf)
  | fail hl => exact Or.inl (hset _ _ _ (fun _ => Link.mem_frames_fail hl) hf)
  | count hl =>
    obtain ⟨reply, acks, -, -, rfl⟩ := Link.count_eq_some hl
    refine Or.inl (hset _ _ _ ?_ hf)
    exact fun _ h => h
  | ack up hl => exact Or.inl (hset _ _ _ (fun _ => Link.mem_frames_ack hl) hf)
  | check up hl => exact Or.inl (hset _ _ _ (fun _ => Link.mem_frames_check hl) hf)
  | store up hl =>
    have hframes := (Link.mem_frames_store hl).2
    exact Or.inl (hset _ _ _ (fun _ h => by rwa [hframes] at h) hf)
  | broadcast up hl => exact Or.inl (hset _ _ _ (fun _ => Link.mem_frames_broadcast hl) hf)
  | deliver running hd =>
    left
    unfold ShardState.observe at hf
    split at hf <;> exact hf
  | _ => exact Or.inl hf

/-- What a server holds after a step it held before, or it was on one of its connections. -/
theorem holds_of_step {e : ShardEvent c} (hs : s.step e = some t) {j : Fin c.servers} {f : Frame}
    (hf : (t.server j).Holds f) : (s.server j).Holds f ∨ ∃ k, f ∈ (s.link k).frames := by
  have hset : ∀ (i : Fin c.servers) (sv : ServerState), (sv.Holds f → (s.server i).Holds f) →
      (Function.update s.server i sv j).Holds f → (s.server j).Holds f := by
    intro i sv hsv hf
    by_cases hj : j = i
    · subst hj
      rw [Function.update_self] at hf
      exact hsv hf
    · rwa [Function.update_of_ne hj] at hf
  cases effect_of_step hs with
  | @store p i frame l up hl =>
    by_cases hframe : f = frame
    · subst hframe
      exact Or.inr ⟨(p, i), (Link.mem_frames_store hl).1⟩
    · refine Or.inl (hset i _ (fun h => ?_) hf)
      exact (ServerState.holds_storeFrame.mp h).resolve_right hframe
  | zipResponse up =>
    refine Or.inl (hset _ _ ?_ hf)
    exact fun h => h
  | crash =>
    refine Or.inl (hset _ _ ?_ hf)
    exact fun h => h
  | deliver running hd =>
    rw [server_observe] at hf
    exact Or.inl hf
  | _ => exact Or.inl hf

/-- **One step.** -/
theorem origin_step {e : ShardEvent c} (h : Origin s) (hs : s.step e = some t) : Origin t where
  link := by
    intro k f hf
    rcases frames_step hs hf with hf | hsent
    · exact sent_step hs (h.link k f hf)
    · exact hsent
  store := by
    intro j f hf
    rcases holds_of_step hs hf with hf | ⟨k, hk⟩
    · obtain ⟨p, hp⟩ := h.store j f hf
      exact ⟨p, sent_step hs hp⟩
    · exact ⟨k.1, sent_step hs (h.link k f hk)⟩

/-- **Every run.** -/
theorem origin_of_reach (h : (replication c).Reach s) : Origin s :=
  h.invariant Origin origin_init fun _ _ _ _ ho _ hs => origin_step ho hs

/-- **Log entries are batches.** The entry of a log under a number from 1 on is the data of a batch
that some proxy has sent under this number. -/
theorem entry_of_log (h : (replication c).Reach s) {x : Fin c.subscribers} {i : ℕ} (hi : 1 ≤ i)
    {d : List UInt8} (hd : (s.subscriber x).tracker.log[i]? = some d) :
    ∃ p f, s.Sent p f ∧ f.seq = i ∧ f.payload.data = d := by
  obtain ⟨⟨sender, hshown⟩, -⟩ := ((visible_of_reach h).tracker x).log i d hi hd
  obtain ⟨j, -, g, hg, hseq, hdata⟩ := hshown
  obtain ⟨p, hp⟩ := (origin_of_reach h).store j g hg
  exact ⟨p, g, hp, hseq, hdata⟩

/-- The first entry of every log is the placeholder. -/
theorem log_zero (h : (replication c).Reach s) (x : Fin c.subscribers) :
    (s.subscriber x).tracker.log[0]? = some [] := ((visible_of_reach h).tracker x).head

end ShardState

end Ziplog
