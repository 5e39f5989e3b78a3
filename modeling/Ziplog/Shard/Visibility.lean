import Ziplog.Shard.Replication
import Ziplog.Subscriber.Provenance

/-!
# Visibility implies storage

A server broadcasts a frame after it has stored it, and rewrites the sender id to its own. So every
frame on its way to a subscriber names the server it comes from, and this server holds a frame with
the same number and payload. `Visible` is this invariant, together with the provenance of what the
subscribers' trackers hold; `visible_step` is its step lemma and `visible_of_reach` the run lemma.
-/

namespace Ziplog

open LogTracker

variable {c : ShardConfig} {s t : ShardState c}

namespace ShardState

/-- Server number `sender` holds a frame with this number and this payload. -/
def Shown (s : ShardState c) (sender seq : ℕ) (data : List UInt8) : Prop :=
  ∃ j : Fin c.servers, (j : ℕ) = sender ∧
    ∃ g, (s.server j).Holds g ∧ g.seq = seq ∧ g.payload.data = data

/-- The frame names server `j`, which holds what it carries. -/
def FromStore (s : ShardState c) (j : Fin c.servers) (f : Frame) : Prop :=
  f.senderId = j ∧ ∃ g, (s.server j).Holds g ∧ g.seq = f.seq ∧ g.payload = f.payload

structure Visible (s : ShardState c) : Prop where
  handler : ∀ k f, (s.link k).handler = .stored f → (s.server k.2).Holds f
  feed : ∀ k, ∀ f ∈ (s.feed k).coming, s.FromStore k.1 f
  tracker : ∀ x, Provenance s.Shown c.quorum (s.subscriber x).tracker

theorem visible_init : Visible (init : ShardState c) where
  handler := by
    intro k f h
    cases h
  feed := by
    intro k f h
    cases h
  tracker := fun _ => provenance_init

/-! ## Changing one part -/

theorem FromStore.mono {j : Fin c.servers} {f : Frame} (h : s.FromStore j f)
    (hmono : ∀ g, (s.server j).Holds g → (t.server j).Holds g) : t.FromStore j f := by
  obtain ⟨hj, g, hg, hseq, hpayload⟩ := h
  exact ⟨hj, g, hmono g hg, hseq, hpayload⟩

theorem Shown.mono {sender seq : ℕ} {data : List UInt8} (h : s.Shown sender seq data)
    (hmono : ∀ i g, (s.server i).Holds g → (t.server i).Holds g) : t.Shown sender seq data := by
  obtain ⟨j, hj, g, hg, hseq, hdata⟩ := h
  exact ⟨j, hj, g, hmono j g hg, hseq, hdata⟩

theorem FromStore.shown {j : Fin c.servers} {f : Frame} (h : s.FromStore j f) :
    s.Shown f.senderId f.seq f.payload.data := by
  obtain ⟨hj, g, hg, hseq, hpayload⟩ := h
  exact ⟨j, hj.symm, g, hg, hseq, by rw [hpayload]⟩

theorem Visible.setProxy (h : Visible s) (p : Fin c.proxies) (ps : ReplicatorState c.servers) :
    Visible (s.setProxy p ps) := ⟨h.handler, h.feed, h.tracker⟩

theorem Visible.setLink (h : Visible s) {p : Fin c.proxies} {j : Fin c.servers} {l : Link}
    (hl : ∀ f, l.handler = .stored f → (s.server j).Holds f) : Visible (s.setLink p j l) where
  handler := (Function.forall_update_iff s.link fun k l' =>
    ∀ f, l'.handler = .stored f → (s.server k.2).Holds f).mpr ⟨hl, fun k _ => h.handler k⟩
  feed := h.feed
  tracker := h.tracker

theorem Visible.setFeed (h : Visible s) {j : Fin c.servers} {x : Fin c.subscribers} {d : Feed}
    (hd : ∀ f ∈ d.coming, s.FromStore j f) : Visible (s.setFeed j x d) where
  handler := h.handler
  feed := (Function.forall_update_iff s.feed fun k d' => ∀ f ∈ d'.coming, s.FromStore k.1 f).mpr
    ⟨hd, fun k _ => h.feed k⟩
  tracker := h.tracker

theorem Visible.setSubscriber (h : Visible s) {x : Fin c.subscribers} {u : SubscriberState}
    (hu : Provenance s.Shown c.quorum u.tracker) : Visible (s.setSubscriber x u) where
  handler := h.handler
  feed := h.feed
  tracker := (Function.forall_update_iff s.subscriber fun _ u' =>
    Provenance s.Shown c.quorum u'.tracker).mpr ⟨hu, fun y _ => h.tracker y⟩

theorem Visible.setServer (h : Visible s) {j : Fin c.servers} {sv : ServerState}
    (hsv : ∀ f, (s.server j).Holds f → sv.Holds f) : Visible (s.setServer j sv) where
  handler := fun k f hk => holds_setServer hsv (h.handler k f hk)
  feed := fun k f hf => (h.feed k f hf).mono fun _ hg => holds_setServer hsv hg
  tracker := fun x => (h.tracker x).mono fun _ _ _ hd =>
    hd.mono fun _ _ hg => holds_setServer hsv hg

/-- Items pushed to the workers concern no handler. -/
theorem Visible.pushItem (h : Visible s) (p : Fin c.proxies) (item : WorkItem) :
    Visible (s.pushItem p item) where
  handler := by
    intro k f hk
    apply h.handler k f
    rw [← hk]
    show _ = (if k.1 = p then (s.link k).push item else s.link k).handler
    split_ifs <;> rfl
  feed := h.feed
  tracker := h.tracker

theorem Visible.broadcastFrame (h : Visible s) {j : Fin c.servers} {frame : Frame}
    (hframe : (s.server j).Holds frame) : Visible (s.broadcastFrame j frame) where
  handler := h.handler
  feed := by
    intro k f hf
    change f ∈ (if k.1 = j then (s.feed k).push { frame with senderId := j }
      else s.feed k).coming at hf
    split_ifs at hf with hk
    · rcases Feed.mem_coming_push.mp hf with hf | rfl
      · exact h.feed k f hf
      · rw [← hk] at hframe ⊢
        exact ⟨rfl, frame, hframe, rfl, rfl⟩
    · exact h.feed k f hf
  tracker := h.tracker

theorem Visible.observe (h : Visible s) {j : Fin c.servers} {x : Fin c.subscribers} {frame : Frame}
    {d : Feed} (hd : (s.feed (j, x)).take = some (frame, d)) (received : ℕ) :
    Visible (s.observe j x received frame d) := by
  have hcoming := Feed.coming_take hd
  have hfrom : s.FromStore j frame :=
    h.feed (j, x) frame (by rw [hcoming]; exact List.mem_cons_self)
  have hrest : ∀ f ∈ d.coming, s.FromStore j f := fun f hf =>
    h.feed (j, x) f (by rw [hcoming]; exact List.mem_cons_of_mem _ hf)
  have htracker := observe_provenance (h.tracker x) received hfrom.shown
  unfold ShardState.observe
  split
  · rename_i t out heq
    rw [heq] at htracker
    have hset : Visible (s.setFeed j x d.reply) := h.setFeed hrest
    exact hset.setSubscriber htracker
  · rename_i t e heq
    rw [heq] at htracker
    have hset : Visible (s.setFeed j x d) := h.setFeed hrest
    exact hset.setSubscriber htracker

/-! ## One step and every run -/

/-- **One step.** -/
theorem visible_step {e : ShardEvent c} (h : Visible s) (hs : s.step e = some t) : Visible t := by
  cases effect_of_step hs with
  | replicate idle => exact (h.pushItem _ _).setProxy _ _
  | pollAcks hp => exact h.setProxy _ _
  | pollLive hp => exact h.setProxy _ _
  | respond hp => exact h.setProxy _ _
  | connect up hl =>
    obtain ⟨-, rfl⟩ := Link.connect_eq_some hl
    exact h.setLink fun f hf => h.handler _ f hf
  | send hl =>
    obtain ⟨-, -, -, -, rfl⟩ := Link.send_eq_some hl
    exact h.setLink fun f hf => h.handler _ f hf
  | fail hl =>
    obtain ⟨-, -, rfl⟩ := Link.fail_eq_some hl
    exact h.setLink fun f hf => h.handler _ f hf
  | count hl =>
    obtain ⟨-, -, -, -, rfl⟩ := Link.count_eq_some hl
    refine Visible.setProxy ?_ _ _
    exact h.setLink fun f hf => h.handler _ f hf
  | ack up hl =>
    obtain ⟨frame, wire, -, -, rfl⟩ := Link.ack_eq_some hl
    exact h.setLink fun f hf => by cases hf
  | check up hl =>
    obtain ⟨frame, -, rfl⟩ := Link.check_eq_some hl
    refine h.setLink fun f hf => ?_
    simp only at hf
    split_ifs at hf
  | @store p j frame l up hl =>
    obtain ⟨-, rfl⟩ := Link.store_eq_some hl
    have hset : Visible (s.setServer j ((s.server j).storeFrame frame)) :=
      h.setServer fun f hf => ServerState.holds_storeFrame.mpr (Or.inl hf)
    have hheld : ((s.server j).storeFrame frame).Holds frame :=
      ServerState.holds_storeFrame.mpr (Or.inr rfl)
    refine hset.setLink fun f hf => ?_
    cases hf
    rwa [server_setServer_self]
  | broadcast up hl =>
    obtain ⟨hstored, rfl⟩ := Link.broadcast_eq_some hl
    have hheld := h.handler _ _ hstored
    exact (h.setLink fun f hf => by cases hf).broadcastFrame hheld
  | zipResponse up =>
    apply h.setServer
    exact fun _ hf => hf
  | crash =>
    apply h.setServer
    exact fun _ hf => hf
  | feedSend up hd =>
    refine h.setFeed fun f hf => ?_
    rw [Feed.coming_send hd] at hf
    exact h.feed _ f hf
  | feedFail up hd => exact h.setFeed fun f hf => h.feed _ f (Feed.mem_coming_fail hd hf)
  | feedAck up hd =>
    refine h.setFeed fun f hf => ?_
    rw [Feed.coming_receiveAck hd] at hf
    exact h.feed _ f hf
  | deliver running hd => exact h.observe hd _

/-- **Every run.** -/
theorem visible_of_reach (h : (replication c).Reach s) : Visible s :=
  h.invariant Visible visible_init fun _ _ _ _ hv _ hs => visible_step hv hs

/-- Servers named by their ids, as a set of servers. -/
theorem exists_servers {n quorum : ℕ} {P : Fin n → Prop} {T : Finset ℕ} (hcard : quorum ≤ T.card)
    (hT : ∀ m ∈ T, ∃ j : Fin n, (j : ℕ) = m ∧ P j) :
    ∃ S : Finset (Fin n), quorum ≤ S.card ∧ ∀ j ∈ S, P j := by
  refine ⟨Finset.univ.filter fun j => (j : ℕ) ∈ T, ?_, ?_⟩
  · refine hcard.trans (Finset.card_le_card_of_surjOn (fun j : Fin n => (j : ℕ)) ?_)
    intro m hm
    obtain ⟨j, rfl, -⟩ := hT m hm
    exact ⟨j, by simpa using hm, rfl⟩
  · intro j hj
    obtain ⟨j', hj', hP⟩ := hT j (by simpa using hj)
    rwa [Fin.ext hj'] at hP

/-- **What a subscriber sees is stored by a quorum of servers.** In every run, whatever the
interleaving and whichever servers crash, if a log has an entry under a number from 1 on, at least
`f + 1` distinct servers have stored a frame with this number. -/
theorem log_entry_stored (c : ShardConfig) (s : ShardState c) (h : (replication c).Reach s)
    (x : Fin c.subscribers) (i : ℕ) (hi : 1 ≤ i) (hlog : i < (s.subscriber x).tracker.size) :
    ∃ S : Finset (Fin c.servers), c.f + 1 ≤ S.card ∧
      ∀ j ∈ S, ∃ frame, (s.server j).Holds frame ∧ frame.seq = i := by
  have hentry := List.getElem?_eq_getElem hlog
  obtain ⟨-, T, hcard, hT⟩ := ((visible_of_reach h).tracker x).log i _ hi hentry
  refine exists_servers hcard fun n hn => ?_
  obtain ⟨d, j, hj, g, hg, hseq, -⟩ := hT n hn
  exact ⟨j, hj, g, hg, hseq⟩

/-- Three servers, of which the third crashes at once; the other two store a batch and the
subscriber reads it. -/
theorem log_entry_stored_two_of_three : ∃ s : ShardState ⟨1, 1, 3, 1, by decide⟩,
    (s.server 2).crashed = true ∧ ∃ S : Finset (Fin 3), 1 + 1 ≤ S.card ∧
      ∀ j ∈ S, ∃ frame, (s.server j).Holds frame ∧ frame.seq = 1 := by
  obtain ⟨s, hs, hp⟩ := @Lts.exists_reach_of_run _ _ (replication ⟨1, 1, 3, 1, by decide⟩)
    [.crash 2, .replicate 0 1 (.append [0, 0, 0, 1, 65]) {7}, .connect 0 0, .connect 0 1,
      .send 0 0, .ack 0 0, .check 0 0, .store 0 0, .broadcast 0 0, .feedSend 0 0, .deliver 0 0 0,
      .send 0 1, .ack 0 1, .check 0 1, .store 0 1, .broadcast 0 1, .feedSend 1 0, .deliver 1 0 0]
    (fun s => decide ((s.server 2).crashed = true ∧ 1 < (s.subscriber 0).tracker.size))
    (by decide)
  obtain ⟨hcrashed, hlog⟩ := of_decide_eq_true hp
  exact ⟨s, hcrashed, log_entry_stored _ s hs 0 1 le_rfl hlog⟩

end ShardState

end Ziplog
