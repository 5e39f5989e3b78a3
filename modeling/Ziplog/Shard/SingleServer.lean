import Ziplog.Shard.Replication
import Ziplog.Subscriber.Replay

/-!
# A shard with one server

A server puts each frame it broadcasts into the queue of every subscriber's worker, so each
subscriber takes a prefix of one sequence (`Feed.Follows`). With a single server this is all that a
subscriber sees (`Fanout`), and the logs agree whatever the proxies send.
-/

namespace Ziplog

open LogTracker

/-- What a tracker sees of a frame. -/
def Frame.delivery (f : Frame) : Delivery := ⟨0, f.senderId, f.seq, f.payload.data⟩

namespace Feed

variable {d d' : Feed} {broadcasts taken : List Frame}

/-- The frames taken, those on the wire and the rest make up the broadcasts. The rest is the queue
until the worker stops. -/
def Follows (d : Feed) (broadcasts taken : List Frame) : Prop :=
  ∃ rest, taken ++ d.wire ++ rest = broadcasts ∧ (d.worker ≠ .terminated → rest = d.queue)

theorem Follows.isPrefix (h : d.Follows broadcasts taken) : taken <+: broadcasts := by
  obtain ⟨rest, hall, -⟩ := h
  exact ⟨d.wire ++ rest, by rw [← List.append_assoc, hall]⟩

theorem Follows.push (h : d.Follows broadcasts taken) (frame : Frame) :
    (d.push frame).Follows (broadcasts ++ [frame]) taken := by
  obtain ⟨rest, hall, hrest⟩ := h
  refine ⟨rest ++ [frame], ?_, fun hw => ?_⟩
  · rw [← List.append_assoc, ← hall]
    rfl
  · show rest ++ [frame] = d.queue ++ [frame]
    rw [hrest hw]

theorem Follows.send (h : d.Follows broadcasts taken) (hd : d.send = some d') :
    d'.Follows broadcasts taken := by
  obtain ⟨rest, hall, hrest⟩ := h
  unfold Feed.send at hd
  split at hd <;> cases hd
  rename_i frame queue hw hq
  rw [hrest (by rw [hw]; decide), hq] at hall
  refine ⟨queue, ?_, fun _ => rfl⟩
  simp only [List.append_assoc, List.singleton_append] at hall ⊢
  exact hall

theorem Follows.fail (h : d.Follows broadcasts taken) (hd : d.fail = some d') :
    d'.Follows broadcasts taken := by
  obtain ⟨rest, hall, -⟩ := h
  unfold Feed.fail at hd
  split at hd <;> cases hd
  · exact ⟨rest, hall, fun hw => absurd rfl hw⟩
  · exact ⟨rest, hall, fun hw => absurd rfl hw⟩

theorem Follows.receiveAck (h : d.Follows broadcasts taken) (hd : d.receiveAck = some d') :
    d'.Follows broadcasts taken := by
  obtain ⟨rest, hall, hrest⟩ := h
  unfold Feed.receiveAck at hd
  split at hd <;> cases hd
  rename_i acks hw _
  exact ⟨rest, hall, fun _ => hrest (by rw [hw]; decide)⟩

theorem Follows.take (h : d.Follows broadcasts taken) {frame : Frame}
    (hd : d.take = some (frame, d')) : d'.Follows broadcasts (taken ++ [frame]) := by
  obtain ⟨rest, hall, hrest⟩ := h
  unfold Feed.take at hd
  split at hd <;> cases hd
  rename_i wire hw
  refine ⟨rest, ?_, hrest⟩
  rw [hw] at hall
  rw [← hall, List.append_assoc taken, List.singleton_append]

end Feed

namespace ShardState

variable {c : ShardConfig} {s t : ShardState c} {broadcasts : List Frame}

/-- Every subscriber has taken a prefix of the broadcasts, and its tracker has seen just these. -/
def Fanout (s : ShardState c) (broadcasts : List Frame) : Prop :=
  ∀ j x, ∃ taken, (s.feed (j, x)).Follows broadcasts taken ∧
    (s.subscriber x).tracker = observeAll c.quorum (taken.map Frame.delivery)

theorem fanout_init : Fanout (init : ShardState c) [] :=
  fun _ _ => ⟨[], ⟨[], rfl, fun _ => rfl⟩, rfl⟩

theorem Fanout.setFeed (h : Fanout s broadcasts) {j : Fin c.servers} {x : Fin c.subscribers}
    {d : Feed} (hd : ∀ taken, (s.feed (j, x)).Follows broadcasts taken →
      d.Follows broadcasts taken) : Fanout (s.setFeed j x d) broadcasts := by
  intro i y
  obtain ⟨taken, htaken, htracker⟩ := h i y
  refine ⟨taken, ?_, htracker⟩
  show (Function.update s.feed (j, x) d (i, y)).Follows broadcasts taken
  by_cases hk : (i, y) = (j, x)
  · rw [hk] at htaken ⊢
    rw [Function.update_self]
    exact hd taken htaken
  · rwa [Function.update_of_ne hk]

theorem Fanout.broadcastFrame (hone : c.servers = 1) (h : Fanout s broadcasts)
    (j : Fin c.servers) (frame : Frame) :
    Fanout (s.broadcastFrame j frame) (broadcasts ++ [{ frame with senderId := j }]) := by
  intro i x
  obtain ⟨taken, htaken, htracker⟩ := h i x
  refine ⟨taken, ?_, htracker⟩
  have hij : i = j := Fin.ext (by omega)
  simp only [ShardState.broadcastFrame, if_pos hij]
  exact htaken.push _

theorem Fanout.observe (hone : c.servers = 1) (h : Fanout s broadcasts) {j : Fin c.servers}
    {x : Fin c.subscribers} {frame : Frame} {d : Feed}
    (hd : (s.feed (j, x)).take = some (frame, d)) (received : ℕ) :
    Fanout (s.observe j x received frame d) broadcasts := by
  have hset : ∀ (d' : Feed) (terminated : Bool), d'.wire = d.wire → d'.worker = d.worker →
      d'.queue = d.queue → Fanout ((s.setFeed j x d').setSubscriber x
        ⟨((s.subscriber x).tracker.observe received frame.senderId frame.seq frame.payload.data
          c.quorum).1, terminated⟩) broadcasts := by
    intro d' terminated hwire hworker hqueue i y
    obtain ⟨taken, htaken, htracker⟩ := h i y
    have hij : i = j := Fin.ext (by omega)
    subst hij
    show ∃ taken, (Function.update s.feed (i, x) d' (i, y)).Follows broadcasts taken ∧
      (Function.update s.subscriber x _ y).tracker = _
    by_cases hy : y = x
    · subst hy
      rw [Function.update_self, Function.update_self]
      refine ⟨taken ++ [frame], ?_, ?_⟩
      · have hfollows := htaken.take hd
        unfold Feed.Follows at hfollows ⊢
        rwa [hwire, hworker, hqueue]
      · rw [List.map_append, List.map_singleton, observeAll_append, ← htracker]
        exact observe_received _ _ _ _ _ _ _
    · rw [Function.update_of_ne hy, Function.update_of_ne fun hk => hy (Prod.ext_iff.mp hk).2]
      exact ⟨taken, htaken, htracker⟩
  unfold ShardState.observe
  split
  · rename_i u out heq
    have hfst := hset d.reply false rfl rfl rfl
    rwa [heq] at hfst
  · rename_i u e heq
    have hfst := hset d true rfl rfl rfl
    rwa [heq] at hfst

/-- **One step.** -/
theorem fanout_step (hone : c.servers = 1) {e : ShardEvent c}
    (h : ∃ broadcasts, Fanout s broadcasts) (hs : s.step e = some t) :
    ∃ broadcasts, Fanout t broadcasts := by
  obtain ⟨broadcasts, h⟩ := h
  cases effect_of_step hs with
  | @broadcast p j frame l up hl =>
    have hlink : Fanout (s.setLink p j l) broadcasts := h
    exact ⟨_, hlink.broadcastFrame hone j frame⟩
  | feedSend up hd => exact ⟨_, h.setFeed fun _ htaken => htaken.send hd⟩
  | feedFail up hd => exact ⟨_, h.setFeed fun _ htaken => htaken.fail hd⟩
  | feedAck up hd => exact ⟨_, h.setFeed fun _ htaken => htaken.receiveAck hd⟩
  | deliver running hd => exact ⟨_, h.observe hone hd _⟩
  | _ => exact ⟨broadcasts, h⟩

/-- **Every run.** -/
theorem fanout_of_reach (hone : c.servers = 1) (h : (replication c).Reach s) :
    ∃ broadcasts, Fanout s broadcasts :=
  h.invariant (fun s => ∃ broadcasts, Fanout s broadcasts) ⟨[], fanout_init⟩
    fun _ _ _ _ hf _ hs => fanout_step hone hf hs

/-- With one server, two logs hold the same bytes wherever both have an entry. -/
theorem agree_of_single_server (hone : c.servers = 1) (h : (replication c).Reach s)
    {x y : Fin c.subscribers} {i : ℕ} {d d' : List UInt8}
    (hd : (s.subscriber x).tracker.log[i]? = some d)
    (hd' : (s.subscriber y).tracker.log[i]? = some d') : d = d' := by
  obtain ⟨broadcasts, hfan⟩ := fanout_of_reach hone h
  have j : Fin c.servers := ⟨0, by omega⟩
  obtain ⟨taken, hx, htx⟩ := hfan j x
  obtain ⟨taken', hy, hty⟩ := hfan j y
  rw [htx] at hd
  rw [hty] at hd'
  rcases List.prefix_or_prefix_of_prefix hx.isPrefix hy.isPrefix with hle | hle
  · exact log_observeAll_agree (hle.map _) hd hd'
  · exact (log_observeAll_agree (hle.map _) hd' hd).symm

end ShardState

end Ziplog
