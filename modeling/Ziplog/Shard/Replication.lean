import Mathlib.Data.Fintype.Basic
import Mathlib.Data.Finset.Card
import Mathlib.Logic.Function.Basic
import Ziplog.Library.Lts
import Ziplog.Server.MessageStore
import Ziplog.Server.ProxyLivenessTracker
import Ziplog.Shard.Connections
import Ziplog.Subscriber.LogTracker

/-!
# Replication in a shard

The proxies, servers and subscribers of one shard, from the call of `replicate_bytes` to the log of
the subscribers. Every step of a proxy's timer thread, of a worker or of a connection handler is an
event of its own, so a run is any interleaving of them, with a crash of a server possible at any
point: a crashed server takes no further step and keeps what it has stored.

What is sent under which number is left open here: `replicate` carries both. The paths for freezing
and joining are not part of the server's main loop, so no event blocks a proxy.
-/

namespace Ziplog

/-- A shard as configured. The ids of its parts are their indices. -/
structure ShardConfig where
  f : ℕ
  proxies : ℕ
  servers : ℕ
  subscribers : ℕ
  enough : 2 * f + 1 ≤ servers

def ShardConfig.quorum (c : ShardConfig) : ℕ := c.f + 1

/-- One call of `replicate_bytes`, with the clients of the batch and the workers that have counted
it so far. -/
structure Batch (n : ℕ) where
  frame : Frame
  clients : Finset ℕ
  acks : List (Fin n)

/-- `ack_count`. -/
def Batch.ackCount {n : ℕ} (b : Batch n) : ℕ := b.acks.length

/-- Where the timer thread is inside `replicate_bytes`. The loop reads `ack_count` and, when that is
too small, `live_workers_`. -/
inductive CallPhase
  | idle
  | waiting
  | polled
  | returned (ok : Bool)
  deriving DecidableEq

/-- The response for a batch, SUCCESS or FAILURE, to its clients. -/
structure Response where
  batch : ℕ
  clients : Finset ℕ
  ok : Bool

structure ReplicatorState (n : ℕ) where
  batches : List (Batch n)
  call : CallPhase
  responses : List Response

structure ServerState where
  store : MessageStore Frame
  liveness : ProxyLivenessTracker
  crashed : Bool

structure SubscriberState where
  tracker : LogTracker
  terminated : Bool

structure ShardState (c : ShardConfig) where
  proxy : Fin c.proxies → ReplicatorState c.servers
  link : Fin c.proxies × Fin c.servers → Link
  server : Fin c.servers → ServerState
  feed : Fin c.servers × Fin c.subscribers → Feed
  subscriber : Fin c.subscribers → SubscriberState

inductive ShardEvent (c : ShardConfig)
  | replicate (p : Fin c.proxies) (seq : ℕ) (payload : Payload) (clients : Finset ℕ)
  | pollAcks (p : Fin c.proxies)
  | pollLive (p : Fin c.proxies)
  | respond (p : Fin c.proxies)
  | connect (p : Fin c.proxies) (j : Fin c.servers)
  | send (p : Fin c.proxies) (j : Fin c.servers)
  | fail (p : Fin c.proxies) (j : Fin c.servers)
  | count (p : Fin c.proxies) (j : Fin c.servers)
  | ack (p : Fin c.proxies) (j : Fin c.servers)
  | check (p : Fin c.proxies) (j : Fin c.servers)
  | store (p : Fin c.proxies) (j : Fin c.servers)
  | broadcast (p : Fin c.proxies) (j : Fin c.servers)
  | zipResponse (j : Fin c.servers) (proxyId : ℕ) (orderingValues : List ℕ)
  | crash (j : Fin c.servers)
  | feedSend (j : Fin c.servers) (x : Fin c.subscribers)
  | feedFail (j : Fin c.servers) (x : Fin c.subscribers)
  | feedAck (j : Fin c.servers) (x : Fin c.subscribers)
  | deliver (j : Fin c.servers) (x : Fin c.subscribers) (received : ℕ)

/-- `ack_count` of one batch grows. -/
def addAck {n : ℕ} (batches : List (Batch n)) (state : ℕ) (j : Fin n) : List (Batch n) :=
  batches.modify state fun b => { b with acks := b.acks ++ [j] }

namespace ReplicatorState

variable {n : ℕ}

def init : ReplicatorState n := ⟨[], .idle, []⟩

/-- `replicate_bytes` starts. -/
def replicate (ps : ReplicatorState n) (frame : Frame) (clients : Finset ℕ) : ReplicatorState n :=
  { ps with batches := ps.batches ++ [⟨frame, clients, []⟩], call := .waiting }

/-- `ack_count.fetch_add(1)` by the worker of server `j`. -/
def count (ps : ReplicatorState n) (state : ℕ) (j : Fin n) : ReplicatorState n :=
  { ps with batches := addAck ps.batches state j }

def pollAcks (ps : ReplicatorState n) (quorum : ℕ) : Option (ReplicatorState n) :=
  match ps.call, ps.batches.getLast? with
  | .waiting, some b =>
    some { ps with call := if b.ackCount < quorum then .polled else .returned true }
  | _, _ => none

def pollLive (ps : ReplicatorState n) (liveWorkers : ℕ) : Option (ReplicatorState n) :=
  match ps.call with
  | .polled => some { ps with call := if liveWorkers = 0 then .returned false else .waiting }
  | _ => none

/-- The clients of the batch get the response; a batch without clients gets none. -/
def respond (ps : ReplicatorState n) : Option (ReplicatorState n) :=
  match ps.call, ps.batches.getLast? with
  | .returned ok, some b =>
    some { ps with
      call := .idle
      responses :=
        if b.clients = ∅ then ps.responses
        else ps.responses ++ [⟨ps.batches.length - 1, b.clients, ok⟩] }
  | _, _ => none

end ReplicatorState

def ServerState.init : ServerState := ⟨.empty, .init, false⟩

/-- The frame is stored, then its slot removed; a failed assertion there ends the process. -/
def ServerState.storeFrame (sv : ServerState) (frame : Frame) : ServerState :=
  match sv.liveness.removeTimeout frame.senderId frame.seq with
  | some liveness =>
    { sv with store := sv.store.store frame.senderId frame, liveness := liveness }
  | none => { sv with store := sv.store.store frame.senderId frame, crashed := true }

def ServerState.updateTimeouts (sv : ServerState) (proxyId : ℕ) (orderingValues : List ℕ) :
    ServerState :=
  { sv with liveness := sv.liveness.updateTimeouts proxyId orderingValues }

def ServerState.crash (sv : ServerState) : ServerState := { sv with crashed := true }

def SubscriberState.init : SubscriberState := ⟨.init, false⟩

namespace ShardState

variable {c : ShardConfig}

def init : ShardState c where
  proxy := fun _ => .init
  link := fun _ => .init
  server := fun _ => .init
  feed := fun _ => .init
  subscriber := fun _ => .init

def setProxy (s : ShardState c) (p : Fin c.proxies) (ps : ReplicatorState c.servers) :
    ShardState c :=
  { s with proxy := Function.update s.proxy p ps }

def setLink (s : ShardState c) (p : Fin c.proxies) (j : Fin c.servers) (l : Link) : ShardState c :=
  { s with link := Function.update s.link (p, j) l }

def setServer (s : ShardState c) (j : Fin c.servers) (sv : ServerState) : ShardState c :=
  { s with server := Function.update s.server j sv }

def setFeed (s : ShardState c) (j : Fin c.servers) (x : Fin c.subscribers) (d : Feed) :
    ShardState c :=
  { s with feed := Function.update s.feed (j, x) d }

def setSubscriber (s : ShardState c) (x : Fin c.subscribers) (u : SubscriberState) :
    ShardState c :=
  { s with subscriber := Function.update s.subscriber x u }

/-- `live_workers_`. -/
def liveWorkers (s : ShardState c) (p : Fin c.proxies) : ℕ :=
  (Finset.univ.filter fun j => (s.link (p, j)).worker ≠ .terminated).card

/-- The frame goes into the queue of every worker of the proxy. -/
def pushItem (s : ShardState c) (p : Fin c.proxies) (item : WorkItem) : ShardState c :=
  { s with link := fun k => if k.1 = p then (s.link k).push item else s.link k }

/-- The frame, with the id of the server as its sender, goes to every subscriber's worker. -/
def broadcastFrame (s : ShardState c) (j : Fin c.servers) (frame : Frame) : ShardState c :=
  { s with
    feed := fun k =>
      if k.1 = j then (s.feed k).push { frame with senderId := j } else s.feed k }

/-- A subscriber observes a frame and replies; an exception ends the process. -/
def observe (s : ShardState c) (j : Fin c.servers) (x : Fin c.subscribers) (received : ℕ)
    (frame : Frame) (d : Feed) : ShardState c :=
  match (s.subscriber x).tracker.observe received frame.senderId frame.seq frame.payload.data
      c.quorum with
  | (t, .ok _) => (s.setFeed j x d.reply).setSubscriber x ⟨t, false⟩
  | (t, .error _) => (s.setFeed j x d).setSubscriber x ⟨t, true⟩

/-- A step of a server that has not crashed. -/
def onServer (s : ShardState c) (j : Fin c.servers) (t : Option (ShardState c)) :
    Option (ShardState c) :=
  if (s.server j).crashed then none else t

def step (s : ShardState c) : ShardEvent c → Option (ShardState c)
  | .replicate p seq payload clients =>
    match (s.proxy p).call with
    | .idle =>
      some ((s.pushItem p ⟨⟨p, seq, payload⟩, (s.proxy p).batches.length⟩).setProxy p
        ((s.proxy p).replicate ⟨p, seq, payload⟩ clients))
    | _ => none
  | .pollAcks p => ((s.proxy p).pollAcks c.quorum).map (s.setProxy p)
  | .pollLive p => ((s.proxy p).pollLive (s.liveWorkers p)).map (s.setProxy p)
  | .respond p => (s.proxy p).respond.map (s.setProxy p)
  | .connect p j => onServer s j ((s.link (p, j)).connect.map (s.setLink p j))
  | .send p j => (s.link (p, j)).send.map (s.setLink p j)
  | .fail p j => (s.link (p, j)).fail.map (s.setLink p j)
  | .count p j => (s.link (p, j)).count.map fun (item, l) =>
      (s.setLink p j l).setProxy p ((s.proxy p).count item.state j)
  | .ack p j => onServer s j ((s.link (p, j)).ack.map (s.setLink p j))
  | .check p j => onServer s j
      (((s.link (p, j)).check (s.server j).liveness.isBlocked).map (s.setLink p j))
  | .store p j => onServer s j ((s.link (p, j)).store.map fun (frame, l) =>
      (s.setLink p j l).setServer j ((s.server j).storeFrame frame))
  | .broadcast p j => onServer s j ((s.link (p, j)).broadcast.map fun (frame, l) =>
      (s.setLink p j l).broadcastFrame j frame)
  | .zipResponse j proxyId orderingValues => onServer s j
      (some (s.setServer j ((s.server j).updateTimeouts proxyId orderingValues)))
  | .crash j => some (s.setServer j (s.server j).crash)
  | .feedSend j x => onServer s j ((s.feed (j, x)).send.map (s.setFeed j x))
  | .feedFail j x => onServer s j ((s.feed (j, x)).fail.map (s.setFeed j x))
  | .feedAck j x => onServer s j ((s.feed (j, x)).receiveAck.map (s.setFeed j x))
  | .deliver j x received =>
    if (s.subscriber x).terminated then none
    else (s.feed (j, x)).take.map fun (frame, d) => s.observe j x received frame d

end ShardState

def replication (c : ShardConfig) : Lts (ShardState c) (ShardEvent c) :=
  ⟨ShardState.init, ShardState.step⟩

/-! ## What a step does -/

/-- The steps, one constructor for each event, with what must hold before and the state after. -/
inductive Effect {c : ShardConfig} (s : ShardState c) : ShardEvent c → ShardState c → Prop
  | replicate {p : Fin c.proxies} {seq : ℕ} {payload : Payload} {clients : Finset ℕ}
      (idle : (s.proxy p).call = .idle) :
      Effect s (.replicate p seq payload clients)
        ((s.pushItem p ⟨⟨p, seq, payload⟩, (s.proxy p).batches.length⟩).setProxy p
          ((s.proxy p).replicate ⟨p, seq, payload⟩ clients))
  | pollAcks {p : Fin c.proxies} {ps : ReplicatorState c.servers}
      (hp : (s.proxy p).pollAcks c.quorum = some ps) : Effect s (.pollAcks p) (s.setProxy p ps)
  | pollLive {p : Fin c.proxies} {ps : ReplicatorState c.servers}
      (hp : (s.proxy p).pollLive (s.liveWorkers p) = some ps) :
      Effect s (.pollLive p) (s.setProxy p ps)
  | respond {p : Fin c.proxies} {ps : ReplicatorState c.servers}
      (hp : (s.proxy p).respond = some ps) : Effect s (.respond p) (s.setProxy p ps)
  | connect {p : Fin c.proxies} {j : Fin c.servers} {l : Link}
      (up : (s.server j).crashed = false) (hl : (s.link (p, j)).connect = some l) :
      Effect s (.connect p j) (s.setLink p j l)
  | send {p : Fin c.proxies} {j : Fin c.servers} {l : Link}
      (hl : (s.link (p, j)).send = some l) : Effect s (.send p j) (s.setLink p j l)
  | fail {p : Fin c.proxies} {j : Fin c.servers} {l : Link}
      (hl : (s.link (p, j)).fail = some l) : Effect s (.fail p j) (s.setLink p j l)
  | count {p : Fin c.proxies} {j : Fin c.servers} {item : WorkItem} {l : Link}
      (hl : (s.link (p, j)).count = some (item, l)) :
      Effect s (.count p j) ((s.setLink p j l).setProxy p ((s.proxy p).count item.state j))
  | ack {p : Fin c.proxies} {j : Fin c.servers} {l : Link}
      (up : (s.server j).crashed = false) (hl : (s.link (p, j)).ack = some l) :
      Effect s (.ack p j) (s.setLink p j l)
  | check {p : Fin c.proxies} {j : Fin c.servers} {l : Link}
      (up : (s.server j).crashed = false)
      (hl : (s.link (p, j)).check (s.server j).liveness.isBlocked = some l) :
      Effect s (.check p j) (s.setLink p j l)
  | store {p : Fin c.proxies} {j : Fin c.servers} {frame : Frame} {l : Link}
      (up : (s.server j).crashed = false) (hl : (s.link (p, j)).store = some (frame, l)) :
      Effect s (.store p j) ((s.setLink p j l).setServer j ((s.server j).storeFrame frame))
  | broadcast {p : Fin c.proxies} {j : Fin c.servers} {frame : Frame} {l : Link}
      (up : (s.server j).crashed = false) (hl : (s.link (p, j)).broadcast = some (frame, l)) :
      Effect s (.broadcast p j) ((s.setLink p j l).broadcastFrame j frame)
  | zipResponse {j : Fin c.servers} {proxyId : ℕ} {orderingValues : List ℕ}
      (up : (s.server j).crashed = false) :
      Effect s (.zipResponse j proxyId orderingValues)
        (s.setServer j ((s.server j).updateTimeouts proxyId orderingValues))
  | crash {j : Fin c.servers} : Effect s (.crash j) (s.setServer j (s.server j).crash)
  | feedSend {j : Fin c.servers} {x : Fin c.subscribers} {d : Feed}
      (up : (s.server j).crashed = false) (hd : (s.feed (j, x)).send = some d) :
      Effect s (.feedSend j x) (s.setFeed j x d)
  | feedFail {j : Fin c.servers} {x : Fin c.subscribers} {d : Feed}
      (up : (s.server j).crashed = false) (hd : (s.feed (j, x)).fail = some d) :
      Effect s (.feedFail j x) (s.setFeed j x d)
  | feedAck {j : Fin c.servers} {x : Fin c.subscribers} {d : Feed}
      (up : (s.server j).crashed = false) (hd : (s.feed (j, x)).receiveAck = some d) :
      Effect s (.feedAck j x) (s.setFeed j x d)
  | deliver {j : Fin c.servers} {x : Fin c.subscribers} {received : ℕ} {frame : Frame} {d : Feed}
      (running : (s.subscriber x).terminated = false)
      (hd : (s.feed (j, x)).take = some (frame, d)) :
      Effect s (.deliver j x received) (s.observe j x received frame d)

namespace ShardState

variable {c : ShardConfig} {s t : ShardState c}

theorem onServer_eq_some {j : Fin c.servers} {u : Option (ShardState c)}
    (h : onServer s j u = some t) : (s.server j).crashed = false ∧ u = some t := by
  unfold onServer at h
  split_ifs at h with hc
  exact ⟨by simpa using hc, h⟩

/-- **What a step does.** -/
theorem effect_of_step {e : ShardEvent c} (h : s.step e = some t) : Effect s e t := by
  cases e with
  | replicate p seq payload clients =>
    rcases hcall : (s.proxy p).call with _ | _ | _ | ok <;> simp only [step, hcall] at h <;> cases h
    exact .replicate hcall
  | pollAcks p =>
    obtain ⟨ps, hp, rfl⟩ := Option.map_eq_some_iff.mp h
    exact .pollAcks hp
  | pollLive p =>
    obtain ⟨ps, hp, rfl⟩ := Option.map_eq_some_iff.mp h
    exact .pollLive hp
  | respond p =>
    obtain ⟨ps, hp, rfl⟩ := Option.map_eq_some_iff.mp h
    exact .respond hp
  | connect p j =>
    obtain ⟨up, h⟩ := onServer_eq_some h
    obtain ⟨l, hl, rfl⟩ := Option.map_eq_some_iff.mp h
    exact .connect up hl
  | send p j =>
    obtain ⟨l, hl, rfl⟩ := Option.map_eq_some_iff.mp h
    exact .send hl
  | fail p j =>
    obtain ⟨l, hl, rfl⟩ := Option.map_eq_some_iff.mp h
    exact .fail hl
  | count p j =>
    obtain ⟨⟨item, l⟩, hl, rfl⟩ := Option.map_eq_some_iff.mp h
    exact .count hl
  | ack p j =>
    obtain ⟨up, h⟩ := onServer_eq_some h
    obtain ⟨l, hl, rfl⟩ := Option.map_eq_some_iff.mp h
    exact .ack up hl
  | check p j =>
    obtain ⟨up, h⟩ := onServer_eq_some h
    obtain ⟨l, hl, rfl⟩ := Option.map_eq_some_iff.mp h
    exact .check up hl
  | store p j =>
    obtain ⟨up, h⟩ := onServer_eq_some h
    obtain ⟨⟨frame, l⟩, hl, rfl⟩ := Option.map_eq_some_iff.mp h
    exact .store up hl
  | broadcast p j =>
    obtain ⟨up, h⟩ := onServer_eq_some h
    obtain ⟨⟨frame, l⟩, hl, rfl⟩ := Option.map_eq_some_iff.mp h
    exact .broadcast up hl
  | zipResponse j proxyId orderingValues =>
    obtain ⟨up, h⟩ := onServer_eq_some h
    cases h
    exact .zipResponse up
  | crash j =>
    cases h
    exact .crash
  | feedSend j x =>
    obtain ⟨up, h⟩ := onServer_eq_some h
    obtain ⟨d, hd, rfl⟩ := Option.map_eq_some_iff.mp h
    exact .feedSend up hd
  | feedFail j x =>
    obtain ⟨up, h⟩ := onServer_eq_some h
    obtain ⟨d, hd, rfl⟩ := Option.map_eq_some_iff.mp h
    exact .feedFail up hd
  | feedAck j x =>
    obtain ⟨up, h⟩ := onServer_eq_some h
    obtain ⟨d, hd, rfl⟩ := Option.map_eq_some_iff.mp h
    exact .feedAck up hd
  | deliver j x received =>
    change (if (s.subscriber x).terminated then none else _) = some t at h
    split_ifs at h with hterm
    obtain ⟨⟨frame, d⟩, hd, rfl⟩ := Option.map_eq_some_iff.mp h
    exact .deliver (by simpa using hterm) hd

end ShardState

/-! ## What a server holds -/

/-- The frame is in the server's store. -/
def ServerState.Holds (sv : ServerState) (frame : Frame) : Prop :=
  frame ∈ sv.store.stored frame.senderId

instance (sv : ServerState) (frame : Frame) : Decidable (sv.Holds frame) :=
  inferInstanceAs (Decidable (_ ∈ _))

theorem ServerState.store_storeFrame (sv : ServerState) (frame : Frame) :
    (sv.storeFrame frame).store = sv.store.store frame.senderId frame := by
  unfold storeFrame
  split <;> rfl

theorem ServerState.holds_storeFrame {sv : ServerState} {frame f : Frame} :
    (sv.storeFrame frame).Holds f ↔ sv.Holds f ∨ f = frame := by
  unfold Holds
  rw [store_storeFrame, MessageStore.mem_stored_store]
  constructor
  · rintro (h | ⟨-, h⟩)
    · exact Or.inl h
    · exact Or.inr h
  · rintro (h | rfl)
    · exact Or.inl h
    · exact Or.inr ⟨rfl, rfl⟩

namespace ShardState

variable {c : ShardConfig} {s t : ShardState c}

@[simp] theorem server_observe (j : Fin c.servers) (x : Fin c.subscribers) (received : ℕ)
    (frame : Frame) (d : Feed) : (s.observe j x received frame d).server = s.server := by
  unfold observe
  split <;> rfl

@[simp] theorem server_setServer_self (j : Fin c.servers) (sv : ServerState) :
    (s.setServer j sv).server j = sv := by
  simp only [setServer, Function.update_self]

theorem holds_setServer {j : Fin c.servers} {sv : ServerState}
    (hsv : ∀ f, (s.server j).Holds f → sv.Holds f) {i : Fin c.servers} {f : Frame}
    (h : (s.server i).Holds f) : ((s.setServer j sv).server i).Holds f := by
  show (Function.update s.server j sv i).Holds f
  by_cases hi : i = j
  · subst hi
    rw [Function.update_self]
    exact hsv f h
  · rwa [Function.update_of_ne hi]

/-- **Nothing is ever unstored**, by a crash either. -/
theorem holds_step {e : ShardEvent c} (hs : s.step e = some t) {i : Fin c.servers} {f : Frame}
    (h : (s.server i).Holds f) : (t.server i).Holds f := by
  cases effect_of_step hs with
  | store up hl =>
    refine @holds_setServer _ (s.setLink _ _ _) _ _ ?_ _ _ h
    exact fun _ hf => ServerState.holds_storeFrame.mpr (Or.inl hf)
  | zipResponse up =>
    refine holds_setServer ?_ h
    exact fun _ hf => hf
  | crash =>
    refine holds_setServer ?_ h
    exact fun _ hf => hf
  | deliver running hd =>
    rw [server_observe]
    exact h
  | _ => exact h

end ShardState

end Ziplog
