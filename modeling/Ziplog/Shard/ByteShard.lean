import Ziplog.Shard.ByteFeeds
import Ziplog.Shard.Replication

/-!
# A shard on its bytes

The shard of `replication` with the connections as the code has them: every send is a string of
bytes, every call of `recv` takes some of them off, the servers store and pass on what lies in their
read buffers, and a send that fails may leave a part of its frame behind. Nothing is assumed of how
the bytes are cut or how the calls of `recv` fall between the other steps.

As long as the frame of every batch fits its length prefix, each run of the bytes is a run of
`replication` (`refines`): what is proved of every state of that system holds of this one, with the
strings of bytes in the stores for the frames.
-/

namespace Ziplog

open Cells ReadBuffer

structure ByteServer where
  store : MessageStore (List UInt8)
  liveness : ProxyLivenessTracker
  crashed : Bool

/-- The parts of a shard, with bytes on the connections. The batches of a proxy are recorded as
before. -/
structure ByteShard (c : ShardConfig) where
  proxy : Fin c.proxies → ReplicatorState c.servers
  link : Fin c.proxies × Fin c.servers → ByteLink
  server : Fin c.servers → ByteServer
  feed : Fin c.servers × Fin c.subscribers → ByteFeed
  subscriber : Fin c.subscribers → SubscriberState

/-- The events of `ShardEvent`, the calls of `recv`, and the reply of a subscriber. -/
inductive ByteEvent (c : ShardConfig)
  | replicate (p : Fin c.proxies) (seq : UInt64) (payload : Payload) (clients : Finset ℕ)
  | pollAcks (p : Fin c.proxies)
  | pollLive (p : Fin c.proxies)
  | respond (p : Fin c.proxies)
  | connect (p : Fin c.proxies) (j : Fin c.servers)
  | send (p : Fin c.proxies) (j : Fin c.servers)
  | fail (p : Fin c.proxies) (j : Fin c.servers) (accepted : ℕ)
  | workerRecv (p : Fin c.proxies) (j : Fin c.servers) (n : ℕ)
  | count (p : Fin c.proxies) (j : Fin c.servers)
  | handlerRecv (p : Fin c.proxies) (j : Fin c.servers) (n : ℕ)
  | close (p : Fin c.proxies) (j : Fin c.servers)
  | ack (p : Fin c.proxies) (j : Fin c.servers)
  | check (p : Fin c.proxies) (j : Fin c.servers)
  | store (p : Fin c.proxies) (j : Fin c.servers)
  | broadcast (p : Fin c.proxies) (j : Fin c.servers)
  | zipResponse (j : Fin c.servers) (proxyId : ℕ) (orderingValues : List ℕ)
  | crash (j : Fin c.servers)
  | feedSend (j : Fin c.servers) (x : Fin c.subscribers)
  | feedFail (j : Fin c.servers) (x : Fin c.subscribers) (accepted : ℕ)
  | feedWorkerRecv (j : Fin c.servers) (x : Fin c.subscribers) (n : ℕ)
  | feedAck (j : Fin c.servers) (x : Fin c.subscribers)
  | feedHandlerRecv (j : Fin c.servers) (x : Fin c.subscribers) (n : ℕ)
  | feedClose (j : Fin c.servers) (x : Fin c.subscribers)
  | deliver (j : Fin c.servers) (x : Fin c.subscribers) (received : ℕ)
  | feedReply (j : Fin c.servers) (x : Fin c.subscribers)

/-- `live_workers_` counts the workers in these phases. -/
def ByteWorkerPhase.live : ByteWorkerPhase → Bool
  | .terminated => false
  | .connecting | .idle | .awaiting _ => true

namespace ByteServer

/-- The frame is stored, then its slot removed; a failed assertion there ends the process. -/
def storeFrame (sv : ByteServer) (senderId seq : ℕ) (wire : List UInt8) : ByteServer :=
  match sv.liveness.removeTimeout senderId seq with
  | some liveness => { sv with store := sv.store.store senderId wire, liveness := liveness }
  | none => { sv with store := sv.store.store senderId wire, crashed := true }

def updateTimeouts (sv : ByteServer) (proxyId : ℕ) (orderingValues : List ℕ) : ByteServer :=
  { sv with liveness := sv.liveness.updateTimeouts proxyId orderingValues }

end ByteServer

namespace ByteShard

variable {c : ShardConfig}

/-- All buffers start as `rb`. -/
def init (rb : ReadBuffer) : ByteShard c where
  proxy := fun _ => .init
  link := fun _ => .init rb
  server := fun _ => ⟨.empty, .init, false⟩
  feed := fun _ => .init rb
  subscriber := fun _ => .init

def setProxy (s : ByteShard c) (p : Fin c.proxies) (ps : ReplicatorState c.servers) :
    ByteShard c :=
  { s with proxy := Function.update s.proxy p ps }

def setLink (s : ByteShard c) (p : Fin c.proxies) (j : Fin c.servers) (l : ByteLink) :
    ByteShard c :=
  { s with link := Function.update s.link (p, j) l }

def setServer (s : ByteShard c) (j : Fin c.servers) (sv : ByteServer) : ByteShard c :=
  { s with server := Function.update s.server j sv }

def setFeed (s : ByteShard c) (j : Fin c.servers) (x : Fin c.subscribers) (d : ByteFeed) :
    ByteShard c :=
  { s with feed := Function.update s.feed (j, x) d }

def setSubscriber (s : ByteShard c) (x : Fin c.subscribers) (u : SubscriberState) :
    ByteShard c :=
  { s with subscriber := Function.update s.subscriber x u }

/-- `live_workers_`. -/
def liveWorkers (s : ByteShard c) (p : Fin c.proxies) : ℕ :=
  (Finset.univ.filter fun j => (s.link (p, j)).worker.live).card

/-- The bytes go into the queue of every worker of the proxy. -/
def pushItem (s : ByteShard c) (p : Fin c.proxies) (item : ByteItem) : ByteShard c :=
  { s with link := fun k => if k.1 = p then (s.link k).push item else s.link k }

/-- The bytes go to every subscriber's worker. -/
def broadcastWire (s : ByteShard c) (j : Fin c.servers) (wire : List UInt8) : ByteShard c :=
  { s with feed := fun k => if k.1 = j then (s.feed k).push wire else s.feed k }

/-- A subscriber observes the data in its buffer; an exception ends the process. -/
def observe (s : ByteShard c) (j : Fin c.servers) (x : Fin c.subscribers) (received msgLen : ℕ)
    (header : MessageHeader) (data : List UInt8) : ByteShard c :=
  match (s.subscriber x).tracker.observe received header.senderId.toNat header.seqOrCount.toNat
      data c.quorum with
  | (t, .ok _) =>
    (s.setFeed j x ((s.feed (j, x)).observed msgLen header true)).setSubscriber x ⟨t, false⟩
  | (t, .error _) =>
    (s.setFeed j x ((s.feed (j, x)).observed msgLen header false)).setSubscriber x ⟨t, true⟩

/-- A step of a server that has not crashed. -/
def onServer (s : ByteShard c) (j : Fin c.servers) (t : Option (ByteShard c)) :
    Option (ByteShard c) :=
  if (s.server j).crashed then none else t

/-- A step of a subscriber whose process runs. -/
def onSubscriber (s : ByteShard c) (x : Fin c.subscribers) (t : Option (ByteShard c)) :
    Option (ByteShard c) :=
  if (s.subscriber x).terminated then none else t

/-- The ids of a proxy, a server and a subscriber on the wire are their indices. -/
def step (shardId : UInt32) (s : ByteShard c) : ByteEvent c → Option (ByteShard c)
  | .replicate p seq payload clients =>
    match (s.proxy p).call with
    | .idle =>
      some ((s.pushItem p ⟨batchWire shardId (UInt32.ofNat p) seq payload,
        (s.proxy p).batches.length⟩).setProxy p
          ((s.proxy p).replicate ⟨p, seq.toNat, payload⟩ clients))
    | _ => none
  | .pollAcks p => ((s.proxy p).pollAcks c.quorum).map (s.setProxy p)
  | .pollLive p => ((s.proxy p).pollLive (s.liveWorkers p)).map (s.setProxy p)
  | .respond p => (s.proxy p).respond.map (s.setProxy p)
  | .connect p j => s.onServer j ((s.link (p, j)).connect.map (s.setLink p j))
  | .send p j => (s.link (p, j)).send.map (s.setLink p j)
  | .fail p j accepted => ((s.link (p, j)).fail accepted).map (s.setLink p j)
  | .workerRecv p j n => ((s.link (p, j)).workerRecv n).map (s.setLink p j)
  | .count p j => (s.link (p, j)).count.map fun (item, l) =>
      (s.setLink p j l).setProxy p ((s.proxy p).count item.state j)
  | .handlerRecv p j n => s.onServer j (((s.link (p, j)).handlerRecv n).map (s.setLink p j))
  | .close p j => s.onServer j ((s.link (p, j)).close.map (s.setLink p j))
  | .ack p j =>
    s.onServer j (((s.link (p, j)).ack shardId (UInt32.ofNat j)).map (s.setLink p j))
  | .check p j => s.onServer j
      (((s.link (p, j)).check (s.server j).liveness.isBlocked).map (s.setLink p j))
  | .store p j => s.onServer j ((s.link (p, j)).store.map fun (senderId, seq, wire, l) =>
      (s.setLink p j l).setServer j ((s.server j).storeFrame senderId seq wire))
  | .broadcast p j => s.onServer j
      (((s.link (p, j)).broadcast (UInt32.ofNat j)).map fun (wire, l) =>
        (s.setLink p j l).broadcastWire j wire)
  | .zipResponse j proxyId orderingValues => s.onServer j
      (some (s.setServer j ((s.server j).updateTimeouts proxyId orderingValues)))
  | .crash j => some (s.setServer j { s.server j with crashed := true })
  | .feedSend j x => s.onServer j ((s.feed (j, x)).send.map (s.setFeed j x))
  | .feedFail j x accepted => s.onServer j (((s.feed (j, x)).fail accepted).map (s.setFeed j x))
  | .feedWorkerRecv j x n => s.onServer j (((s.feed (j, x)).workerRecv n).map (s.setFeed j x))
  | .feedAck j x => s.onServer j ((s.feed (j, x)).receiveAck.map (s.setFeed j x))
  | .feedHandlerRecv j x n =>
    s.onSubscriber x (((s.feed (j, x)).handlerRecv n).map (s.setFeed j x))
  | .feedClose j x => s.onSubscriber x ((s.feed (j, x)).close.map (s.setFeed j x))
  | .deliver j x received =>
    s.onSubscriber x ((s.feed (j, x)).take.map fun (msgLen, header, data) =>
      s.observe j x received msgLen header data)
  | .feedReply j x =>
    s.onSubscriber x (((s.feed (j, x)).reply shardId (UInt32.ofNat x)).map (s.setFeed j x))

/-- The frame of the batch fits its length prefix. -/
def Fits (_ : ByteShard c) : ByteEvent c → Prop
  | .replicate _ _ payload _ => 28 + payload.data.length < 2 ^ 16
  | _ => True

instance (s : ByteShard c) (e : ByteEvent c) : Decidable (s.Fits e) := by
  unfold Fits
  split <;> infer_instance

end ByteShard

def byteShard (c : ShardConfig) (shardId : UInt32) (rb : ReadBuffer) :
    Lts (ByteShard c) (ByteEvent c) :=
  ⟨.init rb, ByteShard.step shardId⟩

/-! ## The frames that the bytes stand for -/

/-- What the event is on frames. -/
def ByteEvent.onFrames {c : ShardConfig} : ByteEvent c → Option (ShardEvent c)
  | .replicate p seq payload clients => some (.replicate p seq.toNat payload clients)
  | .pollAcks p => some (.pollAcks p)
  | .pollLive p => some (.pollLive p)
  | .respond p => some (.respond p)
  | .connect p j => some (.connect p j)
  | .send p j => some (.send p j)
  | .fail p j _ => some (.fail p j)
  | .count p j => some (.count p j)
  | .ack p j => some (.ack p j)
  | .check p j => some (.check p j)
  | .store p j => some (.store p j)
  | .broadcast p j => some (.broadcast p j)
  | .zipResponse j proxyId orderingValues => some (.zipResponse j proxyId orderingValues)
  | .crash j => some (.crash j)
  | .feedSend j x => some (.feedSend j x)
  | .feedFail j x _ => some (.feedFail j x)
  | .feedAck j x => some (.feedAck j x)
  | .deliver j x received => some (.deliver j x received)
  | .workerRecv .. | .handlerRecv .. | .close .. | .feedWorkerRecv .. | .feedHandlerRecv ..
  | .feedClose .. | .feedReply .. => none

/-- The strings in the store are the frames. -/
structure ByteServer.Represents (shardId : UInt32) (b : ByteServer) (sv : ServerState) : Prop where
  stored : ∀ proxyId, b.store.stored proxyId =
    (sv.store.stored proxyId).map fun frame => withPrefix (frame.body shardId)
  liveness : b.liveness = sv.liveness
  crashed : b.crashed = sv.crashed

/-- A shard on its bytes stands for the shard on frames. -/
structure ByteShard.Represents {c : ShardConfig} (shardId : UInt32) (s : ByteShard c)
    (t : ShardState c) : Prop where
  proxy : s.proxy = t.proxy
  link : ∀ k, (s.link k).Represents shardId (UInt32.ofNat k.2) (t.link k)
  server : ∀ j, (s.server j).Represents shardId (t.server j)
  feed : ∀ k, (s.feed k).Represents shardId (t.feed k)
  subscriber : s.subscriber = t.subscriber

theorem ByteServer.Represents.storeFrame {shardId : UInt32} {b : ByteServer} {sv : ServerState}
    (h : b.Represents shardId sv) (frame : Frame) :
    (b.storeFrame frame.senderId frame.seq (withPrefix (frame.body shardId))).Represents shardId
      (sv.storeFrame frame) := by
  have hstored : ∀ proxyId,
      (b.store.store frame.senderId (withPrefix (frame.body shardId))).stored proxyId =
        ((sv.store.store frame.senderId frame).stored proxyId).map
          fun frame => withPrefix (frame.body shardId) := by
    intro proxyId
    rw [MessageStore.stored_store, MessageStore.stored_store]
    split_ifs
    · rw [h.stored, List.map_append]
      rfl
    · exact h.stored proxyId
  unfold ByteServer.storeFrame ServerState.storeFrame
  rw [h.liveness]
  cases sv.liveness.removeTimeout frame.senderId frame.seq with
  | some liveness => exact ⟨hstored, rfl, h.crashed⟩
  | none => exact ⟨hstored, rfl, rfl⟩

namespace ByteShard

variable {c : ShardConfig} {shardId : UInt32} {s s' : ByteShard c} {t : ShardState c}

theorem represents_init {rb : ReadBuffer} (h : rb.Fresh) :
    (init rb : ByteShard c).Represents shardId .init where
  proxy := rfl
  link := fun _ => ByteLink.represents_init h
  server := fun _ => ⟨fun _ => rfl, rfl, rfl⟩
  feed := fun _ => ByteFeed.represents_init h
  subscriber := rfl

theorem Represents.setProxy (h : s.Represents shardId t) (p : Fin c.proxies)
    (ps : ReplicatorState c.servers) :
    (s.setProxy p ps).Represents shardId (t.setProxy p ps) := by
  refine { h with proxy := ?_ }
  show Function.update s.proxy p ps = Function.update t.proxy p ps
  rw [h.proxy]

theorem Represents.setLink (h : s.Represents shardId t) {p : Fin c.proxies} {j : Fin c.servers}
    {b : ByteLink} {l : Link} (hl : b.Represents shardId (UInt32.ofNat j) l) :
    (s.setLink p j b).Represents shardId (t.setLink p j l) := by
  refine { h with link := ?_ }
  intro k
  show (Function.update s.link (p, j) b k).Represents _ _ (Function.update t.link (p, j) l k)
  by_cases hk : k = (p, j)
  · subst hk
    rw [Function.update_self, Function.update_self]
    exact hl
  · rw [Function.update_of_ne hk, Function.update_of_ne hk]
    exact h.link k

/-- A step of a connection that the frames do not see. -/
theorem Represents.setLink_same (h : s.Represents shardId t) {p : Fin c.proxies}
    {j : Fin c.servers} {b : ByteLink}
    (hl : b.Represents shardId (UInt32.ofNat j) (t.link (p, j))) :
    (s.setLink p j b).Represents shardId t := by
  have hset : (s.setLink p j b).Represents shardId (t.setLink p j (t.link (p, j))) := h.setLink hl
  rwa [ShardState.setLink, Function.update_eq_self] at hset

theorem Represents.setServer (h : s.Represents shardId t) {j : Fin c.servers} {b : ByteServer}
    {sv : ServerState} (hsv : b.Represents shardId sv) :
    (s.setServer j b).Represents shardId (t.setServer j sv) := by
  refine { h with server := ?_ }
  intro i
  show (Function.update s.server j b i).Represents _ (Function.update t.server j sv i)
  by_cases hi : i = j
  · subst hi
    rw [Function.update_self, Function.update_self]
    exact hsv
  · rw [Function.update_of_ne hi, Function.update_of_ne hi]
    exact h.server i

theorem Represents.setFeed (h : s.Represents shardId t) {j : Fin c.servers}
    {x : Fin c.subscribers} {b : ByteFeed} {d : Feed} (hd : b.Represents shardId d) :
    (s.setFeed j x b).Represents shardId (t.setFeed j x d) := by
  refine { h with feed := ?_ }
  intro k
  show (Function.update s.feed (j, x) b k).Represents _ (Function.update t.feed (j, x) d k)
  by_cases hk : k = (j, x)
  · subst hk
    rw [Function.update_self, Function.update_self]
    exact hd
  · rw [Function.update_of_ne hk, Function.update_of_ne hk]
    exact h.feed k

theorem Represents.setFeed_same (h : s.Represents shardId t) {j : Fin c.servers}
    {x : Fin c.subscribers} {b : ByteFeed} (hd : b.Represents shardId (t.feed (j, x))) :
    (s.setFeed j x b).Represents shardId t := by
  have hset : (s.setFeed j x b).Represents shardId (t.setFeed j x (t.feed (j, x))) := h.setFeed hd
  rwa [ShardState.setFeed, Function.update_eq_self] at hset

theorem Represents.setSubscriber (h : s.Represents shardId t) (x : Fin c.subscribers)
    (u : SubscriberState) :
    (s.setSubscriber x u).Represents shardId (t.setSubscriber x u) := by
  refine { h with subscriber := ?_ }
  show Function.update s.subscriber x u = Function.update t.subscriber x u
  rw [h.subscriber]

theorem Represents.pushItem (h : s.Represents shardId t) (p : Fin c.proxies) {item : WorkItem}
    (hfits : item.frame.Fits) :
    (s.pushItem p (item.bytes shardId)).Represents shardId (t.pushItem p item) := by
  refine { h with link := ?_ }
  intro k
  show (if k.1 = p then _ else _ : ByteLink).Represents _ _ (if k.1 = p then _ else _)
  split_ifs
  · exact (h.link k).push hfits
  · exact h.link k

theorem Represents.broadcastFrame (h : s.Represents shardId t) (j : Fin c.servers) {frame : Frame}
    (hfits : ({ frame with senderId := j } : Frame).Fits) :
    (s.broadcastWire j
      (withPrefix (({ frame with senderId := j } : Frame).body shardId))).Represents shardId
        (t.broadcastFrame j frame) := by
  refine { h with feed := ?_ }
  intro k
  show (if k.1 = j then _ else _ : ByteFeed).Represents _ (if k.1 = j then _ else _)
  split_ifs
  · exact (h.feed k).push hfits
  · exact h.feed k

/-- The loop of `replicate_bytes` reads the same number of workers. -/
theorem Represents.liveWorkers (h : s.Represents shardId t) (p : Fin c.proxies) :
    s.liveWorkers p = t.liveWorkers p := by
  unfold ByteShard.liveWorkers ShardState.liveWorkers
  congr 1
  ext j
  rw [Finset.mem_filter, Finset.mem_filter, (h.link (p, j)).worker]
  cases (t.link (p, j)).worker <;> simp [WorkerPhase.bytes, ByteWorkerPhase.live]

theorem onServer_eq_some {j : Fin c.servers} {u : Option (ByteShard c)}
    (hs : s.onServer j u = some s') : (s.server j).crashed = false ∧ u = some s' := by
  unfold onServer at hs
  split_ifs at hs with hcrashed
  exact ⟨by simpa using hcrashed, hs⟩

/-- A server that has not crashed takes its step on frames as well. -/
theorem Represents.onServer (h : s.Represents shardId t) {j : Fin c.servers}
    (hup : (s.server j).crashed = false) (u : Option (ShardState c)) :
    t.onServer j u = u := by
  rw [ShardState.onServer, ← (h.server j).crashed, hup]
  rfl

theorem onSubscriber_eq_some {x : Fin c.subscribers} {u : Option (ByteShard c)}
    (hs : s.onSubscriber x u = some s') : (s.subscriber x).terminated = false ∧ u = some s' := by
  unfold onSubscriber at hs
  split_ifs at hs with hterminated
  exact ⟨by simpa using hterminated, hs⟩

/-! ## Steps and runs -/

/-- The bytes of a call go out as one frame. -/
theorem Represents.replicate (h : s.Represents shardId t) {p : Fin c.proxies} {seq : UInt64}
    {payload : Payload} {clients : Finset ℕ} (hproxies : c.proxies ≤ 2 ^ 32)
    (hfits : 28 + payload.data.length < 2 ^ 16)
    (hs : s.step shardId (.replicate p seq payload clients) = some s') :
    ∃ t', t.step (.replicate p seq.toNat payload clients) = some t' ∧
      s'.Represents shardId t' := by
  have hproxy := congrFun h.proxy p
  have hframe : (⟨p, seq.toNat, payload⟩ : Frame).Fits :=
    ⟨lt_of_lt_of_le p.isLt hproxies, seq.toNat_lt, hfits⟩
  rcases hcall : (s.proxy p).call with _ | _ | _ | ok <;> simp only [step, hcall] at hs <;>
    cases hs
  have hpush := (@Represents.pushItem _ _ _ _ h p
    ⟨⟨p, seq.toNat, payload⟩, (s.proxy p).batches.length⟩ hframe).setProxy p
      ((s.proxy p).replicate ⟨p, seq.toNat, payload⟩ clients)
  rw [WorkItem.bytes, Frame.withPrefix_body, UInt64.ofNat_toNat] at hpush
  rw [hproxy] at hcall hpush ⊢
  refine ⟨_, ?_, hpush⟩
  rw [ShardState.step]
  simp only [hcall]

/-- The subscriber observes the same number, sender and data. -/
theorem Represents.deliver (h : s.Represents shardId t) {j : Fin c.servers}
    {x : Fin c.subscribers} {received : ℕ}
    (hs : s.step shardId (.deliver j x received) = some s') :
    ∃ t', t.step (.deliver j x received) = some t' ∧ s'.Represents shardId t' := by
  obtain ⟨hrunning, hs⟩ := onSubscriber_eq_some hs
  obtain ⟨⟨msgLen, header, data⟩, htake, rfl⟩ := Option.map_eq_some_iff.mp hs
  obtain ⟨frame, d, hd, hfits, rfl, rfl, hreply, hthrown⟩ := (h.feed (j, x)).take htake
  refine ⟨t.observe j x received frame d, ?_, ?_⟩
  · rw [h.subscriber] at hrunning
    show (if (t.subscriber x).terminated then none else _) = _
    rw [hrunning, if_neg Bool.false_ne_true, hd]
    rfl
  · show (s.observe j x received msgLen (frame.header shardId) frame.payload.data).Represents _ _
    unfold observe ShardState.observe
    rw [h.subscriber, hfits.toNat_senderId, hfits.toNat_seq]
    rcases (t.subscriber x).tracker.observe received frame.senderId frame.seq frame.payload.data
      c.quorum with ⟨tracker, error | out⟩
    · exact (h.setFeed hthrown).setSubscriber x _
    · exact (h.setFeed hreply).setSubscriber x _

/-- **One step** of the bytes is a step on frames, or none. -/
theorem Represents.step (h : s.Represents shardId t) (hproxies : c.proxies ≤ 2 ^ 32)
    (hservers : c.servers ≤ 2 ^ 32) {e : ByteEvent c} (hfits : s.Fits e)
    (hs : s.step shardId e = some s') :
    e.onFrames = none ∧ s'.Represents shardId t ∨
      ∃ d t', e.onFrames = some d ∧ t.step d = some t' ∧ s'.Represents shardId t' := by
  cases e with
  | replicate p seq payload clients =>
    obtain ⟨t', ht', hrep⟩ := h.replicate hproxies hfits hs
    exact Or.inr ⟨_, t', rfl, ht', hrep⟩
  | pollAcks p =>
    obtain ⟨ps, hps, rfl⟩ := Option.map_eq_some_iff.mp hs
    rw [h.proxy] at hps
    exact Or.inr ⟨.pollAcks p, _, rfl, by rw [ShardState.step, hps]; rfl, h.setProxy p ps⟩
  | pollLive p =>
    obtain ⟨ps, hps, rfl⟩ := Option.map_eq_some_iff.mp hs
    rw [h.proxy, h.liveWorkers] at hps
    exact Or.inr ⟨.pollLive p, _, rfl, by rw [ShardState.step, hps]; rfl, h.setProxy p ps⟩
  | respond p =>
    obtain ⟨ps, hps, rfl⟩ := Option.map_eq_some_iff.mp hs
    rw [h.proxy] at hps
    exact Or.inr ⟨.respond p, _, rfl, by rw [ShardState.step, hps]; rfl, h.setProxy p ps⟩
  | connect p j =>
    obtain ⟨hup, hs⟩ := onServer_eq_some hs
    obtain ⟨b, hb, rfl⟩ := Option.map_eq_some_iff.mp hs
    obtain ⟨l, hl, hrep⟩ := (h.link (p, j)).connect hb
    exact Or.inr ⟨.connect p j, _, rfl, by rw [ShardState.step, h.onServer hup, hl]; rfl,
      h.setLink hrep⟩
  | send p j =>
    obtain ⟨b, hb, rfl⟩ := Option.map_eq_some_iff.mp hs
    obtain ⟨l, hl, hrep⟩ := (h.link (p, j)).send hb
    exact Or.inr ⟨.send p j, _, rfl, by rw [ShardState.step, hl]; rfl, h.setLink hrep⟩
  | fail p j accepted =>
    obtain ⟨b, hb, rfl⟩ := Option.map_eq_some_iff.mp hs
    obtain ⟨l, hl, hrep⟩ := (h.link (p, j)).fail hb
    exact Or.inr ⟨.fail p j, _, rfl, by rw [ShardState.step, hl]; rfl, h.setLink hrep⟩
  | workerRecv p j n =>
    obtain ⟨b, hb, rfl⟩ := Option.map_eq_some_iff.mp hs
    exact Or.inl ⟨rfl, h.setLink_same ((h.link (p, j)).workerRecv hb)⟩
  | count p j =>
    obtain ⟨⟨item, b⟩, hb, rfl⟩ := Option.map_eq_some_iff.mp hs
    obtain ⟨item', l, hl, rfl, hrep⟩ := (h.link (p, j)).count hb
    have hproxy := congrFun h.proxy p
    refine Or.inr ⟨.count p j, _, rfl, by rw [ShardState.step, hl]; rfl, ?_⟩
    simp only [hproxy]
    exact (h.setLink hrep).setProxy p _
  | handlerRecv p j n =>
    obtain ⟨hup, hs⟩ := onServer_eq_some hs
    obtain ⟨b, hb, rfl⟩ := Option.map_eq_some_iff.mp hs
    exact Or.inl ⟨rfl, h.setLink_same ((h.link (p, j)).handlerRecv hb)⟩
  | close p j =>
    obtain ⟨hup, hs⟩ := onServer_eq_some hs
    obtain ⟨b, hb, rfl⟩ := Option.map_eq_some_iff.mp hs
    exact Or.inl ⟨rfl, h.setLink_same ((h.link (p, j)).close hb)⟩
  | ack p j =>
    obtain ⟨hup, hs⟩ := onServer_eq_some hs
    obtain ⟨b, hb, rfl⟩ := Option.map_eq_some_iff.mp hs
    obtain ⟨l, hl, hrep⟩ := (h.link (p, j)).ack hb
    exact Or.inr ⟨.ack p j, _, rfl, by rw [ShardState.step, h.onServer hup, hl]; rfl,
      h.setLink hrep⟩
  | check p j =>
    obtain ⟨hup, hs⟩ := onServer_eq_some hs
    obtain ⟨b, hb, rfl⟩ := Option.map_eq_some_iff.mp hs
    rw [(h.server j).liveness] at hb
    obtain ⟨l, hl, hrep⟩ := (h.link (p, j)).check hb
    exact Or.inr ⟨.check p j, _, rfl, by rw [ShardState.step, h.onServer hup, hl]; rfl,
      h.setLink hrep⟩
  | store p j =>
    obtain ⟨hup, hs⟩ := onServer_eq_some hs
    obtain ⟨⟨senderId, seq, wire, b⟩, hb, rfl⟩ := Option.map_eq_some_iff.mp hs
    obtain ⟨frame, l, hl, -, rfl, rfl, rfl, hrep⟩ := (h.link (p, j)).store hb
    exact Or.inr ⟨.store p j, _, rfl, by rw [ShardState.step, h.onServer hup, hl]; rfl,
      (h.setLink hrep).setServer ((h.server j).storeFrame frame)⟩
  | broadcast p j =>
    obtain ⟨hup, hs⟩ := onServer_eq_some hs
    obtain ⟨⟨wire, b⟩, hb, rfl⟩ := Option.map_eq_some_iff.mp hs
    obtain ⟨frame, l, hl, hframe, rfl, hrep⟩ := (h.link (p, j)).broadcast hb
    have hj : (j : ℕ) < 2 ^ 32 := lt_of_lt_of_le j.isLt hservers
    have hid : (UInt32.ofNat j).toNat = j := by
      rw [UInt32.toNat_ofNat', Nat.mod_eq_of_lt hj]
    rw [hid]
    exact Or.inr ⟨.broadcast p j, _, rfl, by rw [ShardState.step, h.onServer hup, hl]; rfl,
      (h.setLink hrep).broadcastFrame j ⟨hj, hframe.seq, hframe.data⟩⟩
  | zipResponse j proxyId orderingValues =>
    obtain ⟨hup, hs⟩ := onServer_eq_some hs
    cases hs
    have hserver := h.server j
    have hupdated : ((s.server j).updateTimeouts proxyId orderingValues).Represents shardId
        ((t.server j).updateTimeouts proxyId orderingValues) := by
      refine ⟨hserver.stored, ?_, hserver.crashed⟩
      exact congrArg (fun l => l.updateTimeouts proxyId orderingValues) hserver.liveness
    exact Or.inr ⟨.zipResponse j proxyId orderingValues, _, rfl,
      by rw [ShardState.step, h.onServer hup], h.setServer hupdated⟩
  | crash j =>
    cases hs
    have hserver := h.server j
    exact Or.inr ⟨.crash j, _, rfl, rfl, h.setServer ⟨hserver.stored, hserver.liveness, rfl⟩⟩
  | feedSend j x =>
    obtain ⟨hup, hs⟩ := onServer_eq_some hs
    obtain ⟨b, hb, rfl⟩ := Option.map_eq_some_iff.mp hs
    obtain ⟨d, hd, hrep⟩ := (h.feed (j, x)).send hb
    exact Or.inr ⟨.feedSend j x, _, rfl, by rw [ShardState.step, h.onServer hup, hd]; rfl,
      h.setFeed hrep⟩
  | feedFail j x accepted =>
    obtain ⟨hup, hs⟩ := onServer_eq_some hs
    obtain ⟨b, hb, rfl⟩ := Option.map_eq_some_iff.mp hs
    obtain ⟨d, hd, hrep⟩ := (h.feed (j, x)).fail hb
    exact Or.inr ⟨.feedFail j x, _, rfl, by rw [ShardState.step, h.onServer hup, hd]; rfl,
      h.setFeed hrep⟩
  | feedWorkerRecv j x n =>
    obtain ⟨hup, hs⟩ := onServer_eq_some hs
    obtain ⟨b, hb, rfl⟩ := Option.map_eq_some_iff.mp hs
    exact Or.inl ⟨rfl, h.setFeed_same ((h.feed (j, x)).workerRecv hb)⟩
  | feedAck j x =>
    obtain ⟨hup, hs⟩ := onServer_eq_some hs
    obtain ⟨b, hb, rfl⟩ := Option.map_eq_some_iff.mp hs
    obtain ⟨d, hd, hrep⟩ := (h.feed (j, x)).receiveAck hb
    exact Or.inr ⟨.feedAck j x, _, rfl, by rw [ShardState.step, h.onServer hup, hd]; rfl,
      h.setFeed hrep⟩
  | feedHandlerRecv j x n =>
    obtain ⟨hrunning, hs⟩ := onSubscriber_eq_some hs
    obtain ⟨b, hb, rfl⟩ := Option.map_eq_some_iff.mp hs
    exact Or.inl ⟨rfl, h.setFeed_same ((h.feed (j, x)).handlerRecv hb)⟩
  | feedClose j x =>
    obtain ⟨hrunning, hs⟩ := onSubscriber_eq_some hs
    obtain ⟨b, hb, rfl⟩ := Option.map_eq_some_iff.mp hs
    exact Or.inl ⟨rfl, h.setFeed_same ((h.feed (j, x)).close hb)⟩
  | deliver j x received =>
    obtain ⟨t', ht', hrep⟩ := h.deliver hs
    exact Or.inr ⟨_, t', rfl, ht', hrep⟩
  | feedReply j x =>
    obtain ⟨hrunning, hs⟩ := onSubscriber_eq_some hs
    obtain ⟨b, hb, rfl⟩ := Option.map_eq_some_iff.mp hs
    exact Or.inl ⟨rfl, h.setFeed_same ((h.feed (j, x)).reply hb)⟩

/-- **A shard on its bytes is a shard on frames.** In every run in which the frames of the batches
fit their length prefixes, whatever pieces the bytes arrive in, wherever a send is cut short and
whichever servers crash, the state stands for a state that `replication` reaches: the proxies have
the same batches, counts and responses, the servers have stored the bytes of the same frames, the
subscribers have the same logs, and what is on each connection are the bytes of the frames and
replies on it. -/
theorem refines (c : ShardConfig) (hproxies : c.proxies ≤ 2 ^ 32) (hservers : c.servers ≤ 2 ^ 32)
    (shardId : UInt32) {rb : ReadBuffer} (hrb : rb.Fresh) {s : ByteShard c}
    (h : (byteShard c shardId rb).ReachVia ByteShard.Fits s) :
    ∃ t, (replication c).Reach t ∧ s.Represents shardId t := by
  refine h.simulate (N := replication c) (fun s t => s.Represents shardId t)
    (represents_init hrb) ?_
  intro s e s' t hrep hfits hs
  rcases hrep.step hproxies hservers hfits hs with ⟨-, hsame⟩ | ⟨d, t', -, ht', hrep'⟩
  · exact Or.inl hsame
  · exact Or.inr ⟨d, t', trivial, ht', hrep'⟩

/-- One batch on its way through one server to one subscriber, cut inside its length prefix on the
first connection and received at once on the second. -/
theorem exists_relayed : ∃ s : ByteShard ⟨0, 1, 1, 1, by decide⟩,
    (byteShard ⟨0, 1, 1, 1, by decide⟩ 5 .zeroed).ReachVia ByteShard.Fits s ∧
      (s.subscriber 0).tracker.log = [[], [0, 0, 0, 1, 65]] := by
  have hrun : ((byteShard ⟨0, 1, 1, 1, by decide⟩ 5 .zeroed).runVia (fun s e => decide (s.Fits e))
      [.replicate 0 1 (.append [0, 0, 0, 1, 65]) {7}, .connect 0 0, .send 0 0, .handlerRecv 0 0 1,
        .handlerRecv 0 0 64, .ack 0 0, .check 0 0, .store 0 0, .broadcast 0 0, .feedSend 0 0,
        .feedHandlerRecv 0 0 64, .deliver 0 0 0, .feedReply 0 0] (init .zeroed)).any (fun s =>
          decide ((s.subscriber 0).tracker.log = [[], [0, 0, 0, 1, 65]])) = true := by
    decide +kernel
  obtain ⟨s, hreach, hs⟩ := Lts.exists_reachVia_of_run _ (fun _ _ => of_decide_eq_true) hrun
  exact ⟨s, hreach, of_decide_eq_true hs⟩

/-- The batch is in the log of the shard on frames as well. -/
theorem refines_relayed : ∃ t : ShardState ⟨0, 1, 1, 1, by decide⟩,
    (replication ⟨0, 1, 1, 1, by decide⟩).Reach t ∧
      (t.subscriber 0).tracker.log = [[], [0, 0, 0, 1, 65]] := by
  obtain ⟨s, hreach, hlog⟩ := exists_relayed
  obtain ⟨t, ht, hrep⟩ := refines _ (by decide) (by decide) 5 ReadBuffer.zeroed_fresh hreach
  refine ⟨t, ht, ?_⟩
  rw [← hrep.subscriber]
  exact hlog

end ByteShard

end Ziplog
