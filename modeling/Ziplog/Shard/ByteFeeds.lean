import Ziplog.Shard.ByteLinks
import Ziplog.Shard.ZeroCopy

/-!
# The bytes between a server and a subscriber

The connection of a `Feed` as the code sees it. The broadcaster's worker sends the frames that the
server queues for it as they are and reads one reply for each, of which it only looks at the length;
the subscriber observes the data where they lie in its read buffer, replies, and gives the frame up
last. `ByteFeed.Represents` relates the two levels as for a `ByteLink`. In between, the frame that
was observed is still in the buffer, and its reply is counted already.
-/

namespace Ziplog

open Cells ReadBuffer

/-- `Subscriber::handle_connection`: it receives, or has observed a frame of `msgLen` bytes at the
head of its read buffer, or has left its loop. -/
inductive ByteFeedPhase
  | reading
  | observed (msgLen : ℕ) (header : MessageHeader)
  | closed

/-- A connection from a server to a subscriber, with what each end has not received. -/
structure ByteFeed where
  queue : List (List UInt8)
  worker : FeedPhase
  subscriber : Inbox
  handler : ByteFeedPhase
  server : Inbox

namespace ByteFeed

/-- Both ends start with a buffer `rb`. -/
def init (rb : ReadBuffer) : ByteFeed := ⟨[], .idle, ⟨[], rb⟩, .reading, ⟨[], rb⟩⟩

def push (d : ByteFeed) (wire : List UInt8) : ByteFeed := { d with queue := d.queue ++ [wire] }

/-- The worker takes a frame from its queue, and the connection takes all of its bytes. -/
def send (d : ByteFeed) : Option ByteFeed :=
  match d.worker, d.queue with
  | .idle, wire :: queue =>
    some { d with queue := queue, worker := .awaiting, subscriber := d.subscriber.arrive wire }
  | _, _ => none

/-- The connection takes the first `accepted` bytes only, or receiving the reply fails. -/
def fail (d : ByteFeed) (accepted : ℕ) : Option ByteFeed :=
  match d.worker, d.queue with
  | .idle, wire :: queue =>
    if accepted < wire.length then
      some { d with
        queue := queue
        worker := .terminated
        subscriber := d.subscriber.arrive (wire.take accepted) }
    else none
  | .awaiting, _ => some { d with worker := .terminated }
  | _, _ => none

/-- One call of `recv` of the worker, which waits for a reply. -/
def workerRecv (d : ByteFeed) (n : ℕ) : Option ByteFeed :=
  match d.worker, d.server.whole with
  | .awaiting, none => (d.server.refill n).map fun server => { d with server := server }
  | _, _ => none

/-- The worker has a reply and drops it. -/
def receiveAck (d : ByteFeed) : Option ByteFeed :=
  match d.worker, d.server.whole with
  | .awaiting, some ackLen =>
    some { d with worker := .idle, server := d.server.consume (2 + ackLen) }
  | _, _ => none

/-- One call of `recv` of the handler. -/
def handlerRecv (d : ByteFeed) (n : ℕ) : Option ByteFeed :=
  match d.handler, d.subscriber.whole with
  | .reading, none =>
    (d.subscriber.refill n).map fun subscriber => { d with subscriber := subscriber }
  | _, _ => none

/-- A call of `recv` fails, and the handler closes the connection. -/
def close (d : ByteFeed) : Option ByteFeed :=
  match d.handler with
  | .reading => some { d with handler := .closed }
  | _ => none

/-- The handler has a frame: its length, its header, and the data that it hands to `observe`.
Frames other than APPEND and SKIP are not sent here. -/
def take (d : ByteFeed) : Option (ℕ × MessageHeader × List UInt8) :=
  match d.handler, d.subscriber.whole with
  | .reading, some msgLen =>
    match MessageHeader.peek d.subscriber.message msgLen,
      handedToObserve d.subscriber.message msgLen with
    | .ok (some header), .ok (some slice) =>
      match slice.read d.subscriber.message with
      | .ok data => some (msgLen, header, data)
      | .error _ => none
    | _, _ => none
  | _, _ => none

/-- `observe` has returned, or has thrown, which leaves the frame where it is. -/
def observed (d : ByteFeed) (msgLen : ℕ) (header : MessageHeader) (returned : Bool) : ByteFeed :=
  { d with handler := if returned then .observed msgLen header else .closed }

/-- The handler replies and gives up the frame. -/
def reply (shardId subscriberId : UInt32) (d : ByteFeed) : Option ByteFeed :=
  match d.handler with
  | .observed msgLen header =>
    some { d with
      handler := .reading
      subscriber := d.subscriber.consume (2 + msgLen)
      server := d.server.arrive
        (buildWireBytes MessageTypes.ack.value shardId subscriberId header.seqOrCount []) }
  | _ => none

end ByteFeed

/-! ## The frames that the bytes stand for -/

/-- **What a subscriber hands to `observe`** are the data of the frame. -/
theorem Frame.Fits.handed {f : Frame} (h : f.Fits) (shardId : UInt32) (after : List UInt8) :
    ∃ s, handedToObserve (f.body shardId ++ after) (f.body shardId).length = .ok (some s) ∧
      s.read (f.body shardId ++ after) = .ok f.payload.data := by
  have hdata := h.data
  have hbytes : f.payload.data.length < 2 ^ 32 := by omega
  unfold handedToObserve
  rw [Frame.peek_body]
  simp only
  cases hpayload : f.payload with
  | skip =>
    have htype : (f.header shardId).type = MessageTypes.skip.value := by
      rw [Frame.header, hpayload]
      rfl
    rw [htype, if_neg (by decide), if_pos rfl]
    exact ⟨⟨none, 0⟩, rfl, rfl⟩
  | append batch =>
    have htype : (f.header shardId).type = MessageTypes.append.value := by
      rw [Frame.header, hpayload]
      rfl
    have hsize : 24 + batch.length ≤ (f.body shardId).length := by
      rw [Frame.length_body, hpayload]
      show 24 + batch.length ≤ 28 + batch.length
      omega
    obtain ⟨hptr, hslice⟩ := @getDataPtr_wireBody f.payload.type.value shardId
      (UInt32.ofNat f.senderId) (UInt64.ofNat f.seq) f.payload.data hbytes after
    rw [← Frame.body, ← @Frame.length_body shardId f] at hptr
    rw [← Frame.body, hpayload] at hslice
    rw [htype, if_pos rfl, hptr, hpayload]
    refine ⟨_, rfl, ?_⟩
    show fetch _ 24 batch.length = .ok batch
    rw [fetch_body after hsize, ← slice_append_left after hsize]
    exact congrArg Except.ok hslice

/-- The replies that are counted and not yet sent. -/
def ByteFeedPhase.owed : ByteFeedPhase → ℕ
  | .observed _ _ => 1
  | .reading | .closed => 0

/-- The frames that are taken and still in the buffer. -/
def ByteFeedPhase.Holds (shardId : UInt32) (held : List Frame) : ByteFeedPhase → Prop
  | .reading => held = []
  | .observed msgLen header => ∃ frame, held = [frame] ∧ msgLen = (frame.body shardId).length ∧
      header = frame.header shardId
  | .closed => True

namespace ByteFeed

/-- The bytes of a connection are those of `d`. -/
structure Represents (shardId : UInt32) (b : ByteFeed) (d : Feed) : Prop where
  queue : b.queue = d.queue.map fun frame => withPrefix (frame.body shardId)
  queueFits : ∀ frame ∈ d.queue, frame.Fits
  worker : b.worker = d.worker
  subscriber : ∃ held, b.handler.Holds shardId held ∧
    b.subscriber.Carries ((held ++ d.wire).map (Frame.body shardId)) (d.worker = .terminated) ∧
    ∀ msgLen header, b.handler = .observed msgLen header → 2 + msgLen ≤ b.subscriber.rb.available
  wireFits : ∀ frame ∈ d.wire, frame.Fits
  server : ∃ replies, b.server.Carries replies False ∧ replies.length + b.handler.owed = d.acks

variable {shardId subscriberId : UInt32} {b b' : ByteFeed} {d : Feed}

theorem represents_init {rb : ReadBuffer} (h : rb.Fresh) :
    (init rb).Represents shardId .init where
  queue := rfl
  queueFits := fun _ hframe => nomatch hframe
  worker := rfl
  subscriber := ⟨[], rfl, Inbox.carries_fresh h, fun _ _ hbad => nomatch hbad⟩
  wireFits := fun _ hframe => nomatch hframe
  server := ⟨[], Inbox.carries_fresh h, rfl⟩

theorem Represents.push (h : b.Represents shardId d) {frame : Frame} (hfits : frame.Fits) :
    (b.push (withPrefix (frame.body shardId))).Represents shardId (d.push frame) := by
  refine { h with queue := ?_, queueFits := ?_ }
  · show b.queue ++ _ = (d.queue ++ [frame]).map _
    rw [h.queue, List.map_append]
    rfl
  · intro x hx
    rcases List.mem_append.mp hx with hold | hnew
    · exact h.queueFits x hold
    · rw [List.mem_singleton.mp hnew]
      exact hfits

theorem Represents.queue_cons (h : b.Represents shardId d) {wire : List UInt8}
    {queue : List (List UInt8)} (hqueue : b.queue = wire :: queue) :
    ∃ frame queue', d.queue = frame :: queue' ∧ wire = withPrefix (frame.body shardId) ∧
      (queue = queue'.map fun frame => withPrefix (frame.body shardId)) ∧
      frame.Fits ∧ ∀ f ∈ queue', f.Fits := by
  have heq := h.queue
  have hfits := h.queueFits
  rw [hqueue] at heq
  obtain ⟨frame, queue', hd, hwire, hrest⟩ := List.map_eq_cons_iff.mp heq.symm
  rw [hd] at hfits
  exact ⟨frame, queue', hd, hwire.symm, hrest.symm, hfits frame List.mem_cons_self,
    fun f hf => hfits f (List.mem_cons_of_mem _ hf)⟩

/-- The worker sends: the frame stands behind the others. -/
theorem Represents.send (h : b.Represents shardId d) (hs : b.send = some b') :
    ∃ d', d.send = some d' ∧ b'.Represents shardId d' := by
  unfold ByteFeed.send at hs
  split at hs
  · rename_i wire queue hidle hqueue
    cases hs
    have hd : d.worker = .idle := h.worker.symm.trans hidle
    obtain ⟨frame, queue', hq, rfl, rfl, hfits, hrest⟩ := h.queue_cons hqueue
    obtain ⟨held, hheld, hcarries, hav⟩ := h.subscriber
    rw [hd] at hcarries
    refine ⟨_, by rw [Feed.send, hd, hq], ?_⟩
    refine { h with
      queue := rfl, queueFits := hrest, worker := rfl, subscriber := ?_, wireFits := ?_ }
    · refine ⟨held, hheld, ?_, hav⟩
      rw [← List.append_assoc, List.map_append]
      exact (hcarries.arrive (fun hbad => nomatch hbad) hfits.le_maxMessageSize).mono fun hbad =>
        nomatch hbad
    · intro f hf
      rcases List.mem_append.mp hf with hold | hnew
      · exact h.wireFits f hold
      · rw [List.mem_singleton.mp hnew]
        exact hfits
  · cases hs

/-- A worker that fails has sent a part of its frame at most. -/
theorem Represents.fail (h : b.Represents shardId d) {accepted : ℕ}
    (hs : b.fail accepted = some b') : ∃ d', d.fail = some d' ∧ b'.Represents shardId d' := by
  unfold ByteFeed.fail at hs
  split at hs
  · rename_i wire queue hidle hqueue
    split_ifs at hs with hshort
    cases hs
    have hd : d.worker = .idle := h.worker.symm.trans hidle
    obtain ⟨frame, queue', hq, rfl, rfl, hfits, hrest⟩ := h.queue_cons hqueue
    obtain ⟨held, hheld, hcarries, hav⟩ := h.subscriber
    rw [hd] at hcarries
    refine ⟨_, by rw [Feed.fail, hd, hq], ?_⟩
    refine { h with queue := rfl, queueFits := hrest, worker := rfl, subscriber := ?_ }
    refine ⟨held, hheld, ?_, hav⟩
    exact (hcarries.arrive_cut (fun hbad => nomatch hbad) hfits.le_maxMessageSize hshort).mono
      fun _ => rfl
  · rename_i hawaiting
    cases hs
    have hd : d.worker = .awaiting := h.worker.symm.trans hawaiting
    obtain ⟨held, hheld, hcarries, hav⟩ := h.subscriber
    rw [hd] at hcarries
    refine ⟨_, by rw [Feed.fail, hd], ?_⟩
    exact { h with
      worker := rfl
      subscriber := ⟨held, hheld, hcarries.mono fun hbad => (nomatch hbad), hav⟩ }
  · cases hs

theorem Represents.workerRecv (h : b.Represents shardId d) {n : ℕ}
    (hs : b.workerRecv n = some b') : b'.Represents shardId d := by
  unfold ByteFeed.workerRecv at hs
  split at hs
  · obtain ⟨server, hserver, rfl⟩ := Option.map_eq_some_iff.mp hs
    obtain ⟨replies, hcarries, hlen⟩ := h.server
    exact { h with server := ⟨replies, hcarries.refill hserver, hlen⟩ }
  · cases hs

/-- What the worker receives is one of the replies. -/
theorem Represents.receiveAck (h : b.Represents shardId d) (hs : b.receiveAck = some b') :
    ∃ d', d.receiveAck = some d' ∧ b'.Represents shardId d' := by
  unfold ByteFeed.receiveAck at hs
  split at hs
  · rename_i ackLen hawaiting hwhole
    cases hs
    have hd : d.worker = .awaiting := h.worker.symm.trans hawaiting
    obtain ⟨replies, hcarries, hlen⟩ := h.server
    obtain ⟨body, later, rfl, rfl, hav, -⟩ := hcarries.whole hwhole
    obtain ⟨acks, hacks⟩ : ∃ acks, d.acks = acks + 1 :=
      ⟨later.length + b.handler.owed, by rw [← hlen, List.length_cons]; omega⟩
    obtain ⟨held, hheld, hstream, hheldav⟩ := h.subscriber
    rw [hd] at hstream
    refine ⟨_, by rw [Feed.receiveAck, hd, hacks], ?_⟩
    refine { h with worker := rfl, subscriber := ?_, server := ⟨later, hcarries.consume hav, ?_⟩ }
    · exact ⟨held, hheld, hstream.mono fun hbad => (nomatch hbad), hheldav⟩
    · show later.length + b.handler.owed = acks
      rw [List.length_cons] at hlen
      omega
  · cases hs

theorem Represents.handlerRecv (h : b.Represents shardId d) {n : ℕ}
    (hs : b.handlerRecv n = some b') : b'.Represents shardId d := by
  unfold ByteFeed.handlerRecv at hs
  split at hs
  · rename_i hreading _
    obtain ⟨subscriber, hsubscriber, rfl⟩ := Option.map_eq_some_iff.mp hs
    obtain ⟨held, hheld, hcarries, -⟩ := h.subscriber
    refine { h with subscriber := ⟨held, hheld, hcarries.refill hsubscriber, ?_⟩ }
    intro msgLen header hobserved
    cases hreading.symm.trans hobserved
  · cases hs

theorem Represents.close (h : b.Represents shardId d) (hs : b.close = some b') :
    b'.Represents shardId d := by
  unfold ByteFeed.close at hs
  split at hs <;> cases hs
  rename_i hreading
  obtain ⟨held, -, hcarries, -⟩ := h.subscriber
  obtain ⟨replies, hreplies, hlen⟩ := h.server
  rw [hreading] at hlen
  exact { h with
    subscriber := ⟨held, trivial, hcarries, fun _ _ hbad => nomatch hbad⟩
    server := ⟨replies, hreplies, hlen⟩ }

/-- **The handler observes** the first frame. When `observe` throws, the frame is gone and no reply
is counted. -/
theorem Represents.take (h : b.Represents shardId d) {msgLen : ℕ} {header : MessageHeader}
    {data : List UInt8} (hs : b.take = some (msgLen, header, data)) :
    ∃ frame d', d.take = some (frame, d') ∧ frame.Fits ∧ header = frame.header shardId ∧
      data = frame.payload.data ∧ (b.observed msgLen header true).Represents shardId d'.reply ∧
      (b.observed msgLen header false).Represents shardId d' := by
  unfold ByteFeed.take at hs
  split at hs
  · rename_i msgLen' hreading hwhole
    obtain ⟨held, hheld, hcarries, -⟩ := h.subscriber
    obtain ⟨replies, hreplies, hlen⟩ := h.server
    rw [hreading] at hheld hlen
    obtain rfl : held = [] := hheld
    obtain ⟨body, later, hbodies, rfl, hav, after, hmessage⟩ := hcarries.whole hwhole
    obtain ⟨frame, wire, hwire, rfl, rfl⟩ := List.map_eq_cons_iff.mp hbodies
    have hwire' : d.wire = frame :: wire := hwire
    have hfits := h.wireFits
    rw [hwire'] at hfits
    have hframe := hfits frame List.mem_cons_self
    obtain ⟨s, hhanded, hread⟩ := hframe.handed shardId after
    rw [hmessage, Frame.peek_body, hhanded] at hs
    simp only [hread] at hs
    cases hs
    refine ⟨frame, _, by rw [Feed.take, hwire'], hframe, rfl, rfl, ?_, ?_⟩
    · refine { h with
        subscriber := ⟨[frame], ⟨frame, rfl, rfl, rfl⟩, ?_, ?_⟩
        wireFits := fun f hf => hfits f (List.mem_cons_of_mem _ hf)
        server := ⟨replies, hreplies, congrArg Nat.succ hlen⟩ }
      · rw [hwire'] at hcarries
        exact hcarries
      · intro msgLen header hobserved
        cases hobserved
        exact hav
    · refine { h with
        subscriber := ⟨[frame], trivial, ?_, fun _ _ hbad => nomatch hbad⟩
        wireFits := fun f hf => hfits f (List.mem_cons_of_mem _ hf)
        server := ⟨replies, hreplies, hlen⟩ }
      rw [hwire'] at hcarries
      exact hcarries
  · cases hs

/-- The reply is sent, and the frame given up. -/
theorem Represents.reply (h : b.Represents shardId d)
    (hs : b.reply shardId subscriberId = some b') : b'.Represents shardId d := by
  unfold ByteFeed.reply at hs
  split at hs
  · rename_i msgLen header hobserved
    cases hs
    obtain ⟨held, hheld, hcarries, hav⟩ := h.subscriber
    obtain ⟨replies, hreplies, hlen⟩ := h.server
    rw [hobserved] at hheld hlen
    obtain ⟨frame, rfl, rfl, rfl⟩ := hheld
    refine { h with
      subscriber := ⟨[], rfl, hcarries.consume (hav _ _ hobserved), fun _ _ hbad => nomatch hbad⟩
      server := ⟨replies ++ [wireBody MessageTypes.ack.value shardId subscriberId
        (frame.header shardId).seqOrCount []], ?_, ?_⟩ }
    · rw [buildWireBytes_eq]
      refine hreplies.arrive id ?_
      rw [length_wireBody]
      decide
    · rw [List.length_append]
      exact hlen
  · cases hs

end ByteFeed

end Ziplog
