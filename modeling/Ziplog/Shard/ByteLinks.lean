import Ziplog.Api.Inbox
import Ziplog.Proxy.WireFrame
import Ziplog.Shard.Connections

/-!
# The bytes between a proxy and a server

A `Link` takes frames and replies as delivered whole and in order. A `ByteLink` is the same
connection as the code sees it: what a worker sends are the bytes of its item, which arrive at the
other end in any pieces, and the handler works on the frame at the head of its read buffer, over
whose sender it writes the id of its server and puts back the id it found. A send that fails may
have taken a part of the frame.

`ByteLink.Represents` relates the two, and each step of the bytes is a step of the frames or none.
-/

namespace Ziplog

open Cells ReadBuffer

/-! ## Frames and their bytes -/

namespace Frame

def body (shardId : UInt32) (f : Frame) : List UInt8 :=
  wireBody f.payload.type.value shardId (UInt32.ofNat f.senderId) (UInt64.ofNat f.seq)
    f.payload.data

def header (shardId : UInt32) (f : Frame) : MessageHeader :=
  ⟨f.payload.type.value, shardId, UInt32.ofNat f.senderId, UInt64.ofNat f.seq⟩

/-- The numbers fit their fields, and the body its length prefix. -/
structure Fits (f : Frame) : Prop where
  senderId : f.senderId < 2 ^ 32
  seq : f.seq < 2 ^ 64
  data : 28 + f.payload.data.length < 2 ^ 16

variable {shardId : UInt32} {f : Frame}

theorem length_body : (f.body shardId).length = 28 + f.payload.data.length :=
  length_wireBody _ _ _ _ _

theorem withPrefix_body : withPrefix (f.body shardId) =
    batchWire shardId (UInt32.ofNat f.senderId) (UInt64.ofNat f.seq) f.payload :=
  (buildWireBytes_eq _ _ _ _ _).symm

theorem Fits.le_maxMessageSize (h : f.Fits) : (f.body shardId).length ≤ maxMessageSize := by
  have hdata := h.data
  rw [length_body]
  unfold maxMessageSize
  omega

theorem peek_body (after : List UInt8) :
    MessageHeader.peek (f.body shardId ++ after) (f.body shardId).length =
      .ok (some (f.header shardId)) := by
  rw [length_body]
  exact peek_wireBody _ _ _ _ _ after

theorem Fits.toNat_senderId (h : f.Fits) : (f.header shardId).senderId.toNat = f.senderId := by
  show (UInt32.ofNat f.senderId).toNat = f.senderId
  rw [UInt32.toNat_ofNat', Nat.mod_eq_of_lt h.senderId]

theorem Fits.toNat_seq (h : f.Fits) : (f.header shardId).seqOrCount.toNat = f.seq := by
  show (UInt64.ofNat f.seq).toNat = f.seq
  rw [UInt64.toNat_ofNat', Nat.mod_eq_of_lt h.seq]

/-- The header is one of those that a server stores. -/
theorem type_header : (f.header shardId).type = MessageTypes.append.value ∨
    (f.header shardId).type = MessageTypes.skip.value := by
  unfold header
  cases f.payload with
  | append batch => exact Or.inl rfl
  | skip => exact Or.inr rfl

/-- Where the sender stands. -/
theorem slice_sender : slice (withPrefix (f.body shardId)) 10 4 =
    store32 (htonl (f.header shardId).senderId) := by
  unfold withPrefix body wireBody Message.headerBytes
  simp only [List.append_assoc]
  rw [← List.append_assoc, ← List.append_assoc (lengthPrefix _ ++ _)]
  exact slice_middle _ (by simp) (length_store32 _)

/-- Another sender. -/
theorem overlay_sender (id : UInt32) :
    overlay (withPrefix (f.body shardId)) 10 (store32 (htonl id)) =
      withPrefix (({ f with senderId := id.toNat } : Frame).body shardId) := by
  have hid : UInt32.ofNat id.toNat = id := UInt32.ofNat_toNat
  have hlen : (lengthPrefix (f.body shardId).length).length = 2 := length_lengthPrefix _
  have hwrite := overlay_append (lengthPrefix (f.body shardId).length) (f.body shardId) 8
    (store32 (htonl id))
  rw [hlen] at hwrite
  have hbody : overlay (f.body shardId) 8 (store32 (htonl id)) =
      ({ f with senderId := id.toNat } : Frame).body shardId := by
    unfold body
    rw [hid]
    exact overlay_bodyBytes id
  rw [withPrefix, hwrite, hbody, withPrefix, length_body, length_body]

end Frame

/-- The `memcpy` of an id over the sender of the frame at the head of the buffer. -/
def ReadBuffer.putSender (rb : ReadBuffer) (id : UInt32) : ReadBuffer :=
  { rb with buf := overlay rb.buf (rb.head + 10) (store32 (htonl id)) }

/-- **The sender put in and back.** The frame at the head of the buffer has the new sender in
between, and after that the buffer is as it was. -/
theorem ReadBuffer.Ok.putSender {rb : ReadBuffer} (h : rb.Ok) {shardId : UInt32} {f : Frame}
    {n : ℕ} (hn : n = (f.body shardId).length + 2) (hav : n ≤ rb.available)
    (hframe : slice rb.buf rb.head n = withPrefix (f.body shardId)) (id : UInt32) :
    slice (rb.putSender id).buf rb.head n =
        withPrefix (({ f with senderId := id.toNat } : Frame).body shardId) ∧
      (rb.putSender id).putSender (f.header shardId).senderId = rb := by
  have h1 := h.size
  have h2 := h.head
  have h3 := h.tail
  have hlen := @Frame.length_body shardId f
  have hword (x : UInt32) : (store32 (htonl x)).length = 4 := length_store32 _
  unfold available at hav
  constructor
  · rw [← Frame.overlay_sender, ← hframe]
    exact slice_overlay_inside (by rw [hword]; omega) (by omega)
  · have hold : slice rb.buf (rb.head + 10) (store32 (htonl id)).length =
        store32 (htonl (f.header shardId).senderId) := by
      rw [← Frame.slice_sender, ← hframe, slice_slice _ (by omega), hword]
    have hback := @overlay_restore _ rb.buf (store32 (htonl id)) (rb.head + 10)
      (by rw [hword]; omega)
    rw [hold] at hback
    unfold ReadBuffer.putSender
    simp only [hback]

/-! ## A connection -/

/-- `ServerReplicator::WorkItem`. -/
structure ByteItem where
  wireBytes : List UInt8
  state : ℕ

/-- The worker of `ServerReplicator`. -/
inductive ByteWorkerPhase
  | connecting
  | idle
  | awaiting (item : ByteItem)
  | terminated

/-- `Server::handle_connection`: it receives, or holds a frame of `msgLen` bytes at the head of its
read buffer, or has left its loop. -/
inductive ByteHandlerPhase
  | reading
  | acked (msgLen : ℕ) (header : MessageHeader)
  | checked (msgLen : ℕ) (header : MessageHeader)
  | stored (msgLen : ℕ) (header : MessageHeader)
  | closed

/-- A connection from a proxy to a server, with what each end has not received. -/
structure ByteLink where
  queue : List ByteItem
  worker : ByteWorkerPhase
  server : Inbox
  handler : ByteHandlerPhase
  proxy : Inbox

namespace ByteLink

/-- Both ends start with a buffer `rb`. -/
def init (rb : ReadBuffer) : ByteLink := ⟨[], .connecting, ⟨[], rb⟩, .reading, ⟨[], rb⟩⟩

def push (l : ByteLink) (item : ByteItem) : ByteLink := { l with queue := l.queue ++ [item] }

def connect (l : ByteLink) : Option ByteLink :=
  match l.worker with
  | .connecting => some { l with worker := .idle }
  | _ => none

/-- The worker takes an item from its queue, and the connection takes all of its bytes. -/
def send (l : ByteLink) : Option ByteLink :=
  match l.worker, l.queue with
  | .idle, item :: queue =>
    some { l with
      queue := queue
      worker := .awaiting item
      server := l.server.arrive item.wireBytes }
  | _, _ => none

/-- The connection takes the first `accepted` bytes only, or receiving the reply fails. -/
def fail (l : ByteLink) (accepted : ℕ) : Option ByteLink :=
  match l.worker, l.queue with
  | .idle, item :: queue =>
    if accepted < item.wireBytes.length then
      some { l with
        queue := queue
        worker := .terminated
        server := l.server.arrive (item.wireBytes.take accepted) }
    else none
  | .awaiting _, _ => some { l with worker := .terminated }
  | _, _ => none

/-- One call of `recv` of the worker, which waits for a reply. -/
def workerRecv (l : ByteLink) (n : ℕ) : Option ByteLink :=
  match l.worker, l.proxy.whole with
  | .awaiting _, none => (l.proxy.refill n).map fun proxy => { l with proxy := proxy }
  | _, _ => none

/-- `recv_message_buffered` returns a message, and the worker counts its item. -/
def count (l : ByteLink) : Option (ByteItem × ByteLink) :=
  match l.worker, recvMessageBuffered ⟨l.proxy.pending, []⟩ l.proxy.rb with
  | .awaiting item, .ok (some _, sock, rb) =>
    some (item, { l with worker := .idle, proxy := ⟨sock.pending, rb⟩ })
  | _, _ => none

/-- One call of `recv` of the handler. -/
def handlerRecv (l : ByteLink) (n : ℕ) : Option ByteLink :=
  match l.handler, l.server.whole with
  | .reading, none => (l.server.refill n).map fun server => { l with server := server }
  | _, _ => none

/-- A call of `recv` fails, and the handler closes the connection. -/
def close (l : ByteLink) : Option ByteLink :=
  match l.handler with
  | .reading => some { l with handler := .closed }
  | _ => none

/-- The handler has a frame and replies. Frames other than those of a proxy are not sent here. -/
def ack (shardId serverId : UInt32) (l : ByteLink) : Option ByteLink :=
  match l.handler, l.server.whole with
  | .reading, some msgLen =>
    match MessageHeader.peek l.server.message msgLen with
    | .ok (some header) =>
      if header.type = MessageTypes.append.value ∨ header.type = MessageTypes.skip.value then
        some { l with
          handler := .acked msgLen header
          proxy := l.proxy.arrive
            (buildWireBytes MessageTypes.ack.value shardId serverId header.seqOrCount []) }
      else none
    | _ => none
  | _, _ => none

def check (l : ByteLink) (isBlocked : ℕ → Bool) : Option ByteLink :=
  match l.handler with
  | .acked msgLen header =>
    some (if isBlocked header.senderId.toNat then
      { l with handler := .reading, server := l.server.consume (2 + msgLen) }
    else { l with handler := .checked msgLen header })
  | _ => none

/-- What `store_.store` and `liveness_.remove_timeout` are called with: the sender, the number and
the bytes of the frame. -/
def store (l : ByteLink) : Option (ℕ × ℕ × List UInt8 × ByteLink) :=
  match l.handler with
  | .checked msgLen header =>
    some (header.senderId.toNat, header.seqOrCount.toNat,
      slice l.server.rb.buf l.server.rb.head (msgLen + 2),
      { l with handler := .stored msgLen header })
  | _ => none

/-- What `broadcast` is called with, while the id of the server stands in the frame. -/
def broadcast (serverId : UInt32) (l : ByteLink) : Option (List UInt8 × ByteLink) :=
  match l.handler with
  | .stored msgLen header =>
    let patched := l.server.rb.putSender serverId
    some (slice patched.buf patched.head (msgLen + 2),
      { l with
        handler := .reading
        server := { l.server with rb := patched.putSender header.senderId }.consume (2 + msgLen) })
  | _ => none

end ByteLink

/-! ## The frames that the bytes stand for -/

def WorkItem.bytes (shardId : UInt32) (item : WorkItem) : ByteItem :=
  ⟨withPrefix (item.frame.body shardId), item.state⟩

def WorkerPhase.bytes (shardId : UInt32) : WorkerPhase → ByteWorkerPhase
  | .connecting => .connecting
  | .idle => .idle
  | .awaiting item => .awaiting (item.bytes shardId)
  | .terminated => .terminated

def HandlerPhase.bytes (shardId : UInt32) : HandlerPhase → ByteHandlerPhase
  | .ready => .reading
  | .acked frame => .acked (frame.body shardId).length (frame.header shardId)
  | .checked frame => .checked (frame.body shardId).length (frame.header shardId)
  | .stored frame => .stored (frame.body shardId).length (frame.header shardId)

/-- The frame that the handler works on. -/
def HandlerPhase.inHand : HandlerPhase → List Frame
  | .ready => []
  | .acked frame | .checked frame | .stored frame => [frame]

/-- The body of the reply to a frame. -/
def ackBody (shardId serverId : UInt32) (seq : ℕ) : List UInt8 :=
  wireBody MessageTypes.ack.value shardId serverId (UInt64.ofNat seq) []

namespace ByteLink

/-- The bytes of a connection are those of `l`. A handler that has closed the connection leaves the
frames on it. -/
structure Represents (shardId serverId : UInt32) (b : ByteLink) (l : Link) : Prop where
  queue : b.queue = l.queue.map (WorkItem.bytes shardId)
  queueFits : ∀ item ∈ l.queue, item.frame.Fits
  worker : b.worker = l.worker.bytes shardId
  handler : b.handler = l.handler.bytes shardId ∨ b.handler = .closed ∧ l.handler = .ready
  server : b.server.Carries ((l.handler.inHand ++ l.wire).map (Frame.body shardId))
    (l.worker = .terminated)
  wireFits : ∀ frame ∈ l.handler.inHand ++ l.wire, frame.Fits
  held : ∀ frame ∈ l.handler.inHand, 2 + (frame.body shardId).length ≤ b.server.rb.available
  proxy : b.proxy.Carries (l.acks.map (ackBody shardId serverId)) False

variable {shardId serverId : UInt32} {b b' : ByteLink} {l : Link}

theorem represents_init {rb : ReadBuffer} (h : rb.Fresh) :
    (init rb).Represents shardId serverId .init where
  queue := rfl
  queueFits := fun _ hitem => nomatch hitem
  worker := rfl
  handler := Or.inl rfl
  server := Inbox.carries_fresh h
  wireFits := fun _ hframe => nomatch hframe
  held := fun _ hframe => nomatch hframe
  proxy := Inbox.carries_fresh h

theorem Represents.push (h : b.Represents shardId serverId l) {item : WorkItem}
    (hfits : item.frame.Fits) :
    (b.push (item.bytes shardId)).Represents shardId serverId (l.push item) := by
  refine { h with queue := ?_, queueFits := ?_ }
  · show b.queue ++ _ = (l.queue ++ [item]).map _
    rw [h.queue, List.map_append]
    rfl
  · intro x hx
    rcases List.mem_append.mp hx with hold | hnew
    · exact h.queueFits x hold
    · rw [List.mem_singleton.mp hnew]
      exact hfits

theorem Represents.connect (h : b.Represents shardId serverId l) (hs : b.connect = some b') :
    ∃ l', l.connect = some l' ∧ b'.Represents shardId serverId l' := by
  have hworker := h.worker
  have hserver := h.server
  unfold ByteLink.connect at hs
  rcases hl : l.worker with _ | _ | item | _ <;> rw [hl] at hworker hserver <;>
    simp only [hworker, WorkerPhase.bytes] at hs <;> cases hs
  refine ⟨{ l with worker := .idle }, by rw [Link.connect, hl], ?_⟩
  exact { h with worker := rfl, server := hserver.mono fun hbad => nomatch hbad }

/-- A worker is in the phase of the link's. -/
theorem Represents.worker_idle (h : b.Represents shardId serverId l) (hidle : b.worker = .idle) :
    l.worker = .idle := by
  have hworker := h.worker
  rw [hidle] at hworker
  cases hl : l.worker <;> rw [hl] at hworker <;> cases hworker

theorem Represents.worker_awaiting (h : b.Represents shardId serverId l) {item : ByteItem}
    (hawaiting : b.worker = .awaiting item) :
    ∃ item', l.worker = .awaiting item' ∧ item = item'.bytes shardId := by
  have hworker := h.worker
  rw [hawaiting] at hworker
  cases hl : l.worker <;> rw [hl] at hworker <;> cases hworker
  exact ⟨_, rfl, rfl⟩

theorem Represents.queue_cons (h : b.Represents shardId serverId l) {item : ByteItem}
    {queue : List ByteItem} (hqueue : b.queue = item :: queue) :
    ∃ item' queue', l.queue = item' :: queue' ∧ item = item'.bytes shardId ∧
      queue = queue'.map (WorkItem.bytes shardId) ∧ item'.frame.Fits := by
  have heq := h.queue
  rw [hqueue] at heq
  obtain ⟨item', queue', hl, hitem, hrest⟩ := List.map_eq_cons_iff.mp heq.symm
  refine ⟨item', queue', hl, hitem.symm, hrest.symm, h.queueFits item' ?_⟩
  rw [hl]
  exact List.mem_cons_self

/-- The worker sends: the frame stands behind the others. -/
theorem Represents.send (h : b.Represents shardId serverId l) (hs : b.send = some b') :
    ∃ l', l.send = some l' ∧ b'.Represents shardId serverId l' := by
  unfold ByteLink.send at hs
  split at hs
  · rename_i item queue hidle hqueue
    cases hs
    have hl := h.worker_idle hidle
    obtain ⟨item', queue', hq, rfl, rfl, hfits⟩ := h.queue_cons hqueue
    have hserver := h.server
    rw [hl] at hserver
    refine ⟨_, by rw [Link.send, hl, hq], ?_⟩
    refine { h with queue := rfl, queueFits := ?_, worker := rfl, server := ?_, wireFits := ?_ }
    · intro x hx
      refine h.queueFits x ?_
      rw [hq]
      exact List.mem_cons_of_mem _ hx
    · rw [← List.append_assoc, List.map_append]
      exact (hserver.arrive (fun hbad => nomatch hbad) hfits.le_maxMessageSize).mono fun hbad =>
        nomatch hbad
    · intro frame hframe
      rw [← List.append_assoc] at hframe
      rcases List.mem_append.mp hframe with hold | hnew
      · exact h.wireFits frame hold
      · rw [List.mem_singleton.mp hnew]
        exact hfits
  · cases hs

/-- A worker that fails has sent a part of its frame at most. -/
theorem Represents.fail (h : b.Represents shardId serverId l) {accepted : ℕ}
    (hs : b.fail accepted = some b') :
    ∃ l', l.fail = some l' ∧ b'.Represents shardId serverId l' := by
  unfold ByteLink.fail at hs
  split at hs
  · rename_i item queue hidle hqueue
    split_ifs at hs with hshort
    cases hs
    have hl := h.worker_idle hidle
    obtain ⟨item', queue', hq, rfl, rfl, hfits⟩ := h.queue_cons hqueue
    have hserver := h.server
    rw [hl] at hserver
    refine ⟨_, by rw [Link.fail, hl, hq], ?_⟩
    refine { h with queue := rfl, queueFits := ?_, worker := rfl, server := ?_ }
    · intro x hx
      refine h.queueFits x ?_
      rw [hq]
      exact List.mem_cons_of_mem _ hx
    · exact (hserver.arrive_cut (fun hbad => nomatch hbad) hfits.le_maxMessageSize hshort).mono
        fun _ => rfl
  · rename_i item hawaiting
    cases hs
    obtain ⟨item', hl, rfl⟩ := h.worker_awaiting hawaiting
    have hserver := h.server
    rw [hl] at hserver
    refine ⟨_, by rw [Link.fail, hl], ?_⟩
    exact { h with worker := rfl, server := hserver.mono fun hbad => nomatch hbad }
  · cases hs

theorem Represents.workerRecv (h : b.Represents shardId serverId l) {n : ℕ}
    (hs : b.workerRecv n = some b') : b'.Represents shardId serverId l := by
  unfold ByteLink.workerRecv at hs
  split at hs
  · obtain ⟨proxy, hproxy, rfl⟩ := Option.map_eq_some_iff.mp hs
    exact { h with proxy := h.proxy.refill hproxy }
  · cases hs

/-- A message that the worker receives is the first reply. -/
theorem Represents.count (h : b.Represents shardId serverId l) {item : ByteItem}
    (hs : b.count = some (item, b')) : ∃ item' l', l.count = some (item', l') ∧
      item = item'.bytes shardId ∧ b'.Represents shardId serverId l' := by
  unfold ByteLink.count at hs
  split at hs
  · rename_i item₀ msg sock rb hawaiting hrecv
    cases hs
    obtain ⟨item', hl, rfl⟩ := h.worker_awaiting hawaiting
    obtain ⟨msgLen, hwhole, hconsume⟩ := Inbox.consume_of_recvMessageBuffered hrecv
    obtain ⟨body, later, hbodies, rfl, hav, -⟩ := h.proxy.whole hwhole
    obtain ⟨reply, acks, hacks, rfl, rfl⟩ := List.map_eq_cons_iff.mp hbodies
    have hproxy := h.proxy
    have hserver := h.server
    rw [hacks, List.map_cons] at hproxy
    rw [hl] at hserver
    refine ⟨item', _, by rw [Link.count, hl, hacks], rfl, ?_⟩
    refine { h with worker := rfl, server := hserver.mono (fun hbad => nomatch hbad), proxy := ?_ }
    rw [hconsume]
    exact hproxy.consume hav
  · cases hs

theorem Represents.handler_reading (h : b.Represents shardId serverId l)
    (hreading : b.handler = .reading) : l.handler = .ready := by
  rcases h.handler with hhandler | ⟨-, hready⟩
  · rw [hreading] at hhandler
    cases hl : l.handler <;> rw [hl] at hhandler <;> cases hhandler
  · exact hready

theorem Represents.handlerRecv (h : b.Represents shardId serverId l) {n : ℕ}
    (hs : b.handlerRecv n = some b') : b'.Represents shardId serverId l := by
  unfold ByteLink.handlerRecv at hs
  split at hs
  · rename_i hreading _
    obtain ⟨server, hserver, rfl⟩ := Option.map_eq_some_iff.mp hs
    refine { h with server := h.server.refill hserver, held := ?_ }
    rw [h.handler_reading hreading]
    exact fun _ hframe => nomatch hframe
  · cases hs

theorem Represents.close (h : b.Represents shardId serverId l) (hs : b.close = some b') :
    b'.Represents shardId serverId l := by
  unfold ByteLink.close at hs
  split at hs <;> cases hs
  rename_i hreading
  exact { h with handler := Or.inr ⟨rfl, h.handler_reading hreading⟩ }

/-- **The handler replies** to the frame at the head of its buffer. -/
theorem Represents.ack (h : b.Represents shardId serverId l)
    (hs : b.ack shardId serverId = some b') :
    ∃ l', l.ack = some l' ∧ b'.Represents shardId serverId l' := by
  unfold ByteLink.ack at hs
  split at hs
  · rename_i msgLen hreading hwhole
    have hl := h.handler_reading hreading
    have hserver := h.server
    have hfits := h.wireFits
    simp only [hl, HandlerPhase.inHand, List.nil_append] at hserver hfits
    obtain ⟨body, later, hbodies, rfl, hav, after, hmessage⟩ := hserver.whole hwhole
    obtain ⟨frame, wire, hwire, rfl, rfl⟩ := List.map_eq_cons_iff.mp hbodies
    rw [hmessage, Frame.peek_body] at hs
    simp only [if_pos Frame.type_header] at hs
    cases hs
    have hframe := hfits frame (by rw [hwire]; exact List.mem_cons_self)
    rw [hwire] at hserver hfits
    refine ⟨_, by rw [Link.ack, hl, hwire], ?_⟩
    refine { h with
      handler := Or.inl rfl, server := hserver, wireFits := hfits, held := ?_, proxy := ?_ }
    · intro f hf
      rw [List.mem_singleton.mp hf]
      exact hav
    · show Inbox.Carries _ ((l.acks ++ [frame.seq]).map _) False
      rw [List.map_append]
      have hack := @Inbox.Carries.arrive _ _ (ackBody shardId serverId frame.seq) _ h.proxy id (by
        rw [ackBody, length_wireBody]
        decide)
      rwa [ackBody, withPrefix, ← buildWireBytes_eq] at hack
  · cases hs

/-- What stands in the buffer while the handler works on `frame`. -/
theorem Represents.inHand (h : b.Represents shardId serverId l) {frame : Frame}
    (hframe : l.handler.inHand = [frame]) : frame.Fits ∧
      b.server.Carries (frame.body shardId :: l.wire.map (Frame.body shardId))
        (l.worker = .terminated) ∧ 2 + (frame.body shardId).length ≤ b.server.rb.available := by
  have hserver := h.server
  have hfits := h.wireFits
  have hheld := h.held
  rw [hframe] at hserver hfits hheld
  exact ⟨hfits frame List.mem_cons_self, hserver, hheld frame List.mem_cons_self⟩

/-- The handler is done with its frame. -/
theorem Represents.done (h : b.Represents shardId serverId l) {frame : Frame}
    (hframe : l.handler.inHand = [frame]) :
    Represents shardId serverId
      { b with
        handler := .reading
        server := b.server.consume (2 + (frame.body shardId).length) }
      { l with handler := .ready } := by
  obtain ⟨-, hserver, hav⟩ := h.inHand hframe
  refine { h with
    handler := Or.inl rfl, server := hserver.consume hav, wireFits := ?_
    held := fun _ hf => nomatch hf }
  intro f hf
  exact h.wireFits f (List.mem_append_right _ hf)

/-- The handler goes on with the same frame. -/
theorem Represents.advance (h : b.Represents shardId serverId l) {frame : Frame}
    (phase : HandlerPhase) (hframe : l.handler.inHand = [frame]) (hphase : phase.inHand = [frame]) :
    Represents shardId serverId { b with handler := phase.bytes shardId }
      { l with handler := phase } := by
  have hsame : phase.inHand = l.handler.inHand := hphase.trans hframe.symm
  refine { h with handler := Or.inl rfl, server := ?_, wireFits := ?_, held := ?_ }
  · rw [hsame]
    exact h.server
  · rw [hsame]
    exact h.wireFits
  · rw [hsame]
    exact h.held

/-- A handler that has not closed the connection is in the phase of the link's. -/
theorem Represents.handler_eq (h : b.Represents shardId serverId l) {phase : ByteHandlerPhase}
    (hphase : b.handler = phase) (hopen : phase ≠ .closed) : l.handler.bytes shardId = phase := by
  rcases h.handler with hhandler | ⟨hclosed, -⟩
  · rw [← hphase, hhandler]
  · exact absurd (hphase.symm.trans hclosed) hopen

theorem Represents.check (h : b.Represents shardId serverId l) {isBlocked : ℕ → Bool}
    (hs : b.check isBlocked = some b') :
    ∃ l', l.check isBlocked = some l' ∧ b'.Represents shardId serverId l' := by
  unfold ByteLink.check at hs
  split at hs
  · rename_i msgLen header hacked
    have hphase := h.handler_eq hacked (fun hbad => nomatch hbad)
    rcases hl : l.handler with _ | frame | _ | _ <;> rw [hl] at hphase <;> cases hphase
    have hframe : l.handler.inHand = [frame] := by rw [hl]; rfl
    obtain ⟨hfits, -, -⟩ := h.inHand hframe
    refine ⟨_, by rw [Link.check, hl], ?_⟩
    rw [hfits.toNat_senderId] at hs
    split_ifs at hs ⊢ with hblocked <;> cases hs
    · exact h.done hframe
    · exact h.advance (.checked frame) hframe rfl
  · cases hs

/-- **What is stored** are the bytes of the frame, under the number and the sender in them. -/
theorem Represents.store (h : b.Represents shardId serverId l) {senderId seq : ℕ}
    {wire : List UInt8} (hs : b.store = some (senderId, seq, wire, b')) :
    ∃ frame l', l.store = some (frame, l') ∧ frame.Fits ∧ senderId = frame.senderId ∧
      seq = frame.seq ∧ wire = withPrefix (frame.body shardId) ∧
      b'.Represents shardId serverId l' := by
  unfold ByteLink.store at hs
  split at hs
  · rename_i msgLen header hchecked
    have hphase := h.handler_eq hchecked (fun hbad => nomatch hbad)
    rcases hl : l.handler with _ | _ | frame | _ <;> rw [hl] at hphase <;> cases hphase
    have hframe : l.handler.inHand = [frame] := by rw [hl]; rfl
    obtain ⟨hfits, hserver, hav⟩ := h.inHand hframe
    cases hs
    refine ⟨frame, _, by rw [Link.store, hl], hfits, hfits.toNat_senderId, hfits.toNat_seq,
      hserver.slice_front hav, ?_⟩
    exact h.advance (.stored frame) hframe rfl
  · cases hs

/-- **What is broadcast** is the frame with the id of the server as its sender. The buffer is as it
was when the handler goes on. -/
theorem Represents.broadcast (h : b.Represents shardId serverId l) {wire : List UInt8}
    (hs : b.broadcast serverId = some (wire, b')) :
    ∃ frame l', l.broadcast = some (frame, l') ∧ frame.Fits ∧
      wire = withPrefix (({ frame with senderId := serverId.toNat } : Frame).body shardId) ∧
      b'.Represents shardId serverId l' := by
  unfold ByteLink.broadcast at hs
  split at hs
  · rename_i msgLen header hstored
    have hphase := h.handler_eq hstored (fun hbad => nomatch hbad)
    rcases hl : l.handler with _ | _ | _ | frame <;> rw [hl] at hphase <;> cases hphase
    have hframe : l.handler.inHand = [frame] := by rw [hl]; rfl
    obtain ⟨hfits, hserver, hav⟩ := h.inHand hframe
    obtain ⟨hpatched, hrestored⟩ := hserver.ok.putSender rfl (by omega)
      (hserver.slice_front hav) serverId
    simp only [hrestored] at hs
    cases hs
    exact ⟨frame, _, by rw [Link.broadcast, hl], hfits, hpatched, h.done hframe⟩
  · cases hs

end ByteLink

end Ziplog
