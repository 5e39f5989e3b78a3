import Mathlib.Data.Finset.Card
import Mathlib.Data.Fintype.Basic
import Ziplog.Api.NetworkUtils
import Ziplog.Library.Exchange
import Ziplog.Library.Lts
import Ziplog.Zipper.Delivery
import Ziplog.Zipper.Dispatch

/-!
# The replies of the servers

The zipper keeps one connection to each server, and all its functions send there: slot allocations,
for which nobody reads the reply; FREEZE and FREEZE_COMPLETE, which have none; and the calls that
send a message to every server on threads that then read one reply each. The server replies to SKIP
and ZIP_RESPONSE, but no longer to INCLUDE_PROXY and INCLUDE_SUBSCRIBER. A thread thus gets the
reply to its own request exactly when that is a SKIP in front of which there was no slot allocation
and no SKIP whose reply is still to be read (`pairsReplies_of_skips`).

What `send_message` refuses does not go out; where it takes a slot allocation only because the size
wraps around, the frame is cut, and `SkipsOnly` leaves these out. Other messages and replies arrive
whole and in order. Which of its connections to a server the pool has is left open.
-/

namespace Ziplog

/-! ## Messages -/

/-- What `handle_connection` of a server sends back. -/
def Server.reply (shard serverId : UInt32) (m : Message) : Option Message :=
  if m.hasType [.append, .skip] then
    some ⟨MessageTypes.ack.value, shard, serverId, m.seqOrCount, [], []⟩
  else if m.hasType [.zipResponse] then some ⟨MessageTypes.ack.value, shard, serverId, 0, [], []⟩
  else none

/-! Fields that the source leaves unset are zero. -/

def includeProxyMessage (shard : UInt32) (msg : Message) : Message :=
  ⟨MessageTypes.includeProxy.value, shard, msg.senderId, 0, msg.data, []⟩

def includeSubscriberMessage (shard : UInt32) (msg : Message) : Message :=
  ⟨MessageTypes.includeSubscriber.value, shard, msg.senderId, 0, msg.data, []⟩

def skipMessage (shard : UInt32) (failedProxy seq : ℕ) : Message :=
  ⟨MessageTypes.skip.value, shard, UInt32.ofNat failedProxy, UInt64.ofNat seq, [], []⟩

def freezeMessage (shard : UInt32) (failedProxy round : ℕ) : Message :=
  ⟨MessageTypes.freeze.value, shard, 0, UInt64.ofNat round, [], [UInt64.ofNat failedProxy]⟩

def freezeCompleteMessage (shard : UInt32) (failedProxy lastSeq : ℕ) : Message :=
  ⟨MessageTypes.freezeComplete.value, shard, 0, UInt64.ofNat lastSeq, [],
    [UInt64.ofNat failedProxy]⟩

/-! ## The connections -/

/-- A function that sends one message to every server and waits for the replies. -/
inductive ServerCaller
  | addProxy (address : List UInt8 × ℤ)
  | introduceSubscriber
  | sendFreezeComplete
  deriving DecidableEq

structure ServerCall where
  caller : ServerCaller
  message : Message
  finished : Bool

/-- The thread of a call for one server. -/
inductive ServerThread
  | unsent
  | waiting (connection place : ℕ)
  | done (ok : Bool)
  deriving DecidableEq

/-- A message to a server, with the call that sent it when a thread of the call waits. -/
structure ServerRequest where
  message : Message
  call : Option ℕ

/-- The connections to `n` servers, numbered for each server, and the calls. In `joiningProxies`
each address stands behind the call that put it there. -/
structure ServerTraffic (n : ℕ) where
  exchange : Fin n × ℕ → Exchange ServerRequest Message
  calls : List ServerCall
  thread : ℕ × Fin n → ServerThread
  joiningProxies : List (ℕ × List UInt8 × ℤ)

inductive ServerTrafficEvent (n : ℕ)
  | deliverSlotAllocation (k : Fin n × ℕ) (proxyId : ℕ) (values : List ℕ)
  | broadcastFreeze (k : Fin n × ℕ) (failedProxy round : ℕ)
  | broadcastFreezeComplete (k : Fin n × ℕ) (failedProxy lastSeq : ℕ)
  | addProxy (msg : Message)
  | introduceSubscriber (msg : Message)
  | sendSkip (failedProxy seq : ℕ)
  | send (call : ℕ) (k : Fin n × ℕ)
  | fail (call : ℕ) (server : Fin n)
  | handle (k : Fin n × ℕ)
  | read (call : ℕ) (server : Fin n)
  | finish (call : ℕ)

namespace ServerTraffic

variable {n : ℕ}

def init : ServerTraffic n := ⟨fun _ => .empty, [], fun _ => .unsent, []⟩

def setExchange (s : ServerTraffic n) (k : Fin n × ℕ) (x : Exchange ServerRequest Message) :
    ServerTraffic n :=
  { s with exchange := Function.update s.exchange k x }

def setThread (s : ServerTraffic n) (k : ℕ × Fin n) (th : ServerThread) : ServerTraffic n :=
  { s with thread := Function.update s.thread k th }

def send (s : ServerTraffic n) (k : Fin n × ℕ) (r : ServerRequest) : ServerTraffic n :=
  s.setExchange k ((s.exchange k).send r)

/-- `send_message` where nobody waits for a reply. A message that it refuses does not go out. -/
def post (s : ServerTraffic n) (k : Fin n × ℕ) (m : Message) : ServerTraffic n :=
  match sendMessage m with
  | none => s
  | some _ => s.send k ⟨m, none⟩

def start (s : ServerTraffic n) (caller : ServerCaller) (message : Message) : ServerTraffic n :=
  { s with calls := s.calls ++ [⟨caller, message, false⟩] }

def setFinished (s : ServerTraffic n) (call : ℕ) : ServerTraffic n :=
  { s with calls := s.calls.modify call fun c => { c with finished := true } }

/-- `ok`, once all threads are done. -/
def numAcks (s : ServerTraffic n) (call : ℕ) : ℕ :=
  (Finset.univ.filter fun i => s.thread (call, i) = .done true).card

/-- What the call does with its replies. Only that of `add_proxy` is about joining proxies. -/
def conclude (quorum : ℕ) (s : ServerTraffic n) (call : ℕ) : ServerCaller → ServerTraffic n
  | .addProxy address =>
    if quorum ≤ s.numAcks call then
      { s with joiningProxies := s.joiningProxies ++ [(call, address)] }
    else s
  | .introduceSubscriber | .sendFreezeComplete => s

/-- What `add_proxy` and `introduce_subscriber` are given came in a frame. -/
def step (quorum : ℕ) (shard : UInt32) (s : ServerTraffic n) :
    ServerTrafficEvent n → Option (ServerTraffic n)
  | .deliverSlotAllocation k proxyId values => some (s.post k (zipResponse shard proxyId values))
  | .broadcastFreeze k failedProxy round => some (s.post k (freezeMessage shard failedProxy round))
  | .broadcastFreezeComplete k failedProxy lastSeq =>
    some (s.post k (freezeCompleteMessage shard failedProxy lastSeq))
  | .addProxy msg =>
    if msg.encodedSize ≤ maxMessageSize then
      (stoi (portText msg.data)).map fun port =>
        s.start (.addProxy (ipText msg.data, port)) (includeProxyMessage shard msg)
    else none
  | .introduceSubscriber msg =>
    if msg.encodedSize ≤ maxMessageSize then
      (stoi (portText msg.data)).map fun _ =>
        s.start .introduceSubscriber (includeSubscriberMessage shard msg)
    else none
  | .sendSkip failedProxy seq =>
    some (s.start .sendFreezeComplete (skipMessage shard failedProxy seq))
  | .send call k =>
    if s.thread (call, k.1) = .unsent then
      s.calls[call]?.map fun c =>
        match sendMessage c.message with
        | none => s.setThread (call, k.1) (.done false)
        | some _ => (s.send k ⟨c.message, some call⟩).setThread (call, k.1)
            (.waiting k.2 (s.exchange k).sent.length)
    else none
  | .fail call server =>
    match s.thread (call, server) with
    | .done _ => none
    | .unsent | .waiting _ _ => some (s.setThread (call, server) (.done false))
  | .handle k =>
    ((s.exchange k).handle fun r => Server.reply shard (UInt32.ofNat k.1) r.message).map
      (s.setExchange k)
  | .read call server =>
    match s.thread (call, server) with
    | .waiting connection place =>
      ((s.exchange (server, connection)).read place).map fun x =>
        (s.setExchange (server, connection) x).setThread (call, server) (.done true)
    | .unsent | .done _ => none
  | .finish call =>
    s.calls[call]?.bind fun c =>
      if c.finished = false ∧
          ∀ i, s.thread (call, i) = .done true ∨ s.thread (call, i) = .done false then
        some ((s.setFinished call).conclude quorum call c.caller)
      else none

end ServerTraffic

def serverTraffic (n quorum : ℕ) (shard : UInt32) :
    Lts (ServerTraffic n) (ServerTrafficEvent n) :=
  ⟨.init, ServerTraffic.step quorum shard⟩

/-! ## Where the replies go -/

namespace ServerTraffic

variable {n quorum : ℕ} {shard : UInt32} {s t : ServerTraffic n}

/-- The reply of one server. -/
abbrev replyTo (shard : UInt32) (server : Fin n) (r : ServerRequest) : Option Message :=
  Server.reply shard (UInt32.ofNat server) r.message

/-- The types of the messages that a call waits for. -/
def Awaited (m : Message) : Prop :=
  m.type = MessageTypes.includeProxy.value ∨ m.type = MessageTypes.includeSubscriber.value ∨
    m.type = MessageTypes.skip.value

/-- The request at this place was sent by a thread of this call. -/
def SentBy (s : ServerTraffic n) (k : Fin n × ℕ) (place call : ℕ) : Prop :=
  ∃ c, s.calls[call]? = some c ∧ (s.exchange k).sent[place]? = some ⟨c.message, some call⟩

/-- Which thread has read what. -/
structure Sound (quorum : ℕ) (shard : UInt32) (s : ServerTraffic n) : Prop where
  fifo : ∀ k, (s.exchange k).Fifo (replyTo shard k.1)
  types : ∀ k, ∀ r ∈ (s.exchange k).sent, r.message.type ≠ MessageTypes.append.value
  awaited : ∀ c ∈ s.calls, Awaited c.message
  waiting : ∀ call i j place, s.thread (call, i) = .waiting j place → s.SentBy (i, j) place call
  read : ∀ i j, ∀ e ∈ (s.exchange (i, j)).reads, ∃ call,
    s.SentBy (i, j) e.1 call ∧ s.thread (call, i) = .done true
  acked : ∀ call i, s.thread (call, i) = .done true →
    ∃ j, ∃ e ∈ (s.exchange (i, j)).reads, s.SentBy (i, j) e.1 call
  queued : ∀ e ∈ s.joiningProxies, ∃ servers : Finset (Fin n), quorum ≤ servers.card ∧
    ∀ i ∈ servers, s.thread (e.1, i) = .done true

theorem sound_init : Sound quorum shard (init : ServerTraffic n) where
  fifo := fun _ => Exchange.fifo_empty
  types := fun _ _ h => nomatch h
  awaited := fun _ h => nomatch h
  waiting := fun _ _ _ _ h => nomatch h
  read := fun _ _ _ h => nomatch h
  acked := fun _ _ h => nomatch h
  queued := fun _ h => nomatch h

theorem exchange_setExchange (s : ServerTraffic n) (k : Fin n × ℕ)
    (x : Exchange ServerRequest Message) (k' : Fin n × ℕ) :
    (s.setExchange k x).exchange k' = if k' = k then x else s.exchange k' :=
  Function.update_apply _ _ _ _

theorem thread_setThread (s : ServerTraffic n) (k : ℕ × Fin n) (th : ServerThread)
    (k' : ℕ × Fin n) : (s.setThread k th).thread k' = if k' = k then th else s.thread k' :=
  Function.update_apply _ _ _ _

/-- What was sent stays sent. -/
theorem SentBy.setExchange {k k' : Fin n × ℕ} {place call : ℕ} (h : s.SentBy k' place call)
    {x : Exchange ServerRequest Message}
    (hsent : ∀ (q : ℕ) r, (s.exchange k).sent[q]? = some r → x.sent[q]? = some r) :
    (s.setExchange k x).SentBy k' place call := by
  obtain ⟨c, hc, hplace⟩ := h
  refine ⟨c, hc, ?_⟩
  rw [exchange_setExchange]
  split_ifs with heq
  · subst heq
    exact hsent place _ hplace
  · exact hplace

theorem SentBy.unique {k : Fin n × ℕ} {place call call' : ℕ} (h : s.SentBy k place call)
    (h' : s.SentBy k place call') : call = call' := by
  obtain ⟨c, -, hsent⟩ := h
  obtain ⟨c', -, hsent'⟩ := h'
  have heq := congrArg ServerRequest.call (Option.some.inj (hsent.symm.trans hsent'))
  exact Option.some.inj heq

/-- A connection on which something was sent or handled. -/
theorem Sound.setExchange (h : s.Sound quorum shard) {k : Fin n × ℕ}
    {x : Exchange ServerRequest Message} (hfifo : x.Fifo (replyTo shard k.1))
    (hsent : ∀ (q : ℕ) r, (s.exchange k).sent[q]? = some r → x.sent[q]? = some r)
    (htypes : ∀ r ∈ x.sent, r.message.type ≠ MessageTypes.append.value)
    (hreads : x.reads = (s.exchange k).reads) : (s.setExchange k x).Sound quorum shard := by
  have hget : ∀ k', ((s.setExchange k x).exchange k').reads = (s.exchange k').reads := by
    intro k'
    rw [exchange_setExchange]
    split_ifs with heq
    · rw [heq, hreads]
    · rfl
  refine ⟨fun k' => ?_, fun k' => ?_, h.awaited, ?_, ?_, ?_, h.queued⟩
  · rw [exchange_setExchange]
    split_ifs with heq
    · rw [heq]
      exact hfifo
    · exact h.fifo k'
  · rw [exchange_setExchange]
    split_ifs
    · exact htypes
    · exact h.types k'
  · intro call i j place hth
    exact (h.waiting call i j place hth).setExchange hsent
  · intro i j e he
    rw [hget] at he
    obtain ⟨call, hby, hth⟩ := h.read i j e he
    exact ⟨call, hby.setExchange hsent, hth⟩
  · intro call i hth
    obtain ⟨j, e, he, hby⟩ := h.acked call i hth
    refine ⟨j, e, ?_, hby.setExchange hsent⟩
    rw [hget]
    exact he

/-- A message is sent. -/
theorem Sound.send (h : s.Sound quorum shard) (k : Fin n × ℕ) {r : ServerRequest}
    (htype : r.message.type ≠ MessageTypes.append.value) : (s.send k r).Sound quorum shard := by
  refine h.setExchange ((h.fifo k).send r) (fun q r' hr' => Exchange.getElem?_send hr') ?_ rfl
  intro r' hr'
  rcases List.mem_append.mp hr' with hold | hlast
  · exact h.types k r' hold
  · rw [List.mem_singleton.mp hlast]
    exact htype

theorem Sound.post (h : s.Sound quorum shard) (k : Fin n × ℕ) {m : Message}
    (htype : m.type ≠ MessageTypes.append.value) : (s.post k m).Sound quorum shard := by
  unfold ServerTraffic.post
  split
  · exact h
  · exact h.send k htype

/-- A thread that has read nothing goes on. -/
theorem Sound.setThread (h : s.Sound quorum shard) {call : ℕ} {i : Fin n} {th : ServerThread}
    (hbefore : s.thread (call, i) ≠ .done true) (hth : th ≠ .done true)
    (hwaiting : ∀ j place, th = .waiting j place → s.SentBy (i, j) place call) :
    (s.setThread (call, i) th).Sound quorum shard := by
  have hdone : ∀ k, s.thread k = .done true → (s.setThread (call, i) th).thread k = .done true := by
    intro k hk
    rw [thread_setThread, if_neg]
    · exact hk
    · rintro rfl
      exact hbefore hk
  refine ⟨h.fifo, h.types, h.awaited, ?_, ?_, ?_, ?_⟩
  · intro call' i' j place hth'
    rw [thread_setThread] at hth'
    split_ifs at hth' with heq
    · cases heq
      exact hwaiting j place hth'
    · exact h.waiting call' i' j place hth'
  · intro i' j e he
    obtain ⟨call', hby, hth'⟩ := h.read i' j e he
    exact ⟨call', hby, hdone _ hth'⟩
  · intro call' i' hth'
    rw [thread_setThread] at hth'
    split_ifs at hth'
    · exact absurd hth' hth
    · exact h.acked call' i' hth'
  · intro e he
    obtain ⟨servers, hcard, hall⟩ := h.queued e he
    exact ⟨servers, hcard, fun i' hi' => hdone _ (hall i' hi')⟩

/-- What has been read after a read. -/
theorem mem_reads_setExchange {k k' : Fin n × ℕ} {e e' : ℕ × ℕ × Message} :
    e ∈ ((s.setExchange k { s.exchange k with
      reads := (s.exchange k).reads ++ [e'] }).exchange k').reads ↔
      e ∈ (s.exchange k').reads ∨ k' = k ∧ e = e' := by
  rw [exchange_setExchange]
  split_ifs with heq
  · subst heq
    rw [List.mem_append, List.mem_singleton, and_iff_right rfl]
  · exact ⟨Or.inl, fun h => h.resolve_right fun hnew => heq hnew.1⟩

/-- A thread reads a reply. -/
theorem Sound.readReply (h : s.Sound quorum shard) {call j place : ℕ} {i : Fin n}
    (hth : s.thread (call, i) = .waiting j place) {x : Exchange ServerRequest Message}
    (hx : (s.exchange (i, j)).read place = some x) :
    ((s.setExchange (i, j) x).setThread (call, i) (.done true)).Sound quorum shard := by
  have hfifo := (h.fifo (i, j)).read hx
  obtain ⟨reply, -, rfl⟩ := Exchange.eq_of_read hx
  have hby {k : Fin n × ℕ} {q call' : ℕ} (h' : s.SentBy k q call') : (s.setExchange (i, j)
      { s.exchange (i, j) with
        reads := (s.exchange (i, j)).reads ++ [(place, reply)] }).SentBy k q call' :=
    h'.setExchange fun _ _ hr => hr
  have hdone : ∀ k, s.thread k = .done true →
      (s.setThread (call, i) (.done true)).thread k = .done true := by
    intro k hk
    rw [thread_setThread]
    split_ifs
    · rfl
    · exact hk
  have hself : (s.setThread (call, i) (.done true)).thread (call, i) = .done true := by
    rw [thread_setThread, if_pos rfl]
  have hwaiting := h.waiting call i j place hth
  refine ⟨fun k => ?_, fun k => ?_, h.awaited, ?_, ?_, ?_, ?_⟩
  · show ((s.setExchange (i, j) _).exchange k).Fifo _
    rw [exchange_setExchange]
    split_ifs with heq
    · rw [heq]
      exact hfifo
    · exact h.fifo k
  · show ∀ r ∈ ((s.setExchange (i, j) _).exchange k).sent, _
    rw [exchange_setExchange]
    split_ifs with heq
    · exact h.types (i, j)
    · exact h.types k
  · intro call' i' j' place' hth'
    rw [thread_setThread] at hth'
    split_ifs at hth'
    exact hby (h.waiting call' i' j' place' hth')
  · intro i' j' e he
    rcases mem_reads_setExchange.mp he with hold | ⟨heq, rfl⟩
    · obtain ⟨call', hsent, hth'⟩ := h.read i' j' e hold
      exact ⟨call', hby hsent, hdone _ hth'⟩
    · cases heq
      exact ⟨call, hby hwaiting, hself⟩
  · intro call' i' hth'
    rw [thread_setThread] at hth'
    split_ifs at hth' with heq
    · cases heq
      exact ⟨j, _, mem_reads_setExchange.mpr (Or.inr ⟨rfl, rfl⟩), hby hwaiting⟩
    · obtain ⟨j', e, he, hsent⟩ := h.acked call' i' hth'
      exact ⟨j', e, mem_reads_setExchange.mpr (Or.inl he), hby hsent⟩
  · intro e he
    obtain ⟨servers, hcard, hall⟩ := h.queued e he
    exact ⟨servers, hcard, fun i' hi' => hdone _ (hall i' hi')⟩

/-- The list of calls grows, or a call is marked. -/
theorem Sound.setCalls (h : s.Sound quorum shard) {calls : List ServerCall}
    (hkeep : ∀ (call : ℕ) c, s.calls[call]? = some c →
      ∃ c', calls[call]? = some c' ∧ c'.message = c.message)
    (hawaited : ∀ c ∈ calls, Awaited c.message) :
    ({ s with calls := calls } : ServerTraffic n).Sound quorum shard := by
  have hby {k : Fin n × ℕ} {q call : ℕ} (h' : s.SentBy k q call) :
      ({ s with calls := calls } : ServerTraffic n).SentBy k q call := by
    obtain ⟨c, hc, hsent⟩ := h'
    obtain ⟨c', hc', hmessage⟩ := hkeep call c hc
    refine ⟨c', hc', ?_⟩
    rw [hmessage]
    exact hsent
  refine ⟨h.fifo, h.types, hawaited, fun call i j place hth => hby (h.waiting call i j place hth),
    fun i j e he => ?_, fun call i hth => ?_, h.queued⟩
  · obtain ⟨call, hsent, hth⟩ := h.read i j e he
    exact ⟨call, hby hsent, hth⟩
  · obtain ⟨j, e, he, hsent⟩ := h.acked call i hth
    exact ⟨j, e, he, hby hsent⟩

theorem Sound.start (h : s.Sound quorum shard) (caller : ServerCaller) {m : Message}
    (hm : Awaited m) : (s.start caller m).Sound quorum shard := by
  refine h.setCalls (fun call c hc => ⟨c, ?_, rfl⟩) fun c hc => ?_
  · exact (List.getElem?_append_left (List.getElem?_eq_some_iff.mp hc).1).trans hc
  · rcases List.mem_append.mp hc with hold | hlast
    · exact h.awaited c hold
    · rw [List.mem_singleton.mp hlast]
      exact hm

theorem Sound.setFinished (h : s.Sound quorum shard) (call : ℕ) :
    (s.setFinished call).Sound quorum shard := by
  have hkeep : ∀ (call' : ℕ) c, s.calls[call']? = some c →
      ∃ c', (s.setFinished call).calls[call']? = some c' ∧ c'.message = c.message := by
    intro call' c hc
    unfold ServerTraffic.setFinished
    rw [List.getElem?_modify, hc]
    refine ⟨_, rfl, ?_⟩
    split_ifs <;> rfl
  refine h.setCalls hkeep fun c hc => ?_
  obtain ⟨call', hcall'⟩ := List.getElem?_of_mem hc
  rw [List.getElem?_modify] at hcall'
  obtain ⟨c', hc', heq⟩ := Option.map_eq_some_iff.mp hcall'
  have hmessage : c.message = c'.message := by
    rw [← heq]
    split_ifs <;> rfl
  rw [hmessage]
  exact h.awaited c' (List.mem_of_getElem? hc')

theorem Sound.conclude (h : s.Sound quorum shard) (call : ℕ) (caller : ServerCaller) :
    (s.conclude quorum call caller).Sound quorum shard := by
  unfold ServerTraffic.conclude
  cases caller with
  | introduceSubscriber | sendFreezeComplete => exact h
  | addProxy address =>
    simp only
    split_ifs with hquorum
    · refine ⟨h.fifo, h.types, h.awaited, h.waiting, h.read, h.acked, fun e he => ?_⟩
      rcases List.mem_append.mp he with hold | hlast
      · exact h.queued e hold
      · rw [List.mem_singleton.mp hlast]
        exact ⟨_, hquorum, fun i hi => (Finset.mem_filter.mp hi).2⟩
    · exact h

/-- **One step** keeps apart who has read what. -/
theorem sound_step (h : s.Sound quorum shard) {e : ServerTrafficEvent n}
    (hs : s.step quorum shard e = some t) : t.Sound quorum shard := by
  cases e with
  | deliverSlotAllocation k =>
    cases hs
    exact h.post k (show MessageTypes.zipResponse.value ≠ MessageTypes.append.value by decide)
  | broadcastFreeze k =>
    cases hs
    exact h.post k (show MessageTypes.freeze.value ≠ MessageTypes.append.value by decide)
  | broadcastFreezeComplete k =>
    cases hs
    exact h.post k (show MessageTypes.freezeComplete.value ≠ MessageTypes.append.value by decide)
  | addProxy msg =>
    simp only [step] at hs
    split_ifs at hs
    obtain ⟨port, -, rfl⟩ := Option.map_eq_some_iff.mp hs
    exact h.start _ (Or.inl rfl)
  | introduceSubscriber msg =>
    simp only [step] at hs
    split_ifs at hs
    obtain ⟨port, -, rfl⟩ := Option.map_eq_some_iff.mp hs
    exact h.start _ (Or.inr (Or.inl rfl))
  | sendSkip failedProxy seq =>
    cases hs
    exact h.start _ (Or.inr (Or.inr rfl))
  | send call k =>
    simp only [step] at hs
    split_ifs at hs with hunsent
    obtain ⟨c, hc, rfl⟩ := Option.map_eq_some_iff.mp hs
    have htype : c.message.type ≠ MessageTypes.append.value := by
      rcases h.awaited c (List.mem_of_getElem? hc) with heq | heq | heq <;> rw [heq] <;> decide
    have hbefore : s.thread (call, k.1) ≠ .done true := by
      rw [hunsent]
      exact ServerThread.noConfusion
    split
    · exact h.setThread hbefore (by rintro ⟨⟩) fun _ _ hth => nomatch hth
    · have hsend : (s.send k ⟨c.message, some call⟩).Sound quorum shard := h.send k htype
      refine hsend.setThread hbefore ServerThread.noConfusion ?_
      intro j place hth
      cases hth
      refine ⟨c, hc, ?_⟩
      show ((s.setExchange k _).exchange k).sent[_]? = _
      rw [exchange_setExchange, if_pos rfl]
      exact Exchange.getElem?_send_self _ _
  | fail call server =>
    simp only [step] at hs
    split at hs
    · cases hs
    all_goals
      rename_i hth
      cases hs
      refine h.setThread ?_ (fun hth => nomatch hth) fun _ _ hth => nomatch hth
      rw [hth]
      exact fun hth => nomatch hth
  | handle k =>
    obtain ⟨x, hx, rfl⟩ := Option.map_eq_some_iff.mp hs
    have hfifo := (h.fifo k).handle hx
    obtain ⟨r, -, rfl⟩ := Exchange.eq_of_handle hx
    exact h.setExchange hfifo (fun _ _ hr => hr) (h.types k) rfl
  | read call server =>
    simp only [step] at hs
    split at hs
    · rename_i connection place hth
      obtain ⟨x, hx, rfl⟩ := Option.map_eq_some_iff.mp hs
      exact h.readReply hth hx
    all_goals cases hs
  | finish call =>
    simp only [step] at hs
    obtain ⟨c, -, hs⟩ := Option.bind_eq_some_iff.mp hs
    split_ifs at hs
    cases hs
    exact (h.setFinished call).conclude call c.caller

/-- **Every run** keeps apart who has read what. -/
theorem sound {guard : ServerTraffic n → ServerTrafficEvent n → Prop}
    (h : (serverTraffic n quorum shard).ReachVia guard s) : s.Sound quorum shard :=
  h.invariant (Sound quorum shard) sound_init fun _ _ _ _ hsound _ hs => sound_step hsound hs

/-! ## Pairing -/

/-- A server has replied to the message that it was sent by this call. -/
def RepliedTo (s : ServerTraffic n) (call : ℕ) (server : Fin n) : Prop :=
  ∃ j, ∃ e ∈ (s.exchange (server, j)).replies, s.SentBy (server, j) e.1 call

/-- Each reply read is the one to the reader's own message, and each joining proxy has the replies
of a quorum to its own INCLUDE_PROXY. -/
structure PairsReplies (quorum : ℕ) (s : ServerTraffic n) : Prop where
  paired : ∀ k, (s.exchange k).Paired
  joined : ∀ e ∈ s.joiningProxies, ∃ servers : Finset (Fin n), quorum ≤ servers.card ∧
    ∀ server ∈ servers, s.RepliedTo e.1 server

/-- The request at this place is a SKIP; no ZIP_RESPONSE was sent in front of it, and all SKIPs in
front of it have had their replies read. -/
def SkipNext (x : Exchange ServerRequest Message) (place : ℕ) : Prop :=
  (∃ r ∈ x.sent[place]?, r.message.type = MessageTypes.skip.value) ∧
    ∀ q < place, ∀ r ∈ x.sent[q]?, r.message.type ≠ MessageTypes.zipResponse.value ∧
      (r.message.type = MessageTypes.skip.value → ∃ e ∈ x.reads, e.1 = q)

/-- A thread reads a reply only for a SKIP that is next, and the sizes of the slot allocations can
be counted in 32 bits. -/
def SkipsOnly (s : ServerTraffic n) : ServerTrafficEvent n → Prop
  | .deliverSlotAllocation _ _ values => 28 + 8 * values.length < 2 ^ 32
  | .read call server =>
    match s.thread (call, server) with
    | .waiting connection place => SkipNext (s.exchange (server, connection)) place
    | .unsent | .done _ => True
  | _ => True

/-- Pairing is enough for the joining proxies. -/
theorem Sound.pairsReplies (h : s.Sound quorum shard) (hpaired : ∀ k, (s.exchange k).Paired) :
    s.PairsReplies quorum := by
  refine ⟨hpaired, fun e he => ?_⟩
  obtain ⟨servers, hcard, hall⟩ := h.queued e he
  refine ⟨servers, hcard, fun i hi => ?_⟩
  obtain ⟨j, e', he', hby⟩ := h.acked e.1 i (hall i hi)
  have hreply : e'.2 ∈ (s.exchange (i, j)).replies := by
    have htaken : e'.2 ∈ (s.exchange (i, j)).reads.map (·.2) := List.mem_map_of_mem he'
    rw [(h.fifo (i, j)).reads] at htaken
    exact List.mem_of_mem_take htaken
  refine ⟨j, e'.2, hreply, ?_⟩
  rw [hpaired (i, j) e' he']
  exact hby

theorem isSome_reply_iff {serverId : UInt32} {m : Message}
    (h : m.type ≠ MessageTypes.append.value) : (Server.reply shard serverId m).isSome ↔
      m.type = MessageTypes.skip.value ∨ m.type = MessageTypes.zipResponse.value := by
  unfold Server.reply Message.hasType
  simp only [List.any_cons, List.any_nil, Bool.or_false, Bool.or_eq_true, decide_eq_true_eq, h,
    false_or]
  split_ifs with hskip hzip
  · exact iff_of_true rfl (Or.inl hskip)
  · exact iff_of_true rfl (Or.inr hzip)
  · refine iff_of_false Bool.false_ne_true ?_
    rintro (heq | heq)
    · exact hskip heq
    · exact hzip heq

/-- The reply to a waiting thread is due exactly when its request is a SKIP that is next. -/
theorem Sound.due_iff_skipNext (h : s.Sound quorum shard) {call j place : ℕ} {i : Fin n}
    (hth : s.thread (call, i) = .waiting j place) :
    (s.exchange (i, j)).Due (replyTo shard i) place ↔ SkipNext (s.exchange (i, j)) place := by
  have htype : ∀ {q : ℕ} {r}, (s.exchange (i, j)).sent[q]? = some r →
      r.message.type ≠ MessageTypes.append.value := fun hr =>
    h.types (i, j) _ (List.mem_of_getElem? hr)
  -- nobody has read, or reads, for a ZIP_RESPONSE
  have hawaited : ∀ {q call' : ℕ} {r}, s.SentBy (i, j) q call' →
      (s.exchange (i, j)).sent[q]? = some r →
        r.message.type ≠ MessageTypes.zipResponse.value := by
    rintro q call' r ⟨c, hc, hsent⟩ hr
    cases hsent.symm.trans hr
    rcases h.awaited c (List.mem_of_getElem? hc) with heq | heq | heq <;> rw [heq] <;> decide
  constructor
  · rintro ⟨⟨r, hr, hsome⟩, hbefore⟩
    refine ⟨⟨r, hr, ?_⟩, fun q hq r' hr' => ⟨fun hzip => ?_, fun hskip => ?_⟩⟩
    · rcases (isSome_reply_iff (htype hr)).mp hsome with hskip | hzip
      · exact hskip
      · exact absurd hzip (hawaited (h.waiting call i j place hth) hr)
    · obtain ⟨e, he, rfl⟩ := hbefore q hq r' hr' ((isSome_reply_iff (htype hr')).mpr (Or.inr hzip))
      obtain ⟨call', hby, -⟩ := h.read i j e he
      exact hawaited hby hr' hzip
    · exact hbefore q hq r' hr' ((isSome_reply_iff (htype hr')).mpr (Or.inl hskip))
  · rintro ⟨⟨r, hr, hskip⟩, hbefore⟩
    refine ⟨⟨r, hr, (isSome_reply_iff (htype hr)).mpr (Or.inl hskip)⟩, fun q hq r' hr' hsome => ?_⟩
    rcases (isSome_reply_iff (htype hr')).mp hsome with hskip' | hzip
    · exact (hbefore q hq r' hr').2 hskip'
    · exact absurd hzip (hbefore q hq r' hr').1

/-- The connections after a step that is not a read have the reads they had. -/
theorem reads_eq_of_step {e : ServerTrafficEvent n} (hs : s.step quorum shard e = some t)
    (hread : ∀ call server, e ≠ .read call server) (k : Fin n × ℕ) :
    (t.exchange k).reads = (s.exchange k).reads := by
  have hset : ∀ {k' : Fin n × ℕ} {x : Exchange ServerRequest Message},
      x.reads = (s.exchange k').reads →
        ((s.setExchange k' x).exchange k).reads = (s.exchange k).reads := by
    intro k' x hx
    rw [exchange_setExchange]
    split_ifs with heq
    · rw [heq, hx]
    · rfl
  cases e with
  | deliverSlotAllocation k' | broadcastFreeze k' | broadcastFreezeComplete k' =>
    cases hs
    unfold post
    split
    · rfl
    · exact hset rfl
  | addProxy msg | introduceSubscriber msg =>
    simp only [step] at hs
    split_ifs at hs
    obtain ⟨port, -, rfl⟩ := Option.map_eq_some_iff.mp hs
    rfl
  | sendSkip failedProxy seq =>
    cases hs
    rfl
  | send call k' =>
    simp only [step] at hs
    split_ifs at hs
    obtain ⟨c, -, rfl⟩ := Option.map_eq_some_iff.mp hs
    split
    · rfl
    · exact hset rfl
  | fail call server =>
    simp only [step] at hs
    split at hs <;> cases hs <;> rfl
  | handle k' =>
    obtain ⟨x, hx, rfl⟩ := Option.map_eq_some_iff.mp hs
    obtain ⟨r, -, rfl⟩ := Exchange.eq_of_handle hx
    exact hset rfl
  | read call server => exact absurd rfl (hread call server)
  | finish call =>
    simp only [step] at hs
    obtain ⟨c, -, hs⟩ := Option.bind_eq_some_iff.mp hs
    split_ifs at hs
    cases hs
    unfold conclude
    split
    · split_ifs <;> rfl
    all_goals rfl

/-- **A read** keeps the replies paired exactly when it is for a SKIP that is next. -/
theorem paired_step_read_iff (h : s.Sound quorum shard) (hpaired : ∀ k, (s.exchange k).Paired)
    {call : ℕ} {server : Fin n} (hs : s.step quorum shard (.read call server) = some t) :
    (∀ k, (t.exchange k).Paired) ↔ s.SkipsOnly (.read call server) := by
  simp only [step, SkipsOnly] at hs ⊢
  split at hs
  · rename_i connection place hth
    obtain ⟨x, hx, rfl⟩ := Option.map_eq_some_iff.mp hs
    have hnew : ∀ e ∈ (s.exchange (server, connection)).reads, e.1 ≠ place := by
      rintro e he rfl
      obtain ⟨call', hby, hdone⟩ := h.read server connection e he
      rw [(h.waiting call server connection e.1 hth).unique hby, hdone] at hth
      cases hth
    rw [← h.due_iff_skipNext hth, ← Exchange.paired_read_iff (h.fifo _) (hpaired _) hnew hx]
    constructor
    · intro hall
      have hk := hall (server, connection)
      show x.Paired
      replace hk : ((s.setExchange (server, connection) x).exchange
        (server, connection)).Paired := hk
      rwa [exchange_setExchange, if_pos rfl] at hk
    · intro hx' k
      show ((s.setExchange (server, connection) x).exchange k).Paired
      rw [exchange_setExchange]
      split_ifs
      · exact hx'
      · exact hpaired k
  all_goals cases hs

/-- **The zipper pairs every acknowledgement with its own request** in a run in which replies are
read only for a SKIP that is next: not for the other requests, and not behind a slot allocation or
a SKIP whose reply was not read. In such a run the next read is paired exactly when it is so. -/
theorem pairsReplies_of_skips (h : (serverTraffic n quorum shard).ReachVia SkipsOnly s) :
    s.PairsReplies quorum ∧ ∀ call server t, s.step quorum shard (.read call server) = some t →
      ((∀ k, (t.exchange k).Paired) ↔ s.SkipsOnly (.read call server)) := by
  have hpaired : ∀ k, (s.exchange k).Paired := by
    refine h.invariant (fun s => ∀ k, (s.exchange k).Paired) (fun _ _ h => nomatch h) ?_
    intro s e t hr hpaired hguard hs
    by_cases hread : ∃ call server, e = .read call server
    · obtain ⟨call, server, rfl⟩ := hread
      exact (paired_step_read_iff (sound hr) hpaired hs).mpr hguard
    · intro k
      push Not at hread
      unfold Exchange.Paired
      rw [reads_eq_of_step hs hread]
      exact hpaired k
  exact ⟨(sound h).pairsReplies hpaired, fun call server t hs =>
    paired_step_read_iff (sound h) hpaired hs⟩

instance (x : Exchange ServerRequest Message) (place : ℕ) : Decidable (SkipNext x place) :=
  inferInstanceAs (Decidable (_ ∧ _))

instance (s : ServerTraffic n) (e : ServerTrafficEvent n) : Decidable (s.SkipsOnly e) :=
  match e with
  | .read call server =>
    match hth : s.thread (call, server) with
    | .waiting connection place =>
      decidable_of_iff (SkipNext (s.exchange (server, connection)) place)
        (by simp only [SkipsOnly, hth])
    | .unsent | .done _ => .isTrue (by simp only [SkipsOnly, hth])
  | .deliverSlotAllocation _ _ values =>
    inferInstanceAs (Decidable (28 + 8 * values.length < 2 ^ 32))
  | .broadcastFreeze .. | .broadcastFreezeComplete .. | .addProxy _
  | .introduceSubscriber _ | .sendSkip .. | .send .. | .fail .. | .handle _ | .finish _ =>
    .isTrue trivial

/-- A SKIP in front of a slot allocation. -/
theorem pairsReplies_of_skips_skipFirst :
    ∃ s : ServerTraffic 1, (serverTraffic 1 1 0).ReachVia SkipsOnly s ∧
      (s.exchange (0, 0)).reads.length = 1 ∧ (s.exchange (0, 0)).replies.length = 2 ∧
      s.PairsReplies 1 ∧ ∀ call server t, s.step 1 0 (.read call server) = some t →
        ((∀ k, (t.exchange k).Paired) ↔ s.SkipsOnly (.read call server)) := by
  obtain ⟨s, hs, hp⟩ := @Lts.exists_reachVia_of_run _ _ (serverTraffic 1 1 0) SkipsOnly
    (fun s e => decide (s.SkipsOnly e)) (fun _ _ => of_decide_eq_true)
    [.sendSkip 0 1, .send 0 (0, 0), .deliverSlotAllocation (0, 0) 0 [5, 1], .handle (0, 0),
      .handle (0, 0), .read 0 0, .finish 0]
    (fun s => decide ((s.exchange (0, 0)).reads.length = 1 ∧
      (s.exchange (0, 0)).replies.length = 2))
    (by decide)
  obtain ⟨hreads, hreplies⟩ := of_decide_eq_true hp
  exact ⟨s, hs, hreads, hreplies, pairsReplies_of_skips hs⟩

/-- The reply to a slot allocation is taken for one to INCLUDE_PROXY, and the proxy joins. -/
theorem not_pairsReplies : ¬ ∀ (n quorum : ℕ) (shard : UInt32) (s : ServerTraffic n),
    (serverTraffic n quorum shard).Reach s → s.PairsReplies quorum := by
  intro h
  obtain ⟨s, hs, hp⟩ := @Lts.exists_reach_of_run _ _ (serverTraffic 1 1 0)
    -- a proxy at 127.0.0.1:50000
    [.deliverSlotAllocation (0, 0) 0 [5, 1], .handle (0, 0),
      .addProxy ⟨MessageTypes.registerProxy.value, 0, 1, 0,
        [49, 50, 55, 46, 48, 46, 48, 46, 49, 58, 53, 48, 48, 48, 48], []⟩,
      .send 0 (0, 0), .handle (0, 0), .read 0 0, .finish 0]
    (fun s => decide (s.joiningProxies.length = 1 ∧
      (s.exchange (0, 0)).reads.map (fun e => (e.1, e.2.1)) = [(1, 0)])) (by decide)
  obtain ⟨-, hreads⟩ := of_decide_eq_true hp
  have hmem : (1, 0) ∈ (s.exchange (0, 0)).reads.map (fun e => (e.1, e.2.1)) := by
    rw [hreads]
    exact List.mem_singleton_self _
  obtain ⟨e, he, heq⟩ := List.mem_map.mp hmem
  obtain ⟨hplace, hreply⟩ := Prod.mk.inj heq
  have hpaired := (h 1 1 0 s hs).paired (0, 0) e he
  rw [hplace, hreply] at hpaired
  cases hpaired

end ServerTraffic

end Ziplog
