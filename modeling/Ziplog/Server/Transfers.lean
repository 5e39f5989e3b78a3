import Ziplog.Library.Lts
import Ziplog.Server.FreezeResponse

/-!
# Transfers between servers

While a proxy is frozen, a server asks its peers for frames of the proxy and tells them the last
number it has; a peer sends everything it has stored, whatever that number is
(`transferFrames_eq_filter_iff`), and the requester stores what it reads without looking.

The system has any number of servers and of calls of `handle_freeze`, each with its connection to
the peer it is asking. A frame that came from a peer is stored without its length, and a requester
cannot read it (`recvMessage_transferred`). Sockets are pooled: what an unreadable frame leaves
behind, or another call on the same socket, may make a call read anything (`misread`).

As long as an answer brings only frames that the requester does not have and is not being sent
(`Fresh`), no number is stored twice (`transfers_only_missing`): the numbers in the store of a
server and those on the way to it stay distinct (`Distinct.step`).
-/

namespace Ziplog

open ByteImage

/-! ## Stored frames -/

/-- A frame in a store: from the proxy, with its length, or from a peer, without. -/
inductive StoredFrame
  | live (m : Message)
  | transferred (m : Message)
  deriving DecidableEq

namespace StoredFrame

def message : StoredFrame → Message
  | live m => m
  | transferred m => m

def number (f : StoredFrame) : ℕ := f.message.seqOrCount.toNat

def wire : StoredFrame → List UInt8
  | live m => be 2 m.serialize.length ++ m.serialize
  | transferred m => m.serialize

/-- What a peer reads when the frame is sent to it. -/
def received : StoredFrame → Option Message
  | live m => some m
  | transferred _ => none

end StoredFrame

/-- `recv_message` on the bytes of a connection; `none` when it fails. -/
def recvMessage (stream : List UInt8) : Option Message :=
  let msgLen := ofBe (stream.take 2)
  if stream.length < 2 + msgLen then none
  else
    match Message.deserializeVector ((stream.drop 2).take msgLen) with
    | .ok m => m
    | .error _ => none

theorem recvMessage_live {m : Message} (h : m.encodedSize ≤ maxMessageSize) (rest : List UInt8) :
    recvMessage ((StoredFrame.live m).wire ++ rest) = (StoredFrame.live m).received := by
  have hlen := Message.length_serialize h
  have hdecode := Message.deserialize_serialize h []
  have hle : m.serialize.length < 256 ^ 2 := by
    rw [hlen]
    exact Nat.lt_succ_of_le h
  have htake : ((StoredFrame.live m).wire ++ rest).take 2 = be 2 m.serialize.length := by
    unfold StoredFrame.wire
    rw [List.append_assoc]
    exact List.take_left' (length_be _ _)
  have hdrop : ((StoredFrame.live m).wire ++ rest).drop 2 = m.serialize ++ rest := by
    unfold StoredFrame.wire
    rw [List.append_assoc]
    exact List.drop_left' (length_be _ _)
  have hroom : ¬ ((StoredFrame.live m).wire ++ rest).length < 2 + m.serialize.length := by
    unfold StoredFrame.wire
    rw [List.length_append, List.length_append, length_be]
    omega
  rw [List.append_nil, ← hlen] at hdecode
  unfold recvMessage
  rw [htake, hdrop, ofBe_be_of_lt hle]
  simp only
  rw [if_neg hroom, List.take_left' rfl, Message.deserializeVector, hdecode]
  rfl

/-- The length that is read is 0: it is the first half of a small type. -/
theorem recvMessage_transferred {m : Message} (htype : m.type.toNat < 2 ^ 16)
    (h : m.encodedSize ≤ maxMessageSize) (rest : List UInt8) :
    recvMessage ((StoredFrame.transferred m).wire ++ rest) =
      (StoredFrame.transferred m).received := by
  have hlen := Message.length_serialize h
  have htwo : 2 ≤ m.serialize.length := by
    rw [hlen]
    unfold Message.encodedSize
    omega
  have htake : ((StoredFrame.transferred m).wire ++ rest).take 2 = be 2 0 := by
    unfold StoredFrame.wire
    rw [List.take_append_of_le_length htwo]
    exact take_serialize htype h
  unfold recvMessage
  rw [htake, ofBe_be_of_lt (by decide)]
  simp only
  split_ifs
  · rfl
  · rfl

/-! ## Answering a request -/

/-- What a server keeps about frozen proxies. -/
structure FreezeNode where
  store : MessageStore StoredFrame
  liveness : ProxyLivenessTracker
  rounds : AList fun _ : ℕ => ℤ

namespace FreezeNode

def init : FreezeNode := ⟨.empty, .init, ∅⟩

/-- The first section of `handle_transfer_request`: a newer round has been seen. -/
def Outdated (node : FreezeNode) (failedProxy : ℕ) (round : ℤ) : Prop :=
  ∃ last ∈ node.rounds.lookup failedProxy, round < last

/-- The test of the second section and of `handle_freeze`: a round not older than this one. -/
def Seen (node : FreezeNode) (failedProxy : ℕ) (round : ℤ) : Prop :=
  ∃ last ∈ node.rounds.lookup failedProxy, round ≤ last

instance (node : FreezeNode) (failedProxy : ℕ) (round : ℤ) :
    Decidable (node.Outdated failedProxy round) :=
  inferInstanceAs (Decidable (∃ last ∈ node.rounds.lookup failedProxy, round < last))

instance (node : FreezeNode) (failedProxy : ℕ) (round : ℤ) :
    Decidable (node.Seen failedProxy round) :=
  inferInstanceAs (Decidable (∃ last ∈ node.rounds.lookup failedProxy, round ≤ last))

/-- What is sent before the ACK. The last number of the requester is read and not used. -/
def snapshotFrames (node : FreezeNode) (failedProxy _reqLastSeq : ℕ) : List StoredFrame :=
  node.store.stored failedProxy

/-- The frames `handle_transfer_request` sends before its ACK; a request of another shard gets no
ACK. -/
def transferFrames (shard : ℕ) (node : FreezeNode) (shardId failedProxy : ℕ) (round : ℤ)
    (reqLastSeq : ℕ) : Option (List StoredFrame) :=
  if shardId ≠ shard then none
  else if node.Outdated failedProxy round then some []
  else some (node.snapshotFrames failedProxy reqLastSeq)

/-- **What is sent is what is missing** exactly when everything stored is. -/
theorem transferFrames_eq_filter_iff {shard : ℕ} {node : FreezeNode} {failedProxy : ℕ} {round : ℤ}
    (hround : ¬ node.Outdated failedProxy round) (reqLastSeq : ℕ) :
    node.transferFrames shard shard failedProxy round reqLastSeq =
        some ((node.store.stored failedProxy).filter fun f => reqLastSeq < f.number) ↔
      ∀ f ∈ node.store.stored failedProxy, reqLastSeq < f.number := by
  unfold transferFrames
  rw [if_neg (not_not_intro rfl), if_neg hround, Option.some_inj, eq_comm, snapshotFrames,
    List.filter_eq_self]
  simp only [decide_eq_true_eq]

end FreezeNode

/-! ## The system -/

/-- What a peer puts on the connection. -/
inductive TransferReply
  | frame (f : StoredFrame)
  | ack
  deriving DecidableEq

/-- How far a call of `handle_freeze` and the peer it is asking are: the request is sent, has
passed the first or the second section of the peer, or the answer is on its way. -/
inductive PeerExchange
  | idle
  | requested (peer : ℕ)
  | checked (peer : ℕ)
  | taken (peer : ℕ) (newRound : Bool)
  | replying (queue : List TransferReply)
  deriving DecidableEq

/-- A call of `handle_freeze` after its section; `peers` are still to be asked. -/
structure FreezeBody where
  server : ℕ
  proxy : ℕ
  round : ℤ
  lastSeq : ℕ
  peers : List ℕ
  exchange : PeerExchange

/-- `started` are the rounds that a transfer request has taken and `handle_freeze` is still to be
called for. `arrived` and `frozen` record the frames of the proxies and the proxies for which a
freeze has begun. -/
structure TransferSystem where
  nodes : ℕ → FreezeNode
  bodies : AList fun _ : ℕ => FreezeBody
  started : List (ℕ × ℕ × ℤ)
  arrived : List (ℕ × ℕ × ℕ)
  frozen : List ℕ

/-- A step of a call, or of its peer for it. -/
inductive BodyEvent
  | contact (reached : Bool)
  | check
  | take
  | answer
  | receive
  | misread (m : Message)
  | lose
  | finish
  deriving DecidableEq

inductive TransferEvent
  | append (i : ℕ) (m : Message)
  | zipResponse (i proxy : ℕ) (orderingValues : List ℕ)
  | freeze (c i proxy : ℕ) (round : ℤ)
  | startedFreeze (c i proxy : ℕ) (round : ℤ)
  | body (c : ℕ) (e : BodyEvent)
  deriving DecidableEq

/-- The numbers that will be read from an answer. -/
def readableNumbers : List TransferReply → List ℕ
  | [] => []
  | .ack :: _ => []
  | .frame f :: queue =>
    match f.received with
    | some m => m.seqOrCount.toNat :: readableNumbers queue
    | none => []

/-- The numbers on the way to a call. -/
def FreezeBody.incoming (b : FreezeBody) : List ℕ :=
  match b.exchange with
  | .replying queue => readableNumbers queue
  | _ => []

namespace TransferSystem

def init : TransferSystem := ⟨fun _ => .init, ∅, [], [], []⟩

def setNode (s : TransferSystem) (i : ℕ) (node : FreezeNode) : TransferSystem :=
  { s with nodes := Function.update s.nodes i node }

def setBody (s : TransferSystem) (c : ℕ) (b : FreezeBody) : TransferSystem :=
  { s with bodies := s.bodies.insert c b }

def storeAt (s : TransferSystem) (i proxy : ℕ) (f : StoredFrame) : TransferSystem :=
  s.setNode i { s.nodes i with store := (s.nodes i).store.store proxy f }

/-- `handle_freeze` from its section on: the last number is read here. -/
def beginFreeze (others : ℕ → List ℕ) (s : TransferSystem) (c i proxy : ℕ) (round : ℤ) :
    TransferSystem :=
  let node := { s.nodes i with
    rounds := (s.nodes i).rounds.insert proxy round
    liveness := (s.nodes i).liveness.setReconfiguring proxy }
  { (s.setNode i node).setBody c
      ⟨i, proxy, round, node.liveness.lastSeq proxy, others i, .idle⟩ with
    frozen := proxy :: s.frozen }

/-- The APPEND and SKIP cases of `handle_connection`. -/
def append (s : TransferSystem) (i : ℕ) (m : Message) : Option TransferSystem :=
  let proxy := m.senderId.toNat
  let s' := { s with arrived := (i, proxy, m.seqOrCount.toNat) :: s.arrived }
  if (s.nodes i).liveness.isBlocked proxy then some s'
  else
    ((s.nodes i).liveness.removeTimeout proxy m.seqOrCount.toNat).map fun liveness =>
      s'.setNode i { s.nodes i with
        store := (s.nodes i).store.store proxy (.live m)
        liveness := liveness }

/-- A step of the call `c`, whose state is `b`. -/
def stepBody (shard : ℕ → ℕ) (s : TransferSystem) (c : ℕ) (b : FreezeBody) :
    BodyEvent → Option TransferSystem
  | .contact reached =>
    match b.exchange, b.peers with
    | .idle, peer :: peers => some (s.setBody c { b with
        peers := peers
        exchange := if reached then .requested peer else .idle })
    | _, _ => none
  | .check =>
    match b.exchange with
    | .requested peer =>
      -- a peer of another shard drops the request
      if shard b.server ≠ shard peer then some (s.setBody c { b with exchange := .replying [] })
      else if (s.nodes peer).Outdated b.proxy b.round then
        some (s.setBody c { b with exchange := .replying [.ack] })
      else some (s.setBody c { b with exchange := .checked peer })
    | _ => none
  | .take =>
    match b.exchange with
    | .checked peer =>
      if (s.nodes peer).Seen b.proxy b.round then
        some (s.setBody c { b with exchange := .taken peer false })
      else
        some ((s.setNode peer { s.nodes peer with
          rounds := (s.nodes peer).rounds.insert b.proxy b.round }).setBody c
          { b with exchange := .taken peer true })
    | _ => none
  | .answer =>
    match b.exchange with
    | .taken peer newRound =>
      let frames := (s.nodes peer).snapshotFrames b.proxy b.lastSeq
      some { s.setBody c { b with exchange := .replying (frames.map .frame ++ [.ack]) } with
        started := if newRound then (peer, b.proxy, b.round) :: s.started else s.started }
    | _ => none
  | .receive =>
    match b.exchange with
    | .replying (.ack :: _) => some (s.setBody c { b with exchange := .idle })
    | .replying (.frame f :: queue) =>
      match f.received with
      | some m => some ((s.setBody c { b with exchange := .replying queue }).storeAt b.server
          b.proxy (.transferred m))
      | none => some (s.setBody c { b with exchange := .idle })
    | _ => none
  | .misread m =>
    if b.exchange = .idle then none
    else if m.type = MessageTypes.ack.value then
      some (s.setBody c { b with exchange := .idle })
    else some (s.storeAt b.server b.proxy (.transferred m))
  | .lose =>
    if b.exchange = .idle then none else some (s.setBody c { b with exchange := .idle })
  | .finish =>
    if b.exchange = .idle ∧ b.peers = [] then some { s with bodies := s.bodies.erase c } else none

/-- A number arrives at a server once, and not after a freeze of its proxy has begun. -/
def step (shard : ℕ → ℕ) (others : ℕ → List ℕ) (s : TransferSystem) :
    TransferEvent → Option TransferSystem
  | .append i m =>
    if (i, m.senderId.toNat, m.seqOrCount.toNat) ∈ s.arrived ∨ m.senderId.toNat ∈ s.frozen then none
    else s.append i m
  | .zipResponse i proxy orderingValues =>
    some (s.setNode i { s.nodes i with
      liveness := (s.nodes i).liveness.updateTimeouts proxy orderingValues })
  | .freeze c i proxy round =>
    if c ∈ s.bodies then none
    else if (s.nodes i).Seen proxy round then some s
    else some (s.beginFreeze others c i proxy round)
  | .startedFreeze c i proxy round =>
    if c ∈ s.bodies ∨ (i, proxy, round) ∉ s.started then none
    else some { s.beginFreeze others c i proxy round with
      started := s.started.erase (i, proxy, round) }
  | .body c e => (s.bodies.lookup c).bind fun b => s.stepBody shard c b e

/-- The numbers of the frames of a proxy that a server has stored. -/
def numbers (s : TransferSystem) (i proxy : ℕ) : List ℕ :=
  ((s.nodes i).store.stored proxy).map StoredFrame.number

/-- No store holds two frames with the same proxy and number. -/
def NoRepeats (s : TransferSystem) : Prop := ∀ i proxy, (s.numbers i proxy).Nodup

/-- The server does not have the number, and it is not on its way to it. -/
def NewAt (s : TransferSystem) (i proxy q : ℕ) : Prop :=
  q ∉ s.numbers i proxy ∧
    ∀ e ∈ s.bodies.entries, e.2.server = i → e.2.proxy = proxy → q ∉ e.2.incoming

instance (s : TransferSystem) (i proxy q : ℕ) : Decidable (s.NewAt i proxy q) :=
  inferInstanceAs (Decidable (_ ∧ _))

/-- What a call asks of a step: an answer brings only numbers that are new to the requester, and so
does what it reads out of turn. -/
def FreshFor (s : TransferSystem) (b : FreezeBody) : BodyEvent → Prop
  | .answer =>
    match b.exchange with
    | .taken peer _ =>
      ∀ q ∈ readableNumbers (((s.nodes peer).snapshotFrames b.proxy b.lastSeq).map .frame),
        s.NewAt b.server b.proxy q
    | _ => True
  | .misread m =>
    m.type = MessageTypes.ack.value ∨ s.NewAt b.server b.proxy m.seqOrCount.toNat
  | _ => True

def Fresh (s : TransferSystem) : TransferEvent → Prop
  | .body c e => ∀ b ∈ s.bodies.lookup c, s.FreshFor b e
  | _ => True

instance (s : TransferSystem) (b : FreezeBody) : DecidablePred (s.FreshFor b)
  | .answer =>
    match h : b.exchange with
    | .taken peer _ => decidable_of_iff (∀ q ∈ readableNumbers
        (((s.nodes peer).snapshotFrames b.proxy b.lastSeq).map .frame),
        s.NewAt b.server b.proxy q) (by simp only [FreshFor, h])
    | .idle | .requested _ | .checked _ | .replying _ =>
      .isTrue (by simp only [FreshFor, h])
  | .misread m => inferInstanceAs (Decidable (m.type = MessageTypes.ack.value ∨
      s.NewAt b.server b.proxy m.seqOrCount.toNat))
  | .contact _ | .check | .take | .receive | .lose | .finish => inferInstanceAs (Decidable True)

instance (s : TransferSystem) : DecidablePred s.Fresh
  | .body c e => inferInstanceAs (Decidable (∀ b ∈ s.bodies.lookup c, s.FreshFor b e))
  | .append .. | .zipResponse .. | .freeze .. | .startedFreeze .. =>
    inferInstanceAs (Decidable True)

/-! ## Numbers stay distinct -/

variable {s s' : TransferSystem} {i c : ℕ} {proxy : ℕ} {b b' : FreezeBody}

/-- The numbers in the store of a server and those on the way to its calls are distinct; before a
freeze of the proxy they have arrived from the proxy. -/
structure Distinct (s : TransferSystem) : Prop where
  stored : s.NoRepeats
  incoming : ∀ c b, s.bodies.lookup c = some b →
    b.incoming.Nodup ∧ ∀ q ∈ b.incoming, q ∉ s.numbers b.server b.proxy
  apart : ∀ c b, s.bodies.lookup c = some b → ∀ c' b', s.bodies.lookup c' = some b' →
    c' ≠ c → b'.server = b.server → b'.proxy = b.proxy → ∀ q ∈ b.incoming, q ∉ b'.incoming
  arrived : ∀ i proxy, proxy ∉ s.frozen → ∀ q ∈ s.numbers i proxy, (i, proxy, q) ∈ s.arrived
  frozen : ∀ c b, s.bodies.lookup c = some b → b.proxy ∈ s.frozen

theorem distinct_init : init.Distinct :=
  ⟨fun _ _ => List.nodup_nil, nofun, nofun, nofun, nofun⟩

theorem numbers_setNode (s : TransferSystem) (i : ℕ) (node : FreezeNode)
    (h : node.store = (s.nodes i).store) (j proxy : ℕ) :
    (s.setNode i node).numbers j proxy = s.numbers j proxy := by
  unfold numbers setNode
  by_cases hj : j = i
  · subst hj
    simp only [Function.update_self, h]
  · simp only [Function.update_of_ne hj]

theorem numbers_setNode_store (s : TransferSystem) (i proxy : ℕ) (f : StoredFrame)
    {node : FreezeNode} (h : node.store = (s.nodes i).store.store proxy f) (j q : ℕ) :
    (s.setNode i node).numbers j q =
      if j = i ∧ q = proxy then s.numbers i proxy ++ [f.number] else s.numbers j q := by
  unfold numbers setNode
  by_cases hj : j = i
  · subst hj
    simp only [Function.update_self, h, MessageStore.stored_store, true_and]
    split_ifs
    · rw [List.map_append, List.map_singleton]
    · rfl
  · rw [if_neg fun h => hj h.1]
    simp only [Function.update_of_ne hj]

/-- A step that leaves the stores and calls alone. -/
theorem Distinct.congr (h : s.Distinct)
    (hnumbers : ∀ i proxy, s'.numbers i proxy = s.numbers i proxy)
    (hbodies : s'.bodies = s.bodies) (harrived : s.arrived ⊆ s'.arrived)
    (hfrozen : s.frozen ⊆ s'.frozen) : s'.Distinct := by
  refine ⟨fun i proxy => ?_, ?_, ?_, fun i proxy hp q hq => ?_, ?_⟩
  · rw [hnumbers]
    exact h.stored i proxy
  · intro c b hb
    rw [hbodies] at hb
    rw [hnumbers]
    exact h.incoming c b hb
  · rw [hbodies]
    exact h.apart
  · rw [hnumbers] at hq
    exact harrived (h.arrived i proxy (fun hmem => hp (hfrozen hmem)) q hq)
  · intro c b hb
    rw [hbodies] at hb
    exact hfrozen (h.frozen c b hb)

/-- A call that expects these numbers. -/
theorem Distinct.setBody (h : s.Distinct) (hfrozen : b.proxy ∈ s.frozen) (hnodup : b.incoming.Nodup)
    (hstored : ∀ q ∈ b.incoming, q ∉ s.numbers b.server b.proxy)
    (hapart : ∀ c' b', s.bodies.lookup c' = some b' → c' ≠ c → b'.server = b.server →
      b'.proxy = b.proxy → ∀ q ∈ b.incoming, q ∉ b'.incoming) : (s.setBody c b).Distinct := by
  have hself : (s.bodies.insert c b).lookup c = some b := AList.lookup_insert _
  refine ⟨h.stored, fun c₁ b₁ h₁ => ?_, fun c₁ b₁ h₁ c₂ b₂ h₂ hne hserver hproxy q hq => ?_,
    h.arrived, fun c₁ b₁ h₁ => ?_⟩
  · by_cases hc : c₁ = c
    · subst hc
      rw [← Option.some_inj.mp (hself.symm.trans h₁)]
      exact ⟨hnodup, hstored⟩
    · exact h.incoming c₁ b₁ ((AList.lookup_insert_ne hc).symm.trans h₁)
  · by_cases hc : c₁ = c
    · subst hc
      obtain rfl := Option.some_inj.mp (hself.symm.trans h₁)
      exact hapart c₂ b₂ ((AList.lookup_insert_ne hne).symm.trans h₂) hne hserver hproxy q hq
    · have hold := (AList.lookup_insert_ne hc).symm.trans h₁
      by_cases hc₂ : c₂ = c
      · subst hc₂
        obtain rfl := Option.some_inj.mp (hself.symm.trans h₂)
        exact fun hmem => hapart c₁ b₁ hold hc hserver.symm hproxy.symm q hmem hq
      · exact h.apart c₁ b₁ hold c₂ b₂ ((AList.lookup_insert_ne hc₂).symm.trans h₂) hne hserver
          hproxy q hq
  · by_cases hc : c₁ = c
    · subst hc
      rw [← Option.some_inj.mp (hself.symm.trans h₁)]
      exact hfrozen
    · exact h.frozen c₁ b₁ ((AList.lookup_insert_ne hc).symm.trans h₁)

/-- A call that expects nothing. -/
theorem Distinct.setBody_nil (h : s.Distinct) (hfrozen : b.proxy ∈ s.frozen)
    (hnil : b.incoming = []) : (s.setBody c b).Distinct :=
  h.setBody hfrozen (by rw [hnil]; exact List.nodup_nil) (by rw [hnil]; exact nofun)
    (by rw [hnil]; exact fun _ _ _ _ _ _ => nofun)

/-- A new number is stored. -/
theorem Distinct.store (h : s.Distinct) {q : ℕ} (hnumbers : ∀ j p, s'.numbers j p =
      if j = i ∧ p = proxy then s.numbers i proxy ++ [q] else s.numbers j p)
    (hbodies : s'.bodies = s.bodies) (hfrozen : s'.frozen = s.frozen)
    (harrived : s.arrived ⊆ s'.arrived) (hold : proxy ∈ s.frozen ∨ (i, proxy, q) ∈ s'.arrived)
    (hstored : q ∉ s.numbers i proxy)
    (hincoming : ∀ c b, s.bodies.lookup c = some b → b.server = i → b.proxy = proxy →
      q ∉ b.incoming) : s'.Distinct := by
  refine ⟨fun j p => ?_, fun c b hb => ?_, ?_, fun j p hp r hr => ?_, ?_⟩
  · rw [hnumbers]
    split_ifs
    · exact List.nodup_append.mpr ⟨h.stored i proxy, List.nodup_singleton q, fun x hx y hy heq =>
        hstored (List.mem_singleton.mp hy ▸ heq ▸ hx)⟩
    · exact h.stored j p
  · rw [hbodies] at hb
    obtain ⟨hnodup, hnot⟩ := h.incoming c b hb
    refine ⟨hnodup, fun r hr => ?_⟩
    rw [hnumbers]
    split_ifs with hat
    · intro hmem
      rcases List.mem_append.mp hmem with hmem | hmem
      · rw [← hat.1, ← hat.2] at hmem
        exact hnot r hr hmem
      · exact hincoming c b hb hat.1 hat.2 (List.mem_singleton.mp hmem ▸ hr)
    · exact hnot r hr
  · rw [hbodies]
    exact h.apart
  · rw [hfrozen] at hp
    rw [hnumbers] at hr
    split_ifs at hr with hat
    · obtain ⟨rfl, rfl⟩ := hat
      rcases List.mem_append.mp hr with hr | hr
      · exact harrived (h.arrived j p hp r hr)
      · rw [List.mem_singleton.mp hr]
        exact hold.resolve_left hp
    · exact harrived (h.arrived j p hp r hr)
  · rw [hbodies, hfrozen]
    exact h.frozen

/-! ## The steps -/

theorem readableNumbers_append_ack (frames : List StoredFrame) :
    readableNumbers (frames.map .frame ++ [.ack]) = readableNumbers (frames.map .frame) := by
  induction frames with
  | nil => rfl
  | cons f frames ih =>
    rw [List.map_cons, List.cons_append, readableNumbers, readableNumbers, ih]

theorem readableNumbers_sublist (frames : List StoredFrame) :
    (readableNumbers (frames.map .frame)).Sublist (frames.map StoredFrame.number) := by
  induction frames with
  | nil => exact List.Sublist.refl _
  | cons f frames ih =>
    rw [List.map_cons, List.map_cons, readableNumbers]
    rcases f with m | m
    · exact ih.cons_cons _
    · exact List.nil_sublist _

/-- A frame of a proxy that is not frozen. -/
theorem Distinct.append (h : s.Distinct) {m : Message}
    (harrived : (i, m.senderId.toNat, m.seqOrCount.toNat) ∉ s.arrived)
    (hfrozen : m.senderId.toNat ∉ s.frozen) (hs : s.append i m = some s') : s'.Distinct := by
  unfold TransferSystem.append at hs
  simp only at hs
  split_ifs at hs
  · obtain rfl := Option.some_inj.mp hs
    exact h.congr (fun _ _ => rfl) rfl (List.subset_cons_self _ _) (List.Subset.refl _)
  · obtain ⟨liveness, -, rfl⟩ := Option.map_eq_some_iff.mp hs
    refine h.store (fun j p => numbers_setNode_store _ i m.senderId.toNat (.live m) rfl j p) rfl rfl
      (List.subset_cons_self _ _) (Or.inr List.mem_cons_self) (fun hmem => ?_)
      fun c b hb _ hproxy _ => ?_
    · exact harrived (h.arrived i _ hfrozen _ hmem)
    · exact hfrozen (hproxy ▸ h.frozen c b hb)

theorem Distinct.beginFreeze (h : s.Distinct) (others : ℕ → List ℕ) (c i proxy : ℕ) (round : ℤ) :
    (s.beginFreeze others c i proxy round).Distinct := by
  have hnumbers := numbers_setNode s i { s.nodes i with
    rounds := (s.nodes i).rounds.insert proxy round
    liveness := (s.nodes i).liveness.setReconfiguring proxy } rfl
  have hnode : ({ s.setNode i { s.nodes i with
        rounds := (s.nodes i).rounds.insert proxy round
        liveness := (s.nodes i).liveness.setReconfiguring proxy } with
      frozen := proxy :: s.frozen } : TransferSystem).Distinct :=
    h.congr hnumbers rfl (List.Subset.refl _) (List.subset_cons_self _ _)
  exact hnode.setBody_nil List.mem_cons_self rfl

theorem Distinct.erase (h : s.Distinct) (c : ℕ) :
    ({ s with bodies := s.bodies.erase c } : TransferSystem).Distinct := by
  have hsub : ∀ c' b', (s.bodies.erase c).lookup c' = some b' → s.bodies.lookup c' = some b' := by
    intro c' b' hb'
    by_cases hc : c' = c
    · rw [hc, AList.lookup_erase] at hb'
      exact nomatch hb'
    · rwa [AList.lookup_erase_ne hc] at hb'
  exact ⟨h.stored, fun c₁ b₁ h₁ => h.incoming c₁ b₁ (hsub c₁ b₁ h₁),
    fun c₁ b₁ h₁ c₂ b₂ h₂ => h.apart c₁ b₁ (hsub c₁ b₁ h₁) c₂ b₂ (hsub c₂ b₂ h₂), h.arrived,
    fun c₁ b₁ h₁ => h.frozen c₁ b₁ (hsub c₁ b₁ h₁)⟩

/-- An answer with new numbers. -/
theorem Distinct.answer (h : s.Distinct) {peer : ℕ} (hfrozen : b.proxy ∈ s.frozen)
    (hfresh : ∀ q ∈ readableNumbers
      (((s.nodes peer).snapshotFrames b.proxy b.lastSeq).map .frame), s.NewAt b.server b.proxy q) :
    (s.setBody c { b with
      exchange := .replying
        (((s.nodes peer).snapshotFrames b.proxy b.lastSeq).map .frame ++ [.ack]) }).Distinct := by
  refine h.setBody hfrozen ?_ ?_ ?_
  · show (readableNumbers (_ ++ [.ack])).Nodup
    rw [readableNumbers_append_ack]
    exact (h.stored peer b.proxy).sublist (readableNumbers_sublist _)
  · show ∀ q ∈ readableNumbers (_ ++ [.ack]), q ∉ s.numbers b.server b.proxy
    rw [readableNumbers_append_ack]
    exact fun q hq => (hfresh q hq).1
  · intro c' b' hb' _ hserver hproxy q hq
    have hq' : q ∈ readableNumbers (_ ++ [.ack]) := hq
    rw [readableNumbers_append_ack] at hq'
    exact (hfresh q hq').2 ⟨c', b'⟩ (AList.mem_lookup_iff.mp hb') hserver hproxy

/-- A frame that is on the way is stored. -/
theorem Distinct.receive (h : s.Distinct) (hb : s.bodies.lookup c = some b) {m : Message}
    {queue : List TransferReply}
    (hincoming : b.incoming = m.seqOrCount.toNat :: readableNumbers queue) :
    ((s.setBody c { b with exchange := .replying queue }).storeAt b.server b.proxy
      (.transferred m)).Distinct := by
  obtain ⟨hnodup, hnot⟩ := h.incoming c b hb
  have hapart := h.apart c b hb
  rw [hincoming] at hnodup hnot hapart
  obtain ⟨hhead, htail⟩ := List.nodup_cons.mp hnodup
  have hrest : (s.setBody c { b with exchange := .replying queue }).Distinct :=
    h.setBody (h.frozen c b hb) htail (fun q hq => hnot q (List.mem_cons_of_mem _ hq))
      fun c' b' hb' hne hserver hproxy q hq =>
        hapart c' b' hb' hne hserver hproxy q (List.mem_cons_of_mem _ hq)
  refine hrest.store (fun j p => numbers_setNode_store _ b.server b.proxy (.transferred m) rfl j p)
    rfl rfl (List.Subset.refl _) (Or.inl (h.frozen c b hb)) (hnot _ List.mem_cons_self) ?_
  intro c' b' hb' hserver hproxy
  have hself : (s.bodies.insert c { b with exchange := .replying queue }).lookup c = _ :=
    AList.lookup_insert _
  by_cases hc : c' = c
  · subst hc
    rw [← Option.some_inj.mp (hself.symm.trans hb')]
    exact hhead
  · exact hapart c' b' ((AList.lookup_insert_ne hc).symm.trans hb') hc hserver hproxy _
      List.mem_cons_self

/-- **One step of a call.** -/
theorem Distinct.stepBody (h : s.Distinct) {shard : ℕ → ℕ} (hb : s.bodies.lookup c = some b)
    {e : BodyEvent} (hfresh : s.FreshFor b e) (hs : s.stepBody shard c b e = some s') :
    s'.Distinct := by
  have hfrozen := h.frozen c b hb
  rcases e with reached | _ | _ | _ | _ | m | _ | _
  · simp only [TransferSystem.stepBody] at hs
    split at hs
    · obtain rfl := Option.some_inj.mp hs
      rcases reached with _ | _
      · exact h.setBody_nil hfrozen rfl
      · exact h.setBody_nil hfrozen rfl
    · exact nomatch hs
  · simp only [TransferSystem.stepBody] at hs
    split at hs
    · split_ifs at hs <;> obtain rfl := Option.some_inj.mp hs
      · exact h.setBody_nil hfrozen rfl
      · exact h.setBody_nil hfrozen rfl
      · exact h.setBody_nil hfrozen rfl
    · exact nomatch hs
  · simp only [TransferSystem.stepBody] at hs
    split at hs
    · rename_i peer hexchange
      split_ifs at hs <;> obtain rfl := Option.some_inj.mp hs
      · exact h.setBody_nil hfrozen rfl
      · have hnode : (s.setNode peer { s.nodes peer with
            rounds := (s.nodes peer).rounds.insert b.proxy b.round }).Distinct :=
          h.congr (numbers_setNode s peer _ rfl) rfl (List.Subset.refl _) (List.Subset.refl _)
        exact hnode.setBody_nil hfrozen rfl
    · exact nomatch hs
  · simp only [TransferSystem.stepBody] at hs
    split at hs
    · rename_i peer newRound hexchange
      obtain rfl := Option.some_inj.mp hs
      simp only [FreshFor, hexchange] at hfresh
      exact (h.answer hfrozen hfresh).congr (fun _ _ => rfl) rfl (List.Subset.refl _)
        (List.Subset.refl _)
    · exact nomatch hs
  · simp only [TransferSystem.stepBody] at hs
    split at hs
    · obtain rfl := Option.some_inj.mp hs
      exact h.setBody_nil hfrozen rfl
    · rename_i f queue hexchange
      split at hs
      · rename_i m hreceived
        obtain rfl := Option.some_inj.mp hs
        refine h.receive hb ?_
        rw [FreezeBody.incoming, hexchange]
        simp only [readableNumbers, hreceived]
      · obtain rfl := Option.some_inj.mp hs
        exact h.setBody_nil hfrozen rfl
    · exact nomatch hs
  · simp only [TransferSystem.stepBody] at hs
    split_ifs at hs with hidle hack
    · obtain rfl := Option.some_inj.mp hs
      exact h.setBody_nil hfrozen rfl
    · obtain rfl := Option.some_inj.mp hs
      obtain ⟨hnot, hway⟩ := Or.resolve_left hfresh hack
      exact h.store (fun j p => numbers_setNode_store s b.server b.proxy (.transferred m) rfl j p)
        rfl rfl (List.Subset.refl _) (Or.inl hfrozen) hnot
        fun c' b' hb' => hway ⟨c', b'⟩ (AList.mem_lookup_iff.mp hb')
  · simp only [TransferSystem.stepBody] at hs
    split_ifs at hs
    obtain rfl := Option.some_inj.mp hs
    exact h.setBody_nil hfrozen rfl
  · simp only [TransferSystem.stepBody] at hs
    split_ifs at hs
    obtain rfl := Option.some_inj.mp hs
    exact h.erase c

/-- **One step** whose answers are fresh keeps the numbers distinct. -/
theorem Distinct.step (h : s.Distinct) {shard : ℕ → ℕ} {others : ℕ → List ℕ} {e : TransferEvent}
    (hfresh : s.Fresh e) (hs : s.step shard others e = some s') : s'.Distinct := by
  rcases e with ⟨i, m⟩ | ⟨i, proxy, values⟩ | ⟨c, i, proxy, round⟩ | ⟨c, i, proxy, round⟩ | ⟨c, e⟩
  · simp only [TransferSystem.step] at hs
    split_ifs at hs with hnew
    rw [not_or] at hnew
    exact h.append hnew.1 hnew.2 hs
  · obtain rfl := Option.some_inj.mp hs
    exact h.congr (numbers_setNode s i _ rfl) rfl (List.Subset.refl _) (List.Subset.refl _)
  · simp only [TransferSystem.step] at hs
    split_ifs at hs <;> obtain rfl := Option.some_inj.mp hs
    · exact h
    · exact h.beginFreeze others c i proxy round
  · simp only [TransferSystem.step] at hs
    split_ifs at hs
    obtain rfl := Option.some_inj.mp hs
    exact (h.beginFreeze others c i proxy round).congr (fun _ _ => rfl) rfl (List.Subset.refl _)
      (List.Subset.refl _)
  · obtain ⟨b, hb, hs⟩ := Option.bind_eq_some_iff.mp hs
    exact h.stepBody hb (hfresh b hb) hs

end TransferSystem

/-- The servers `i` of shard `shard i`, each with its other servers. -/
def transferSystem (shard : ℕ → ℕ) (others : ℕ → List ℕ) : Lts TransferSystem TransferEvent :=
  ⟨.init, TransferSystem.step shard others⟩

namespace TransferSystem

variable {shard : ℕ → ℕ} {others : ℕ → List ℕ}

theorem reach_distinct {s : TransferSystem} (h : (transferSystem shard others).ReachVia Fresh s) :
    s.Distinct :=
  h.invariant Distinct distinct_init fun _ _ _ _ hd hfresh hs => hd.step hfresh hs

/-- **When transfers send only what is missing.** An answer consists of the frames above the last
number of the requester if and only if everything stored is above it; and in every run in which each
answer brings only numbers that the requester neither has nor is being sent, no store ever holds two
frames with the same proxy and number. -/
theorem transfers_only_missing (shard : ℕ → ℕ) (others : ℕ → List ℕ) :
    (∀ (shardId : ℕ) (node : FreezeNode) (failedProxy : ℕ) (round : ℤ) (reqLastSeq : ℕ),
      ¬ node.Outdated failedProxy round →
      (node.transferFrames shardId shardId failedProxy round reqLastSeq =
          some ((node.store.stored failedProxy).filter fun f => reqLastSeq < f.number) ↔
        ∀ f ∈ node.store.stored failedProxy, reqLastSeq < f.number)) ∧
    ∀ s, (transferSystem shard others).ReachVia Fresh s → s.NoRepeats :=
  ⟨fun _ _ _ _ reqLastSeq hround => FreezeNode.transferFrames_eq_filter_iff hround reqLastSeq,
    fun _ h => (reach_distinct h).stored⟩

/-- A SKIP of proxy 0. -/
def skipFrame (seq : UInt64) : Message := ⟨1, 0, 0, seq, [], []⟩

/-- Server 1 has a frame that server 0 lacks, and one round of server 0 brings it there. -/
def missingFrame : List TransferEvent :=
  [.append 1 (skipFrame 1), .freeze 0 0 0 1, .body 0 (.contact true), .body 0 .check, .body 0 .take,
    .body 0 .answer, .body 0 .receive, .body 0 .receive, .body 0 .finish]

theorem transfers_only_missing_one : ∃ s,
    (transferSystem (fun _ => 0) (fun i => [1 - i])).ReachVia Fresh s ∧ s.numbers 0 0 = [1] ∧
    s.NoRepeats ∧ FreezeNode.init.transferFrames 0 0 0 1 0 = some [] := by
  have hrun : ((transferSystem (fun _ => 0) (fun i => [1 - i])).runVia
      (fun s e => decide (s.Fresh e)) missingFrame .init).any
      (fun s => decide (s.numbers 0 0 = [1])) = true := by
    decide +kernel
  obtain ⟨s, hreach, hs⟩ := (transferSystem (fun _ => 0) (fun i => [1 - i])).exists_reachVia_of_run
    (fun s e => of_decide_eq_true) hrun
  obtain ⟨hsends, hstores⟩ := transfers_only_missing (fun _ => 0) fun i => [1 - i]
  exact ⟨s, hreach, of_decide_eq_true hs, hstores s hreach,
    (hsends 0 .init 0 1 0 (by decide)).mpr nofun⟩

/-- Both servers have the frame and its number is the last one of server 0. One round stores it
again. -/
def frameTwice : List TransferEvent :=
  [.zipResponse 0 0 [5, 1], .append 0 (skipFrame 1)] ++ missingFrame

/-- A frame that is not above the last number of the requester is sent, and stored again. -/
theorem not_transfers_only_missing :
    (¬ ∀ (shardId : ℕ) (node : FreezeNode) (failedProxy : ℕ) (round : ℤ) (reqLastSeq : ℕ),
      ¬ node.Outdated failedProxy round →
      node.transferFrames shardId shardId failedProxy round reqLastSeq =
        some ((node.store.stored failedProxy).filter fun f => reqLastSeq < f.number)) ∧
    ¬ ∀ (shard : ℕ → ℕ) (others : ℕ → List ℕ) (s : TransferSystem),
      (transferSystem shard others).Reach s → s.NoRepeats := by
  constructor
  · intro hall
    have h := hall 0 { FreezeNode.init with
      store := MessageStore.empty.store 0 (.live (skipFrame 1)) } 0 1 1 (by decide)
    revert h
    decide +kernel
  · intro hall
    have hrun : ((transferSystem (fun _ => 0) (fun i => [1 - i])).run frameTwice .init).any
        (fun s => decide (s.numbers 0 0 = [1, 1])) = true := by
      decide +kernel
    obtain ⟨s, hreach, hs⟩ := (transferSystem (fun _ => 0) (fun i => [1 - i])).exists_reach_of_run
      hrun
    have hnodup := hall _ _ s hreach 0 0
    rw [of_decide_eq_true hs] at hnodup
    exact absurd hnodup (by decide)

end TransferSystem

end Ziplog
