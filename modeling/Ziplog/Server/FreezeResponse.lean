import Ziplog.Library.Largest
import Ziplog.Server.Server

/-!
# The answer to a freeze

`handle_freeze` asks the peers for frames of the failed proxy and tells the zipper the last number
it knows of. The frames received are stored and passed on, and the liveness tracker is not told of
them, so the number reported is the one the tracker had before (`sequenceNumber_handleFreeze`). It
is the largest number stored exactly when no frame, old or transferred, is above it
(`handleFreeze_reports_iff`).
-/

namespace Ziplog

open ByteImage Largest

/-! ## Numbers of stored frames -/

/-- The body of a stored string: a frame of a proxy is stored with its length, one from a peer
without. -/
def storedBody (wire : List UInt8) : List UInt8 :=
  if wire = be 2 (wire.length - 2) ++ wire.drop 2 then wire.drop 2 else wire

/-- The number in the header of a stored string. -/
def storedNumber (wire : List UInt8) : Option ℕ :=
  match MessageHeader.peek (storedBody wire) (storedBody wire).length with
  | .ok (some header) => some header.seqOrCount.toNat
  | _ => none

def storedNumbers (wires : List (List UInt8)) : List ℕ := wires.filterMap storedNumber

/-- The largest number of the frames of a proxy, 0 when there is none. -/
def MessageStore.largest (st : MessageStore (List UInt8)) (proxyId : ℕ) : ℕ :=
  (storedNumbers (st.stored proxyId)).foldr max 0

theorem peek_serialize {m : Message} (h : m.encodedSize ≤ maxMessageSize) :
    MessageHeader.peek m.serialize m.serialize.length =
      .ok (some ⟨m.type, m.shardId, m.senderId, m.seqOrCount⟩) := by
  have hlen := Message.length_serialize h
  have hsize : MessageHeader.size ≤ m.serialize.length := by
    unfold MessageHeader.size
    unfold Message.encodedSize at hlen
    omega
  refine MessageHeader.peek_of_headerAt ?_ hsize
  rw [Message.serialize_eq h]
  simp only [List.append_assoc]
  exact Message.headerAt_headerBytes _ _ _ _ _

/-- A frame of a proxy has the number of its message. -/
theorem storedNumber_frame {m : Message} (h : m.encodedSize ≤ maxMessageSize) :
    storedNumber (be 2 m.serialize.length ++ m.serialize) = some m.seqOrCount.toNat := by
  have hdrop : (be 2 m.serialize.length ++ m.serialize).drop 2 = m.serialize :=
    List.drop_left' (length_be _ _)
  have hlen : (be 2 m.serialize.length ++ m.serialize).length - 2 = m.serialize.length := by
    rw [List.length_append, length_be, Nat.add_sub_cancel_left]
  have hbody : storedBody (be 2 m.serialize.length ++ m.serialize) = m.serialize := by
    rw [storedBody, hlen, hdrop, if_pos rfl]
  rw [storedNumber, hbody, peek_serialize h]

theorem take_serialize {m : Message} (htype : m.type.toNat < 2 ^ 16)
    (h : m.encodedSize ≤ maxMessageSize) : m.serialize.take 2 = be 2 0 := by
  have hsize : ¬ maxMessageSize < m.encodedSize % 2 ^ 32 := by
    have hle := Nat.mod_le m.encodedSize (2 ^ 32)
    omega
  rw [Message.serialize_eq_ite, if_neg hsize, Message.take_encoding htype]

/-- So has a frame from a peer, which is stored without its length. -/
theorem storedNumber_serialize {m : Message} (htype : m.type.toNat < 2 ^ 16)
    (h : m.encodedSize ≤ maxMessageSize) : storedNumber m.serialize = some m.seqOrCount.toNat := by
  have hlen := Message.length_serialize h
  have hfirst := take_serialize htype h
  have hbody : storedBody m.serialize = m.serialize := by
    unfold storedBody
    refine if_neg fun heq => ?_
    rw [heq, List.take_left' (length_be _ _)] at hfirst
    have hofBe := congrArg ofBe hfirst
    unfold Message.encodedSize at h hlen
    unfold maxMessageSize at h
    rw [ofBe_be_of_lt (by omega), ofBe_be_of_lt (by decide)] at hofBe
    omega
  rw [storedNumber, hbody, peek_serialize h]

/-! ## The handler -/

/-- The fields of a TRANSFER_REQUEST or FREEZE_RESPONSE. -/
structure FreezeMessage where
  type : MessageTypes
  shardId : ℕ
  senderId : ℕ
  failedProxy : ℕ
  round : ℕ
  sequenceNumber : ℕ
  deriving DecidableEq

/-- What `handle_freeze` leaves and sends. -/
structure FreezeOutcome where
  server : Server
  request : FreezeMessage
  response : FreezeMessage

namespace Server

/-- The loop over the messages of one peer, up to its ACK or the end of the connection. -/
def receiveTransfers (s : Server) (failedProxy : ℕ) : List Message → Server
  | [] => s
  | resp :: replies =>
    if resp.type = MessageTypes.ack.value then s
    else (s.handleTransfer failedProxy resp).receiveTransfers failedProxy replies

/-- One peer; `none` stands for a peer that cannot be reached or does not take the request. -/
def exchange (failedProxy : ℕ) (s : Server) : Option (List Message) → Server
  | none => s
  | some replies => s.receiveTransfers failedProxy replies

/-- `handle_freeze`; an outdated round is ignored. -/
def handleFreeze (shardId serverId : ℕ) (s : Server) (failedProxy round : ℕ) (fromZipper : Bool)
    (peers : List (Option (List Message))) : Option FreezeOutcome :=
  (s.freezeHandler.handleFreeze failedProxy round fromZipper).map fun freezeHandler =>
    let s := { s with
      freezeHandler := freezeHandler
      liveness := s.liveness.setReconfiguring failedProxy }
    let request := ⟨.transferRequest, shardId, serverId, failedProxy, round,
      s.liveness.lastSeq failedProxy⟩
    let s := peers.foldl (exchange failedProxy) s
    { server := { s with freezeHandler := s.freezeHandler.finish failedProxy round }
      request := request
      response := ⟨.freezeResponse, shardId, serverId, failedProxy, round,
        s.liveness.lastSeq failedProxy⟩ }

/-- What the peers transfer. -/
def transferred (peers : List (Option (List Message))) : List Message :=
  peers.flatMap fun peer => (peer.getD []).takeWhile (·.type ≠ MessageTypes.ack.value)

/-! ## What is stored and what is reported -/

variable {s : Server} {failedProxy round : ℕ} {fromZipper : Bool}
  {peers : List (Option (List Message))}

theorem stored_receiveTransfers (s : Server) (failedProxy : ℕ) (replies : List Message) :
    (s.receiveTransfers failedProxy replies).liveness = s.liveness ∧
      (s.receiveTransfers failedProxy replies).store.stored failedProxy =
        s.store.stored failedProxy ++
          (replies.takeWhile (·.type ≠ MessageTypes.ack.value)).map Message.serialize := by
  induction replies generalizing s with
  | nil => exact ⟨rfl, (List.append_nil _).symm⟩
  | cons resp replies ih =>
    unfold receiveTransfers
    split_ifs with hack
    · rw [List.takeWhile_cons_of_neg (by simpa using hack)]
      exact ⟨rfl, (List.append_nil _).symm⟩
    · obtain ⟨hliveness, hstored⟩ := ih (s.handleTransfer failedProxy resp)
      have hstore : (s.handleTransfer failedProxy resp).store.stored failedProxy =
          s.store.stored failedProxy ++ [resp.serialize] := by
        show (s.store.store failedProxy resp.serialize).stored failedProxy = _
        rw [MessageStore.stored_store, if_pos rfl]
      refine ⟨hliveness, ?_⟩
      rw [hstored, hstore, List.takeWhile_cons_of_pos (by simpa using hack), List.map_cons,
        List.append_assoc, List.singleton_append]

theorem stored_foldl_exchange (s : Server) (failedProxy : ℕ)
    (peers : List (Option (List Message))) :
    (peers.foldl (exchange failedProxy) s).liveness = s.liveness ∧
      (peers.foldl (exchange failedProxy) s).store.stored failedProxy =
        s.store.stored failedProxy ++ (transferred peers).map Message.serialize := by
  induction peers generalizing s with
  | nil => exact ⟨rfl, (List.append_nil _).symm⟩
  | cons peer peers ih =>
    have hpeer : (exchange failedProxy s peer).liveness = s.liveness ∧
        (exchange failedProxy s peer).store.stored failedProxy =
          s.store.stored failedProxy ++ ((peer.getD []).takeWhile
            (·.type ≠ MessageTypes.ack.value)).map Message.serialize := by
      cases peer with
      | none => exact ⟨rfl, (List.append_nil _).symm⟩
      | some replies => exact stored_receiveTransfers s failedProxy replies
    obtain ⟨hliveness, hstored⟩ := ih (exchange failedProxy s peer)
    rw [List.foldl_cons]
    refine ⟨hliveness.trans hpeer.1, ?_⟩
    rw [hstored, hpeer.2, transferred, transferred, List.flatMap_cons, List.map_append,
      List.append_assoc]

/-- **What is reported.** The old frames and the transferred ones are stored, and the number sent is
the one from before the transfers. -/
theorem sequenceNumber_handleFreeze {shardId serverId : ℕ} {o : FreezeOutcome}
    (h : s.handleFreeze shardId serverId failedProxy round fromZipper peers = some o) :
    o.response.sequenceNumber = s.liveness.lastSeq failedProxy ∧
      o.server.store.stored failedProxy =
        s.store.stored failedProxy ++ (transferred peers).map Message.serialize := by
  obtain ⟨freezeHandler, -, rfl⟩ := Option.map_eq_some_iff.mp h
  obtain ⟨hliveness, hstored⟩ := stored_foldl_exchange { s with
    freezeHandler := freezeHandler
    liveness := s.liveness.setReconfiguring failedProxy } failedProxy peers
  refine ⟨?_, hstored⟩
  show (ProxyLivenessTracker.lastSeq _ failedProxy) = _
  rw [hliveness]
  rfl

/-- No frame of the proxy, stored before or transferred, is above the last number the tracker has of
it, and that number is 0 or the one of such a frame. -/
def LastSeqCovers (s : Server) (failedProxy : ℕ) (peers : List (Option (List Message))) : Prop :=
  (∀ n ∈ storedNumbers (s.store.stored failedProxy ++ (transferred peers).map Message.serialize),
    n ≤ s.liveness.lastSeq failedProxy) ∧
  (s.liveness.lastSeq failedProxy = 0 ∨ s.liveness.lastSeq failedProxy ∈
    storedNumbers (s.store.stored failedProxy ++ (transferred peers).map Message.serialize))

instance (s : Server) (failedProxy : ℕ) (peers : List (Option (List Message))) :
    Decidable (s.LastSeqCovers failedProxy peers) := inferInstanceAs (Decidable (_ ∧ _))

theorem response_eq_largest_iff {shardId serverId : ℕ} {o : FreezeOutcome}
    (h : s.handleFreeze shardId serverId failedProxy round fromZipper peers = some o) :
    o.response.sequenceNumber = o.server.store.largest failedProxy ↔
      s.LastSeqCovers failedProxy peers := by
  obtain ⟨hseq, hstored⟩ := sequenceNumber_handleFreeze h
  rw [hseq, MessageStore.largest, hstored, eq_foldr_max_iff]
  rfl

/-- **When the answer to a freeze is right.** The number reported is the largest one stored in the
end if and only if neither an old frame nor a transferred one is above what the tracker has; then
two servers that hold frames with the same numbers report the same. -/
theorem handleFreeze_reports_iff {shardId serverId : ℕ} {o : FreezeOutcome}
    (h : s.handleFreeze shardId serverId failedProxy round fromZipper peers = some o) :
    (o.response.sequenceNumber = o.server.store.largest failedProxy ↔
        s.LastSeqCovers failedProxy peers) ∧
      ∀ (s' : Server) (serverId' round' : ℕ) (fromZipper' : Bool)
        (peers' : List (Option (List Message))) (o' : FreezeOutcome),
        s'.handleFreeze shardId serverId' failedProxy round' fromZipper' peers' = some o' →
        s.LastSeqCovers failedProxy peers → s'.LastSeqCovers failedProxy peers' →
        (∀ n, n ∈ storedNumbers (o.server.store.stored failedProxy) ↔
          n ∈ storedNumbers (o'.server.store.stored failedProxy)) →
        o.response.sequenceNumber = o'.response.sequenceNumber := by
  refine ⟨response_eq_largest_iff h, ?_⟩
  intro s' serverId' round' fromZipper' peers' o' h' hcovers hcovers' hsame
  rw [(response_eq_largest_iff h).mpr hcovers, (response_eq_largest_iff h').mpr hcovers']
  exact foldr_max_congr hsame

/-- A server that holds the frame 1 of proxy 0 and has seen its number. -/
def holdsOne : Server :=
  { init ⟨∅, (∅ : AList fun _ : ℕ => ℕ).insert 0 1, ∅⟩ [] with
    store := MessageStore.empty.store 0 (be 2 28 ++ Message.serialize ⟨1, 0, 0, 1, [], []⟩) }

/-- A peer transfers the frame that is there, another one is not reached. -/
def transfersOne : List (Option (List Message)) :=
  [some [⟨1, 0, 0, 1, [], []⟩, ⟨4, 0, 1, 0, [], []⟩], none]

theorem handleFreeze_reports_iff_one :
    ∃ o, holdsOne.handleFreeze 0 1 0 3 true transfersOne = some o ∧
      o.response.sequenceNumber = 1 ∧ o.server.store.largest 0 = 1 := by
  have hcovers : holdsOne.LastSeqCovers 0 transfersOne := by decide +kernel
  obtain ⟨o, ho⟩ : ∃ o, holdsOne.handleFreeze 0 1 0 3 true transfersOne = some o := ⟨_, rfl⟩
  have hlargest := (handleFreeze_reports_iff ho).1.mpr hcovers
  have hseq : o.response.sequenceNumber = 1 := (sequenceNumber_handleFreeze ho).1
  exact ⟨o, ho, hseq, hlargest ▸ hseq⟩

/-- A peer transfers a frame that is new, and the number reported stays the old one. -/
theorem not_handleFreeze_reports : ¬ ∀ (shardId serverId failedProxy round : ℕ) (fromZipper : Bool)
    (s : Server) (peers : List (Option (List Message))) (o : FreezeOutcome),
    s.handleFreeze shardId serverId failedProxy round fromZipper peers = some o →
    o.response.sequenceNumber = o.server.store.largest failedProxy := by
  intro hall
  obtain ⟨o, ho⟩ : ∃ o, (init .init []).handleFreeze 0 1 0 3 true
      [some [⟨1, 0, 0, 7, [], []⟩, ⟨4, 0, 1, 0, [], []⟩]] = some o := ⟨_, rfl⟩
  have h := hall 0 1 0 3 true _ _ o ho
  obtain ⟨hseq, hstored⟩ := sequenceNumber_handleFreeze ho
  rw [hseq, MessageStore.largest, hstored] at h
  revert h
  decide +kernel

end Server

end Ziplog
