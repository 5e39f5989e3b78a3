import Ziplog.Api.Frames
import Ziplog.Library.Lts
import Ziplog.Server.FreezeHandler
import Ziplog.Server.MessageStore
import Ziplog.Server.ProxyLivenessTracker

/-!
# What a server stores and passes on

Three paths write the store of a server and feed its subscribers: the APPEND and SKIP frames of the
proxies, the frames that peers transfer while a proxy is frozen, and the replay of the store to
a subscriber that joins. The connections run on threads of their own, so a frame is stored in one
step and broadcast in a later one, and a subscriber is introduced in steps as well.

`outbox` holds every string that was queued for a subscriber or handed to its socket. `frames`, the
messages of the proxies' frames, and `introduced`, the subscribers whose introduction has returned,
are recorded only.
-/

namespace Ziplog

/-- How far `introduce_subscriber` is: the address is recorded, the snapshot is taken, or the
proxies in `rest` are still to be replayed. -/
inductive Introduction
  | recorded (subscriber : Address)
  | connecting (subscriber : Address) (snap : List (Sigma fun _ : ℕ => List (List UInt8)))
  | replaying (subscriber : Address) (snap rest : List (Sigma fun _ : ℕ => List (List UInt8)))
  deriving DecidableEq

structure Server where
  store : MessageStore (List UInt8)
  liveness : ProxyLivenessTracker
  freezeHandler : FreezeHandler
  subscribers : List Address
  workers : AList fun _ : ℕ => Address
  outbox : List (Address × List UInt8)
  /-- Stored and not yet broadcast. -/
  pending : List (List UInt8)
  introduction : Option Introduction
  introduced : List Address
  frames : List Message

inductive ServerEvent
  | append (wire : List UInt8)
  | broadcast (wire : List UInt8)
  | zipResponse (proxyId : ℕ) (orderingValues : List ℕ)
  | freeze (failedProxy : ℕ) (round : ℤ) (fromZipper : Bool)
  | transferRequest (failedProxy : ℕ) (round : ℤ)
  | transfer (failedProxy : ℕ) (round : ℤ) (resp : Message)
  | freezeResponse (failedProxy : ℕ) (round : ℤ)
  | introduce (subscriber : Address)
  | snapshot
  | connect (connected : Bool)
  | replay
  | addSubscriber
  deriving DecidableEq

namespace Server

/-- A server starts with a worker for each subscriber of its configuration. -/
def init (liveness : ProxyLivenessTracker) (subscribers : List Address) : Server where
  store := .empty
  liveness := liveness
  freezeHandler := .init
  subscribers := subscribers
  workers := subscribers.zipIdx.foldl (fun workers entry => workers.insert entry.2 entry.1) ∅
  outbox := []
  pending := []
  introduction := none
  introduced := []
  frames := []

/-- `SubscriberBroadcaster::broadcast`. -/
def broadcast (s : Server) (wire : List UInt8) : Server :=
  { s with outbox := s.outbox ++ s.workers.entries.map fun e => (e.2, wire) }

/-- The APPEND and SKIP cases of `handle_connection`, up to the broadcast. -/
def handleAppend (s : Server) (wire : List UInt8) : Option Server :=
  match MessageHeader.peek (wire.drop 2) (wire.length - 2) with
  | .ok (some header) =>
    if header.type = MessageTypes.append.value ∨ header.type = MessageTypes.skip.value then
      if s.liveness.isBlocked header.senderId.toNat then some s
      else
        (s.liveness.removeTimeout header.senderId.toNat header.seqOrCount.toNat).map
          fun liveness =>
            { s with
              store := s.store.store header.senderId.toNat wire
              liveness := liveness
              pending := s.pending ++ [wire] }
    else none
  | _ => none

/-- The loop in `handle_freeze` over what a peer transfers. -/
def handleTransfer (s : Server) (failedProxy : ℕ) (resp : Message) : Server :=
  let wire := resp.serialize
  { s with store := s.store.store failedProxy wire }.broadcast wire

/-- One proxy of the snapshot. -/
def replayProxy (s : Server) (subscriber : Address) (proxyId : ℕ)
    (messages : List (List UInt8)) : Server :=
  if s.liveness.isBlocked proxyId then s
  else { s with outbox := s.outbox ++ messages.map (subscriber, ·) }

/-- Proxies send well-formed frames, and peers transfer what they have from proxies. -/
def step (serverId : UInt32) (s : Server) : ServerEvent → Option Server
  | .append wire =>
    (parseFrame wire).bind fun m =>
      (s.handleAppend wire).map fun t => { t with frames := t.frames ++ [m] }
  | .broadcast wire =>
    if wire ∈ s.pending then
      some ({ s with pending := s.pending.erase wire }.broadcast (patchSender serverId wire))
    else none
  | .zipResponse proxyId orderingValues =>
    some { s with liveness := s.liveness.updateTimeouts proxyId orderingValues }
  | .freeze failedProxy round fromZipper =>
    (s.freezeHandler.handleFreeze failedProxy round fromZipper).map fun freezeHandler =>
      { s with
        freezeHandler := freezeHandler
        liveness := s.liveness.setReconfiguring failedProxy }
  | .transferRequest failedProxy round =>
    (s.freezeHandler.handleTransferRequest failedProxy round).map fun freezeHandler =>
      { s with
        freezeHandler := freezeHandler
        liveness := s.liveness.setReconfiguring failedProxy }
  | .transfer failedProxy round resp =>
    if s.freezeHandler.handling.contains (failedProxy, round) ∧
        (resp.type = MessageTypes.append.value ∨ resp.type = MessageTypes.skip.value) then
      some { s.handleTransfer failedProxy resp with frames := s.frames ++ [resp] }
    else none
  | .freezeResponse failedProxy round =>
    some { s with freezeHandler := s.freezeHandler.finish failedProxy round }
  | .introduce subscriber =>
    if s.introduction = none then
      some { s with
        subscribers := s.subscribers ++ [subscriber]
        introduction := some (.recorded subscriber) }
    else none
  | .snapshot =>
    match s.introduction with
    | some (.recorded subscriber) =>
      some { s with introduction := some (.connecting subscriber s.store.messages.entries) }
    | _ => none
  | .connect connected =>
    match s.introduction with
    | some (.connecting subscriber snap) =>
      some (if connected then { s with introduction := some (.replaying subscriber snap snap) }
        else { s with introduction := none, introduced := s.introduced ++ [subscriber] })
    | _ => none
  | .replay =>
    match s.introduction with
    | some (.replaying subscriber snap (e :: rest)) =>
      some { s.replayProxy subscriber e.1 e.2 with
        introduction := some (.replaying subscriber snap rest) }
    | _ => none
  | .addSubscriber =>
    match s.introduction with
    | some (.replaying subscriber _ []) =>
      some { s with
        workers := s.workers.insert (s.subscribers.length - 1) subscriber
        introduction := none
        introduced := s.introduced ++ [subscriber] }
    | _ => none

/-! ## What a step does -/

variable {serverId : UInt32} {s t : Server}

/-- What `handle_connection` does with a frame of a proxy up to the broadcast. -/
theorem eq_of_append {wire : List UInt8}
    (hs : s.step serverId (.append wire) = some t) :
    ∃ m, parseFrame wire = some m ∧ (t = { s with frames := s.frames ++ [m] } ∨
      ∃ proxyId liveness, s.liveness.isBlocked proxyId = false ∧
        (∀ q, liveness.isBlocked q = s.liveness.isBlocked q) ∧
        t = { s with
          store := s.store.store proxyId wire
          liveness := liveness
          pending := s.pending ++ [wire]
          frames := s.frames ++ [m] }) := by
  obtain ⟨m, hm, hs⟩ := Option.bind_eq_some_iff.mp hs
  obtain ⟨u, hu, rfl⟩ := Option.map_eq_some_iff.mp hs
  unfold handleAppend at hu
  split at hu
  · split_ifs at hu with htype hblocked
    · cases hu
      exact ⟨m, hm, Or.inl rfl⟩
    · obtain ⟨liveness, hliveness, rfl⟩ := Option.map_eq_some_iff.mp hu
      exact ⟨m, hm, Or.inr ⟨_, liveness, Bool.eq_false_iff.mpr hblocked,
        ProxyLivenessTracker.isBlocked_removeTimeout hliveness, rfl⟩⟩
  · cases hu

theorem eq_of_broadcast {wire : List UInt8} (hs : s.step serverId (.broadcast wire) = some t) :
    wire ∈ s.pending ∧
      t = { s with pending := s.pending.erase wire }.broadcast (patchSender serverId wire) := by
  simp only [step] at hs
  split_ifs at hs with hpending
  cases hs
  exact ⟨hpending, rfl⟩

theorem eq_of_introduce {subscriber : Address}
    (hs : s.step serverId (.introduce subscriber) = some t) :
    s.introduction = none ∧ t = { s with
      subscribers := s.subscribers ++ [subscriber]
      introduction := some (.recorded subscriber) } := by
  simp only [step] at hs
  split_ifs at hs with hidle
  cases hs
  exact ⟨hidle, rfl⟩

theorem eq_of_snapshot (hs : s.step serverId .snapshot = some t) :
    ∃ subscriber, s.introduction = some (.recorded subscriber) ∧
      t = { s with introduction := some (.connecting subscriber s.store.messages.entries) } := by
  simp only [step] at hs
  split at hs
  · rename_i subscriber hintroduction
    cases hs
    exact ⟨subscriber, hintroduction, rfl⟩
  · cases hs

theorem eq_of_connect {connected : Bool} (hs : s.step serverId (.connect connected) = some t) :
    ∃ subscriber snap, s.introduction = some (.connecting subscriber snap) ∧
      t = if connected then { s with introduction := some (.replaying subscriber snap snap) }
        else { s with introduction := none, introduced := s.introduced ++ [subscriber] } := by
  simp only [step] at hs
  split at hs
  · rename_i subscriber snap hintroduction
    exact ⟨subscriber, snap, hintroduction, (Option.some.inj hs).symm⟩
  · cases hs

theorem eq_of_replay (hs : s.step serverId .replay = some t) :
    ∃ subscriber snap e rest, s.introduction = some (.replaying subscriber snap (e :: rest)) ∧
      t = { s.replayProxy subscriber e.1 e.2 with
        introduction := some (.replaying subscriber snap rest) } := by
  simp only [step] at hs
  split at hs
  · rename_i subscriber snap e rest hintroduction
    cases hs
    exact ⟨subscriber, snap, e, rest, hintroduction, rfl⟩
  · cases hs

theorem eq_of_addSubscriber (hs : s.step serverId .addSubscriber = some t) :
    ∃ subscriber snap, s.introduction = some (.replaying subscriber snap []) ∧
      t = { s with
        workers := s.workers.insert (s.subscribers.length - 1) subscriber
        introduction := none
        introduced := s.introduced ++ [subscriber] } := by
  simp only [step] at hs
  split at hs
  · rename_i subscriber snap hintroduction
    cases hs
    exact ⟨subscriber, snap, hintroduction, rfl⟩
  · cases hs

end Server

/-- A server, with its proxies, peers and subscribers. -/
def server (serverId : UInt32) (liveness : ProxyLivenessTracker) (subscribers : List Address) :
    Lts Server ServerEvent :=
  ⟨Server.init liveness subscribers, Server.step serverId⟩

end Ziplog
