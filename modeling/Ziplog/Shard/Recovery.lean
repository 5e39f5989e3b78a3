import Ziplog.Server.FreezeHandler
import Ziplog.Shard.Flow
import Ziplog.Zipper.ReconfigManager

/-!
# Recovery of a proxy

The shard together with the zipper's reconfiguration. A server that gets a FREEZE marks the proxy,
collects the proxy's frames from its peers and reports the largest number it has stored; the zipper
decides, and the skips it sends are stored by the servers like frames of the proxy. All of this
interleaves with the replication of the proxy, which may go on.

The main loop of the server does not call the freeze handler yet; the system has it called when the
zipper or a peer asks. The frames a server has answered on each connection, the numbers for which
`replicate_bytes` has returned true, and what each call of `send_freeze_complete` has copied of
`allocated_sequences` are recorded. No step depends on them; which call it is that copies is part of
the event, and a call copies once.
-/

namespace Ziplog

/-- A FREEZE_RESPONSE on its way to the zipper. -/
structure FreezeResponse (n : ℕ) where
  sender : Fin n
  failedProxy : ℕ
  round : ℕ
  seq : ℕ
  deriving DecidableEq

/-- The numbers that a call of `send_freeze_complete` has copied. -/
structure SkipCopy where
  call : Completion
  allocated : List ℕ
  deriving DecidableEq

/-- Answers reach the zipper through the system, and what a call copies is recorded there. -/
def ReconfigEvent.throughSystem : ReconfigEvent → Bool
  | .freezeResponse _ _ _ _ => true
  | .proceed (.sendFreezeComplete _ _) => true
  | _ => false

/-- The largest number of the proxy's frames in the store. -/
def ServerState.largestStored (sv : ServerState) (proxyId : ℕ) : ℕ :=
  (sv.store.stored proxyId).foldr (fun frame n => max frame.seq n) 0

def ServerState.setReconfiguring (sv : ServerState) (proxyId : ℕ) : ServerState :=
  { sv with liveness := sv.liveness.setReconfiguring proxyId }

/-- A frame received from a peer is stored for the failed proxy. -/
def ServerState.storeTransfer (sv : ServerState) (proxyId : ℕ) (frame : Frame) : ServerState :=
  { sv with store := sv.store.store proxyId frame }

/-- The skip of a number the zipper had allocated, as a frame of the proxy. -/
def skipFrame (proxyId seq : ℕ) : Frame := ⟨proxyId, seq, .skip⟩

structure RecoveryState (c : ShardConfig) where
  shard : ShardState c
  zipper : ReconfigState
  freezer : Fin c.servers → FreezeHandler
  responses : List (FreezeResponse c.servers)
  acked : Fin c.proxies × Fin c.servers → List Frame
  returned : List (Fin c.proxies × ℕ)
  /-- The calls that have copied nothing yet. -/
  pendingCalls : List Completion
  copies : List SkipCopy

inductive RecoveryEvent (c : ShardConfig)
  | shard (e : ShardEvent c)
  | zipper (e : ReconfigEvent)
  | freeze (j : Fin c.servers) (failedProxy round : ℕ)
  | transferRequest (i j : Fin c.servers) (failedProxy round : ℕ)
  | transfer (i j : Fin c.servers) (failedProxy round : ℕ) (frame : Frame)
  | respond (j : Fin c.servers) (failedProxy round : ℕ)
  | deliver (r : FreezeResponse c.servers)
  | copy (call : Completion)
  | skip (j : Fin c.servers) (senderId seq : ℕ)

/-- The frame a step answers. -/
def ShardState.newAcked {c : ShardConfig} (s : ShardState c) (k : Fin c.proxies × Fin c.servers) :
    ShardEvent c → List Frame
  | .ack p j => if k = (p, j) then (s.link (p, j)).wire.head?.toList else []
  | _ => []

/-- The number for which a step, to the state `s`, lets `replicate_bytes` return true. -/
def ShardState.newReturned {c : ShardConfig} (s : ShardState c) :
    ShardEvent c → List (Fin c.proxies × ℕ)
  | .pollAcks p =>
    match (s.proxy p).call, (s.proxy p).batches.getLast? with
    | .returned true, some b => [(p, b.frame.seq)]
    | _, _ => []
  | _ => []

namespace RecoveryState

variable {c : ShardConfig}

def init (addresses : Fin c.proxies → Address) : RecoveryState c where
  shard := .init
  zipper := .init (List.ofFn addresses)
  freezer := fun _ => .init
  responses := []
  acked := fun _ => []
  returned := []
  pendingCalls := []
  copies := []

def setFreezer (s : RecoveryState c) (j : Fin c.servers) (h : FreezeHandler) : RecoveryState c :=
  { s with freezer := Function.update s.freezer j h }

def setServer (s : RecoveryState c) (j : Fin c.servers) (sv : ServerState) : RecoveryState c :=
  { s with shard := s.shard.setServer j sv }

/-- A frame goes to every subscriber's worker. -/
def broadcast (s : RecoveryState c) (j : Fin c.servers) (frame : Frame) : RecoveryState c :=
  { s with
    shard := { s.shard with
      feed := fun k => if k.1 = j then (s.shard.feed k).push frame else s.shard.feed k } }

def runShard (s : RecoveryState c) (e : ShardEvent c) (sh : ShardState c) : RecoveryState c :=
  { s with
    shard := sh
    acked := fun k => s.acked k ++ s.shard.newAcked k e
    returned := s.returned ++ sh.newReturned e }

/-- The server enters a round, if it does, and marks the proxy. -/
def enterRound (s : RecoveryState c) (j : Fin c.servers) (failedProxy : ℕ) :
    Option FreezeHandler → RecoveryState c
  | none => s
  | some h => (s.setServer j ((s.shard.server j).setReconfiguring failedProxy)).setFreezer j h

def step (s : RecoveryState c) : RecoveryEvent c → Option (RecoveryState c)
  | .shard e => (s.shard.step e).map (s.runShard e)
  | .zipper e =>
    if e.throughSystem then none
    else (s.zipper.step c.quorum e).map fun z => { s with zipper := z }
  | .freeze j p round =>
    if (s.shard.server j).crashed ∨ .freeze p round ∉ s.zipper.sent then none
    else some (s.enterRound j p ((s.freezer j).handleFreeze p round true))
  | .transferRequest i j p round =>
    if (s.shard.server i).crashed ∨ i = j ∨ (p, (round : ℤ)) ∉ (s.freezer j).handling then none
    else some (s.enterRound i p ((s.freezer i).handleTransferRequest p round))
  | .transfer i j p round frame =>
    if (s.shard.server j).crashed ∨ i = j ∨ (p, (round : ℤ)) ∉ (s.freezer j).handling ∨
        frame ∉ (s.shard.server i).store.stored p then none
    else some ((s.setServer j ((s.shard.server j).storeTransfer p frame)).broadcast j frame)
  | .respond j p round =>
    if (s.shard.server j).crashed ∨ (p, (round : ℤ)) ∉ (s.freezer j).handling then none
    else
      let response := ⟨j, p, round, (s.shard.server j).largestStored p⟩
      some { s.setFreezer j ((s.freezer j).finish p round) with
        responses := s.responses ++ [response] }
  | .deliver r =>
    if r ∈ s.responses then
      (s.zipper.step c.quorum (.freezeResponse r.sender r.failedProxy r.round r.seq)).map fun z =>
        { s with
          zipper := z
          responses := s.responses.erase r
          pendingCalls := s.pendingCalls ++ z.completions.drop s.zipper.completions.length }
    else none
  | .copy call =>
    if call ∈ s.pendingCalls then
      (s.zipper.registry.lookup call.failedProxy).bind fun st =>
        (s.zipper.step c.quorum
          (.proceed (.sendFreezeComplete call.failedProxy call.lastSeq))).map fun z =>
            { s with
              zipper := z
              pendingCalls := s.pendingCalls.erase call
              copies := s.copies ++ [⟨call, st.allocatedSequences⟩] }
    else none
  | .skip j p seq =>
    if (s.shard.server j).crashed ∨ .skip p seq ∉ s.zipper.sent then none
    else if (s.shard.server j).liveness.isBlocked p then some s
    else some ((s.setServer j ((s.shard.server j).storeFrame (skipFrame p seq))).broadcast j
      { skipFrame p seq with senderId := j })

end RecoveryState

def recovery (c : ShardConfig) (addresses : Fin c.proxies → Address) :
    Lts (RecoveryState c) (RecoveryEvent c) :=
  ⟨RecoveryState.init addresses, RecoveryState.step⟩

namespace RecoveryState

variable {c : ShardConfig} {s t : RecoveryState c}

/-! ## What a step does -/

/-- The steps: one of the shard, one of the zipper, an answer that reaches the zipper, a call that
copies the numbers allocated, or one of the freeze handlers, which leaves the proxies and their
connections alone. -/
inductive Effect (s : RecoveryState c) : RecoveryEvent c → RecoveryState c → Prop
  | shard {e : ShardEvent c} {sh : ShardState c} (hsh : s.shard.step e = some sh) :
      Effect s (.shard e) (s.runShard e sh)
  | zipper {e : ReconfigEvent} {z : ReconfigState} (he : e.throughSystem = false)
      (hz : s.zipper.step c.quorum e = some z) : Effect s (.zipper e) { s with zipper := z }
  | deliver {r : FreezeResponse c.servers} {z : ReconfigState} (hr : r ∈ s.responses)
      (hz : s.zipper.step c.quorum
        (.freezeResponse r.sender r.failedProxy r.round r.seq) = some z) :
      Effect s (.deliver r) { s with
        zipper := z
        responses := s.responses.erase r
        pendingCalls := s.pendingCalls ++ z.completions.drop s.zipper.completions.length }
  | copy {call : Completion} {st : ProxyState} {z : ReconfigState} (hcall : call ∈ s.pendingCalls)
      (hst : s.zipper.registry.lookup call.failedProxy = some st)
      (hz : s.zipper.step c.quorum
        (.proceed (.sendFreezeComplete call.failedProxy call.lastSeq)) = some z) :
      Effect s (.copy call) { s with
        zipper := z
        pendingCalls := s.pendingCalls.erase call
        copies := s.copies ++ [⟨call, st.allocatedSequences⟩] }
  | freezer {e : RecoveryEvent c} {t : RecoveryState c} (hproxy : t.shard.proxy = s.shard.proxy)
      (hlink : t.shard.link = s.shard.link) (hzipper : t.zipper = s.zipper)
      (hacked : t.acked = s.acked) (hreturned : t.returned = s.returned)
      (hpending : t.pendingCalls = s.pendingCalls) (hcopies : t.copies = s.copies) : Effect s e t

theorem effect_enterRound (s : RecoveryState c) (e : RecoveryEvent c) (j : Fin c.servers) (p : ℕ)
    (h : Option FreezeHandler) : Effect s e (s.enterRound j p h) := by
  cases h <;> exact .freezer rfl rfl rfl rfl rfl rfl rfl

theorem effect_of_step {e : RecoveryEvent c} (h : s.step e = some t) : Effect s e t := by
  cases e with
  | shard e =>
    obtain ⟨sh, hsh, rfl⟩ := Option.map_eq_some_iff.mp h
    exact .shard hsh
  | zipper e =>
    simp only [step] at h
    split_ifs at h with he
    obtain ⟨z, hz, rfl⟩ := Option.map_eq_some_iff.mp h
    exact .zipper (by simpa using he) hz
  | freeze j p round | transferRequest i j p round =>
    simp only [step] at h
    split_ifs at h
    cases h
    exact effect_enterRound _ _ _ _ _
  | transfer i j p round frame | respond j p round =>
    simp only [step] at h
    split_ifs at h
    cases h
    exact .freezer rfl rfl rfl rfl rfl rfl rfl
  | deliver r =>
    simp only [step] at h
    split_ifs at h with hr
    obtain ⟨z, hz, rfl⟩ := Option.map_eq_some_iff.mp h
    exact .deliver hr hz
  | copy call =>
    simp only [step] at h
    split_ifs at h with hcall
    obtain ⟨st, hst, h⟩ := Option.bind_eq_some_iff.mp h
    obtain ⟨z, hz, rfl⟩ := Option.map_eq_some_iff.mp h
    exact .copy hcall hst hz
  | skip j p seq =>
    simp only [step] at h
    split_ifs at h <;> cases h
    · exact .freezer rfl rfl rfl rfl rfl rfl rfl
    · exact .freezer rfl rfl rfl rfl rfl rfl rfl

end RecoveryState

end Ziplog
