import Ziplog.Api.NetworkUtils
import Ziplog.Proxy.SendOutBatch

/-!
# The clients of a proxy

Each client connection has a thread that reads frames and pushes their commands into the client
buffer, under the number of its socket. The timer thread drains the buffer, replicates the batch and
sends the result to the numbers that it drained. When a client leaves, its thread closes the socket
and takes the number out of the buffer in a later step; from the close on, the number may be given
to a new connection.

A push that the buffer admits can still be written outside its block, and its data can lie outside
the read buffer. `proxyWithFaults` ends in a fault there; `proxy` are its runs without one.

A connection is known by its position in `connections`. Recorded only are what was consumed and
received on it, the commands in the buffer with the connections they came on (`waiting`, and `batch`
for those drained last), the batches taken out of the buffer, and the results of `replicate_bytes`.
`payload_eq` says that the commands recorded are those that go out.
-/

namespace Ziplog

open ClientBufferManager

/-- The thread of a connection is in its loop, has closed the socket, or has removed it too. -/
inductive ConnectionPhase
  | reading
  | closed
  | finished
  deriving DecidableEq

/-- The FAILURE of an unregistered proxy, or the response to a batch. -/
inductive ClientResponse
  | unregistered
  | batch (number : ℕ) (success : Bool)
  deriving DecidableEq

/-- The number and the result of the batch that is answered. -/
def ClientResponse.batch? : ClientResponse → Option (ℕ × Bool)
  | .unregistered => none
  | .batch number success => some (number, success)

structure ClientConnection where
  socket : ℕ
  phase : ConnectionPhase
  /-- The APPEND frames, with the command where one was pushed. -/
  consumed : List (Option Command)
  received : List ClientResponse
  deriving DecidableEq

namespace ClientConnection

def init (socket : ℕ) : ClientConnection := ⟨socket, .reading, [], []⟩

/-- The responses to batches. -/
def answers (c : ClientConnection) : List (ℕ × Bool) := c.received.filterMap ClientResponse.batch?

/-- Bytes sent to a number reach the connection if it has the number open. -/
def receive (c : ClientConnection) (socket : ℕ) (response : ClientResponse) : ClientConnection :=
  if c.phase = .reading ∧ c.socket = socket then
    { c with received := c.received ++ [response] }
  else c

@[simp] theorem socket_receive (c : ClientConnection) (socket : ℕ) (response : ClientResponse) :
    (c.receive socket response).socket = c.socket := by
  unfold receive
  split_ifs <;> rfl

@[simp] theorem phase_receive (c : ClientConnection) (socket : ℕ) (response : ClientResponse) :
    (c.receive socket response).phase = c.phase := by
  unfold receive
  split_ifs <;> rfl

theorem answers_receive (c : ClientConnection) (socket number : ℕ) (success : Bool) :
    (c.receive socket (.batch number success)).answers =
      if c.phase = .reading ∧ c.socket = socket then c.answers ++ [(number, success)]
      else c.answers := by
  unfold receive
  split_ifs
  · exact List.filterMap_append
  · rfl

end ClientConnection

structure Proxy where
  source : BatchSource
  registered : Bool
  connections : List ClientConnection
  /-- The numbers drained with the batch, less those that were sent the result. -/
  clients : Finset ℕ
  /-- The result that is being sent. -/
  responding : Option Bool
  waiting : List (ℕ × Command)
  batch : List (ℕ × Command)
  batches : List (List (ℕ × Command))
  results : List Bool

inductive ProxyEvent
  | accept (socket : ℕ)
  | frame (i : ℕ) (mem : List UInt8) (msgLen : ℕ)
  | hangUp (i : ℕ)
  | remove (i : ℕ)
  | drain
  | copy
  | release
  | replicate (success : Bool)
  | respond (socket : ℕ)
  | finish
  deriving DecidableEq

/-- `data_len` of an APPEND frame. -/
def appendDataLen (mem : List UInt8) : Except MemFault ℕ :=
  (fetch mem 20 4).map fun netDataLen => (ntohl (load32 netDataLen)).toNat

/-- The header is that of an APPEND frame. -/
def isAppend (mem : List UInt8) (msgLen : ℕ) : Bool :=
  match MessageHeader.peek mem msgLen with
  | .ok (some header) => header.type = MessageTypes.append.value
  | _ => false

namespace Proxy

def init (registered : Bool) : Proxy where
  source := .init
  registered := registered
  connections := []
  clients := ∅
  responding := none
  waiting := []
  batch := []
  batches := []
  results := []

/-- `participating_`. -/
abbrev participating (s : Proxy) : Finset ℕ := s.source.manager.participating

def setConnection (s : Proxy) (i : ℕ) (c : ClientConnection) : Proxy :=
  { s with connections := s.connections.set i c }

/-- The APPEND case of `handle_connection`; what `push_raw` returns is not looked at. -/
def handleAppend (s : Proxy) (i : ℕ) (c : ClientConnection) (mem : List UInt8) (msgLen : ℕ) :
    Except MemFault Proxy :=
  let dropped := s.setConnection i { c with consumed := c.consumed ++ [none] }
  if s.registered then
    if msgLen < 24 then .ok dropped
    else
      match appendDataLen mem with
      | .error fault => .error fault
      | .ok dataLen =>
        -- `push_raw` reads the data when there is room for them
        if capacity < s.source.manager.used + (4 + dataLen) then .ok dropped
        else
          match fetch mem 24 dataLen with
          | .error fault => .error fault
          | .ok data =>
            match s.source.manager.pushRaw c.socket data with
            | .error fault => .error fault
            | .ok (false, _) => .ok dropped
            | .ok (true, m) =>
              .ok { s.setConnection i { c with consumed := c.consumed ++ [some data] } with
                source := { s.source with manager := m, accepted := s.source.accepted ++ [data] }
                waiting := s.waiting ++ [(i, data)] }
  else
    .ok (s.setConnection i { c with
      consumed := c.consumed ++ [none]
      received := c.received ++ [.unregistered] })

/-- One frame in the loop of `handle_connection`; without a header the loop ends. -/
def handleFrame (s : Proxy) (i : ℕ) (c : ClientConnection) (mem : List UInt8) (msgLen : ℕ) :
    Except MemFault Proxy :=
  match MessageHeader.peek mem msgLen with
  | .error fault => .error fault
  | .ok none => .ok (s.setConnection i { c with phase := .closed })
  | .ok (some header) =>
    if header.type = MessageTypes.append.value then s.handleAppend i c mem msgLen
    else if header.type = MessageTypes.includeProxy.value then .ok { s with registered := true }
    else if header.type = MessageTypes.freeze.value then .ok { s with registered := false }
    else .ok s

/-- The thread of a connection takes a frame of `msgLen` bytes; `mem` is its read buffer from there
on. -/
def receive (s : Proxy) (i : ℕ) (mem : List UInt8) (msgLen : ℕ) : Option (Except MemFault Proxy) :=
  match s.connections[i]? with
  | some c =>
    if c.phase = .reading ∧ msgLen ≤ mem.length then some (s.handleFrame i c mem msgLen) else none
  | none => none

/-- `send_bytes_raw` to a number of the batch. -/
def deliver (s : Proxy) (socket : ℕ) (response : ClientResponse) : Proxy :=
  { s with connections := s.connections.map (·.receive socket response) }

theorem getElem?_deliver {s : Proxy} {socket : ℕ} {response : ClientResponse} {i : ℕ}
    {c' : ClientConnection} : (s.deliver socket response).connections[i]? = some c' ↔
      ∃ c, s.connections[i]? = some c ∧ c.receive socket response = c' := by
  unfold deliver
  rw [List.getElem?_map, Option.map_eq_some_iff]

/-- A number that is open is not given out. The order in which the loop over the clients visits them
is left open. -/
def step (s : Proxy) : ProxyEvent → Option Proxy
  | .accept socket =>
    if ∀ c ∈ s.connections, c.phase = .reading → c.socket ≠ socket then
      some { s with connections := s.connections ++ [.init socket] }
    else none
  | .frame i mem msgLen =>
    match s.receive i mem msgLen with
    | some (.ok t) => some t
    | _ => none
  | .hangUp i =>
    match s.connections[i]? with
    | some c =>
      if c.phase = .reading then some (s.setConnection i { c with phase := .closed }) else none
    | none => none
  | .remove i =>
    match s.connections[i]? with
    | some c =>
      if c.phase = .closed then
        (s.source.step (.remove c.socket)).map fun source =>
          { s.setConnection i { c with phase := .finished } with source := source }
      else none
    | none => none
  | .drain =>
    if s.responding = none then
      (s.source.step .drain).map fun source =>
        { s with
          source := source
          clients := s.source.manager.participating
          batch := s.waiting
          waiting := [] }
    else none
  | .copy => (s.source.step .copy).map fun source => { s with source := source }
  | .release =>
    (s.source.step .release).map fun source =>
      -- a SKIP leaves what was drained in the buffer
      if s.clients = ∅ then
        { s with
          source := source
          batch := []
          waiting := s.batch ++ s.waiting
          batches := s.batches ++ [[]] }
      else { s with source := source, batches := s.batches ++ [s.batch] }
  | .replicate success =>
    (s.source.step .handOver).map fun source =>
      { s with
        source := source
        results := s.results ++ [success]
        responding := some success }
  | .respond socket =>
    match s.responding with
    | some success =>
      if socket ∈ s.clients then
        some { s.deliver socket (.batch (s.results.length - 1) success) with
          clients := s.clients.erase socket }
      else none
    | none => none
  | .finish =>
    if s.responding ≠ none ∧ s.clients = ∅ then
      some { s with responding := none, batch := [] }
    else none

/-- A frame whose command is read from outside the read buffer, or written outside the block. -/
def fault? (s : Proxy) : ProxyEvent → Option MemFault
  | .frame i mem msgLen =>
    match s.receive i mem msgLen with
    | some (.error fault) => some fault
    | _ => none
  | _ => none

end Proxy

/-- A proxy and its clients, as long as no access to memory goes wrong. -/
def proxy (registered : Bool) : Lts Proxy ProxyEvent := ⟨Proxy.init registered, Proxy.step⟩

/-- A proxy and its clients, and the accesses to memory that go wrong. -/
def proxyWithFaults (registered : Bool) : Lts (Except MemFault Proxy) ProxyEvent :=
  (proxy registered).withFaults Proxy.fault?

namespace Proxy

variable {registered : Bool} {s t : Proxy}

/-! ## The steps -/

/-- The buffer admits a command of this length. -/
def Admits (s : Proxy) (dataLen : ℕ) : Prop := s.source.manager.used + (4 + dataLen) ≤ capacity

/-- The data lie in the read buffer, and the block has room for them at the write position. -/
def InBlock (s : Proxy) (mem : List UInt8) (dataLen : ℕ) : Prop :=
  24 + dataLen ≤ mem.length ∧ s.source.manager.writePos + (4 + dataLen) ≤ capacity

instance (s : Proxy) (dataLen : ℕ) : Decidable (s.Admits dataLen) :=
  inferInstanceAs (Decidable (_ ≤ _))

instance (s : Proxy) (mem : List UInt8) (dataLen : ℕ) : Decidable (s.InBlock mem dataLen) :=
  inferInstanceAs (Decidable (_ ∧ _))

/-- What `data_len` of a frame meets. -/
instance (mem : List UInt8) (p : ℕ → Prop) [DecidablePred p] :
    Decidable (∀ dataLen, appendDataLen mem = .ok dataLen → p dataLen) :=
  match appendDataLen mem with
  | .ok dataLen => decidable_of_iff (p dataLen) (by simp)
  | .error _ => .isTrue (by simp)

/-- The frame carries a command, the buffer has room for it, and its bytes are read and written
where they should be. -/
def Fits (s : Proxy) (mem : List UInt8) (msgLen : ℕ) : Prop :=
  24 ≤ msgLen ∧ ∀ dataLen, appendDataLen mem = .ok dataLen →
    s.Admits dataLen ∧ s.InBlock mem dataLen

instance (s : Proxy) (mem : List UInt8) (msgLen : ℕ) : Decidable (s.Fits mem msgLen) :=
  inferInstanceAs (Decidable (_ ∧ _))

/-- What the buffer admits is read and written where it should be. -/
def InMemory (s : Proxy) : ProxyEvent → Prop
  | .frame _ mem msgLen =>
    isAppend mem msgLen = true → s.registered = true → 24 ≤ msgLen →
      ∀ dataLen, appendDataLen mem = .ok dataLen → s.Admits dataLen → s.InBlock mem dataLen
  | _ => True

instance (s : Proxy) (e : ProxyEvent) : Decidable (s.InMemory e) :=
  match e with
  | .frame _ mem msgLen => inferInstanceAs (Decidable (isAppend mem msgLen = true →
      s.registered = true → 24 ≤ msgLen →
        ∀ dataLen, appendDataLen mem = .ok dataLen → s.Admits dataLen → s.InBlock mem dataLen))
  | .accept _ | .hangUp _ | .remove _ | .drain | .copy | .release | .replicate _ | .respond _
  | .finish => .isTrue trivial

/-- What each step does. A frame is answered at once, or consumed without an answer, or pushed, or
ends the loop, or registers the proxy or ends its registration. -/
inductive Effect (s : Proxy) : ProxyEvent → Proxy → Prop
  | accepted {socket : ℕ} (hnew : ∀ c ∈ s.connections, c.phase = .reading → c.socket ≠ socket) :
      Effect s (.accept socket) { s with connections := s.connections ++ [.init socket] }
  | refused {i : ℕ} {c : ClientConnection} {mem : List UInt8} {msgLen : ℕ}
      (hc : s.connections[i]? = some c) (hreading : c.phase = .reading)
      (happend : isAppend mem msgLen = true) (hunregistered : s.registered = false) :
      Effect s (.frame i mem msgLen) (s.setConnection i { c with
        consumed := c.consumed ++ [none]
        received := c.received ++ [.unregistered] })
  | dropped {i : ℕ} {c : ClientConnection} {mem : List UInt8} {msgLen : ℕ}
      (hc : s.connections[i]? = some c) (hreading : c.phase = .reading)
      (happend : isAppend mem msgLen = true) (hregistered : s.registered = true)
      (hlost : ¬ s.Fits mem msgLen) :
      Effect s (.frame i mem msgLen)
        (s.setConnection i { c with consumed := c.consumed ++ [none] })
  | pushed {i : ℕ} {c : ClientConnection} {mem : List UInt8} {msgLen dataLen : ℕ} {data : Command}
      {m : ClientBufferManager} (hc : s.connections[i]? = some c) (hreading : c.phase = .reading)
      (happend : isAppend mem msgLen = true) (hfits : s.Fits mem msgLen)
      (hdataLen : appendDataLen mem = .ok dataLen) (hdata : fetch mem 24 dataLen = .ok data)
      (hpush : s.source.manager.pushRaw c.socket data = .ok (true, m)) :
      Effect s (.frame i mem msgLen)
        { s.setConnection i { c with consumed := c.consumed ++ [some data] } with
          source := { s.source with manager := m, accepted := s.source.accepted ++ [data] }
          waiting := s.waiting ++ [(i, data)] }
  | ended {i : ℕ} {c : ClientConnection} {mem : List UInt8} {msgLen : ℕ}
      (hc : s.connections[i]? = some c) (hreading : c.phase = .reading)
      (happend : isAppend mem msgLen = false) :
      Effect s (.frame i mem msgLen) (s.setConnection i { c with phase := .closed })
  | flagged {i : ℕ} {mem : List UInt8} {msgLen : ℕ} (flag : Bool)
      (happend : isAppend mem msgLen = false) :
      Effect s (.frame i mem msgLen) { s with registered := flag }
  | hungUp {i : ℕ} {c : ClientConnection} (hc : s.connections[i]? = some c)
      (hreading : c.phase = .reading) :
      Effect s (.hangUp i) (s.setConnection i { c with phase := .closed })
  | removed {i : ℕ} {c : ClientConnection} (hc : s.connections[i]? = some c)
      (hclosed : c.phase = .closed) :
      Effect s (.remove i) { s.setConnection i { c with phase := .finished } with
        source := { s.source with manager := s.source.manager.remove c.socket } }
  | drained (hresponding : s.responding = none) (hphase : s.source.phase = .idle) :
      Effect s .drain { s with
        source := { s.source with
          manager := s.source.manager.drain.2
          phase := .drained s.source.manager.drain.1
            (s.source.accepted.drop s.source.sent.flatten.length) }
        clients := s.source.manager.participating
        batch := s.waiting
        waiting := [] }
  | copied {r : DrainResult} {commands : List Command}
      (hphase : s.source.phase = .drained r commands) :
      Effect s .copy { s with
        source := { s.source with
          phase := .copied r commands (buildPayload s.source.manager r) } }
  | skipped {r : DrainResult} {commands : List Command} {payload : Payload}
      {m : ClientBufferManager} (hphase : s.source.phase = .copied r commands payload)
      (hm : m.participating = s.source.manager.participating) (hnone : s.clients = ∅) :
      Effect s .release { s with
        source := { s.source with
          manager := m
          phase := .released r payload
          sent := s.source.sent ++ [taken r commands] }
        batch := []
        waiting := s.batch ++ s.waiting
        batches := s.batches ++ [[]] }
  | released {r : DrainResult} {commands : List Command} {payload : Payload}
      {m : ClientBufferManager} (hphase : s.source.phase = .copied r commands payload)
      (hm : m.participating = s.source.manager.participating) (hsome : s.clients ≠ ∅) :
      Effect s .release { s with
        source := { s.source with
          manager := m
          phase := .released r payload
          sent := s.source.sent ++ [taken r commands] }
        batches := s.batches ++ [s.batch] }
  | replicated {r : DrainResult} {payload : Payload} {success : Bool}
      (hphase : s.source.phase = .released r payload) :
      Effect s (.replicate success) { s with
        source := { s.source with phase := .idle }
        results := s.results ++ [success]
        responding := some success }
  | responded {socket : ℕ} {success : Bool} (hresponding : s.responding = some success)
      (hsocket : socket ∈ s.clients) :
      Effect s (.respond socket)
        { s.deliver socket (.batch (s.results.length - 1) success) with
          clients := s.clients.erase socket }
  | finished (hresponding : s.responding ≠ none) (hclients : s.clients = ∅) :
      Effect s .finish { s with responding := none, batch := [] }

/-- A frame is that of a connection whose thread is in its loop. -/
theorem receive_eq_some {i : ℕ} {mem : List UInt8} {msgLen : ℕ} {o : Except MemFault Proxy} :
    s.receive i mem msgLen = some o ↔ ∃ c, s.connections[i]? = some c ∧
      (c.phase = .reading ∧ msgLen ≤ mem.length) ∧ s.handleFrame i c mem msgLen = o := by
  unfold receive
  cases hc : s.connections[i]? with
  | none => exact iff_of_false (by rintro ⟨⟩) (by rintro ⟨c, ⟨⟩, -⟩)
  | some c =>
    simp only
    split_ifs with hreading
    · refine ⟨fun ho => ⟨c, rfl, hreading, Option.some_inj.mp ho⟩, ?_⟩
      rintro ⟨d, hd, -, rfl⟩
      cases hd
      rfl
    · refine iff_of_false (by rintro ⟨⟩) ?_
      rintro ⟨d, hd, hd', -⟩
      cases hd
      exact hreading hd'

theorem receive_of_step {i : ℕ} {mem : List UInt8} {msgLen : ℕ}
    (hs : s.step (.frame i mem msgLen) = some t) : ∃ c, s.connections[i]? = some c ∧
      (c.phase = .reading ∧ msgLen ≤ mem.length) ∧ s.handleFrame i c mem msgLen = .ok t := by
  simp only [step] at hs
  split at hs
  · rename_i u hu
    cases hs
    exact receive_eq_some.mp hu
  · cases hs

/-- A step that is taken ends in no fault. -/
theorem fault?_eq_none_of_step {e : ProxyEvent} (hs : s.step e = some t) : s.fault? e = none := by
  cases e with
  | frame i mem msgLen =>
    simp only [step] at hs
    split at hs
    · rename_i u hu
      simp only [fault?, hu]
    · cases hs
  | _ => rfl

/-- The APPEND case stays in memory. -/
theorem exists_handleAppend {i : ℕ} {c : ClientConnection} {mem : List UInt8} {msgLen : ℕ}
    (hlen : msgLen ≤ mem.length) (hin : s.registered = true → 24 ≤ msgLen → ∀ dataLen,
      appendDataLen mem = .ok dataLen → s.Admits dataLen → s.InBlock mem dataLen) :
    ∃ t, s.handleAppend i c mem msgLen = .ok t := by
  simp only [handleAppend]
  split_ifs with hregistered hshort
  · exact ⟨_, rfl⟩
  · have hfetch : appendDataLen mem = .ok (ntohl (load32 (Cells.slice mem 20 4))).toNat := by
      rw [appendDataLen, fetch_eq_ok (by omega)]
      rfl
    rw [hfetch]
    simp only
    split_ifs with hfull
    · exact ⟨_, rfl⟩
    · obtain ⟨hdata, hpos⟩ := hin hregistered (Nat.le_of_not_lt hshort) _ hfetch
        (Nat.le_of_not_lt hfull)
      have hslice := Cells.length_slice hdata
      rw [fetch_eq_ok hdata]
      simp only
      rw [pushRaw_eq (by omega) (by omega)]
      exact ⟨_, rfl⟩
  · exact ⟨_, rfl⟩

/-- **No fault** where what the buffer admits is read and written where it should be. -/
theorem InMemory.fault?_eq_none {e : ProxyEvent} (h : s.InMemory e) : s.fault? e = none := by
  cases e with
  | frame i mem msgLen =>
    cases ho : s.receive i mem msgLen with
    | none => simp only [fault?, ho]
    | some o =>
      obtain ⟨c, hc, ⟨hreading, hlen⟩, rfl⟩ := receive_eq_some.mp ho
      suffices hok : ∃ t, s.handleFrame i c mem msgLen = .ok t by
        obtain ⟨t, ht⟩ := hok
        simp only [fault?, ho, ht]
      obtain ⟨header, hpeek⟩ := MessageHeader.exists_peek hlen
      unfold handleFrame
      rw [hpeek]
      cases header with
      | none => exact ⟨_, rfl⟩
      | some header =>
        simp only
        split_ifs with happend
        · exact exists_handleAppend hlen (h (by rw [isAppend, hpeek]; exact decide_eq_true happend))
        · exact ⟨_, rfl⟩
        · exact ⟨_, rfl⟩
        · exact ⟨_, rfl⟩
  | _ => rfl

/-- A run in which all is read and written where it should be has no fault. -/
theorem exists_ok {guard : Proxy → ProxyEvent → Prop} {x : Except MemFault Proxy}
    (hin : ∀ s e, guard s e → s.InMemory e)
    (h : (proxyWithFaults registered).ReachVia (Lts.BeforeFault guard) x) :
    ∃ s, x = .ok s ∧ (proxy registered).ReachVia guard s :=
  h.exists_ok fun s e hg => (hin s e hg).fault?_eq_none

theorem reach_withFaults {guard : Proxy → ProxyEvent → Prop}
    (h : (proxy registered).ReachVia guard s) :
    (proxyWithFaults registered).ReachVia (Lts.BeforeFault guard) (.ok s) :=
  h.withFaults fun _ _ _ => fault?_eq_none_of_step

/-- What the APPEND case does. -/
theorem effect_append {i : ℕ} {c : ClientConnection} {mem : List UInt8} {msgLen : ℕ}
    (hc : s.connections[i]? = some c) (hreading : c.phase = .reading)
    (happend : isAppend mem msgLen = true) (hs : s.handleAppend i c mem msgLen = .ok t) :
    Effect s (.frame i mem msgLen) t := by
  simp only [handleAppend] at hs
  split_ifs at hs with hregistered hshort
  · cases hs
    exact .dropped hc hreading happend hregistered fun hfits => Nat.not_lt.mpr hfits.1 hshort
  · split at hs
    · cases hs
    · rename_i dataLen hdataLen
      split_ifs at hs with hfull
      · cases hs
        exact .dropped hc hreading happend hregistered fun hfits =>
          Nat.not_lt.mpr (hfits.2 dataLen hdataLen).1 hfull
      · split at hs
        · cases hs
        · rename_i data hdata
          have hlen := length_fetch hdata
          split at hs
          · cases hs
          · rename_i hpush
            exact absurd (full_of_pushRaw hpush) (hlen ▸ hfull)
          · rename_i m hpush
            cases hs
            refine .pushed hc hreading happend ⟨Nat.not_lt.mp hshort, fun len hlen' => ?_⟩ hdataLen
              hdata hpush
            cases hdataLen.symm.trans hlen'
            exact ⟨Nat.not_lt.mp hfull, le_length_of_fetch hdata, hlen ▸ writePos_of_pushRaw hpush⟩
  · cases hs
    exact .refused hc hreading happend (Bool.eq_false_iff.mpr hregistered)

/-- What a frame of a connection does. -/
theorem effect_frame {i : ℕ} {mem : List UInt8} {msgLen : ℕ}
    (hs : s.step (.frame i mem msgLen) = some t) : Effect s (.frame i mem msgLen) t := by
  obtain ⟨c, hc, ⟨hreading, -⟩, hs⟩ := receive_of_step hs
  unfold handleFrame at hs
  split at hs
  · cases hs
  · rename_i hpeek
    cases hs
    exact .ended hc hreading (by rw [isAppend, hpeek])
  · rename_i header hpeek
    have hkind : isAppend mem msgLen = decide (header.type = MessageTypes.append.value) := by
      rw [isAppend, hpeek]
    split_ifs at hs with happend hinclude hfreeze
    · exact effect_append hc hreading (hkind.trans (decide_eq_true happend)) hs
    · cases hs
      exact .flagged true (hkind.trans (decide_eq_false happend))
    · cases hs
      exact .flagged false (hkind.trans (decide_eq_false happend))
    · cases hs
      exact .flagged s.registered (hkind.trans (decide_eq_false happend))

/-- Every step has its effect. -/
theorem effect_of_step {e : ProxyEvent} (hs : s.step e = some t) : Effect s e t := by
  cases e with
  | accept socket =>
    simp only [step] at hs
    split_ifs at hs with hnew
    cases hs
    exact .accepted hnew
  | frame i mem msgLen => exact effect_frame hs
  | hangUp i =>
    simp only [step] at hs
    split at hs
    · rename_i c hc
      split_ifs at hs with hreading
      cases hs
      exact .hungUp hc hreading
    · cases hs
  | remove i =>
    simp only [step] at hs
    split at hs
    · rename_i c hc
      split_ifs at hs with hclosed
      cases hs
      exact .removed hc hclosed
    · cases hs
  | drain =>
    simp only [step] at hs
    split_ifs at hs with hresponding
    obtain ⟨source, hsource, rfl⟩ := Option.map_eq_some_iff.mp hs
    simp only [BatchSource.step] at hsource
    split at hsource <;> cases hsource
    exact .drained hresponding (by assumption)
  | copy =>
    obtain ⟨source, hsource, rfl⟩ := Option.map_eq_some_iff.mp hs
    simp only [BatchSource.step] at hsource
    split at hsource <;> cases hsource
    exact .copied (by assumption)
  | release =>
    obtain ⟨source, hsource, ht⟩ := Option.map_eq_some_iff.mp hs
    simp only [BatchSource.step] at hsource
    split at hsource <;> cases hsource
    rename_i hphase
    by_cases hclients : s.clients = ∅
    · rw [if_pos hclients] at ht
      cases ht
      exact .skipped hphase (participating_release _ _) hclients
    · rw [if_neg hclients] at ht
      cases ht
      exact .released hphase (participating_release _ _) hclients
  | replicate success =>
    obtain ⟨source, hsource, rfl⟩ := Option.map_eq_some_iff.mp hs
    simp only [BatchSource.step] at hsource
    split at hsource <;> cases hsource
    exact .replicated (by assumption)
  | respond socket =>
    simp only [step] at hs
    split at hs
    · rename_i success hresponding
      split_ifs at hs with hsocket
      cases hs
      exact .responded hresponding hsocket
    · cases hs
  | finish =>
    simp only [step] at hs
    split_ifs at hs with hdone
    cases hs
    exact .finished hdone.1 hdone.2

/-! ## The batch that is sent -/

/-- What `send_out_batch` knows of its batch. -/
structure StageInv (s : Proxy) : Prop where
  idle : s.source.phase = .idle → s.responding = none → s.clients = ∅
  responding : ∀ success, s.responding = some success → s.source.phase = .idle ∧
    s.results.getLast? = some success ∧ s.batches.getLast? = some s.batch
  /-- A batch that is taken out of the buffer has no result before the hand-over. -/
  released : ∀ r payload, s.source.phase = .released r payload →
    s.batches.length = s.results.length + 1 ∧ s.batches.getLast? = some s.batch
  unreleased : (∀ r payload, s.source.phase ≠ .released r payload) →
    s.batches.length = s.results.length

theorem stageInv_init (registered : Bool) : StageInv (init registered) where
  idle := fun _ _ => rfl
  responding := fun _ h => nomatch h
  released := fun _ _ h => nomatch h
  unreleased := fun _ => rfl

/-- Before the hand-over nothing is sent. -/
theorem StageInv.responding_eq_none (h : StageInv s) (hphase : s.source.phase ≠ .idle) :
    s.responding = none := by
  cases hresponding : s.responding with
  | none => rfl
  | some success => exact (hphase (h.responding success hresponding).1).elim

/-- The step that takes a batch out of the buffer. -/
theorem StageInv.release {r : DrainResult} {commands : List Command} {payload : Payload}
    (h : StageInv s) (hphase : s.source.phase = .copied r commands payload)
    (ht : t.source.phase = .released r payload) (hbatches : t.batches = s.batches ++ [t.batch])
    (hresults : t.results = s.results) (hresponding : t.responding = s.responding) :
    StageInv t := by
  have hnone := h.responding_eq_none (by simp [hphase])
  have hlength := h.unreleased (by simp [hphase])
  constructor
  · intro hidle
    cases ht.symm.trans hidle
  · intro success hsome
    cases hnone.symm.trans (hresponding.symm.trans hsome)
  · intro r payload _
    rw [hbatches, hresults, List.length_append, List.length_singleton, hlength]
    exact ⟨rfl, List.getLast?_concat⟩
  · intro hne
    exact (hne r payload ht).elim

theorem stageInv_step {e : ProxyEvent} (h : StageInv s) (he : Effect s e t) : StageInv t := by
  cases he with
  | drained hresponding hphase =>
    constructor
    · intro hidle
      cases hidle
    · intro success hsome
      cases hresponding.symm.trans hsome
    · intro r payload hreleased
      cases hreleased
    · intro _
      exact h.unreleased (by simp [hphase])
  | copied hphase =>
    have hnone := h.responding_eq_none (by simp [hphase])
    constructor
    · intro hidle
      cases hidle
    · intro success hsome
      cases hnone.symm.trans hsome
    · intro r payload hreleased
      cases hreleased
    · intro _
      exact h.unreleased (by simp [hphase])
  | skipped hphase => exact h.release hphase rfl rfl rfl rfl
  | released hphase => exact h.release hphase rfl rfl rfl rfl
  | replicated hphase =>
    obtain ⟨hlength, hlast⟩ := h.released _ _ hphase
    constructor
    · intro _ hnone
      cases hnone
    · intro success hsome
      cases hsome
      exact ⟨rfl, List.getLast?_concat, hlast⟩
    · intro r payload hreleased
      cases hreleased
    · intro _
      show s.batches.length = (s.results ++ [_]).length
      rw [hlength, List.length_append, List.length_singleton]
  | responded hresponding =>
    refine ⟨fun _ hnone => ?_, h.responding, h.released, h.unreleased⟩
    cases hresponding.symm.trans hnone
  | finished hresponding hclients =>
    obtain ⟨success, hsome⟩ := Option.ne_none_iff_exists'.mp hresponding
    obtain ⟨hphase, -, -⟩ := h.responding success hsome
    refine ⟨fun _ _ => hclients, (fun _ hsome => nomatch hsome), fun r payload hreleased => ?_,
      h.unreleased⟩
    cases hphase.symm.trans hreleased
  | _ => exact ⟨h.idle, h.responding, h.released, h.unreleased⟩

theorem stageInv {guard : Proxy → ProxyEvent → Prop} (h : (proxy registered).ReachVia guard s) :
    StageInv s :=
  h.invariant StageInv (stageInv_init registered) fun _ _ _ _ hinv _ hs =>
    stageInv_step hinv (effect_of_step hs)

/-! ## The commands recorded -/

/-- The commands in the buffer, with the connections they came on. -/
def unreleased (s : Proxy) : List (ℕ × Command) :=
  match s.source.phase with
  | .drained _ _ | .copied _ _ _ => s.batch ++ s.waiting
  | _ => s.waiting

/-- The timer thread holds the batch recorded. -/
def holdsBatch (s : Proxy) : SourcePhase → Prop
  | .drained r commands | .copied r commands _ =>
    commands = s.batch.map Prod.snd ∧ r.participating = s.clients
  | _ => True

/-- What is recorded of the commands is right. -/
structure Recorded (s : Proxy) : Prop where
  sent : s.source.sent = s.batches.map (List.map Prod.snd)
  accepted : s.source.accepted = s.source.sent.flatten ++ s.unreleased.map Prod.snd
  drained : s.holdsBatch s.source.phase

theorem recorded_init (registered : Bool) : Recorded (init registered) := ⟨rfl, rfl, trivial⟩

theorem recorded_step {e : ProxyEvent} (h : Recorded s) (hstage : StageInv s)
    (he : Effect s e t) : Recorded t := by
  obtain ⟨hsent, haccepted, hdrained⟩ := h
  cases he with
  | pushed hc hreading happend hfits hdataLen hdata hpush =>
    rename_i i c mem msgLen data m
    refine ⟨hsent, ?_, hdrained⟩
    show s.source.accepted ++ [data] = s.source.sent.flatten ++ (unreleased _).map Prod.snd
    rw [haccepted, List.append_assoc]
    unfold unreleased
    cases s.source.phase <;> simp only [List.map_append, List.append_assoc] <;> rfl
  | removed => exact ⟨hsent, haccepted, hdrained⟩
  | drained hresponding hphase =>
    unfold unreleased at haccepted
    rw [hphase] at haccepted
    refine ⟨hsent, ?_, ?_, rfl⟩
    · show s.source.accepted = s.source.sent.flatten ++ (s.waiting ++ []).map Prod.snd
      rw [haccepted, List.append_nil]
    · rw [haccepted, List.drop_left]
  | copied hphase =>
    unfold unreleased at haccepted
    rw [hphase] at haccepted hdrained
    exact ⟨hsent, haccepted, hdrained⟩
  | skipped hphase hm hnone =>
    unfold unreleased at haccepted
    rw [hphase] at haccepted hdrained
    rename_i r commands payload m
    have htaken : taken r commands = [] := if_pos (hdrained.2.trans hnone)
    refine ⟨?_, ?_, trivial⟩
    · show s.source.sent ++ [taken r commands] = (s.batches ++ [[]]).map (List.map Prod.snd)
      rw [hsent, List.map_append, htaken]
      rfl
    · show s.source.accepted =
        (s.source.sent ++ [taken r commands]).flatten ++ (s.batch ++ s.waiting).map Prod.snd
      rw [htaken, List.flatten_concat, List.append_nil]
      exact haccepted
  | released hphase hm hsome =>
    unfold unreleased at haccepted
    rw [hphase] at haccepted hdrained
    rename_i r commands payload m
    have htaken : taken r commands = s.batch.map Prod.snd :=
      (if_neg fun hr => hsome (hdrained.2.symm.trans hr)).trans hdrained.1
    refine ⟨?_, ?_, trivial⟩
    · show s.source.sent ++ [taken r commands] = (s.batches ++ [s.batch]).map (List.map Prod.snd)
      rw [hsent, List.map_append, htaken]
      rfl
    · show s.source.accepted =
        (s.source.sent ++ [taken r commands]).flatten ++ s.waiting.map Prod.snd
      rw [htaken, List.flatten_concat, List.append_assoc, ← List.map_append]
      exact haccepted
  | replicated hphase =>
    unfold unreleased at haccepted
    rw [hphase] at haccepted
    exact ⟨hsent, haccepted, trivial⟩
  | responded hresponding =>
    refine ⟨hsent, haccepted, ?_⟩
    show holdsBatch _ s.source.phase
    rw [(hstage.responding _ hresponding).1]
    trivial
  | finished hresponding hclients =>
    obtain ⟨success, hsome⟩ := Option.ne_none_iff_exists'.mp hresponding
    obtain ⟨hphase, -, -⟩ := hstage.responding success hsome
    refine ⟨hsent, ?_, ?_⟩
    · unfold unreleased at haccepted ⊢
      simp only [hphase] at haccepted ⊢
      exact haccepted
    · show holdsBatch _ s.source.phase
      rw [hphase]
      trivial
  | _ => exact ⟨hsent, haccepted, hdrained⟩

/-- The batches taken out of the buffer are those recorded. -/
theorem sent_eq (h : (proxy registered).Reach s) :
    s.source.sent = s.batches.map (List.map Prod.snd) := by
  refine (h.invariant (fun s => StageInv s ∧ Recorded s)
    ⟨stageInv_init registered, recorded_init registered⟩ ?_).2.sent
  intro s e t _ ⟨hstage, hrecorded⟩ _ hs
  have he := effect_of_step hs
  exact ⟨stageInv_step hstage he, recorded_step hrecorded hstage he⟩

/-- A step of the proxy is one of its buffer, or none. -/
theorem step_source {e : ProxyEvent} (hs : s.step e = some t) :
    t.source = s.source ∨ ∃ d, s.source.step d = some t.source := by
  cases e with
  | remove i =>
    simp only [step] at hs
    split at hs
    · split_ifs at hs
      obtain ⟨source, hsource, rfl⟩ := Option.map_eq_some_iff.mp hs
      exact Or.inr ⟨_, hsource⟩
    · cases hs
  | drain =>
    simp only [step] at hs
    split_ifs at hs
    obtain ⟨source, hsource, rfl⟩ := Option.map_eq_some_iff.mp hs
    exact Or.inr ⟨_, hsource⟩
  | copy | replicate success =>
    obtain ⟨source, hsource, rfl⟩ := Option.map_eq_some_iff.mp hs
    exact Or.inr ⟨_, hsource⟩
  | release =>
    obtain ⟨source, hsource, ht⟩ := Option.map_eq_some_iff.mp hs
    refine Or.inr ⟨.release, hsource.trans ?_⟩
    rw [← ht]
    split_ifs <;> rfl
  | frame i mem msgLen =>
    cases effect_frame hs with
    | pushed hc hreading happend hfits hdataLen hdata hpush =>
      exact Or.inr ⟨.push _ _, batchSource_push hpush⟩
    | _ => exact Or.inl rfl
  | _ =>
    cases effect_of_step hs
    all_goals exact Or.inl rfl

/-- A run of the proxy is a run of its buffer. -/
theorem reach_source (h : (proxy registered).Reach s) : batchSource.Reach s.source :=
  h.abs Proxy.source rfl fun _ _ _ _ _ hs =>
    (step_source hs).imp_right fun ⟨d, hd⟩ => ⟨d, trivial, hd⟩

/-- **What goes out** are the commands of the batch recorded. -/
theorem payload_eq {r : DrainResult} {payload : Payload} (h : (proxy registered).Reach s)
    (hphase : s.source.phase = .released r payload) :
    payload.data = CommandBatch.encode (s.batch.map Prod.snd) := by
  obtain ⟨queued, -, -, hsource⟩ := source_of_reach (reach_source h)
  rw [hphase] at hsource
  obtain ⟨before, commands, hsent, hdata⟩ := hsource
  obtain ⟨-, hlast⟩ := (stageInv h).released r payload hphase
  have hbatch := congrArg (Option.map (List.map Prod.snd)) hlast
  rw [← List.getLast?_map, ← sent_eq h, hsent, List.getLast?_concat] at hbatch
  cases hbatch
  exact hdata

end Proxy

end Ziplog
