import Ziplog.Proxy.Responses
import Ziplog.Proxy.WireFrame

/-!
# Requests of clients

A client that sends one request at a time waits until it is answered, so a request that the proxy
drops keeps it waiting forever. An APPEND frame is dropped when it is too short for a command, when
the client buffer is full, or when the thread of an earlier connection takes the number of the
client out of the buffer; one that is admitted can be written outside the block. Every other request
is in the buffer, or in the batch that is being sent, or answered (`noneDroppedAndExact`).
-/

namespace Ziplog

open ByteImage ClientBufferManager

namespace Proxy

variable {registered : Bool} {s t : Proxy}

/-- A client sends an APPEND when its requests are answered. -/
def oneOutstanding (s : Proxy) : ProxyEvent → Bool
  | .frame i mem msgLen =>
    !isAppend mem msgLen ||
      (s.connections[i]?).all fun c => c.consumed.length ≤ c.received.length
  | _ => true

/-- The command is in the buffer, or in the batch that is being sent, with the number of its
connection. -/
def Held (s : Proxy) (i : ℕ) (c : ClientConnection) (data : Command) : Prop :=
  (i, data) ∈ s.waiting ∧ c.socket ∈ s.participating ∨ (i, data) ∈ s.batch ∧ c.socket ∈ s.clients

/-- The requests of an open connection are answered in order, one by one, and the one that is not is
held. -/
def NoneDropped (s : Proxy) : Prop :=
  ∀ (i : ℕ) (c : ClientConnection), s.connections[i]? = some c → c.phase = .reading →
    c.received.length ≤ c.consumed.length ∧
      ∀ (k : ℕ) (command : Option Command), c.consumed[k]? = some command →
        k < c.received.length ∨ ∃ data ∈ command, s.Held i c data

/-- The frames of a registered proxy fit, and numbers are given out when nothing refers to them. -/
def Answerable (s : Proxy) : ProxyEvent → Prop
  | .frame _ mem msgLen =>
    isAppend mem msgLen = true → s.registered = true → s.Fits mem msgLen
  | e => s.NumberFree e

instance (s : Proxy) (e : ProxyEvent) : Decidable (s.Answerable e) :=
  match e with
  | .frame _ mem msgLen => inferInstanceAs (Decidable (isAppend mem msgLen = true →
      s.registered = true → s.Fits mem msgLen))
  | .accept socket => inferInstanceAs (Decidable (s.NumberFree (.accept socket)))
  | .hangUp _ | .remove _ | .drain | .copy | .release | .replicate _ | .respond _
  | .finish => .isTrue trivial

/-- A frame that fits stays in memory. -/
theorem Answerable.inMemory {e : ProxyEvent} (h : s.Answerable e) : s.InMemory e := by
  cases e with
  | frame i mem msgLen =>
    intro happend hregistered _ dataLen hlen _
    exact ((h happend hregistered).2 dataLen hlen).2
  | _ => trivial

theorem Answerable.numberFree {e : ProxyEvent} (h : s.Answerable e) : s.NumberFree e := by
  cases e with
  | frame => trivial
  | _ => exact h

end Proxy

/-- A proxy whose clients send one request at a time. -/
def serialProxy (registered : Bool) : Lts Proxy ProxyEvent :=
  ⟨Proxy.init registered, fun s e => if s.oneOutstanding e then s.step e else none⟩

/-- And the accesses to memory that go wrong there. -/
def serialProxyWithFaults (registered : Bool) : Lts (Except MemFault Proxy) ProxyEvent :=
  (serialProxy registered).withFaults fun s e => if s.oneOutstanding e then s.fault? e else none

namespace Proxy

variable {registered : Bool} {s t : Proxy}

/-! ## The request of a client -/

/-- Where the last request of a client is. -/
inductive Standing (s : Proxy) (i : ℕ) (c : ClientConnection) : Prop
  | answered (hconsumed : c.consumed.length = c.received.length)
      (hparticipating : c.socket ∉ s.participating) (hclients : c.socket ∉ s.clients)
  | waiting {before : List (Option Command)} {data : Command}
      (hconsumed : c.consumed = before ++ [some data]) (hbefore : before.length = c.received.length)
      (hin : (i, data) ∈ s.waiting) (hparticipating : c.socket ∈ s.participating)
      (hclients : c.socket ∉ s.clients)
  | sent {before : List (Option Command)} {data : Command}
      (hconsumed : c.consumed = before ++ [some data]) (hbefore : before.length = c.received.length)
      (hin : (i, data) ∈ s.batch) (hparticipating : c.socket ∉ s.participating)
      (hclients : c.socket ∈ s.clients)

/-- Each open connection has its last request somewhere. -/
def Served (s : Proxy) : Prop :=
  ∀ (i : ℕ) (c : ClientConnection), s.connections[i]? = some c → c.phase = .reading →
    Standing s i c

/-- The requests before the last are answered. -/
theorem held_or_answered {i k : ℕ} {c : ClientConnection} {before : List (Option Command)}
    {data : Command} {command : Option Command} (hconsumed : c.consumed = before ++ [some data])
    (hbefore : before.length = c.received.length) (hheld : s.Held i c data)
    (hk : c.consumed[k]? = some command) :
    k < c.received.length ∨ ∃ data ∈ command, s.Held i c data := by
  rw [hconsumed, List.getElem?_append, List.getElem?_singleton] at hk
  split_ifs at hk with hlt hzero
  · exact Or.inl (hbefore ▸ hlt)
  · cases hk
    exact Or.inr ⟨data, rfl, hheld⟩

theorem Served.noneDropped (h : Served s) : NoneDropped s := by
  intro i c hc hreading
  cases h i c hc hreading with
  | answered hconsumed =>
    refine ⟨hconsumed.ge, fun k command hk => Or.inl ?_⟩
    exact hconsumed ▸ (List.getElem?_eq_some_iff.mp hk).1
  | waiting hconsumed hbefore hin hparticipating hclients =>
    refine ⟨?_, fun k command hk =>
      held_or_answered hconsumed hbefore (Or.inl ⟨hin, hparticipating⟩) hk⟩
    rw [hconsumed, List.length_append, hbefore]
    exact Nat.le_add_right _ _
  | sent hconsumed hbefore hin hparticipating hclients =>
    refine ⟨?_, fun k command hk =>
      held_or_answered hconsumed hbefore (Or.inr ⟨hin, hclients⟩) hk⟩
    rw [hconsumed, List.length_append, hbefore]
    exact Nat.le_add_right _ _

/-- A client that may send has its requests answered. -/
theorem Standing.idle {i : ℕ} {c : ClientConnection} (h : Standing s i c)
    (hserial : c.consumed.length ≤ c.received.length) :
    c.consumed.length = c.received.length ∧ c.socket ∉ s.participating ∧ c.socket ∉ s.clients := by
  cases h with
  | answered hconsumed hparticipating hclients => exact ⟨hconsumed, hparticipating, hclients⟩
  | waiting hconsumed hbefore =>
    rw [hconsumed, List.length_append, List.length_singleton] at hserial
    omega
  | sent hconsumed hbefore =>
    rw [hconsumed, List.length_append, List.length_singleton] at hserial
    omega

theorem serial_of_oneOutstanding {i : ℕ} {c : ClientConnection} {mem : List UInt8} {msgLen : ℕ}
    (h : s.oneOutstanding (.frame i mem msgLen) = true) (happend : isAppend mem msgLen = true)
    (hc : s.connections[i]? = some c) : c.consumed.length ≤ c.received.length := by
  simp only [oneOutstanding, happend, hc, Bool.not_true, Bool.false_or] at h
  exact of_decide_eq_true h

/-- A step that does not concern the client. -/
theorem Standing.congr {i : ℕ} {c : ClientConnection} (h : Standing s i c)
    (hparticipating : c.socket ∈ t.participating ↔ c.socket ∈ s.participating)
    (hclients : c.socket ∈ t.clients ↔ c.socket ∈ s.clients)
    (hwaiting : ∀ data, (i, data) ∈ s.waiting → (i, data) ∈ t.waiting)
    (hbatch : ∀ data, c.socket ∈ s.clients → (i, data) ∈ s.batch → (i, data) ∈ t.batch) :
    Standing t i c := by
  cases h with
  | answered hconsumed hp hc =>
    exact .answered hconsumed (mt hparticipating.mp hp) (mt hclients.mp hc)
  | waiting hconsumed hbefore hin hp hc =>
    exact .waiting hconsumed hbefore (hwaiting _ hin) (hparticipating.mpr hp) (mt hclients.mp hc)
  | sent hconsumed hbefore hin hp hc =>
    exact .sent hconsumed hbefore (hbatch _ hc hin) (mt hparticipating.mp hp) (hclients.mpr hc)

/-! ## The steps -/

/-- A step of one connection. -/
theorem Served.set {i : ℕ} {c c' : ClientConnection} (h : Served s)
    (hc : s.connections[i]? = some c) (ht : t.connections = s.connections.set i c')
    (hi : c'.phase = .reading → Standing t i c')
    (hrest : ∀ (j : ℕ) (d : ClientConnection), i ≠ j → s.connections[j]? = some d →
      d.phase = .reading → Standing s j d → Standing t j d) : Served t := by
  intro j d hd hreading
  obtain ⟨hlt, -⟩ := List.getElem?_eq_some_iff.mp hc
  rw [ht] at hd
  by_cases hij : i = j
  · subst hij
    rw [List.getElem?_set_self hlt] at hd
    cases hd
    exact hi hreading
  · rw [List.getElem?_set_ne hij] at hd
    exact hrest j d hij hd hreading (h j d hd hreading)

/-- A step of one connection that does not concern the others. -/
theorem Served.setConnection {i : ℕ} {c c' : ClientConnection} (h : Served s)
    (hc : s.connections[i]? = some c)
    (hi : c'.phase = .reading → Standing (s.setConnection i c') i c') :
    Served (s.setConnection i c') :=
  h.set hc rfl hi fun _ _ _ _ _ hstanding =>
    hstanding.congr Iff.rfl Iff.rfl (fun _ => id) fun _ _ => id

/-- A new client has sent nothing. -/
theorem Served.accept {socket : ℕ} (h : Served s) (hrouting : Routing s)
    (hfree : s.NumberFree (.accept socket)) :
    Served { s with connections := s.connections ++ [.init socket] } := by
  intro i c hc hreading
  rcases eq_of_getElem?_concat hc with hc | ⟨-, rfl⟩
  · exact (h i c hc hreading).congr Iff.rfl Iff.rfl (fun _ => id) fun _ _ => id
  · refine .answered rfl (fun hin => ?_) hfree.1
    obtain ⟨j, d, cmd, hd, hsocket, -⟩ := hrouting.pushed socket hin
    exact hd.2 (hfree.2 d (List.mem_of_getElem? hd.1) hsocket)

/-- A push holds the request of its client. -/
theorem Served.push {i : ℕ} {c : ClientConnection} {data : Command} {source : BatchSource}
    (h : Served s) (hrouting : Routing s) (hc : s.connections[i]? = some c)
    (hreading : c.phase = .reading) (hserial : c.consumed.length ≤ c.received.length)
    (hsource : source.manager.participating = insert c.socket s.participating) :
    Served { s.setConnection i { c with consumed := c.consumed ++ [some data] } with
      source := source
      waiting := s.waiting ++ [(i, data)] } := by
  obtain ⟨hconsumed, -, hclients⟩ := (h i c hc hreading).idle hserial
  refine h.set hc rfl (fun _ => ?_) fun j d hij hd hd' hstanding => ?_
  · refine .waiting rfl hconsumed (List.mem_append_right _ (List.mem_singleton_self _)) ?_ hclients
    show c.socket ∈ source.manager.participating
    rw [hsource]
    exact Finset.mem_insert_self _ _
  · refine hstanding.congr ?_ Iff.rfl (fun _ => List.mem_append_left _) fun _ _ => id
    show d.socket ∈ source.manager.participating ↔ _
    rw [hsource, Finset.mem_insert, or_iff_right]
    intro hsocket
    exact hij (hrouting.distinct i j c d ⟨hc, ne_finished_of_reading hreading⟩
      ⟨hd, ne_finished_of_reading hd'⟩ hsocket.symm)

/-- The number that a thread removes is that of no open connection. -/
theorem Served.remove {i : ℕ} {c : ClientConnection} (h : Served s) (hrouting : Routing s)
    (hc : s.connections[i]? = some c) (hclosed : c.phase = .closed) :
    Served { s.setConnection i { c with phase := .finished } with
      source := { s.source with manager := s.source.manager.remove c.socket } } := by
  refine h.set hc rfl (fun hreading => nomatch hreading) fun j d hij hd hreading hstanding => ?_
  refine hstanding.congr ?_ Iff.rfl (fun _ => id) fun _ _ => id
  show d.socket ∈ s.participating.erase c.socket ↔ _
  rw [Finset.mem_erase, and_iff_right]
  intro hsocket
  exact hij (hrouting.distinct i j c d ⟨hc, by simp [hclosed]⟩
    ⟨hd, ne_finished_of_reading hreading⟩ hsocket.symm)

/-- What waited is sent. -/
theorem Served.drain {source : BatchSource} (h : Served s) (hnone : s.clients = ∅)
    (hsource : source.manager.participating = ∅) :
    Served { s with
      source := source
      clients := s.participating
      batch := s.waiting
      waiting := [] } := by
  intro i c hc hreading
  have hparticipating : c.socket ∉ source.manager.participating := by
    rw [hsource]
    exact Finset.notMem_empty _
  cases h i c hc hreading with
  | answered hconsumed hp => exact .answered hconsumed hparticipating hp
  | waiting hconsumed hbefore hin hp => exact .sent hconsumed hbefore hin hparticipating hp
  | sent hconsumed hbefore hin hp hclients =>
    rw [hnone] at hclients
    cases hclients

/-- The result answers the request that was sent. -/
theorem Served.respond {socket : ℕ} {response : ClientResponse} (h : Served s)
    (hsocket : socket ∈ s.clients) :
    Served { s.deliver socket response with clients := s.clients.erase socket } := by
  intro i c' hc' hreading
  obtain ⟨c, hc, rfl⟩ := getElem?_deliver.mp hc'
  rw [c.phase_receive] at hreading
  have hstanding := h i c hc hreading
  unfold ClientConnection.receive
  split_ifs with hreached
  · have hin : c.socket ∈ s.clients := hreached.2 ▸ hsocket
    have hout : c.socket ∉ s.clients.erase socket := hreached.2 ▸ Finset.notMem_erase _ _
    cases hstanding with
    | answered _ _ hclients | waiting _ _ _ _ hclients => exact (hclients hin).elim
    | sent hconsumed hbefore _ hparticipating =>
      refine .answered ?_ hparticipating hout
      show c.consumed.length = (c.received ++ [response]).length
      rw [hconsumed, List.length_append, List.length_append, hbefore]
      rfl
  · refine hstanding.congr Iff.rfl ?_ (fun _ => id) fun _ _ => id
    exact Finset.mem_erase.trans (and_iff_right fun hsocket => hreached ⟨hreading, hsocket⟩)

/-- **What a step keeps** of the requests. -/
theorem served_step {e : ProxyEvent} (h : Served s) (hrouting : Routing s) (hstage : StageInv s)
    (hserial : s.oneOutstanding e = true) (hanswerable : s.Answerable e) (he : Effect s e t) :
    Served t := by
  cases he with
  | accepted => exact h.accept hrouting hanswerable
  | refused hc hreading happend =>
    obtain ⟨hconsumed, hp, hclients⟩ :=
      (h _ _ hc hreading).idle (serial_of_oneOutstanding hserial happend hc)
    refine h.setConnection hc fun _ => .answered ?_ hp hclients
    rw [List.length_append, List.length_append, hconsumed]
    rfl
  | dropped hc hreading happend hregistered hlost =>
    exact (hlost (hanswerable happend hregistered)).elim
  | pushed hc hreading happend hfits hdataLen hdata hpush =>
    exact h.push hrouting hc hreading (serial_of_oneOutstanding hserial happend hc)
      (participating_pushRaw hpush)
  | ended hc | hungUp hc => exact h.setConnection hc fun hreading => nomatch hreading
  | removed hc hclosed => exact h.remove hrouting hc hclosed
  | drained hresponding hphase => exact h.drain (hstage.idle hphase hresponding) rfl
  | skipped hphase hm hnone =>
    intro i c hc hreading
    refine (h i c hc hreading).congr (iff_of_eq (congrArg (c.socket ∈ ·) hm)) Iff.rfl
      (fun _ => List.mem_append_right _) fun _ hclients => ?_
    rw [hnone] at hclients
    cases hclients
  | released hphase hm =>
    intro i c hc hreading
    exact (h i c hc hreading).congr (iff_of_eq (congrArg (c.socket ∈ ·) hm)) Iff.rfl
      (fun _ => id) fun _ _ => id
  | responded hresponding hsocket => exact h.respond hsocket
  | finished hresponding hnone =>
    intro i c hc hreading
    refine (h i c hc hreading).congr Iff.rfl Iff.rfl (fun _ => id) fun _ hclients => ?_
    rw [hnone] at hclients
    cases hclients
  | _ =>
    intro i c hc hreading
    exact (h i c hc hreading).congr Iff.rfl Iff.rfl (fun _ => id) fun _ _ => id

/-! ## A full buffer -/

/-- The body of an APPEND frame. -/
def appendBody (data : Command) : List UInt8 := wireBody MessageTypes.append.value 0 0 0 data

theorem appendDataLen_appendBody {data : Command} (h : data.length < 2 ^ 32) :
    appendDataLen (appendBody data) = .ok data.length := by
  have hfetch : fetch (appendBody data) 20 4 = .ok (store32 (htonl (UInt32.ofNat data.length))) :=
    Message.fetch_middle _ (Message.length_headerBytes _ _ _ _) (length_store32 _)
  have hlen : (UInt32.ofNat data.length).toNat = data.length := by
    rw [UInt32.toNat_ofNat', Nat.mod_eq_of_lt h]
  unfold appendDataLen
  rw [hfetch, Except.map, ntohl_load32_htonl, hlen]

theorem fetch_appendBody (data : Command) : fetch (appendBody data) 24 data.length = .ok data := by
  unfold appendBody wireBody
  rw [← List.append_assoc]
  exact Message.fetch_middle _ (by simp) rfl

/-- The frame goes to the APPEND case. -/
theorem step_appendBody {i : ℕ} {c : ClientConnection} {data : Command}
    (hc : s.connections[i]? = some c) (hreading : c.phase = .reading)
    (ht : s.handleAppend i c (appendBody data) (28 + data.length) = .ok t) :
    s.step (.frame i (appendBody data) (28 + data.length)) = some t := by
  have hpeek := peek_wireBody MessageTypes.append.value 0 0 0 data []
  rw [List.append_nil] at hpeek
  have hframe : s.handleFrame i c (appendBody data) (28 + data.length) = .ok t := by
    rw [← ht]
    unfold handleFrame appendBody
    rw [hpeek]
    exact if_pos rfl
  have hlen : 28 + data.length ≤ (appendBody data).length := (length_wireBody ..).ge
  simp only [step, receive_eq_some.mpr ⟨c, hc, ⟨hreading, hlen⟩, hframe⟩]

/-- The first `n` clients have sent as many commands of 65507 bytes. -/
structure Filled (s : Proxy) (n : ℕ) : Prop where
  registered : s.registered = true
  count : s.connections.length = n
  below : ∀ c ∈ s.connections, c.socket < n
  used : s.source.manager.used = n * 65511
  writePos : s.source.manager.writePos = n * 65511

/-- The next client connects. -/
def connect (s : Proxy) (n : ℕ) : Proxy := { s with connections := s.connections ++ [.init n] }

theorem Filled.getElem?_connect {n : ℕ} (h : Filled s n) :
    (s.connect n).connections[n]? = some (.init n) := by
  unfold connect
  rw [← h.count]
  exact List.getElem?_concat_length

theorem Filled.reach_connect {n : ℕ} (h : Filled s n) (hs : (serialProxy true).Reach s) :
    (serialProxy true).Reach (s.connect n) := by
  have hnew : ∀ c ∈ s.connections, c.phase = .reading → c.socket ≠ n := fun c hc _ =>
    (h.below c hc).ne
  exact .step hs trivial (show (serialProxy true).step s (.accept n) = _ from if_pos hnew)

/-- And sends an APPEND frame. -/
theorem Filled.reach_send {n : ℕ} {data : Command} (h : Filled s n)
    (hs : (serialProxy true).Reach s)
    (ht : (s.connect n).handleAppend n (.init n) (appendBody data) (28 + data.length) = .ok t) :
    (serialProxy true).Reach t := by
  have hc := h.getElem?_connect
  have hserial :
      (s.connect n).oneOutstanding (.frame n (appendBody data) (28 + data.length)) = true := by
    simp only [oneOutstanding, hc]
    exact Bool.or_true _
  exact .step (h.reach_connect hs) trivial
    ((if_pos hserial).trans (step_appendBody hc rfl ht))

/-- There is room for the command of each of the first 16 clients. -/
theorem Filled.push {n : ℕ} {data : Command} (h : Filled s n) (hn : n < 16)
    (hdata : data.length = 65507) : ∃ t, Filled t (n + 1) ∧
      (s.connect n).handleAppend n (.init n) (appendBody data) (28 + data.length) = .ok t := by
  have hcap : capacity = 2 ^ 20 := rfl
  have hused : (s.connect n).source.manager.used + (4 + data.length) ≤ capacity := by
    have := h.used
    show s.source.manager.used + _ ≤ _
    omega
  have hpos : (s.connect n).source.manager.writePos + (4 + data.length) ≤ capacity := by
    have := h.writePos
    show s.source.manager.writePos + _ ≤ _
    omega
  unfold handleAppend
  rw [if_pos (show (s.connect n).registered = true from h.registered), if_neg (by omega),
    appendDataLen_appendBody (by omega)]
  simp only [if_neg (Nat.not_lt.mpr hused), fetch_appendBody, pushRaw_eq hused hpos]
  refine ⟨_, ?_, rfl⟩
  refine ⟨h.registered, ?_, ?_, ?_, ?_⟩
  · show ((s.connections ++ [_]).set n _).length = n + 1
    rw [List.length_set, List.length_append, h.count]
    rfl
  · intro c hc
    rcases List.mem_or_eq_of_mem_set hc with hc | rfl
    · rcases List.mem_append.mp hc with hc | hc
      · exact Nat.lt_succ_of_lt (h.below c hc)
      · rw [List.mem_singleton.mp hc]
        exact Nat.lt_succ_self n
    · exact Nat.lt_succ_self n
  · show s.source.manager.used + (4 + data.length) = (n + 1) * 65511
    rw [h.used, hdata]
    omega
  · show s.source.manager.writePos + (4 + data.length) = (n + 1) * 65511
    rw [h.writePos, hdata]
    omega

/-- The buffer takes the commands of 16 clients. -/
theorem exists_filled {n : ℕ} (hn : n ≤ 16) : ∃ s, (serialProxy true).Reach s ∧ Filled s n := by
  induction n with
  | zero => exact ⟨_, .init, rfl, rfl, (fun _ hc => nomatch hc), rfl, rfl⟩
  | succ n ih =>
    obtain ⟨s, hs, hfilled⟩ := ih (Nat.le_of_lt hn)
    obtain ⟨t, ht, hpush⟩ := @Filled.push _ _ (List.replicate 65507 65) hfilled hn
      List.length_replicate
    exact ⟨t, hfilled.reach_send hs hpush, ht⟩

/-! ## Runs -/

theorem served_init (registered : Bool) : Served (init registered) := fun _ _ hc => nomatch hc

theorem step_of_serial {e : ProxyEvent} (hs : (serialProxy registered).step s e = some t) :
    s.oneOutstanding e = true ∧ s.step e = some t := by
  simp only [serialProxy] at hs
  split_ifs at hs with hserial
  exact ⟨hserial, hs⟩

theorem served (h : (serialProxy registered).ReachVia Answerable s) :
    StageInv s ∧ Routing s ∧ Served s := by
  refine h.invariant (fun s => StageInv s ∧ Routing s ∧ Served s)
    ⟨stageInv_init registered, routing_init registered, served_init registered⟩ ?_
  intro s e t _ ⟨hstage, hrouting, hserved⟩ hanswerable hs
  obtain ⟨hserial, hs⟩ := step_of_serial hs
  have he := effect_of_step hs
  exact ⟨stageInv_step hstage he, routing_step hrouting hstage hanswerable.numberFree he,
    served_step hserved hrouting hstage hserial hanswerable he⟩

/-- A frame that does not fit is not answered. -/
theorem fits_of_noneDropped {i : ℕ} {mem : List UInt8} {msgLen : ℕ} (h : Served s)
    (hserial : s.oneOutstanding (.frame i mem msgLen) = true)
    (he : Effect s (.frame i mem msgLen) t) (hnone : NoneDropped t) :
    s.Answerable (.frame i mem msgLen) := by
  intro happend hregistered
  cases he with
  | refused _ _ _ hunregistered => cases hregistered.symm.trans hunregistered
  | ended _ _ hkind | flagged _ hkind => cases happend.symm.trans hkind
  | pushed _ _ _ hfits => exact hfits
  | dropped hc hreading =>
    obtain ⟨hconsumed, -, -⟩ :=
      (h i _ hc hreading).idle (serial_of_oneOutstanding hserial happend hc)
    obtain ⟨hlt, -⟩ := List.getElem?_eq_some_iff.mp hc
    rcases (hnone i _ (List.getElem?_set_self hlt) hreading).2 _ none
      List.getElem?_concat_length with hanswered | ⟨data, hdata, -⟩
    · exact absurd hconsumed (Nat.ne_of_lt hanswered)
    · cases hdata

/-- A run without a fault. -/
theorem reach_serialWithFaults {guard : Proxy → ProxyEvent → Prop}
    (h : (serialProxy registered).ReachVia guard s) :
    (serialProxyWithFaults registered).ReachVia (Lts.BeforeFault guard) (.ok s) := by
  refine h.withFaults fun s e t hs => ?_
  obtain ⟨hserial, hs⟩ := step_of_serial hs
  rw [if_pos hserial]
  exact fault?_eq_none_of_step hs

/-- What can be answered is no fault. -/
theorem Answerable.no_fault {e : ProxyEvent} (h : s.Answerable e) :
    (if s.oneOutstanding e then s.fault? e else none) = none := by
  split_ifs
  · exact h.inMemory.fault?_eq_none
  · rfl

/-- **No request is dropped** in a run in which frames fit and numbers are given out when nothing
refers to them. After the next step, unless it gives out a number, this is so exactly when the frame
that it takes fits. -/
theorem noneDroppedAndExact {x : Except MemFault Proxy}
    (h : (serialProxyWithFaults registered).ReachVia (Lts.BeforeFault Answerable) x) :
    ∃ s, x = .ok s ∧ NoneDropped s ∧ ∀ e y, (∀ socket, e ≠ .accept socket) →
      (serialProxyWithFaults registered).step (.ok s) e = some y →
        ((∃ t, y = .ok t ∧ NoneDropped t) ↔ s.Answerable e) := by
  obtain ⟨s, rfl, hs⟩ := h.exists_ok fun _ _ => Answerable.no_fault
  have hserved := served hs
  refine ⟨s, rfl, hserved.2.2.noneDropped, fun e y haccept hy => ?_⟩
  rcases Lts.withFaults_cases hy with ⟨f, hf, rfl⟩ | ⟨-, t, ht, rfl⟩
  · refine iff_of_false (by rintro ⟨t, ⟨⟩, -⟩) fun hanswerable => ?_
    rw [hanswerable.no_fault] at hf
    cases hf
  · constructor
    · rintro ⟨u, hu, hnone⟩
      cases hu
      cases e with
      | accept socket => exact absurd rfl (haccept socket)
      | frame i mem msgLen =>
        obtain ⟨hserial, hstep⟩ := step_of_serial ht
        exact fits_of_noneDropped hserved.2.2 hserial (effect_frame hstep) hnone
      | _ => trivial
    · intro hanswerable
      exact ⟨t, rfl, (served (.step hs hanswerable ht)).2.2.noneDropped⟩

/-- A request is answered while the next one waits. -/
theorem noneDroppedAndExact_twoClients : ∃ s,
    (serialProxyWithFaults true).ReachVia (Lts.BeforeFault Answerable) (.ok s) ∧
      s.connections.map (fun c => (c.consumed.length, c.received.length)) = [(1, 1), (1, 0)] ∧
        ∃ t, Except.ok s = (.ok t : Except MemFault Proxy) ∧ NoneDropped t ∧
          ∀ e y, (∀ socket, e ≠ .accept socket) →
            (serialProxyWithFaults true).step (.ok t) e = some y →
              ((∃ u, y = .ok u ∧ NoneDropped u) ↔ t.Answerable e) := by
  obtain ⟨s, hs, hp⟩ := @Lts.exists_reachVia_of_run _ _ (serialProxy true) Answerable
    (fun s e => decide (s.Answerable e)) (fun _ _ => of_decide_eq_true)
    [.accept 5, .accept 6, .frame 0 ((buildWireBytes 0 0 0 0 [65]).drop 2) 29, .drain, .copy,
      .frame 1 ((buildWireBytes 0 0 0 0 [66]).drop 2) 29, .release, .replicate true, .respond 5,
      .finish]
    (fun s => decide (s.connections.map (fun c => (c.consumed.length, c.received.length)) =
      [(1, 1), (1, 0)])) (by decide)
  have hreach := reach_serialWithFaults hs
  exact ⟨s, hreach, of_decide_eq_true hp, noneDroppedAndExact hreach⟩

/-- Of 17 clients with an APPEND of 65507 bytes each, the last gets no answer. -/
theorem not_noneDropped : ¬ ∀ (registered : Bool) (s : Proxy),
    (serialProxyWithFaults registered).Reach (.ok s) → NoneDropped s := by
  intro h
  obtain ⟨s, hs, hfilled⟩ := exists_filled le_rfl
  have hdata : (List.replicate 65507 65 : Command).length = 65507 := List.length_replicate
  generalize List.replicate 65507 (65 : UInt8) = data at hdata
  have hc := hfilled.getElem?_connect
  obtain ⟨hlt, -⟩ := List.getElem?_eq_some_iff.mp hc
  have hfull : capacity < (s.connect 16).source.manager.used + (4 + data.length) := by
    show 2 ^ 20 < s.source.manager.used + (4 + data.length)
    rw [hfilled.used, hdata]
    omega
  have hdropped : (s.connect 16).handleAppend 16 (.init 16) (appendBody data) (28 + data.length) =
      .ok ((s.connect 16).setConnection 16 ⟨16, .reading, [none], []⟩) := by
    unfold handleAppend
    rw [if_pos (show (s.connect 16).registered = true from hfilled.registered), if_neg (by omega),
      appendDataLen_appendBody (by omega)]
    exact if_pos hfull
  have hreach := (reach_serialWithFaults (hfilled.reach_send hs hdropped)).reach
  have hanswered := (h true _ hreach 16 _ (List.getElem?_set_self hlt) rfl).2 0 none rfl
  rcases hanswered with hlt | ⟨data, hdata, -⟩
  · cases hlt
  · cases hdata

end Proxy

end Ziplog
