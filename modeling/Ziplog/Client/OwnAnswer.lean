import Ziplog.Client.Client

/-!
# Whose answer an append reads

The buffer of a client outlives its connections. As long as nothing is left in it when a connection
is opened, every `append` that reads a response reads the one that the proxy sent on the connection
of its own request. Bytes that are left over stand in front of the next response, which is then read
with them (`append_own_answer`); what the client takes for a SUCCESS may be a FAILURE
(`not_append_own_answer`).
-/

namespace Ziplog

open ByteImage Cells ReadBuffer

/-- The header of a body says SUCCESS. -/
def SaysSuccess (body : List UInt8) : Prop :=
  ∃ header : MessageHeader, MessageHeader.peek body body.length = .ok (some header) ∧
    header.type = MessageTypes.success.value

/-- The result is that of a response to the request itself. -/
structure OwnAnswer (r : AppendRecord) : Prop where
  /-- What was read is the whole SUCCESS frame sent in answer. -/
  success : r.result = true →
    r.read = r.answer ∧ ∃ body, r.answer = responseFrame body ∧ SaysSuccess body
  /-- No byte of the response came on another connection. -/
  own : ∀ k ∈ r.origins, r.connection = some k

namespace ConnectionPool

/-- `get_connection` hands out the connection it has. -/
def Reuses (pool : ConnectionPool) (addr : Address) (peek : PeekResult) : Prop :=
  (pool.activeConnections addr).isSome = true ∧ socketAlive peek = true

instance (pool : ConnectionPool) (addr : Address) (peek : PeekResult) :
    Decidable (pool.Reuses addr peek) := by
  unfold Reuses
  infer_instance

variable {pool pool' : ConnectionPool} {addr : Address} {peek : PeekResult} {connects : Bool}
  {conn : Connection}

theorem connect_some (h : pool.connect addr connects = (some conn, pool')) :
    connects = true ∧ conn = ⟨pool.opened, [], false⟩ ∧
      pool' = { pool.set addr (some conn) with opened := pool.opened + 1 } := by
  unfold connect at h
  by_cases hc : connects = true
  · rw [if_pos hc, Prod.mk.injEq, Option.some.injEq] at h
    obtain ⟨rfl, rfl⟩ := h
    exact ⟨hc, rfl, rfl⟩
  · rw [if_neg hc] at h
    cases h

theorem connect_none (h : pool.connect addr connects = (none, pool')) : pool' = pool := by
  unfold connect at h
  by_cases hc : connects = true
  · rw [if_pos hc] at h
    cases h
  · rw [if_neg hc, Prod.mk.injEq] at h
    exact h.2.symm

theorem activeConnections_closeConnection {a : Address}
    (h : (pool.closeConnection addr).activeConnections a = some conn) :
    a ≠ addr ∧ pool.activeConnections a = some conn := by
  by_cases heq : a = addr
  · rw [heq, closeConnection, set_self] at h
    cases h
  · rw [closeConnection, set_of_ne _ _ heq] at h
    exact ⟨heq, h⟩

/-- A connection handed out is the one of before, or a new one. -/
theorem getConnection_some (h : pool.getConnection addr peek connects = (some conn, pool')) :
    pool.Reuses addr peek ∧ pool.activeConnections addr = some conn ∧ pool' = pool ∨
      ¬pool.Reuses addr peek ∧ connects = true ∧ conn = ⟨pool.opened, [], false⟩ ∧
        pool' = { pool.set addr (some conn) with opened := pool.opened + 1 } := by
  unfold getConnection at h
  rcases hactive : pool.activeConnections addr with _ | old
  · rw [hactive] at h
    refine Or.inr ⟨fun hr => ?_, connect_some h⟩
    rw [Reuses, hactive] at hr
    exact Bool.false_ne_true hr.1
  · rw [hactive] at h
    by_cases halive : socketAlive peek = true
    · simp only [halive, if_true, Prod.mk.injEq, Option.some.injEq] at h
      obtain ⟨rfl, rfl⟩ := h
      exact Or.inl ⟨⟨by rw [hactive]; rfl, halive⟩, rfl, rfl⟩
    · simp only [halive] at h
      obtain ⟨hc, hconn, hpool⟩ := connect_some h
      refine Or.inr ⟨fun hr => halive hr.2, hc, hconn, ?_⟩
      rw [hpool]
      unfold closeConnection set
      simp only [Function.update_idem]

/-- No connection is handed out: those that remain were there before. -/
theorem getConnection_none (h : pool.getConnection addr peek connects = (none, pool')) :
    pool'.opened = pool.opened ∧ ∀ a c, pool'.activeConnections a = some c →
      pool.activeConnections a = some c := by
  unfold getConnection at h
  rcases hactive : pool.activeConnections addr with _ | old
  · rw [hactive] at h
    rw [connect_none h]
    exact ⟨rfl, fun a c ha => ha⟩
  · rw [hactive] at h
    by_cases halive : socketAlive peek = true
    · simp only [halive, if_true] at h
      cases h
    · simp only [halive] at h
      rw [connect_none h]
      exact ⟨rfl, fun a c ha => (activeConnections_closeConnection ha).2⟩

end ConnectionPool

namespace Client

variable {c c' : Client} {conn : Connection} {x : AppendExchange}

/-- Nothing is left in the buffer when the call opens a connection. -/
def OpensClean (c : Client) : ClientEvent → Prop
  | .append _ x =>
    c.connectionPool.Reuses c.proxy x.peek ∨ x.connects = false ∨ c.rb.available = 0
  | .updateProxy _ => True

instance (c : Client) (e : ClientEvent) : Decidable (c.OpensClean e) :=
  match e with
  | .append _ x => inferInstanceAs (Decidable
      (c.connectionPool.Reuses c.proxy x.peek ∨ x.connects = false ∨ c.rb.available = 0))
  | .updateProxy _ => .isTrue trivial

/-! ## Every append returns -/

theorem exists_peek {mem : List UInt8} {available : ℕ} (h : available ≤ mem.length) :
    ∃ header, MessageHeader.peek mem available = .ok header := by
  have hfetch : ∀ off len, off + len ≤ 20 → 20 ≤ mem.length →
      fetch mem off len = .ok (slice mem off len) := by
    intro off len hin hsize
    unfold fetch
    rw [read?_eq_some (by omega)]
  unfold MessageHeader.peek
  have hsize : MessageHeader.size = 20 := rfl
  split_ifs with hshort
  · exact ⟨none, rfl⟩
  · rw [hfetch 0 4 (by omega) (by omega), hfetch 4 4 (by omega) (by omega),
      hfetch 8 4 (by omega) (by omega), hfetch 12 8 (by omega) (by omega)]
    exact ⟨_, rfl⟩

theorem finish_returns {msgLen : ℕ} {pending : List UInt8} (hok : c.rb.Ok)
    (hav : 2 + msgLen ≤ c.rb.available) :
    ∃ b c', c.finish conn x msgLen pending = .ok (b, c') ∧ c'.rb.Ok := by
  obtain ⟨header, hpeek⟩ := @exists_peek (c.rb.bytes.drop 2) msgLen (by
    rw [List.length_drop, hok.length_bytes]
    omega)
  unfold finish
  rw [hpeek]
  exact ⟨_, _, rfl, hok.consume hav⟩

/-- An `append` returns, whatever is in the buffer, and reads only bytes that were received. -/
theorem append_returns (payload : Command) (x : AppendExchange) (hok : c.rb.Ok) :
    ∃ b c', c.append payload x = .ok (b, c') ∧ c'.rb.Ok := by
  unfold append
  rcases c.connectionPool.getConnection c.proxy x.peek x.connects with ⟨_ | conn, pool⟩
  · exact ⟨_, _, rfl, hok⟩
  · simp only
    unfold exchange
    by_cases hs : x.sends = true
    · simp only [if_pos hs]
      rcases hrecv : recvRawBuffered ⟨conn.pending ++ x.answer, x.schedule⟩
        (sendRequest { c with connectionPool := pool } x).rb with ⟨_ | msgLen, sock, rb⟩
      · exact ⟨_, _, rfl, (recvRawBuffered_received _ hok hrecv).1.ok⟩
      · obtain ⟨hr, hlen⟩ := recvRawBuffered_received _ hok hrecv
        exact finish_returns hr.ok (hlen msgLen rfl).1
    · rw [if_neg hs]
      exact ⟨_, _, rfl, hok⟩

/-! ## One exchange -/

/-- What has come off the connection is in the buffer when nothing was there before. -/
theorem available_of_received {onWire : List UInt8} {sock : Socket} {rb rb' : ReadBuffer}
    (hok : rb.Ok) (hempty : rb.available = 0)
    (hr : Received ⟨onWire, x.schedule⟩ rb sock rb') :
    onWire.length - sock.pending.length = rb'.available := by
  have hbytes := congrArg List.length hr.unread
  rw [unread, unread, List.length_append, List.length_append, hr.ok.length_bytes,
    hok.length_bytes, hempty] at hbytes
  simp only at hbytes
  omega

theorem bytes_of_available {rb : ReadBuffer} (hok : rb.Ok) (hempty : rb.available = 0) :
    rb.bytes = [] := by
  apply List.eq_nil_of_length_eq_zero
  rw [hok.length_bytes, hempty]

/-- A response is only read from a clean buffer when its whole frame arrives. -/
theorem arrives_of_received {rb : ReadBuffer} (hok : rb.Ok) (hempty : rb.available = 0)
    (hfit : x.response.length ≤ maxMessageSize) {msgLen : ℕ} {sock : Socket} {rb' : ReadBuffer}
    (hrecv : recvRawBuffered ⟨x.answer, x.schedule⟩ rb = (some msgLen, sock, rb')) :
    x.answer = responseFrame x.response := by
  obtain ⟨hr, hlen⟩ := recvRawBuffered_received _ hok hrecv
  obtain ⟨hav, hannounced⟩ := hlen msgLen rfl
  have hin : rb'.available ≤ x.answer.length := by
    rw [← available_of_received hok hempty hr]
    exact Nat.sub_le _ _
  have hwire : unread ⟨x.answer, x.schedule⟩ rb = x.answer := by
    rw [unread, bytes_of_available hok hempty, List.nil_append]
  have htake : x.answer.take 2 = lengthPrefix x.response.length := by
    have htwo : 2 ≤ x.arrives := by
      have hle : x.answer.length ≤ x.arrives := List.length_take_le _ _
      omega
    rw [AppendExchange.answer, List.take_take, min_eq_left htwo, responseFrame,
      List.take_left' (length_lengthPrefix _)]
  rw [hwire, htake, ntohs_lengthPrefix hfit] at hannounced
  apply List.take_of_length_le
  have hframe : (responseFrame x.response).length = 2 + x.response.length := by
    rw [responseFrame, List.length_append, length_lengthPrefix]
  have hle : x.answer.length ≤ x.arrives := List.length_take_le _ _
  omega

/-- What an exchange leaves behind on a clean connection. -/
structure Exchanged (c : Client) (conn : Connection) (c' : Client) : Prop where
  proxy : c'.proxy = c.proxy
  ok : c'.rb.Ok
  length : c'.origins.length = c'.rb.available
  origins : ∀ k ∈ c'.origins, k = conn.number
  records : ∃ r, c'.records = c.records ++ [r] ∧ OwnAnswer r
  /-- The connection is closed, or it is clean again. -/
  pool : c'.connectionPool = c.connectionPool.closeConnection c.proxy ∨
    c'.rb.available = 0 ∧ ∃ conn', c'.connectionPool = c.connectionPool.set c.proxy (some conn') ∧
      conn'.pending = [] ∧ conn'.number = conn.number

theorem ownAnswer_failed (connection : Option ℕ) (answer : List UInt8) :
    OwnAnswer (.failed connection answer) where
  success := fun h => absurd h Bool.false_ne_true
  own := fun _ hk => absurd hk List.not_mem_nil

/-- A response that is read whole off a clean connection. -/
theorem exchanged_of_frame {b : Bool} (hok : c.rb.Ok) (hempty : c.rb.available = 0)
    (horigins : c.origins = []) (hfit : x.response.length ≤ maxMessageSize) {msgLen : ℕ}
    {sock : Socket} {rb : ReadBuffer}
    (hrecv : recvRawBuffered ⟨x.answer, x.schedule⟩ c.rb = (some msgLen, sock, rb))
    (h : (c.receive conn (x.answer.length - sock.pending.length) rb).finish conn x msgLen
      sock.pending = .ok (b, c')) : Exchanged c conn c' := by
  obtain ⟨hr, hlen⟩ := recvRawBuffered_received _ hok hrecv
  obtain ⟨hav, -⟩ := hlen msgLen rfl
  have hanswer := arrives_of_received hok hempty hfit hrecv
  have hwire : unread ⟨x.answer, x.schedule⟩ c.rb = x.answer := by
    rw [unread, bytes_of_available hok hempty, List.nil_append]
  have hframe : unread ⟨x.answer, x.schedule⟩ c.rb =
      lengthPrefix x.response.length ++ x.response ++ [] := by
    rw [hwire, hanswer, responseFrame, List.append_nil]
  obtain ⟨rfl, -, hconsumed, hrest⟩ := recvRawBuffered_frame hok hfit hframe hrecv
  obtain ⟨hbytes, hpending⟩ := List.append_eq_nil_iff.mp hrest
  have hzero : (rb.consume (2 + x.response.length)).available = 0 := by
    rw [← hconsumed.length_bytes, hbytes, List.length_nil]
  have hall : rb.available = 2 + x.response.length := by
    have hdropped := bytes_consume hr.ok hav
    rw [hbytes] at hdropped
    have hle := List.drop_eq_nil_iff.mp hdropped.symm
    rw [hr.ok.length_bytes] at hle
    omega
  have hread : rb.bytes = x.answer := by
    rw [← hwire, ← hr.unread, unread, hpending, List.append_nil]
  have htake : rb.bytes.take (2 + x.response.length) = x.answer := by
    rw [← hall, ← hr.ok.length_bytes, List.take_length, hread]
  have hbody : (c.receive conn (x.answer.length - sock.pending.length) rb).rb.bytes.drop 2 =
      x.response := by
    show rb.bytes.drop 2 = x.response
    rw [hread, hanswer, responseFrame, List.drop_left' (length_lengthPrefix _)]
  have hcount := available_of_received hok hempty hr
  have hreplicate : c.origins ++ List.replicate (x.answer.length - sock.pending.length)
      conn.number = List.replicate (2 + x.response.length) conn.number := by
    rw [horigins, List.nil_append, hcount, hall]
  unfold finish at h
  rw [hbody] at h
  rcases hpeek : MessageHeader.peek x.response x.response.length with fault | header
  · rw [hpeek] at h
    cases h
  rw [hpeek] at h
  cases h
  refine ⟨rfl, hconsumed, ?_, ?_, ⟨_, rfl, ?_, ?_⟩, Or.inr ⟨hzero, _, rfl, hpending, rfl⟩⟩
  · show ((c.origins ++ List.replicate _ conn.number).drop _).length = _
    rw [hreplicate, List.length_drop, List.length_replicate, Nat.sub_self]
    exact hzero.symm
  · intro k hk
    replace hk : k ∈ (c.origins ++ List.replicate _ conn.number).drop _ := hk
    rw [hreplicate] at hk
    exact List.eq_of_mem_replicate (List.mem_of_mem_drop hk)
  · intro hresult
    obtain ⟨found, rfl, htype⟩ := (Option.any_eq_true _ _).mp hresult
    exact ⟨htake, x.response, hanswer, found, hpeek, of_decide_eq_true htype⟩
  · intro k hk
    replace hk : k ∈ (c.origins ++ List.replicate _ conn.number).take _ := hk
    rw [hreplicate] at hk
    exact congrArg some (List.eq_of_mem_replicate (List.mem_of_mem_take hk)).symm

/-- **One exchange.** On a connection with nothing on it, and with nothing in the buffer. -/
theorem exchanged_of_clean {b : Bool} (h : c.exchange conn x = .ok (b, c')) (hok : c.rb.Ok)
    (hempty : c.rb.available = 0) (horigins : c.origins = []) (hpending : conn.pending = [])
    (hfit : x.response.length ≤ maxMessageSize) : Exchanged c conn c' := by
  unfold exchange at h
  by_cases hs : x.sends = true
  · simp only [if_pos hs, hpending, List.nil_append] at h
    rcases hrecv : recvRawBuffered ⟨x.answer, x.schedule⟩ (c.sendRequest x).rb with
      ⟨_ | msgLen, sock, rb⟩
    · rw [hrecv] at h
      cases h
      have hr := (recvRawBuffered_received _ hok hrecv).1
      have hcount := available_of_received hok hempty hr
      refine ⟨rfl, hr.ok, ?_, ?_, ⟨_, rfl, ownAnswer_failed _ _⟩, Or.inl rfl⟩
      · show (c.origins ++ List.replicate _ conn.number).length = rb.available
        rw [horigins, List.nil_append, List.length_replicate, hcount]
      · show ∀ k ∈ c.origins ++ List.replicate _ conn.number, k = conn.number
        rw [horigins, List.nil_append]
        exact fun k hk => List.eq_of_mem_replicate hk
    · rw [hrecv] at h
      have he : Exchanged (c.sendRequest x) conn c' :=
        exchanged_of_frame hok hempty horigins hfit hrecv h
      exact ⟨he.proxy, he.ok, he.length, he.origins, he.records, he.pool⟩
  · rw [if_neg hs] at h
    cases h
    refine ⟨rfl, hok, ?_, ?_, ⟨_, rfl, ownAnswer_failed _ _⟩, Or.inl rfl⟩
    · show c.origins.length = c.rb.available
      rw [horigins, hempty, List.length_nil]
    · show ∀ k ∈ c.origins, k = conn.number
      rw [horigins]
      exact fun _ hk => absurd hk List.not_mem_nil

/-- Behind bytes of other connections, a response is read with the first of them. -/
theorem not_ownAnswer_of_left {b : Bool} (h : c.exchange conn x = .ok (b, c'))
    (hleft : c.origins ≠ []) (hother : ∀ k ∈ c.origins, k ≠ conn.number) :
    ∃ r, c'.records = c.records ++ [r] ∧ (r.read ≠ [] → ¬OwnAnswer r) := by
  unfold exchange at h
  by_cases hs : x.sends = true
  · simp only [if_pos hs] at h
    rcases hrecv : recvRawBuffered ⟨conn.pending ++ x.answer, x.schedule⟩ (c.sendRequest x).rb
      with ⟨_ | msgLen, sock, rb⟩
    · rw [hrecv] at h
      cases h
      exact ⟨_, rfl, fun hread => absurd rfl hread⟩
    · rw [hrecv] at h
      simp only at h
      unfold finish at h
      split at h
      · cases h
      · cases h
        refine ⟨_, rfl, fun _ hown => ?_⟩
        obtain ⟨k, origins, hk⟩ := List.exists_cons_of_ne_nil hleft
        have hfirst : k ∈ (c.origins ++ List.replicate
            ((conn.pending ++ x.answer).length - sock.pending.length) conn.number).take
              (2 + msgLen) := by
          rw [hk, Nat.add_comm 2 msgLen, List.cons_append, List.take_succ_cons]
          exact List.mem_cons_self
        have hsame := Option.some.inj (hown.own k hfirst)
        apply hother k _ hsame.symm
        rw [hk]
        exact List.mem_cons_self
  · rw [if_neg hs] at h
    cases h
    exact ⟨_, rfl, fun hread => absurd rfl hread⟩

/-! ## Runs -/

/-- What holds between the calls of a client that opened every connection with nothing left in its
buffer. -/
structure Inv (c : Client) : Prop where
  ok : c.rb.Ok
  length : c.origins.length = c.rb.available
  origins : ∀ k ∈ c.origins, k < c.connectionPool.opened
  only : ∀ addr conn, c.connectionPool.activeConnections addr = some conn → addr = c.proxy
  /-- An open connection has nothing on it, and nothing is in the buffer. -/
  idle : ∀ addr conn, c.connectionPool.activeConnections addr = some conn →
    conn.number < c.connectionPool.opened ∧ conn.pending = [] ∧ c.rb.available = 0
  own : ∀ r ∈ c.records, OwnAnswer r

theorem inv_init (proxy : Address) (padding : List UInt8) {rb : ReadBuffer} (hrb : rb.Fresh) :
    Inv (init proxy padding rb) where
  ok := hrb.ok
  length := by
    show 0 = rb.tail - rb.head
    rw [hrb.head, hrb.tail]
  origins := fun _ hk => absurd hk List.not_mem_nil
  only := fun _ _ h => nomatch h
  idle := fun _ _ h => nomatch h
  own := fun _ hr => absurd hr List.not_mem_nil

theorem Inv.origins_eq_nil (h : Inv c) (hempty : c.rb.available = 0) : c.origins = [] := by
  apply List.eq_nil_of_length_eq_zero
  rw [h.length, hempty]

theorem Inv.records_concat {r : AppendRecord} {records : List AppendRecord} (h : Inv c)
    (hrecords : records = c.records ++ [r]) (hr : OwnAnswer r) : ∀ r ∈ records, OwnAnswer r := by
  intro r' hr'
  rw [hrecords] at hr'
  rcases List.mem_append.mp hr' with hold | hnew
  · exact h.own r' hold
  · rw [List.mem_singleton.mp hnew]
    exact hr

/-- An exchange on the connection of a pool that has no other. -/
theorem inv_of_exchanged {pool : ConnectionPool} (h : Inv c)
    (honly : ∀ addr conn, pool.activeConnections addr = some conn → addr = c.proxy)
    (hnumber : conn.number < pool.opened)
    (he : Exchanged { c with connectionPool := pool } conn c') : Inv c' := by
  obtain ⟨r, hrecords, hr⟩ := he.records
  have hgone : ∀ (conn' : Option Connection) addr conn'',
      (pool.set c.proxy conn').activeConnections addr = some conn'' →
        addr = c.proxy ∧ conn' = some conn'' := by
    intro conn' addr conn'' hactive
    by_cases haddr : addr = c.proxy
    · rw [haddr, ConnectionPool.set_self] at hactive
      exact ⟨haddr, hactive⟩
    · rw [ConnectionPool.set_of_ne _ _ haddr] at hactive
      exact absurd (honly addr conn'' hactive) haddr
  have hown := h.records_concat hrecords hr
  have hproxy : c'.proxy = c.proxy := he.proxy
  rcases he.pool with hclosed | ⟨hempty, conn', hset, hpending, hsame⟩
  · refine ⟨he.ok, he.length, fun k hk => ?_, fun addr conn'' hactive => ?_,
      fun addr conn'' hactive => ?_, hown⟩
    · rw [he.origins k hk, hclosed]
      exact hnumber
    · rw [hclosed] at hactive
      exact nomatch (hgone none addr conn'' hactive).2
    · rw [hclosed] at hactive
      exact nomatch (hgone none addr conn'' hactive).2
  · refine ⟨he.ok, he.length, fun k hk => ?_, fun addr conn'' hactive => ?_,
      fun addr conn'' hactive => ?_, hown⟩
    · rw [he.origins k hk, hset]
      exact hnumber
    · rw [hset] at hactive
      rw [hproxy]
      exact (hgone _ addr conn'' hactive).1
    · rw [hset] at hactive ⊢
      rw [← Option.some.inj (hgone _ addr conn'' hactive).2, hsame]
      exact ⟨hnumber, hpending, hempty⟩

/-- `append` fails to connect, or it exchanges a request for a response on a connection. -/
theorem append_cases {payload : Command} {b : Bool} (h : c.append payload x = .ok (b, c')) :
    (∃ pool, c.connectionPool.getConnection c.proxy x.peek x.connects = (none, pool) ∧
      c' = { c with connectionPool := pool }.record (.failed none [])) ∨
    ∃ conn pool, c.connectionPool.getConnection c.proxy x.peek x.connects = (some conn, pool) ∧
      exchange { c with connectionPool := pool } conn x = .ok (b, c') := by
  unfold append at h
  rcases hget : c.connectionPool.getConnection c.proxy x.peek x.connects with ⟨_ | conn, pool⟩
  · rw [hget] at h
    cases h
    exact Or.inl ⟨pool, rfl, rfl⟩
  · rw [hget] at h
    exact Or.inr ⟨conn, pool, rfl, h⟩

theorem inv_append {payload : Command} {b : Bool} (h : Inv c)
    (hclean : c.OpensClean (.append payload x)) (hanswers : c.Answerable x)
    (happend : c.append payload x = .ok (b, c')) : Inv c' := by
  rcases append_cases happend with ⟨pool, hget, rfl⟩ | ⟨conn, pool, hget, hexchange⟩
  · obtain ⟨hopened, hold⟩ := ConnectionPool.getConnection_none hget
    refine ⟨h.ok, h.length, fun k hk => ?_, fun addr conn hactive => ?_,
      fun addr conn hactive => ?_, h.records_concat rfl (ownAnswer_failed none [])⟩
    · show k < pool.opened
      rw [hopened]
      exact h.origins k hk
    · exact h.only addr conn (hold _ _ hactive)
    · show conn.number < pool.opened ∧ _
      rw [hopened]
      exact h.idle addr conn (hold _ _ hactive)
  · unfold Answerable at hanswers
    rw [hget] at hanswers
    obtain ⟨hfit, -⟩ := hanswers conn rfl
    rcases ConnectionPool.getConnection_some hget with
      ⟨-, hactive, rfl⟩ | ⟨hfresh, hconnects, rfl, rfl⟩
    · obtain ⟨hnumber, hpending, hempty⟩ := h.idle _ _ hactive
      exact inv_of_exchanged h h.only hnumber
        (exchanged_of_clean hexchange h.ok hempty (h.origins_eq_nil hempty) hpending hfit)
    · have hempty : c.rb.available = 0 := by
        rcases hclean with hreuses | hdown | hempty
        · exact absurd hreuses hfresh
        · rw [hconnects] at hdown
          cases hdown
        · exact hempty
      refine inv_of_exchanged h (fun addr conn hactive => ?_) (Nat.lt_succ_self _)
        (exchanged_of_clean hexchange h.ok hempty (h.origins_eq_nil hempty) rfl hfit)
      by_cases haddr : addr = c.proxy
      · exact haddr
      · replace hactive : (c.connectionPool.set c.proxy _).activeConnections addr = some conn :=
          hactive
        rw [ConnectionPool.set_of_ne _ _ haddr] at hactive
        exact h.only addr conn hactive

theorem inv_updateProxy (h : Inv c) (newProxy : Address) : Inv (c.updateProxy newProxy) where
  ok := h.ok
  length := h.length
  origins := h.origins
  only := fun _ _ hactive => nomatch hactive
  idle := fun _ _ hactive => nomatch hactive
  own := h.own

/-- The call that a step of a client stands for. -/
theorem step_append {payload : Command} (h : c.step (.append payload x) = some c') :
    c.Answerable x ∧ ∃ b, c.append payload x = .ok (b, c') := by
  rw [Client.step] at h
  by_cases hanswers : c.Answerable x
  · rw [if_pos hanswers] at h
    rcases happend : c.append payload x with fault | ⟨b, c''⟩
    · rw [happend] at h
      cases h
    · rw [happend] at h
      cases h
      exact ⟨hanswers, b, rfl⟩
  · rw [if_neg hanswers] at h
    cases h

theorem Inv.step {e : ClientEvent} (h : Inv c) (hclean : c.OpensClean e)
    (hstep : c.step e = some c') : Inv c' := by
  rcases e with ⟨payload, x⟩ | newProxy
  · obtain ⟨hanswers, b, happend⟩ := step_append hstep
    exact inv_append h hclean hanswers happend
  · cases hstep
    exact inv_updateProxy h newProxy

/-- A connection that is opened with bytes in the buffer. -/
theorem not_ownAnswer_of_not_opensClean {e : ClientEvent} (h : Inv c) (hleft : ¬c.OpensClean e)
    (hstep : c.step e = some c') :
    ∃ r, c'.records = c.records ++ [r] ∧ (r.read ≠ [] → ¬OwnAnswer r) := by
  rcases e with ⟨payload, x⟩ | newProxy
  · obtain ⟨-, b, happend⟩ := step_append hstep
    unfold OpensClean at hleft
    push Not at hleft
    obtain ⟨hfresh, hconnects, hbytes⟩ := hleft
    have hsome : c.origins ≠ [] := by
      intro hnil
      rw [← h.length, hnil] at hbytes
      exact hbytes rfl
    rcases append_cases happend with ⟨pool, hget, rfl⟩ | ⟨conn, pool, hget, hexchange⟩
    · exact ⟨_, rfl, fun hread => absurd rfl hread⟩
    · rcases ConnectionPool.getConnection_some hget with ⟨hreuses, -⟩ | ⟨-, -, rfl, rfl⟩
      · exact absurd hreuses hfresh
      · have hspoilt := not_ownAnswer_of_left hexchange hsome fun k hk => (h.origins k hk).ne
        exact hspoilt
  · exact absurd trivial hleft

theorem inv_of_reachVia {proxy : Address} {padding : List UInt8} {rb : ReadBuffer} (hrb : rb.Fresh)
    (h : (calls proxy padding rb).ReachVia OpensClean c) : Inv c :=
  h.invariant Inv (inv_init proxy padding hrb) fun _ _ _ _ hi hclean hstep => hi.step hclean hstep

/-- **The answer of an append is its own**, in every run that opens no connection with bytes left in
the buffer; and the first connection that is opened so spoils the next response that is read. -/
theorem append_own_answer (proxy : Address) (padding : List UInt8) (rb : ReadBuffer)
    (hrb : rb.Fresh) (c : Client) (h : (calls proxy padding rb).ReachVia OpensClean c) :
    (∀ r ∈ c.records, OwnAnswer r) ∧
      ∀ (e : ClientEvent) (c' : Client), ¬c.OpensClean e → c.step e = some c' →
        ∃ r, c'.records = c.records ++ [r] ∧ (r.read ≠ [] → ¬OwnAnswer r) := by
  have hinv := inv_of_reachVia hrb h
  exact ⟨hinv.own, fun e c' hleft hstep => not_ownAnswer_of_not_opensClean hinv hleft hstep⟩

/-- The body of a response without data. -/
def responseBody (type : MessageTypes) : List UInt8 :=
  (buildWireBytes type.value 0 0 0 []).drop 2

/-- The proxy sends its responses as such frames. -/
theorem responseFrame_responseBody (type : MessageTypes) :
    responseFrame (responseBody type) = buildWireBytes type.value 0 0 0 [] := by
  unfold responseFrame responseBody buildWireBytes
  rw [List.append_assoc, List.append_assoc, List.append_assoc,
    List.drop_left' (length_lengthPrefix _)]
  simp

/-- A call during which the whole request is sent and the first `arrives` bytes of the response get
through. -/
def exchangeOf (peek : PeekResult) (type : MessageTypes) (arrives : ℕ) : AppendExchange where
  peek := peek
  connects := true
  sendTime := 1
  sends := true
  response := responseBody type
  arrives := arrives
  schedule := [.chunk arrives]

/-- A proxy that is asked twice over one connection. -/
theorem append_own_answer_twice :
    ∃ c : Client, c.records.map AppendRecord.result = [true, false] ∧
      (∀ r ∈ c.records, OwnAnswer r) ∧
      ∀ (e : ClientEvent) (c' : Client), ¬c.OpensClean e → c.step e = some c' →
        ∃ r, c'.records = c.records ++ [r] ∧ (r.read ≠ [] → ¬OwnAnswer r) := by
  have hrun : ((calls ⟨"127.0.0.1", 9000⟩ [] zeroed).runVia (fun c e => decide (c.OpensClean e))
      [.append [] (exchangeOf .closed .success 30), .append [] (exchangeOf .wouldBlock .failure 30)]
      (init ⟨"127.0.0.1", 9000⟩ [] zeroed)).any
        (fun c : Client => decide (c.records.map AppendRecord.result = [true, false])) = true := by
    decide +kernel
  obtain ⟨c, hreach, hc⟩ := (calls ⟨"127.0.0.1", 9000⟩ [] zeroed).exists_reachVia_of_run
    (fun c e => of_decide_eq_true) hrun
  exact ⟨c, of_decide_eq_true hc, append_own_answer _ _ _ zeroed_fresh c hreach⟩

/-- The connection is lost behind the first six bytes of a SUCCESS. The next request is answered by
a FAILURE on a new connection, and is taken to have succeeded. -/
theorem not_append_own_answer :
    ¬∀ (proxy : Address) (padding : List UInt8) (rb : ReadBuffer), rb.Fresh → ∀ c,
      (calls proxy padding rb).Reach c → ∀ r ∈ c.records, OwnAnswer r := by
  intro hall
  have hrun : ((calls ⟨"127.0.0.1", 9000⟩ [] zeroed).run
      [.append [] (exchangeOf .closed .success 6), .append [] (exchangeOf .closed .failure 30)]
      (init ⟨"127.0.0.1", 9000⟩ [] zeroed)).any
        (fun c : Client => decide (∃ r ∈ c.records, r.connection = some 1 ∧ r.result = true ∧
          r.answer = responseFrame (responseBody .failure) ∧ 0 ∈ r.origins)) = true := by
    decide +kernel
  obtain ⟨c, hreach, hc⟩ := (calls ⟨"127.0.0.1", 9000⟩ [] zeroed).exists_reach_of_run hrun
  obtain ⟨r, hr, hconn, -, -, horigin⟩ := of_decide_eq_true hc
  have hsame := (hall _ _ _ zeroed_fresh c hreach r hr).own 0 horigin
  rw [hconn] at hsame
  cases hsame

end Client

end Ziplog
