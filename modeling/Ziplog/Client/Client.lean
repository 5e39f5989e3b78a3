import Ziplog.Api.StreamReassembly
import Ziplog.Library.Lts

/-!
# The client

A `Client` has a pool of connections and one `ReadBuffer`. `append` takes the connection to the
proxy from the pool, sends a request on it and reads one response. The pool replaces a connection
that it finds dead; the buffer stays as it is then.

What the environment contributes to one `append` is an `AppendExchange`: what the system calls
report, and how much of the proxy's response frame gets onto the connection before it is lost. The
proxy answers a request with one whole frame, and puts nothing on a connection behind a frame that
was cut short.
-/

namespace Ziplog

open ByteImage Cells ReadBuffer

/-! ## Connections -/

/-- A connection as the client sees it: the bytes that the proxy put on it and `recv` has not
returned, and whether the last frame on it was cut short. -/
structure Connection where
  number : ℕ
  pending : List UInt8
  cut : Bool
  deriving DecidableEq, Repr

/-- What `recv` reports to `socket_alive`, which takes nothing off the connection. -/
inductive PeekResult
  | data
  | closed
  | wouldBlock
  | failed
  deriving DecidableEq, Repr

def socketAlive : PeekResult → Bool
  | .data | .wouldBlock => true
  | .closed | .failed => false

/-- The open connection for each address, and how many connections were opened so far. -/
structure ConnectionPool where
  activeConnections : Address → Option Connection
  opened : ℕ

namespace ConnectionPool

def init : ConnectionPool := ⟨fun _ => none, 0⟩

def set (pool : ConnectionPool) (addr : Address) (conn : Option Connection) : ConnectionPool :=
  { pool with activeConnections := Function.update pool.activeConnections addr conn }

@[simp] theorem set_self (pool : ConnectionPool) (addr : Address) (conn : Option Connection) :
    (pool.set addr conn).activeConnections addr = conn := Function.update_self _ _ _

theorem set_of_ne (pool : ConnectionPool) {addr a : Address} (conn : Option Connection)
    (h : a ≠ addr) : (pool.set addr conn).activeConnections a = pool.activeConnections a :=
  Function.update_of_ne h _ _

def closeConnection (pool : ConnectionPool) (addr : Address) : ConnectionPool := pool.set addr none

def closeAll (pool : ConnectionPool) : ConnectionPool :=
  { pool with activeConnections := fun _ => none }

/-- The second half of `get_connection`; `connects` is whether the address can be reached. -/
def connect (pool : ConnectionPool) (addr : Address) (connects : Bool) :
    Option Connection × ConnectionPool :=
  if connects then
    let conn : Connection := ⟨pool.opened, [], false⟩
    (some conn, { pool.set addr (some conn) with opened := pool.opened + 1 })
  else (none, pool)

def getConnection (pool : ConnectionPool) (addr : Address) (peek : PeekResult) (connects : Bool) :
    Option Connection × ConnectionPool :=
  match pool.activeConnections addr with
  | some conn =>
    if socketAlive peek then (some conn, pool)
    else (pool.closeConnection addr).connect addr connects
  | none => pool.connect addr connects

end ConnectionPool

/-! ## Exchanges -/

/-- A response of the proxy as it goes onto a connection. -/
def responseFrame (body : List UInt8) : List UInt8 := lengthPrefix body.length ++ body

/-- What happens outside the client during one `append`. -/
structure AppendExchange where
  peek : PeekResult
  connects : Bool
  sendTime : ℕ
  /-- `sendmsg` takes the whole request. -/
  sends : Bool
  /-- The body of the proxy's response. -/
  response : List UInt8
  /-- How many bytes of the response frame get onto the connection. -/
  arrives : ℕ
  schedule : List RecvEvent

namespace AppendExchange

/-- What the proxy puts on the connection. -/
def answer (x : AppendExchange) : List UInt8 := (responseFrame x.response).take x.arrives

/-- The connection is lost before the whole frame is on it. -/
def cuts (x : AppendExchange) : Bool := x.arrives < (responseFrame x.response).length

/-- A proxy can answer so: its response fits a frame, and nothing follows a frame that was cut. -/
def AnswersOn (x : AppendExchange) (conn : Connection) : Prop :=
  x.response.length ≤ maxMessageSize ∧ (conn.cut = true → x.arrives = 0)

instance (x : AppendExchange) (conn : Connection) : Decidable (x.AnswersOn conn) := by
  unfold AnswersOn
  infer_instance

end AppendExchange

/-! ## The client -/

/-- One `append`: the number of the connection its request was sent on, what the proxy put on this
connection in answer, the bytes read as the response, the connection each of them came on, and the
result. -/
structure AppendRecord where
  connection : Option ℕ
  answer : List UInt8
  read : List UInt8
  origins : List ℕ
  result : Bool
  deriving DecidableEq

/-- An `append` that returns false before it has read a response. -/
def AppendRecord.failed (connection : Option ℕ) (answer : List UInt8) : AppendRecord :=
  ⟨connection, answer, [], [], false⟩

/-- The client. `padding` is `BENCHMARK_PADDING`. The last three fields record what was sent, for
each byte in the buffer the connection it came on, and the calls of `append`. -/
structure Client where
  proxy : Address
  padding : List UInt8
  connectionPool : ConnectionPool
  rb : ReadBuffer
  sent : List (List UInt8)
  origins : List ℕ
  records : List AppendRecord

/-- The decimal digits of a number. -/
def decimal (n : ℕ) : List UInt8 := (Nat.toDigits 10 n).map fun c => UInt8.ofNat c.toNat

def makeBenchmarkPayload (padding : List UInt8) (sendTime : ℕ) : Command :=
  decimal sendTime ++ [124] ++ padding

namespace Client

def init (proxy : Address) (padding : List UInt8) (rb : ReadBuffer) : Client :=
  ⟨proxy, padding, .init, rb, [], [], []⟩

def updateProxy (c : Client) (newProxy : Address) : Client :=
  { c with connectionPool := c.connectionPool.closeAll, proxy := newProxy }

def record (c : Client) (r : AppendRecord) : Client := { c with records := c.records ++ [r] }

/-- A call of `append` that closes its connection and returns false. -/
def giveUp (c : Client) (conn : Connection) (answer : List UInt8) : Client :=
  { c with connectionPool := c.connectionPool.closeConnection c.proxy }.record
    (.failed (some conn.number) answer)

/-- The request goes onto the connection. -/
def sendRequest (c : Client) (x : AppendExchange) : Client :=
  let wire := buildWireBytes MessageTypes.append.value 0 0 0
    (makeBenchmarkPayload c.padding x.sendTime)
  { c with sent := c.sent ++ [wire] }

/-- The buffer after `recv_raw_buffered` took `n` bytes off a connection. -/
def receive (c : Client) (conn : Connection) (n : ℕ) (rb : ReadBuffer) : Client :=
  { c with rb := rb, origins := c.origins ++ List.replicate n conn.number }

/-- The end of `append` for a response of `msgLen` bytes in the buffer: its result, and the client
with the response consumed. Only the bytes received count as memory that may be read. -/
def finish (c : Client) (conn : Connection) (x : AppendExchange) (msgLen : ℕ)
    (pending : List UInt8) : Except MemFault (Bool × Client) :=
  match MessageHeader.peek (c.rb.bytes.drop 2) msgLen with
  | .error fault => .error fault
  | .ok header =>
    let result := header.any fun h => h.type = MessageTypes.success.value
    let conn' : Connection := { conn with pending := pending, cut := conn.cut || x.cuts }
    .ok (result,
      { c with
        connectionPool := c.connectionPool.set c.proxy (some conn')
        rb := c.rb.consume (2 + msgLen)
        origins := c.origins.drop (2 + msgLen) }.record
      { connection := some conn.number
        answer := x.answer
        read := c.rb.bytes.take (2 + msgLen)
        origins := c.origins.take (2 + msgLen)
        result := result })

/-- `append` behind `get_connection`. -/
def exchange (c : Client) (conn : Connection) (x : AppendExchange) :
    Except MemFault (Bool × Client) :=
  if x.sends then
    let c := c.sendRequest x
    let onWire := conn.pending ++ x.answer
    match recvRawBuffered ⟨onWire, x.schedule⟩ c.rb with
    | (none, sock, rb) =>
      .ok (false, (c.receive conn (onWire.length - sock.pending.length) rb).giveUp conn x.answer)
    | (some msgLen, sock, rb) =>
      (c.receive conn (onWire.length - sock.pending.length) rb).finish conn x msgLen sock.pending
  else .ok (false, c.giveUp conn [])

/-- `Client::append`. The command it is given goes nowhere: the request carries the send time and
the padding. -/
def append (c : Client) (_payload : Command) (x : AppendExchange) :
    Except MemFault (Bool × Client) :=
  match c.connectionPool.getConnection c.proxy x.peek x.connects with
  | (none, pool) =>
    .ok (false, { c with connectionPool := pool }.record (.failed none []))
  | (some conn, pool) => { c with connectionPool := pool }.exchange conn x

end Client

/-! ## Runs -/

inductive ClientEvent
  | append (payload : Command) (x : AppendExchange)
  | updateProxy (newProxy : Address)

namespace Client

/-- The proxy at the other end can answer so. -/
def Answerable (c : Client) (x : AppendExchange) : Prop :=
  ∀ conn ∈ (c.connectionPool.getConnection c.proxy x.peek x.connects).1, x.AnswersOn conn

instance (c : Client) (x : AppendExchange) : Decidable (c.Answerable x) := by
  unfold Answerable
  infer_instance

def step (c : Client) : ClientEvent → Option Client
  | .append payload x =>
    if c.Answerable x then (c.append payload x).toOption.map Prod.snd else none
  | .updateProxy newProxy => some (c.updateProxy newProxy)

/-- The calls on one client. -/
def calls (proxy : Address) (padding : List UInt8) (rb : ReadBuffer) : Lts Client ClientEvent where
  init := .init proxy padding rb
  step := step

end Client

end Ziplog
