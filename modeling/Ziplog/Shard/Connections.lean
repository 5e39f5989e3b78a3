import Mathlib.Data.Nat.Notation
import Ziplog.Api.Types

/-!
# The connections of a shard

A `Link` is the connection from a proxy to a server: the replicator's worker at one end, the
connection handler of the server at the other. The worker sends one item, waits for one reply, and
stops at the first failure; the handler replies before it checks, stores and broadcasts a frame. A
`Feed` is the connection from a server to a subscriber, with the broadcaster's worker at the sending
end. Frames and replies are taken as delivered intact and in order.

Each step is a function to `Option`; the lemmas `send_eq_some` and so on invert it.
-/

namespace Ziplog

/-- The fields of an APPEND or SKIP frame that the servers and subscribers read. -/
structure Frame where
  senderId : ℕ
  seq : ℕ
  payload : Payload
  deriving DecidableEq

/-- A frame in the queue of a worker, with the call of `replicate_bytes` it belongs to. -/
structure WorkItem where
  frame : Frame
  state : ℕ
  deriving DecidableEq

/-- The worker of `ServerReplicator` for one server. -/
inductive WorkerPhase
  | connecting
  | idle
  | awaiting (item : WorkItem)
  | terminated
  deriving DecidableEq

/-- The connection handler of a server, between its steps for one frame. -/
inductive HandlerPhase
  | ready
  | acked (frame : Frame)
  | checked (frame : Frame)
  | stored (frame : Frame)
  deriving DecidableEq

/-- The connection from a proxy to a server. -/
structure Link where
  queue : List WorkItem
  worker : WorkerPhase
  wire : List Frame
  handler : HandlerPhase
  acks : List ℕ

namespace Link

def init : Link := ⟨[], .connecting, [], .ready, []⟩

def push (l : Link) (item : WorkItem) : Link := { l with queue := l.queue ++ [item] }

def connect (l : Link) : Option Link :=
  match l.worker with
  | .connecting => some { l with worker := .idle }
  | _ => none

/-- The worker takes an item from its queue and sends the frame. -/
def send (l : Link) : Option Link :=
  match l.worker, l.queue with
  | .idle, item :: queue =>
    some { l with queue := queue, worker := .awaiting item, wire := l.wire ++ [item.frame] }
  | _, _ => none

/-- Sending, or reading the reply, fails. -/
def fail (l : Link) : Option Link :=
  match l.worker, l.queue with
  | .idle, _ :: queue => some { l with queue := queue, worker := .terminated }
  | .awaiting _, _ => some { l with worker := .terminated }
  | _, _ => none

/-- The worker reads a reply, whatever it says, and counts its item. -/
def count (l : Link) : Option (WorkItem × Link) :=
  match l.worker, l.acks with
  | .awaiting item, _ :: acks => some (item, { l with worker := .idle, acks := acks })
  | _, _ => none

/-- The handler reads a frame and replies. -/
def ack (l : Link) : Option Link :=
  match l.handler, l.wire with
  | .ready, frame :: wire =>
    some { l with wire := wire, handler := .acked frame, acks := l.acks ++ [frame.seq] }
  | _, _ => none

/-- The handler skips a frame of a blocked proxy. -/
def check (l : Link) (isBlocked : ℕ → Bool) : Option Link :=
  match l.handler with
  | .acked frame =>
    some { l with handler := if isBlocked frame.senderId then .ready else .checked frame }
  | _ => none

def store (l : Link) : Option (Frame × Link) :=
  match l.handler with
  | .checked frame => some (frame, { l with handler := .stored frame })
  | _ => none

def broadcast (l : Link) : Option (Frame × Link) :=
  match l.handler with
  | .stored frame => some (frame, { l with handler := .ready })
  | _ => none

variable {l l' : Link}

theorem connect_eq_some (h : l.connect = some l') :
    l.worker = .connecting ∧ l' = { l with worker := .idle } := by
  unfold connect at h
  split at h <;> cases h
  exact ⟨by assumption, rfl⟩

theorem send_eq_some (h : l.send = some l') :
    ∃ item queue, l.worker = .idle ∧ l.queue = item :: queue ∧
      l' = { l with queue := queue, worker := .awaiting item, wire := l.wire ++ [item.frame] } := by
  unfold send at h
  split at h <;> cases h
  exact ⟨_, _, by assumption, by assumption, rfl⟩

theorem fail_eq_some (h : l.fail = some l') :
    ∃ queue, queue <:+ l.queue ∧ l' = { l with queue := queue, worker := .terminated } := by
  unfold fail at h
  split at h <;> cases h
  · rename_i hq
    exact ⟨_, by rw [hq]; exact List.suffix_cons _ _, rfl⟩
  · exact ⟨_, List.suffix_rfl, rfl⟩

theorem count_eq_some {item : WorkItem} (h : l.count = some (item, l')) :
    ∃ reply acks, l.worker = .awaiting item ∧ l.acks = reply :: acks ∧
      l' = { l with worker := .idle, acks := acks } := by
  unfold count at h
  split at h <;> cases h
  exact ⟨_, _, by assumption, by assumption, rfl⟩

theorem ack_eq_some (h : l.ack = some l') :
    ∃ frame wire, l.handler = .ready ∧ l.wire = frame :: wire ∧
      l' = { l with wire := wire, handler := .acked frame, acks := l.acks ++ [frame.seq] } := by
  unfold ack at h
  split at h <;> cases h
  exact ⟨_, _, by assumption, by assumption, rfl⟩

theorem check_eq_some {isBlocked : ℕ → Bool} (h : l.check isBlocked = some l') :
    ∃ frame, l.handler = .acked frame ∧
      l' = { l with handler := if isBlocked frame.senderId then .ready else .checked frame } := by
  unfold check at h
  split at h <;> cases h
  exact ⟨_, by assumption, rfl⟩

theorem store_eq_some {frame : Frame} (h : l.store = some (frame, l')) :
    l.handler = .checked frame ∧ l' = { l with handler := .stored frame } := by
  unfold store at h
  split at h <;> cases h
  exact ⟨by assumption, rfl⟩

theorem broadcast_eq_some {frame : Frame} (h : l.broadcast = some (frame, l')) :
    l.handler = .stored frame ∧ l' = { l with handler := .ready } := by
  unfold broadcast at h
  split at h <;> cases h
  exact ⟨by assumption, rfl⟩

end Link

/-- The worker of `SubscriberBroadcaster` for one subscriber. -/
inductive FeedPhase
  | idle
  | awaiting
  | terminated
  deriving DecidableEq

/-- The connection from a server to a subscriber; of the replies only their number matters. -/
structure Feed where
  queue : List Frame
  worker : FeedPhase
  wire : List Frame
  acks : ℕ

namespace Feed

def init : Feed := ⟨[], .idle, [], 0⟩

def push (d : Feed) (frame : Frame) : Feed := { d with queue := d.queue ++ [frame] }

def send (d : Feed) : Option Feed :=
  match d.worker, d.queue with
  | .idle, frame :: queue =>
    some { d with queue := queue, worker := .awaiting, wire := d.wire ++ [frame] }
  | _, _ => none

def fail (d : Feed) : Option Feed :=
  match d.worker, d.queue with
  | .idle, _ :: queue => some { d with queue := queue, worker := .terminated }
  | .awaiting, _ => some { d with worker := .terminated }
  | _, _ => none

def receiveAck (d : Feed) : Option Feed :=
  match d.worker, d.acks with
  | .awaiting, acks + 1 => some { d with worker := .idle, acks := acks }
  | _, _ => none

/-- The subscriber reads a frame. -/
def take (d : Feed) : Option (Frame × Feed) :=
  match d.wire with
  | frame :: wire => some (frame, { d with wire := wire })
  | [] => none

/-- The subscriber replies. -/
def reply (d : Feed) : Feed := { d with acks := d.acks + 1 }

/-- The frames that may still reach the subscriber. -/
def coming (d : Feed) : List Frame := d.wire ++ d.queue

variable {d d' : Feed}

theorem mem_coming_push {frame f : Frame} :
    f ∈ (d.push frame).coming ↔ f ∈ d.coming ∨ f = frame := by
  simp only [coming, push, List.mem_append, List.mem_singleton, or_assoc]

theorem coming_send (h : d.send = some d') : d'.coming = d.coming := by
  unfold send at h
  split at h <;> cases h
  rename_i hq
  rw [coming, coming, hq, List.append_assoc, List.singleton_append]

theorem mem_coming_fail (h : d.fail = some d') {f : Frame} (hf : f ∈ d'.coming) :
    f ∈ d.coming := by
  unfold fail at h
  split at h <;> cases h
  · rename_i hq
    rw [coming, List.mem_append] at hf ⊢
    rw [hq]
    rcases hf with hf | hf
    · exact Or.inl hf
    · exact Or.inr (List.mem_cons_of_mem _ hf)
  · exact hf

theorem coming_receiveAck (h : d.receiveAck = some d') : d'.coming = d.coming := by
  unfold receiveAck at h
  split at h <;> cases h
  rfl

theorem coming_take {frame : Frame} (h : d.take = some (frame, d')) :
    d.coming = frame :: d'.coming := by
  unfold take at h
  split at h <;> cases h
  rename_i hw
  rw [coming, coming, hw, List.cons_append]

end Feed

end Ziplog
