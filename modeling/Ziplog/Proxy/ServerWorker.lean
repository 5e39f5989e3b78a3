import Ziplog.Library.Exchange
import Ziplog.Shard.Connections

/-!
# The workers of the server replicator

A worker takes an item from its queue, sends it to its server, reads one reply, whatever it says,
and counts the item; it ends at the first failure. The server replies to each frame in order.

`Attended` is the invariant of one worker: the replies it reads are those to its own items, and it
counts its items in order and at most once. A worker that has ended has counted no item of the last
call (`Attended.ended`).
-/

namespace Ziplog

/-! ## Workers and servers -/

/-- Where a worker is in `worker_loop`; at `exiting` it has left the loop. -/
inductive LoopStage
  | connecting
  | idle
  | dequeued (item : WorkItem)
  | awaiting (item : WorkItem)
  | acked (item : WorkItem)
  | exiting
  | terminated
  deriving DecidableEq

/-- A worker with its connection; `counted` lists the calls that it has counted. -/
structure ServerWorker where
  stage : LoopStage
  queue : List WorkItem
  link : Exchange WorkItem ℕ
  counted : List ℕ

inductive WorkerEvent
  | connect
  | dequeue
  | send
  | sendFail
  | reply
  | recv
  | recvFail

/-- The server replies to each APPEND and SKIP with an ACK of its sequence number. -/
def ackOf (item : WorkItem) : Option ℕ := some item.frame.seq

namespace ServerWorker

def init : ServerWorker := ⟨.connecting, [], .empty, []⟩

def push (w : ServerWorker) (item : WorkItem) : ServerWorker :=
  { w with queue := w.queue ++ [item] }

/-- The steps that leave the counters alone. -/
def step (w : ServerWorker) : WorkerEvent → Option ServerWorker
  | .connect =>
    match w.stage with
    | .connecting => some { w with stage := .idle }
    | _ => none
  | .dequeue =>
    match w.stage, w.queue with
    | .idle, item :: queue => some { w with stage := .dequeued item, queue := queue }
    | _, _ => none
  | .send =>
    match w.stage with
    | .dequeued item => some { w with stage := .awaiting item, link := w.link.send item }
    | _ => none
  | .sendFail =>
    match w.stage with
    | .dequeued _ => some { w with stage := .exiting }
    | _ => none
  | .reply => (w.link.handle ackOf).map fun link => { w with link := link }
  | .recv =>
    match w.stage with
    | .awaiting item =>
      (w.link.read (w.link.sent.length - 1)).map fun link =>
        { w with stage := .acked item, link := link }
    | _ => none
  | .recvFail =>
    match w.stage with
    | .awaiting _ => some { w with stage := .exiting }
    | _ => none

end ServerWorker

/-! ## The invariant of a worker -/

/-- The item in hand. -/
def LoopStage.items : LoopStage → List WorkItem
  | .dequeued item | .awaiting item | .acked item => [item]
  | .connecting | .idle | .exiting | .terminated => []

def LoopStage.Ended (stage : LoopStage) : Prop := stage = .exiting ∨ stage = .terminated

namespace ServerWorker

/-- The items that are not counted and may still be. -/
def pending (w : ServerWorker) : List WorkItem := w.stage.items ++ w.queue

/-- The worker has read the reply of its server to `item`. -/
def HasRead (w : ServerWorker) (item : WorkItem) : Prop :=
  ∃ place, w.link.sent[place]? = some item ∧ (place, place, item.frame.seq) ∈ w.link.reads

/-- How many replies the worker has read, by its stage. -/
def StageOk (w : ServerWorker) : Prop :=
  match w.stage with
  | .connecting | .idle | .dequeued _ => w.link.sent.length = w.link.reads.length
  | .awaiting item =>
    w.link.sent.length = w.link.reads.length + 1 ∧ w.link.sent[w.link.reads.length]? = some item
  | .acked item => w.link.sent.length = w.link.reads.length ∧ w.HasRead item
  | .exiting | .terminated => True

/-- A worker that was given the items of the first calls, `given` of them. -/
structure Attended (calls : List Frame) (given : ℕ) (w : ServerWorker) : Prop where
  fifo : w.link.Fifo ackOf
  paired : w.link.Paired
  places : w.link.reads.map (·.1) = List.range w.link.reads.length
  known : ∀ item ∈ w.link.sent ++ w.pending, calls[item.state]? = some item.frame
  ascending : (w.counted ++ w.pending.map WorkItem.state).Pairwise (· < ·)
  below : ∀ i ∈ w.counted ++ w.pending.map WorkItem.state, i < given
  answered : ∀ i ∈ w.counted, ∃ item, item.state = i ∧ w.HasRead item
  stage : w.StageOk
  ended : w.stage.Ended → ∀ i ∈ w.counted, i + 1 < calls.length

theorem attended_init : Attended [] 0 init where
  fifo := Exchange.fifo_empty
  paired := fun _ h => nomatch h
  places := rfl
  known := fun _ h => nomatch h
  ascending := .nil
  below := fun _ h => nomatch h
  answered := fun _ h => nomatch h
  stage := rfl
  ended := fun _ _ h => nomatch h

variable {calls : List Frame} {given : ℕ} {w w' : ServerWorker} {item : WorkItem}

/-- A further call leaves the workers as they are. -/
theorem Attended.call (h : Attended calls given w) (frame : Frame) :
    Attended (calls ++ [frame]) given w where
  fifo := h.fifo
  paired := h.paired
  places := h.places
  known := by
    intro item hitem
    have hknown := h.known item hitem
    exact (List.getElem?_append_left (List.getElem?_eq_some_iff.mp hknown).1).trans hknown
  ascending := h.ascending
  below := h.below
  answered := h.answered
  stage := h.stage
  ended := by
    intro hended i hi
    have hlt := h.ended hended i hi
    rw [List.length_append]
    omega

theorem pending_push (w : ServerWorker) (item : WorkItem) :
    (w.push item).pending = w.pending ++ [item] := (List.append_assoc _ _ _).symm

/-- The item of the last call goes into the queue. -/
theorem Attended.push (h : Attended calls given w) {frame : Frame}
    (hcall : calls[given]? = some frame) :
    Attended calls (given + 1) (w.push ⟨frame, given⟩) where
  fifo := h.fifo
  paired := h.paired
  places := h.places
  known := by
    intro item hitem
    rw [pending_push, ← List.append_assoc] at hitem
    rcases List.mem_append.mp hitem with hold | hnew
    · exact h.known item hold
    · rw [List.mem_singleton.mp hnew]
      exact hcall
  ascending := by
    rw [pending_push, List.map_append, ← List.append_assoc]
    refine List.pairwise_append.mpr ⟨h.ascending, List.pairwise_singleton _ _, fun i hi k hk => ?_⟩
    rw [List.mem_singleton.mp hk]
    exact h.below i hi
  below := by
    intro i hi
    rw [pending_push, List.map_append, ← List.append_assoc] at hi
    rcases List.mem_append.mp hi with hold | hnew
    · exact Nat.lt_succ_of_lt (h.below i hold)
    · rw [List.mem_singleton.mp hnew]
      exact Nat.lt_succ_self _
  answered := h.answered
  stage := h.stage
  ended := h.ended

/-- A change of the stage that keeps the item in hand. -/
theorem Attended.stay (h : Attended calls given w) {stage : LoopStage} {queue : List WorkItem}
    (hpending : stage.items ++ queue = w.pending)
    (hstage : StageOk { w with stage := stage, queue := queue })
    (hended : stage.Ended → w.stage.Ended) :
    Attended calls given { w with stage := stage, queue := queue } where
  fifo := h.fifo
  paired := h.paired
  places := h.places
  known := by
    show ∀ item ∈ w.link.sent ++ (stage.items ++ queue), _
    rw [hpending]
    exact h.known
  ascending := by
    show (w.counted ++ (stage.items ++ queue).map _).Pairwise _
    rw [hpending]
    exact h.ascending
  below := by
    show ∀ i ∈ w.counted ++ (stage.items ++ queue).map _, _
    rw [hpending]
    exact h.below
  answered := h.answered
  stage := hstage
  ended := fun hstop => h.ended (hended hstop)

/-- What a worker has counted comes before the item in hand. -/
theorem Attended.counted_lt (h : Attended calls given w) (hitem : item ∈ w.pending) :
    ∀ i ∈ w.counted, i < item.state := by
  intro i hi
  exact (List.pairwise_append.mp h.ascending).2.2 i hi _ (List.mem_map_of_mem hitem)

/-- A worker that fails drops the item in hand. -/
theorem Attended.fail (h : Attended calls given w) (hgiven : given ≤ calls.length)
    (hitem : w.stage.items = [item]) : Attended calls given { w with stage := .exiting } := by
  have hpending : w.pending = item :: w.queue := by rw [pending, hitem]; rfl
  have hmem : item ∈ w.pending := by rw [hpending]; exact List.mem_cons_self
  have hsub : ∀ {x : WorkItem}, x ∈ w.queue → x ∈ w.pending := by
    intro x hx
    rw [hpending]
    exact List.mem_cons_of_mem _ hx
  refine ⟨h.fifo, h.paired, h.places, ?_, ?_, ?_, h.answered, trivial, ?_⟩
  · intro x hx
    rcases List.mem_append.mp hx with hsent | hqueue
    · exact h.known x (List.mem_append_left _ hsent)
    · exact h.known x (List.mem_append_right _ (hsub hqueue))
  · have hasc := h.ascending
    rw [hpending] at hasc
    exact hasc.sublist ((List.sublist_cons_self _ _).append_left _)
  · intro i hi
    rcases List.mem_append.mp hi with hcounted | hqueue
    · exact h.below i (List.mem_append_left _ hcounted)
    · obtain ⟨x, hx, rfl⟩ := List.mem_map.mp hqueue
      exact h.below _ (List.mem_append_right _ (List.mem_map_of_mem (hsub hx)))
  · intro _ i hi
    have hlt := h.counted_lt hmem i hi
    have hbelow := h.below _ (List.mem_append_right _ (List.mem_map_of_mem hmem))
    omega

/-- The server replies to the next frame. -/
theorem Attended.handle (h : Attended calls given w) {link : Exchange WorkItem ℕ}
    (hs : w.link.handle ackOf = some link) : Attended calls given { w with link := link } := by
  have hfifo := h.fifo.handle hs
  obtain ⟨r, -, rfl⟩ := Exchange.eq_of_handle hs
  exact ⟨hfifo, h.paired, h.places, h.known, h.ascending, h.below, h.answered, h.stage, h.ended⟩

/-- A reply that was read stays read. -/
theorem HasRead.mono (h : w.HasRead item) (hsent : w.link.sent <+: w'.link.sent)
    (hreads : w.link.reads <+: w'.link.reads) : w'.HasRead item := by
  obtain ⟨place, hget, hmem⟩ := h
  obtain ⟨more, hmore⟩ := hsent
  refine ⟨place, ?_, hreads.subset hmem⟩
  rw [← hmore]
  exact (List.getElem?_append_left (List.getElem?_eq_some_iff.mp hget).1).trans hget

/-- The worker sends the item in hand. -/
theorem Attended.send (h : Attended calls given w) (hstage : w.stage = .dequeued item) :
    Attended calls given { w with stage := .awaiting item, link := w.link.send item } := by
  have hpending : ({ w with stage := .awaiting item, link := w.link.send item } :
      ServerWorker).pending = w.pending := by
    unfold pending
    rw [hstage]
    rfl
  have hlen : w.link.sent.length = w.link.reads.length := by
    have hok := h.stage
    unfold StageOk at hok
    rwa [hstage] at hok
  refine ⟨h.fifo.send item, h.paired, h.places, ?_, ?_, ?_, ?_, ⟨?_, ?_⟩, ?_⟩
  · intro x hx
    rw [hpending] at hx
    rcases List.mem_append.mp hx with hsent | hrest
    · rcases List.mem_append.mp hsent with hold | hnew
      · exact h.known x (List.mem_append_left _ hold)
      · refine h.known x (List.mem_append_right _ ?_)
        rw [pending, hstage]
        exact List.mem_append_left _ hnew
    · exact h.known x (List.mem_append_right _ hrest)
  · rw [hpending]
    exact h.ascending
  · rw [hpending]
    exact h.below
  · intro i hi
    obtain ⟨x, hx, hread⟩ := h.answered i hi
    exact ⟨x, hx, hread.mono (List.prefix_append _ _) (List.prefix_refl _)⟩
  · show (w.link.sent ++ [item]).length = w.link.reads.length + 1
    rw [List.length_append, hlen]
    rfl
  · show (w.link.sent ++ [item])[w.link.reads.length]? = some item
    rw [← hlen]
    exact List.getElem?_concat_length
  · rintro (hstop | hstop) <;> cases hstop

/-- The reply that a worker reads is the reply to the item in hand. -/
theorem Attended.recv (h : Attended calls given w) (hstage : w.stage = .awaiting item)
    {link : Exchange WorkItem ℕ} (hs : w.link.read (w.link.sent.length - 1) = some link) :
    Attended calls given { w with stage := .acked item, link := link } := by
  have hpending : ({ w with stage := .acked item, link := link } : ServerWorker).pending =
      w.pending := by
    unfold pending
    rw [hstage]
    rfl
  obtain ⟨hlen, hget⟩ : w.link.sent.length = w.link.reads.length + 1 ∧
      w.link.sent[w.link.reads.length]? = some item := by
    have hok := h.stage
    unfold StageOk at hok
    rwa [hstage] at hok
  have hplace : w.link.sent.length - 1 = w.link.reads.length := by omega
  rw [hplace] at hs
  have hnew : ∀ e ∈ w.link.reads, e.1 ≠ w.link.reads.length := by
    intro e he heq
    have hrange := List.mem_map_of_mem (f := (·.1)) he
    rw [h.places, List.mem_range, heq] at hrange
    exact Nat.lt_irrefl _ hrange
  have hdue : w.link.Due ackOf w.link.reads.length := by
    refine ⟨⟨item, hget, rfl⟩, fun q hq _ _ _ => ?_⟩
    have hrange := List.mem_range.mpr hq
    rw [← h.places] at hrange
    exact List.mem_map.mp hrange
  have hpaired := (Exchange.paired_read_iff h.fifo h.paired hnew hs).mpr hdue
  have hfifo := h.fifo.read hs
  obtain ⟨reply, hreply, rfl⟩ := Exchange.eq_of_read hs
  have hreads := List.prefix_append w.link.reads [(w.link.reads.length, reply)]
  have hanswer : reply = (w.link.reads.length, item.frame.seq) := by
    have hown : reply.1 = w.link.reads.length :=
      hpaired _ (List.mem_append_right _ (List.mem_singleton_self _))
    obtain ⟨-, r, hr, hack⟩ := h.fifo.replied reply (List.mem_of_getElem? hreply)
    rw [hown, hget] at hr
    cases hr
    exact Prod.ext hown (Option.some.inj hack).symm
  refine ⟨hfifo, hpaired, ?_, ?_, ?_, ?_, ?_, ⟨?_, ?_⟩, ?_⟩
  · rw [List.map_append, h.places, List.length_append, List.length_singleton, List.range_succ]
    rfl
  · rw [hpending]
    exact h.known
  · rw [hpending]
    exact h.ascending
  · rw [hpending]
    exact h.below
  · intro i hi
    obtain ⟨x, hx, hread⟩ := h.answered i hi
    exact ⟨x, hx, hread.mono (List.prefix_refl _) hreads⟩
  · show w.link.sent.length = (w.link.reads ++ [_]).length
    rw [List.length_append, hlen]
    rfl
  · refine ⟨w.link.reads.length, hget, ?_⟩
    rw [← hanswer]
    exact List.mem_append_right _ (List.mem_singleton_self _)
  · rintro (hstop | hstop) <;> cases hstop

/-- **A step of a worker** that leaves the counters alone. -/
theorem Attended.step (h : Attended calls given w) (hgiven : given ≤ calls.length)
    {e : WorkerEvent} (hs : w.step e = some w') : Attended calls given w' := by
  have hok := h.stage
  unfold StageOk at hok
  cases e with
  | connect =>
    simp only [ServerWorker.step] at hs
    split at hs <;> cases hs
    rename_i hstage
    rw [hstage] at hok
    refine h.stay ?_ hok ?_
    · rw [pending, hstage]
      rfl
    · rintro (hstop | hstop) <;> cases hstop
  | dequeue =>
    simp only [ServerWorker.step] at hs
    split at hs <;> cases hs
    rename_i hstage hqueue
    rw [hstage] at hok
    refine h.stay ?_ hok ?_
    · rw [pending, hstage, hqueue]
      rfl
    · rintro (hstop | hstop) <;> cases hstop
  | send =>
    simp only [ServerWorker.step] at hs
    split at hs <;> cases hs
    rename_i hstage
    exact h.send hstage
  | sendFail =>
    simp only [ServerWorker.step] at hs
    split at hs <;> cases hs
    rename_i hstage
    exact h.fail hgiven (by rw [hstage]; rfl)
  | reply =>
    obtain ⟨link, hlink, rfl⟩ := Option.map_eq_some_iff.mp hs
    exact h.handle hlink
  | recv =>
    simp only [ServerWorker.step] at hs
    split at hs
    · rename_i hstage
      obtain ⟨link, hlink, rfl⟩ := Option.map_eq_some_iff.mp hs
      exact h.recv hstage hlink
    · cases hs
  | recvFail =>
    simp only [ServerWorker.step] at hs
    split at hs <;> cases hs
    rename_i hstage
    exact h.fail hgiven (by rw [hstage]; rfl)

/-- The worker counts the item in hand. -/
theorem Attended.count (h : Attended calls given w) (hstage : w.stage = .acked item) :
    Attended calls given { w with stage := .idle, counted := w.counted ++ [item.state] } := by
  have hpending : w.counted ++ w.pending.map WorkItem.state =
      (w.counted ++ [item.state]) ++ w.queue.map WorkItem.state := by
    rw [pending, hstage, List.append_assoc]
    rfl
  obtain ⟨hlen, hread⟩ : w.link.sent.length = w.link.reads.length ∧ w.HasRead item := by
    have hok := h.stage
    unfold StageOk at hok
    rwa [hstage] at hok
  refine ⟨h.fifo, h.paired, h.places, ?_, ?_, ?_, ?_, hlen, ?_⟩
  · intro x hx
    refine h.known x ?_
    rcases List.mem_append.mp hx with hsent | hqueue
    · exact List.mem_append_left _ hsent
    · exact List.mem_append_right _ (List.mem_append_right _ hqueue)
  · have hasc := h.ascending
    rwa [hpending] at hasc
  · have hbelow := h.below
    rwa [hpending] at hbelow
  · intro i hi
    rcases List.mem_append.mp hi with hold | hnew
    · exact h.answered i hold
    · exact ⟨item, (List.mem_singleton.mp hnew).symm, hread⟩
  · rintro (hstop | hstop) <;> cases hstop

/-- The worker's thread ends. -/
theorem Attended.exit (h : Attended calls given w) (hstage : w.stage = .exiting) :
    Attended calls given { w with stage := .terminated } := by
  refine h.stay ?_ trivial fun _ => Or.inl hstage
  rw [pending, hstage]
  rfl

/-- The steps that leave the counters alone neither count nor end a thread. -/
theorem step_keeps {e : WorkerEvent} (hs : w.step e = some w') :
    w'.counted = w.counted ∧ (w'.stage = .terminated ↔ w.stage = .terminated) := by
  cases e with
  | reply =>
    obtain ⟨link, -, rfl⟩ := Option.map_eq_some_iff.mp hs
    exact ⟨rfl, Iff.rfl⟩
  | recv =>
    simp only [ServerWorker.step] at hs
    split at hs
    · rename_i hstage
      obtain ⟨link, -, rfl⟩ := Option.map_eq_some_iff.mp hs
      refine ⟨rfl, ?_⟩
      rw [hstage]
      exact ⟨nofun, nofun⟩
    · cases hs
  | dequeue =>
    simp only [ServerWorker.step] at hs
    split at hs <;> cases hs
    rename_i hstage _
    refine ⟨rfl, ?_⟩
    rw [hstage]
    exact ⟨nofun, nofun⟩
  | connect | send | sendFail | recvFail =>
    simp only [ServerWorker.step] at hs
    split at hs <;> cases hs
    rename_i hstage
    refine ⟨rfl, ?_⟩
    rw [hstage]
    exact ⟨nofun, nofun⟩

end ServerWorker

end Ziplog
