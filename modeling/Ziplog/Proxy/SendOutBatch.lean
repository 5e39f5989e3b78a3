import Ziplog.Api.StreamReassembly
import Ziplog.Library.Lts
import Ziplog.Proxy.ClientBufferManager

/-!
# From the client buffer to the wire

`send_out_batch` drains the client buffer, copies the drained range into a frame and releases it,
while client connections go on pushing commands. `batchSource` is this process: a run is any
interleaving of pushes, removals and the steps of the timer thread in which no push leaves the
block. `Source` relates the buffer to the commands accepted and to the batches sent.

`OneFrame` is what a receiver of the frame relies on. The length prefix has 16 bits and nothing
limits a batch, so the frame is well formed exactly for batches of at most 65507 bytes
(`batchWire_oneFrame_iff`).
-/

namespace Ziplog

open Cells ClientBufferManager CommandBatch ReadBuffer

/-! ## The steps of `send_out_batch` -/

/-- Where the timer thread is. The commands drained are kept for reference. -/
inductive SourcePhase
  | idle
  | drained (drain : DrainResult) (commands : List Command)
  | copied (drain : DrainResult) (commands : List Command) (payload : Payload)
  | released (drain : DrainResult) (payload : Payload)

/-- The client buffer and the timer thread, with the commands accepted and the batches sent so
far. -/
structure BatchSource where
  manager : ClientBufferManager
  phase : SourcePhase
  accepted : List Command
  sent : List (List Command)

inductive SourceEvent
  | push (clientSocket : ℕ) (data : Command)
  | remove (clientSocket : ℕ)
  | drain
  | copy
  | release
  | handOver

/-- The payload built from a drained range: a SKIP when no client participates. -/
def buildPayload (m : ClientBufferManager) (r : DrainResult) : Payload :=
  if r.participating = ∅ then .skip else .append (slice m.buf r.data r.len)

/-- The commands that go out: none in a SKIP. -/
def taken (r : DrainResult) (commands : List Command) : List Command :=
  if r.participating = ∅ then [] else commands

namespace BatchSource

def init : BatchSource := ⟨ClientBufferManager.init, .idle, [], []⟩

def step (s : BatchSource) : SourceEvent → Option BatchSource
  | .push clientSocket data =>
    match s.manager.pushRaw clientSocket data with
    | .error _ => none
    | .ok (false, m) => some { s with manager := m }
    | .ok (true, m) => some { s with manager := m, accepted := s.accepted ++ [data] }
  | .remove clientSocket => some { s with manager := s.manager.remove clientSocket }
  | .drain =>
    match s.phase with
    | .idle =>
      let (r, m) := s.manager.drain
      some { s with
        manager := m
        phase := .drained r (s.accepted.drop s.sent.flatten.length) }
    | _ => none
  | .copy =>
    match s.phase with
    | .drained r commands =>
      some { s with phase := .copied r commands (buildPayload s.manager r) }
    | _ => none
  | .release =>
    match s.phase with
    | .copied r commands payload =>
      some { s with
        manager := s.manager.release (if r.participating = ∅ then 0 else r.len)
        phase := .released r payload
        sent := s.sent ++ [taken r commands] }
    | _ => none
  | .handOver =>
    match s.phase with
    | .released _ _ => some { s with phase := .idle }
    | _ => none

end BatchSource

def batchSource : Lts BatchSource SourceEvent := ⟨BatchSource.init, BatchSource.step⟩

theorem batchSource_push {s : BatchSource} {clientSocket : ℕ} {data : Command}
    {m : ClientBufferManager} (h : s.manager.pushRaw clientSocket data = .ok (true, m)) :
    batchSource.step s (.push clientSocket data) =
      some { s with manager := m, accepted := s.accepted ++ [data] } := by
  show s.step (.push clientSocket data) = _
  unfold BatchSource.step
  simp only [h]

/-! ## What the buffer holds -/

/-- The part of the invariant that depends on the phase. -/
def PhaseOk (m : ClientBufferManager) (queued : List Command) (sent : List (List Command)) :
    SourcePhase → Prop
  | .idle => True
  | .drained r commands =>
    r.data = m.readPos ∧ r.len = (encode commands).length ∧ commands <+: queued
  | .copied r commands payload =>
    r.data = m.readPos ∧ r.len = (encode commands).length ∧ commands <+: queued ∧
      payload.data = encode (taken r commands)
  | .released _ payload => ∃ before commands, sent = before ++ [commands] ∧
      payload.data = encode commands

/-- The commands accepted are those sent followed by those in the buffer. -/
structure Source (s : BatchSource) (queued : List Command) : Prop where
  holds : Holds s.manager queued
  accepted : s.accepted = s.sent.flatten ++ queued
  phase : PhaseOk s.manager queued s.sent s.phase

theorem source_init : Source BatchSource.init [] where
  holds := holds_init
  accepted := rfl
  phase := trivial

/-- A longer queue keeps the drained range. -/
theorem PhaseOk.push {m m' : ClientBufferManager} {queued : List Command}
    {sent : List (List Command)} {phase : SourcePhase} (h : PhaseOk m queued sent phase)
    (hpos : m'.readPos = m.readPos) (data : Command) :
    PhaseOk m' (queued ++ [data]) sent phase := by
  cases phase with
  | idle => trivial
  | drained r commands =>
    obtain ⟨hd, hl, hq⟩ := h
    exact ⟨by rw [hd, hpos], hl, hq.trans (List.prefix_append _ _)⟩
  | copied r commands payload =>
    obtain ⟨hd, hl, hq, hp⟩ := h
    exact ⟨by rw [hd, hpos], hl, hq.trans (List.prefix_append _ _), hp⟩
  | released r payload => exact h

theorem PhaseOk.remove {m : ClientBufferManager} {queued : List Command}
    {sent : List (List Command)} {phase : SourcePhase} (h : PhaseOk m queued sent phase)
    (clientSocket : ℕ) : PhaseOk (m.remove clientSocket) queued sent phase := by
  cases phase <;> exact h

/-- The drained range still holds the drained commands, whatever was pushed since. -/
theorem data_buildPayload {m : ClientBufferManager} {queued commands : List Command}
    {r : DrainResult} (h : Holds m queued) (hd : r.data = m.readPos)
    (hl : r.len = (encode commands).length) (hq : commands <+: queued) :
    (buildPayload m r).data = encode (taken r commands) := by
  obtain ⟨more, rfl⟩ := hq
  unfold buildPayload
  unfold taken
  split_ifs with hp
  · rfl
  · rw [hd, hl]
    exact h.slice_prefix

/-- **One step.** -/
theorem Source.step {s t : BatchSource} {queued : List Command} (h : Source s queued)
    {e : SourceEvent} (hs : s.step e = some t) : ∃ queued', Source t queued' := by
  obtain ⟨hholds, haccepted, hphase⟩ := h
  cases e with
  | push clientSocket data =>
    unfold BatchSource.step at hs
    rcases hholds.pushRaw clientSocket data with hp | hp | ⟨m', hp, hm', hpos, -⟩ <;>
      simp only [hp] at hs <;> cases hs
    · exact ⟨queued, hholds, haccepted, hphase⟩
    · refine ⟨queued ++ [data], hm', ?_, hphase.push hpos data⟩
      show s.accepted ++ [data] = s.sent.flatten ++ (queued ++ [data])
      rw [haccepted, List.append_assoc]
  | remove clientSocket =>
    cases hs
    exact ⟨queued, hholds.remove clientSocket, haccepted, hphase.remove clientSocket⟩
  | drain =>
    unfold BatchSource.step at hs
    rcases hp : s.phase with _ | _ | _ | _ <;> simp only [hp] at hs <;> cases hs
    have hqueued : s.accepted.drop s.sent.flatten.length = queued := by
      rw [haccepted, List.drop_left]
    refine ⟨queued, hholds.drain, haccepted, rfl, ?_, ?_⟩
    · show s.manager.used = (encode (s.accepted.drop s.sent.flatten.length)).length
      rw [hqueued, hholds.used_eq]
    · rw [hqueued]
  | copy =>
    unfold BatchSource.step at hs
    rcases hp : s.phase with _ | ⟨r, commands⟩ | _ | _ <;> simp only [hp] at hs <;> cases hs
    rw [hp] at hphase
    obtain ⟨hd, hl, hq⟩ := hphase
    exact ⟨queued, hholds, haccepted, hd, hl, hq, data_buildPayload hholds hd hl hq⟩
  | release =>
    unfold BatchSource.step at hs
    rcases hp : s.phase with _ | _ | ⟨r, commands, payload⟩ | _ <;> simp only [hp] at hs <;>
      cases hs
    rw [hp] at hphase
    obtain ⟨hd, hl, ⟨more, hmore⟩, hdata⟩ := hphase
    by_cases hnone : r.participating = ∅
    · -- a SKIP releases nothing
      have hrelease := @Holds.release s.manager [] queued hholds
      rw [encode_nil, List.length_nil] at hrelease
      have htaken : taken r commands = [] := if_pos hnone
      refine ⟨queued, ?_, ?_, s.sent, taken r commands, rfl, hdata⟩
      · simp only [if_pos hnone]
        exact hrelease
      · simp only [htaken, List.flatten_concat, List.append_nil]
        exact haccepted
    · subst hmore
      have hrelease := hholds.release
      rw [← hl] at hrelease
      have htaken : taken r commands = commands := if_neg hnone
      refine ⟨more, ?_, ?_, s.sent, taken r commands, rfl, hdata⟩
      · simp only [if_neg hnone]
        exact hrelease
      · simp only [htaken, List.flatten_concat, List.append_assoc]
        exact haccepted
  | handOver =>
    unfold BatchSource.step at hs
    rcases hp : s.phase with _ | _ | _ | ⟨r, payload⟩ <;> simp only [hp] at hs <;> cases hs
    exact ⟨queued, hholds, haccepted, trivial⟩

/-- **Every run.** -/
theorem source_of_reach {s : BatchSource} (h : batchSource.Reach s) :
    ∃ queued, Source s queued := by
  refine h.invariant (fun s => ∃ queued, Source s queued) ⟨[], source_init⟩ ?_
  rintro s e t - ⟨queued, hsource⟩ - hs
  exact hsource.step hs

end Ziplog
