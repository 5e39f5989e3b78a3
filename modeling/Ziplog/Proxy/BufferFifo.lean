import Ziplog.Proxy.SendOutBatch

/-!
# The client buffer as a queue of commands

`bufferHistory` is the process of `batchSource` with a record of what went in and out: each accepted
command with its client and whether that client was removed since, the data of every APPEND at the
time it was copied, and the bytes pending at the last drain. The data copied followed by the bytes
still buffered is the encoding of the accepted commands, and every client with a command in a
drained range takes part in it unless it was removed (`clientBuffer_fifo`).

Between the copy of a range and its release the range is both copied and in use, so there the bytes
in use count from behind it.
-/

namespace Ziplog

open Cells ClientBufferManager CommandBatch

/-! ## The record of a run -/

/-- A command accepted from a client, and whether the client was removed since. -/
structure Accepted where
  clientSocket : ℕ
  data : Command
  removed : Bool

def Accepted.onRemove (clientSocket : ℕ) (p : Accepted) : Accepted :=
  if p.clientSocket = clientSocket then { p with removed := true } else p

structure BufferHistory where
  source : BatchSource
  history : List Accepted
  copies : List (List UInt8)
  pending : List UInt8

namespace BufferHistory

def init : BufferHistory := ⟨BatchSource.init, [], [], []⟩

def acceptedBy (s : BufferHistory) : SourceEvent → List Accepted
  | .push clientSocket data =>
    match s.source.manager.pushRaw clientSocket data with
    | .ok (true, _) => s.history ++ [⟨clientSocket, data, false⟩]
    | _ => s.history
  | .remove clientSocket => s.history.map (.onRemove clientSocket)
  | .drain | .copy | .release | .handOver => s.history

def copiesBy (s : BufferHistory) : SourceEvent → SourcePhase → List (List UInt8)
  | .copy, phase =>
    match phase with
    | .copied _ _ (.append data) => s.copies ++ [data]
    | _ => s.copies
  | .push _ _, _ | .remove _, _ | .drain, _ | .release, _ | .handOver, _ => s.copies

def pendingBy (s : BufferHistory) : SourceEvent → List UInt8
  | .drain => slice s.source.manager.buf s.source.manager.readPos s.source.manager.used
  | .push _ _ | .remove _ | .copy | .release | .handOver => s.pending

def step (s : BufferHistory) (e : SourceEvent) : Option BufferHistory :=
  (s.source.step e).map fun t => ⟨t, s.acceptedBy e, s.copiesBy e t.phase, s.pendingBy e⟩

/-- The data of an APPEND that is copied and not yet released. -/
def inFlight (s : BufferHistory) : List UInt8 :=
  match s.source.phase with
  | .copied _ _ payload => payload.data
  | _ => []

theorem inFlight_released {s : BufferHistory} {r : DrainResult} {payload : Payload}
    (h : s.source.phase = .released r payload) : s.inFlight = [] := by
  unfold inFlight
  simp only [h]

/-- The range that is drained and not yet released. -/
def drained (s : BufferHistory) : Option DrainResult :=
  match s.source.phase with
  | .drained r _ => some r
  | .copied r _ _ => some r
  | _ => none

/-- The bytes in use, from behind the data in flight. -/
def buffered (s : BufferHistory) : List UInt8 :=
  slice s.source.manager.buf (s.source.manager.readPos + s.inFlight.length)
    (s.source.manager.used - s.inFlight.length)

end BufferHistory

def bufferHistory : Lts BufferHistory SourceEvent := ⟨.init, BufferHistory.step⟩

namespace BufferHistory

theorem reach_source {s : BufferHistory} (h : bufferHistory.Reach s) :
    batchSource.Reach s.source := by
  refine Lts.ReachVia.abs (N := batchSource) BufferHistory.source rfl ?_ h
  intro s e t _ _ hs
  obtain ⟨t', ht', rfl⟩ := Option.map_eq_some_iff.mp hs
  exact Or.inr ⟨e, trivial, ht'⟩

theorem step_of_source {s : BufferHistory} {t : BatchSource} {e : SourceEvent}
    (h : batchSource.step s.source e = some t) : bufferHistory.step s e =
      some ⟨t, s.acceptedBy e, s.copiesBy e t.phase, s.pendingBy e⟩ :=
  congrArg (Option.map _) h

/-! ## Who takes part -/

/-- The clients of `ps` that were not removed since are in `participating`. -/
def Live (participating : Finset ℕ) (ps : List Accepted) : Prop :=
  ∀ p ∈ ps, p.removed = false → p.clientSocket ∈ participating

variable {participating : Finset ℕ} {ps : List Accepted}

theorem Live.push (h : Live participating ps) (clientSocket : ℕ) (data : Command) :
    Live (insert clientSocket participating) (ps ++ [⟨clientSocket, data, false⟩]) := by
  intro p hp hlive
  rcases List.mem_append.mp hp with hold | hnew
  · exact Finset.mem_insert_of_mem (h p hold hlive)
  · rw [List.mem_singleton.mp hnew]
    exact Finset.mem_insert_self _ _

/-- A removal only marks commands. -/
theorem Live.mark (h : Live participating ps) (clientSocket : ℕ) :
    Live participating (ps.map (.onRemove clientSocket)) := by
  intro p hp hlive
  obtain ⟨q, hq, rfl⟩ := List.mem_map.mp hp
  unfold Accepted.onRemove at hlive ⊢
  split_ifs at hlive ⊢
  exact h q hq hlive

theorem Live.remove (h : Live participating ps) (clientSocket : ℕ) :
    Live (participating.erase clientSocket) (ps.map (.onRemove clientSocket)) := by
  intro p hp hlive
  obtain ⟨q, hq, rfl⟩ := List.mem_map.mp hp
  unfold Accepted.onRemove at hlive ⊢
  split_ifs at hlive ⊢ with hsocket
  exact Finset.mem_erase.mpr ⟨hsocket, h q hq hlive⟩

theorem data_onRemove (clientSocket : ℕ) (ps : List Accepted) :
    (ps.map (.onRemove clientSocket)).map Accepted.data = ps.map Accepted.data := by
  rw [List.map_map]
  apply List.map_congr_left
  intro p _
  show (p.onRemove clientSocket).data = p.data
  unfold Accepted.onRemove
  split_ifs <;> rfl

/-- The part of the invariant that depends on the phase, for the commands `queued`. -/
def Present (m : ClientBufferManager) (queued : List Accepted) (pending : List UInt8) :
    SourcePhase → Prop
  | .idle | .released _ _ => Live m.participating queued
  | .drained r commands =>
    pending = encode commands ∧ Live r.participating (queued.take commands.length) ∧
      Live m.participating (queued.drop commands.length)
  | .copied r commands payload =>
    pending = encode commands ∧ Live r.participating (queued.take commands.length) ∧
      Live m.participating (queued.drop commands.length) ∧
      payload = if r.participating = ∅ then .skip else .append pending

/-- What the record of a run says about the buffer. -/
structure Recorded (s : BufferHistory) : Prop where
  accepted : s.history.map Accepted.data = s.source.accepted
  copies : s.copies.flatten = encode s.source.sent.flatten ++ s.inFlight
  present : Present s.source.manager (s.history.drop s.source.sent.flatten.length) s.pending
    s.source.phase

theorem recorded_init : Recorded init where
  accepted := rfl
  copies := rfl
  present := fun _ hp => nomatch hp

/-! ## What each step keeps -/

variable {s t : BufferHistory} {queued : List Command}

theorem Recorded.length_sent (h : Recorded s) (hsource : Source s.source queued) :
    s.source.sent.flatten.length ≤ s.history.length := by
  have hlen := congrArg List.length h.accepted
  rw [List.length_map, hsource.accepted, List.length_append] at hlen
  omega

theorem Recorded.drop_accepted (h : Recorded s) (hsource : Source s.source queued) :
    (s.history.drop s.source.sent.flatten.length).map Accepted.data = queued := by
  rw [List.map_drop, h.accepted, hsource.accepted, List.drop_left]

theorem Present.push {m m' : ClientBufferManager} {ps : List Accepted} {pending : List UInt8}
    {phase : SourcePhase} {clientSocket : ℕ} {sent : List (List Command)}
    (h : Present m ps pending phase) (hphase : PhaseOk m (ps.map Accepted.data) sent phase)
    (hm : m'.participating = insert clientSocket m.participating) (data : Command) :
    Present m' (ps ++ [⟨clientSocket, data, false⟩]) pending phase := by
  have hle : ∀ {commands : List Command}, commands <+: ps.map Accepted.data →
      commands.length ≤ ps.length := by
    intro commands hprefix
    exact hprefix.length_le.trans_eq (List.length_map _)
  cases phase with
  | idle =>
    show Live _ _
    rw [hm]
    exact Live.push h clientSocket data
  | drained r commands =>
    obtain ⟨hpending, hin, hout⟩ := h
    have hlen := hle hphase.2.2
    refine ⟨hpending, ?_, ?_⟩
    · rw [List.take_append_of_le_length hlen]
      exact hin
    · rw [List.drop_append_of_le_length hlen, hm]
      exact hout.push clientSocket data
  | copied r commands payload =>
    obtain ⟨hpending, hin, hout, hpayload⟩ := h
    have hlen := hle hphase.2.2.1
    refine ⟨hpending, ?_, ?_, hpayload⟩
    · rw [List.take_append_of_le_length hlen]
      exact hin
    · rw [List.drop_append_of_le_length hlen, hm]
      exact hout.push clientSocket data
  | released r payload =>
    show Live _ _
    rw [hm]
    exact Live.push h clientSocket data

theorem Present.remove {m : ClientBufferManager} {ps : List Accepted} {pending : List UInt8}
    {phase : SourcePhase} (h : Present m ps pending phase) (clientSocket : ℕ) :
    Present (m.remove clientSocket) (ps.map (.onRemove clientSocket)) pending phase := by
  cases phase with
  | idle => exact Live.remove h clientSocket
  | drained r commands =>
    obtain ⟨hpending, hin, hout⟩ := h
    refine ⟨hpending, ?_, ?_⟩
    · rw [← List.map_take]
      exact hin.mark clientSocket
    · rw [← List.map_drop]
      exact hout.remove clientSocket
  | copied r commands payload =>
    obtain ⟨hpending, hin, hout, hpayload⟩ := h
    refine ⟨hpending, ?_, ?_, hpayload⟩
    · rw [← List.map_take]
      exact hin.mark clientSocket
    · rw [← List.map_drop]
      exact hout.remove clientSocket
  | released r payload => exact Live.remove h clientSocket

theorem Recorded.push {clientSocket : ℕ} {data : Command} (h : Recorded s)
    (hsource : Source s.source queued) (hs : s.step (.push clientSocket data) = some t) :
    Recorded t := by
  obtain ⟨t', ht', rfl⟩ := Option.map_eq_some_iff.mp hs
  have hlen := h.length_sent hsource
  have hdata := h.drop_accepted hsource
  have hphase := hsource.phase
  obtain ⟨haccepted, hcopies, hpresent⟩ := h
  unfold BatchSource.step at ht'
  rcases hsource.holds.pushRaw clientSocket data with hp | hp | ⟨m', hp, -, -, hm'⟩ <;>
    simp only [hp] at ht' <;> cases ht'
  · refine ⟨?_, hcopies, ?_⟩
    · simp only [acceptedBy, hp]
      exact haccepted
    · simp only [acceptedBy, hp]
      exact hpresent
  · refine ⟨?_, hcopies, ?_⟩
    · simp only [acceptedBy, hp, List.map_append, haccepted]
      rfl
    · simp only [acceptedBy, hp]
      rw [List.drop_append_of_le_length hlen]
      rw [← hdata] at hphase
      exact hpresent.push hphase hm' data

theorem Recorded.remove {clientSocket : ℕ} (h : Recorded s)
    (hs : s.step (.remove clientSocket) = some t) : Recorded t := by
  obtain ⟨t', ht', rfl⟩ := Option.map_eq_some_iff.mp hs
  obtain ⟨haccepted, hcopies, hpresent⟩ := h
  cases ht'
  refine ⟨?_, hcopies, ?_⟩
  · show (s.history.map _).map _ = _
    rw [data_onRemove]
    exact haccepted
  · show Present _ ((s.history.map _).drop _) _ _
    rw [← List.map_drop]
    exact hpresent.remove clientSocket

theorem Recorded.drain (h : Recorded s) (hsource : Source s.source queued)
    (hs : s.step .drain = some t) : Recorded t := by
  obtain ⟨t', ht', rfl⟩ := Option.map_eq_some_iff.mp hs
  have hdata := h.drop_accepted hsource
  obtain ⟨haccepted, hcopies, hpresent⟩ := h
  unfold BatchSource.step at ht'
  rcases hp : s.source.phase with _ | _ | _ | _ <;> simp only [hp] at ht' <;> cases ht'
  have hqueued : s.source.accepted.drop s.source.sent.flatten.length = queued := by
    rw [hsource.accepted, List.drop_left]
  have hinFlight : s.inFlight = [] := by simp only [inFlight, hp]
  rw [hinFlight] at hcopies
  rw [hp] at hpresent
  refine ⟨haccepted, hcopies, ?_, ?_, ?_⟩
  · show slice _ _ _ = encode (s.source.accepted.drop _)
    rw [hqueued]
    exact hsource.holds.bytes
  · intro p hmem hlive
    exact hpresent p (List.mem_of_mem_take hmem) hlive
  · show Live _ (List.drop (s.source.accepted.drop _).length _)
    rw [hqueued, ← hdata, List.length_map, acceptedBy, List.drop_length]
    exact fun p hp => nomatch hp

theorem Recorded.copy (h : Recorded s) (hsource : Source s.source queued)
    (hs : s.step .copy = some t) : Recorded t := by
  obtain ⟨t', ht', rfl⟩ := Option.map_eq_some_iff.mp hs
  have hphase := hsource.phase
  obtain ⟨haccepted, hcopies, hpresent⟩ := h
  unfold BatchSource.step at ht'
  rcases hp : s.source.phase with _ | ⟨r, commands⟩ | _ | _ <;> simp only [hp] at ht' <;>
    cases ht'
  rw [hp] at hpresent hphase
  obtain ⟨hpending, hin, hout⟩ := hpresent
  obtain ⟨hd, hl, hq⟩ := hphase
  have hinFlight : s.inFlight = [] := by simp only [inFlight, hp]
  rw [hinFlight, List.append_nil] at hcopies
  refine ⟨haccepted, ?_, hpending, hin, hout, ?_⟩
  · show (s.copiesBy .copy (.copied r commands (buildPayload _ r))).flatten =
      encode _ ++ (buildPayload _ r).data
    cases buildPayload s.source.manager r with
    | skip => exact hcopies.trans (List.append_nil _).symm
    | append data =>
      show (s.copies ++ [data]).flatten = _
      rw [List.flatten_concat, hcopies]
      rfl
  · show buildPayload s.source.manager r = if r.participating = ∅ then .skip else .append s.pending
    obtain ⟨more, rfl⟩ := hq
    rw [buildPayload, hd, hl, hsource.holds.slice_prefix, hpending]

theorem of_release {s t : BatchSource} (hs : s.step .release = some t) :
    ∃ r commands payload, s.phase = .copied r commands payload ∧ t.phase = .released r payload ∧
      s.accepted = t.accepted ∧ t.sent = s.sent ++ [taken r commands] ∧
      t.manager.participating = s.manager.participating := by
  unfold BatchSource.step at hs
  rcases hp : s.phase with _ | _ | ⟨r, commands, payload⟩ | _ <;> simp only [hp] at hs <;> cases hs
  exact ⟨r, commands, payload, rfl, rfl, rfl, rfl, participating_release _ _⟩

theorem Recorded.release (h : Recorded s) (hsource : Source s.source queued)
    (hs : s.step .release = some t) : Recorded t := by
  obtain ⟨t', ht', rfl⟩ := Option.map_eq_some_iff.mp hs
  obtain ⟨r, commands, payload, hp, hp', haccepted', hsent, hclients⟩ := of_release ht'
  have hphase := hsource.phase
  obtain ⟨haccepted, hcopies, hpresent⟩ := h
  rw [hp] at hpresent hphase
  obtain ⟨hpending, hin, hout, hpayload⟩ := hpresent
  have hinFlight : s.inFlight = payload.data := by simp only [inFlight, hp]
  rw [hinFlight, hphase.2.2.2] at hcopies
  refine ⟨haccepted.trans haccepted', ?_, ?_⟩
  · rw [inFlight_released hp', List.append_nil, hsent, List.flatten_concat, encode_append]
    exact hcopies
  · rw [hp', hsent, List.flatten_concat]
    show Live t'.manager.participating
      (s.history.drop (s.source.sent.flatten ++ taken r commands).length)
    rw [hclients]
    by_cases hnone : r.participating = ∅
    · -- all commands of a SKIP's range come from clients removed since
      rw [taken, if_pos hnone, List.append_nil]
      intro p hmem hlive
      rw [← List.take_append_drop commands.length (s.history.drop _)] at hmem
      rcases List.mem_append.mp hmem with hfirst | hrest
      · have hsome := hin p hfirst hlive
        rw [hnone] at hsome
        exact absurd hsome (Finset.notMem_empty _)
      · exact hout p hrest hlive
    · rw [taken, if_neg hnone, List.length_append, ← List.drop_drop]
      exact hout

theorem Recorded.handOver (h : Recorded s)
    (hs : s.step .handOver = some t) : Recorded t := by
  obtain ⟨t', ht', rfl⟩ := Option.map_eq_some_iff.mp hs
  obtain ⟨haccepted, hcopies, hpresent⟩ := h
  unfold BatchSource.step at ht'
  rcases hp : s.source.phase with _ | _ | _ | ⟨r, payload⟩ <;> simp only [hp] at ht' <;>
    cases ht'
  have hinFlight : s.inFlight = [] := by simp only [inFlight, hp]
  rw [hinFlight] at hcopies
  rw [hp] at hpresent
  exact ⟨haccepted, hcopies, hpresent⟩

/-- **One step** keeps the record. -/
theorem Recorded.step (h : Recorded s) (hsource : Source s.source queued) {e : SourceEvent}
    (hs : s.step e = some t) : Recorded t := by
  cases e with
  | push clientSocket data => exact h.push hsource hs
  | remove clientSocket => exact h.remove hs
  | drain => exact h.drain hsource hs
  | copy => exact h.copy hsource hs
  | release => exact h.release hsource hs
  | handOver => exact h.handOver hs

/-- **Every run.** -/
theorem recorded_of_reach (h : bufferHistory.Reach s) : Recorded s := by
  refine h.invariant Recorded recorded_init ?_
  intro s e t hr hrec _ hs
  obtain ⟨queued, hsource⟩ := source_of_reach (reach_source hr)
  exact hrec.step hsource hs

/-! ## The buffer as a queue -/

/-- The data in flight is the first part of the bytes in use. -/
theorem encode_queued (hsource : Source s.source queued) :
    encode queued = s.inFlight ++ s.buffered := by
  have hbytes := hsource.holds.bytes
  have hphase := hsource.phase
  unfold buffered
  unfold inFlight
  cases hp : s.source.phase with
  | idle => exact hbytes.symm
  | drained r commands => exact hbytes.symm
  | released r payload => exact hbytes.symm
  | copied r commands payload =>
    rw [hp] at hphase
    obtain ⟨-, -, ⟨more, rfl⟩, hdata⟩ := hphase
    simp only [hdata]
    unfold taken
    split_ifs with hnone
    · exact hbytes.symm
    · have hused := hsource.holds.used_eq
      rw [encode_append, List.length_append] at hused
      rw [← hbytes, hused, slice_add, hsource.holds.slice_prefix, Nat.add_sub_cancel_left]

/-- While the data of an APPEND is in flight, it is copied and still in use. -/
theorem copies_append_used_iff (h : bufferHistory.Reach s) :
    s.copies.flatten ++ slice s.source.manager.buf s.source.manager.readPos s.source.manager.used =
      encode (s.history.map Accepted.data) ↔ s.inFlight = [] := by
  obtain ⟨queued, hsource⟩ := source_of_reach (reach_source h)
  have hrec := recorded_of_reach h
  rw [hsource.holds.bytes, hrec.copies, hrec.accepted, hsource.accepted, encode_append]
  constructor
  · intro heq
    have hlen := congrArg List.length heq
    simp only [List.length_append] at hlen
    exact List.length_eq_zero_iff.mp (by omega)
  · intro hnone
    rw [hnone, List.append_nil]

/-- Bytes in use that are drained and copied at once. -/
theorem exists_inFlight (h : bufferHistory.Reach s) (hidle : s.source.phase = .idle)
    (hsome : s.source.manager.participating ≠ ∅) (hused : s.source.manager.used ≠ 0) :
    ∃ t, bufferHistory.Reach t ∧ t.inFlight ≠ [] := by
  obtain ⟨queued, hsource⟩ := source_of_reach (reach_source h)
  rcases hs : s.source with ⟨m, phase, accepted, sent⟩
  rw [hs] at hidle hsome hused hsource
  cases hidle
  have hdrain : batchSource.step s.source .drain = some ⟨m.drain.2,
      .drained m.drain.1 (accepted.drop sent.flatten.length), accepted, sent⟩ := by rw [hs]; rfl
  have h2 := Lts.ReachVia.step h trivial (step_of_source hdrain)
  refine ⟨_, .step h2 trivial (step_of_source (e := .copy) rfl), fun hnone => hused ?_⟩
  have hdata : (buildPayload m.drain.2 m.drain.1).data = slice m.buf m.readPos m.used :=
    congrArg Payload.data (if_neg hsome)
  have hslice : slice m.buf m.readPos m.used = [] := hdata.symm.trans hnone
  rw [hsource.holds.used_eq, ← hsource.holds.bytes, hslice]
  rfl

/-- One pushed command, drained and copied. -/
theorem exists_reach_inFlight : ∃ s, bufferHistory.Reach s ∧ s.inFlight ≠ [] := by
  have hpush := @pushRaw_eq ClientBufferManager.init [7] (by decide) (by decide) 0
  have hinit : bufferHistory.Reach .init := .init
  have hpushed := Lts.ReachVia.step hinit trivial
    (step_of_source (s := .init) (batchSource_push hpush))
  exact exists_inFlight hpushed rfl (Finset.insert_ne_empty _ _) (by decide)

theorem not_copies_append_used : ¬ ∀ s, bufferHistory.Reach s →
    s.copies.flatten ++ slice s.source.manager.buf s.source.manager.readPos s.source.manager.used =
      encode (s.history.map Accepted.data) := by
  intro hall
  obtain ⟨s, hreach, hsome⟩ := exists_reach_inFlight
  exact hsome ((copies_append_used_iff hreach).mp (hall s hreach))

/-- Each client with a command in the drained range takes part in it, unless it was removed since:
the range holds the commands `batch`, which come right after those copied before. -/
def Covered (s : BufferHistory) (r : DrainResult) : Prop :=
  ∃ before batch after, s.history = before ++ batch ++ after ∧
    encode (before.map Accepted.data) ++ s.inFlight = s.copies.flatten ∧
    encode (batch.map Accepted.data) = s.pending ∧
    ∀ p ∈ batch, p.removed = false → p.clientSocket ∈ r.participating

theorem Recorded.covered (h : Recorded s) (hsource : Source s.source queued) {r : DrainResult}
    {commands : List Command} (hq : commands <+: queued) (hpending : s.pending = encode commands)
    (hin : Live r.participating
      ((s.history.drop s.source.sent.flatten.length).take commands.length)) : s.Covered r := by
  refine ⟨s.history.take s.source.sent.flatten.length, _,
    (s.history.drop s.source.sent.flatten.length).drop commands.length, ?_, ?_, ?_, hin⟩
  · rw [List.append_assoc, List.take_append_drop, List.take_append_drop]
  · rw [h.copies, List.map_take, h.accepted, hsource.accepted, List.take_left]
  · rw [hpending, List.map_take, h.drop_accepted hsource, ← List.prefix_iff_eq_take.mp hq]

/-- **The client buffer is a queue of commands.** The data copied, followed by the bytes buffered
behind it, is the encoding of the accepted commands; what is drained stays in place until it is
released, and is what an APPEND copies; its clients take part. -/
theorem clientBuffer_fifo (h : bufferHistory.Reach s) :
    s.copies.flatten ++ s.buffered = encode (s.history.map Accepted.data) ∧
    (∀ r ∈ s.drained, slice s.source.manager.buf r.data r.len = s.pending ∧ s.Covered r) ∧
    ∀ r commands data, s.source.phase = .copied r commands (.append data) → data = s.pending := by
  obtain ⟨queued, hsource⟩ := source_of_reach (reach_source h)
  have hrec := recorded_of_reach h
  have hphase := hsource.phase
  have hpresent := hrec.present
  refine ⟨?_, ?_, ?_⟩
  · rw [hrec.copies, List.append_assoc, ← encode_queued hsource, ← encode_append,
      ← hsource.accepted, hrec.accepted]
  · intro r hr
    have hslice : ∀ {commands : List Command}, r.data = s.source.manager.readPos →
        r.len = (encode commands).length → commands <+: queued →
        slice s.source.manager.buf r.data r.len = encode commands := by
      rintro commands hd hl ⟨more, rfl⟩
      rw [hd, hl]
      exact hsource.holds.slice_prefix
    unfold drained at hr
    rcases hp : s.source.phase with _ | ⟨r', commands⟩ | ⟨r', commands, payload⟩ | _ <;>
      rw [hp] at hr hphase hpresent <;> cases hr
    · obtain ⟨hpending, hin, -⟩ := hpresent
      obtain ⟨hd, hl, hq⟩ := hphase
      exact ⟨(hslice hd hl hq).trans hpending.symm, hrec.covered hsource hq hpending hin⟩
    · obtain ⟨hpending, hin, -, -⟩ := hpresent
      obtain ⟨hd, hl, hq, -⟩ := hphase
      exact ⟨(hslice hd hl hq).trans hpending.symm, hrec.covered hsource hq hpending hin⟩
  · intro r commands data hp
    rw [hp] at hpresent
    obtain ⟨-, -, -, hpayload⟩ := hpresent
    split_ifs at hpayload
    cases hpayload
    rfl

theorem clientBuffer_fifo_inFlight : ∃ s : BufferHistory, s.inFlight ≠ [] ∧
    s.copies.flatten ++ s.buffered = encode (s.history.map Accepted.data) := by
  obtain ⟨s, hreach, hsome⟩ := exists_reach_inFlight
  exact ⟨s, hsome, (clientBuffer_fifo hreach).1⟩

end BufferHistory

end Ziplog
