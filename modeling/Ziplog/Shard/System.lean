import Ziplog.Proxy.SendOutBatch
import Ziplog.Shard.Numbering

/-!
# The whole shard

`system` puts the client buffers in front of the numbered shard. When a slot is due, the timer
thread of the proxy drains its buffer, builds the frame, releases the drained range and hands the
frame to `replicate_bytes`; clients push and leave at any moment. A run is any interleaving of all
this with everything else in the shard.

A run of the system is a run of the numbered shard (`reach_numbered`) and, for each proxy, a run of
its buffer (`reach_source`). `Handed` ties the two together: the frames of a proxy carry the batches
its buffer handed over.
-/

namespace Ziplog

open ClientBufferManager

/-! ## The batches handed over -/

namespace BatchSource

/-- The batches handed to `replicate_bytes`. One that is released and not handed over is missing. -/
def handed (b : BatchSource) : List (List Command) :=
  match b.phase with
  | .released _ _ => b.sent.dropLast
  | _ => b.sent

variable {b b' : BatchSource}

theorem handed_prefix_sent (b : BatchSource) : b.handed <+: b.sent := by
  unfold handed
  split
  · exact List.dropLast_prefix _
  · exact List.prefix_rfl

/-- Only the hand-over hands anything over. -/
theorem handed_step {e : SourceEvent} (he : e ≠ .handOver) (hs : b.step e = some b') :
    b'.handed = b.handed := by
  cases e with
  | push clientSocket data =>
    unfold step at hs
    simp only at hs
    split at hs <;> cases hs <;> rfl
  | remove clientSocket =>
    cases hs
    rfl
  | drain =>
    unfold step at hs
    rcases hp : b.phase with _ | _ | _ | _ <;> simp only [hp] at hs <;> cases hs
    simp only [handed, hp]
  | copy =>
    unfold step at hs
    rcases hp : b.phase with _ | _ | _ | _ <;> simp only [hp] at hs <;> cases hs
    simp only [handed, hp]
  | release =>
    unfold step at hs
    rcases hp : b.phase with _ | _ | _ | _ <;> simp only [hp] at hs <;> cases hs
    simp only [handed, hp, List.dropLast_concat]
  | handOver => exact absurd rfl he

/-- **The hand-over** of a batch: the payload encodes its commands. -/
theorem handed_handOver {r : DrainResult} {payload : Payload} (hr : batchSource.Reach b)
    (hp : b.phase = .released r payload) (hs : b.step .handOver = some b') :
    ∃ commands, b'.handed = b.handed ++ [commands] ∧
      payload.data = CommandBatch.encode commands := by
  obtain ⟨queued, -, -, hphase⟩ := source_of_reach hr
  rw [hp] at hphase
  obtain ⟨before, commands, hsent, hdata⟩ := hphase
  unfold step at hs
  simp only [hp] at hs
  cases hs
  refine ⟨commands, ?_, hdata⟩
  simp only [handed, hp, hsent, List.dropLast_concat]

/-- A command that was accepted has its length in 32 bits. -/
theorem short_of_reach (h : batchSource.Reach b) : ∀ cmd ∈ b.accepted, cmd.length < 2 ^ 32 := by
  refine h.invariant (fun b => ∀ cmd ∈ b.accepted, cmd.length < 2 ^ 32) ?_ ?_
  · intro cmd hcmd
    cases hcmd
  · intro b e b' _ ih _ hs
    change b.step e = some b' at hs
    cases e with
    | push clientSocket data =>
      unfold step at hs
      simp only at hs
      split at hs
      · cases hs
      · cases hs
        exact ih
      · rename_i m hpush
        cases hs
        intro cmd hcmd
        rcases List.mem_append.mp hcmd with hcmd | hcmd
        · exact ih cmd hcmd
        · rw [List.mem_singleton.mp hcmd]
          unfold pushRaw at hpush
          simp only at hpush
          split_ifs at hpush with hfull hout <;> cases hpush
          have hcap : capacity = 2 ^ 20 := rfl
          omega
    | remove clientSocket =>
      cases hs
      exact ih
    | drain | copy | release | handOver =>
      unfold step at hs
      rcases hp : b.phase with _ | _ | _ | _ <;> simp only [hp] at hs <;> cases hs
      exact ih

end BatchSource

/-! ## The system -/

/-- The timer thread is in `send_out_batch`, before `replicate_bytes`. -/
def TimerPhase.isSending : TimerPhase → Bool
  | .sending _ => true
  | _ => false

structure SystemState (c : ShardConfig) where
  numbered : NumberedState c
  source : Fin c.proxies → BatchSource

inductive SystemEvent (c : ShardConfig)
  | source (p : Fin c.proxies) (e : SourceEvent)
  | handOver (p : Fin c.proxies)
  | numbered (e : NumberedEvent c)

namespace SystemState

variable {c : ShardConfig} {s t : SystemState c} {epochDuration : ℕ}

def init : SystemState c := ⟨.init, fun _ => .init⟩

def setSource (s : SystemState c) (p : Fin c.proxies) (b : BatchSource) : SystemState c :=
  { s with source := Function.update s.source p b }

/-- The events of the buffer that happen now: a drain when a slot is due, and no hand-over by
itself. -/
def enabled (s : SystemState c) (p : Fin c.proxies) : SourceEvent → Bool
  | .drain => (s.numbered.timer p).phase.isSending
  | .handOver => false
  | _ => true

def step (epochDuration : ℕ) (s : SystemState c) : SystemEvent c → Option (SystemState c)
  | .source p e => if s.enabled p e then ((s.source p).step e).map (s.setSource p) else none
  | .handOver p =>
    match (s.source p).phase with
    | .released r payload =>
      (s.numbered.step epochDuration (.send p payload r.participating)).bind fun n =>
        ((s.source p).step .handOver).map fun b => { s.setSource p b with numbered := n }
    | _ => none
  | .numbered e =>
    match e with
    | .send _ _ _ => none
    | e => (s.numbered.step epochDuration e).map fun n => { s with numbered := n }

end SystemState

def system (c : ShardConfig) (epochDuration : ℕ) : Lts (SystemState c) (SystemEvent c) :=
  ⟨SystemState.init, SystemState.step epochDuration⟩

namespace SystemState

variable {c : ShardConfig} {s t : SystemState c} {epochDuration : ℕ}

/-- The steps: one of a buffer, a hand-over, or one of the rest. -/
inductive Effect (epochDuration : ℕ) (s : SystemState c) : SystemState c → Prop
  | source {p : Fin c.proxies} {e : SourceEvent} {b : BatchSource} (he : e ≠ .handOver)
      (hb : (s.source p).step e = some b) :
      Effect epochDuration s ⟨s.numbered, Function.update s.source p b⟩
  | handOver {p : Fin c.proxies} {r : DrainResult} {payload : Payload} {n : NumberedState c}
      {b : BatchSource} (hphase : (s.source p).phase = .released r payload)
      (hn : s.numbered.step epochDuration (.send p payload r.participating) = some n)
      (hb : (s.source p).step .handOver = some b) :
      Effect epochDuration s ⟨n, Function.update s.source p b⟩
  | numbered {e : NumberedEvent c} {n : NumberedState c}
      (he : ∀ p payload clients, e ≠ .send p payload clients)
      (hn : s.numbered.step epochDuration e = some n) : Effect epochDuration s ⟨n, s.source⟩

theorem effect_of_step {e : SystemEvent c} (h : s.step epochDuration e = some t) :
    Effect epochDuration s t := by
  cases e with
  | source p e =>
    unfold step at h
    simp only at h
    split_ifs at h with he
    obtain ⟨b, hb, rfl⟩ := Option.map_eq_some_iff.mp h
    refine .source ?_ hb
    rintro rfl
    cases he
  | handOver p =>
    rcases hphase : (s.source p).phase with _ | _ | _ | ⟨r, payload⟩ <;>
      simp only [step, hphase] at h <;> try cases h
    obtain ⟨n, hn, h⟩ := Option.bind_eq_some_iff.mp h
    obtain ⟨b, hb, rfl⟩ := Option.map_eq_some_iff.mp h
    exact .handOver hphase hn hb
  | numbered e =>
    cases e with
    | send p payload clients => cases h
    | timer p e =>
      obtain ⟨n, hn, rfl⟩ := Option.map_eq_some_iff.mp h
      exact .numbered (by rintro _ _ _ ⟨⟩) hn
    | respond p =>
      obtain ⟨n, hn, rfl⟩ := Option.map_eq_some_iff.mp h
      exact .numbered (by rintro _ _ _ ⟨⟩) hn
    | shard e =>
      obtain ⟨n, hn, rfl⟩ := Option.map_eq_some_iff.mp h
      exact .numbered (by rintro _ _ _ ⟨⟩) hn

/-! ## The runs inside -/

theorem reach_numbered (h : (system c epochDuration).Reach s) :
    (Ziplog.numbered c epochDuration).Reach s.numbered := by
  apply h.abs SystemState.numbered rfl
  intro s e t _ _ hs
  cases effect_of_step hs with
  | source he hb => exact Or.inl rfl
  | handOver hphase hn hb => exact Or.inr ⟨.send _ _ _, trivial, hn⟩
  | numbered he hn => exact Or.inr ⟨_, trivial, hn⟩

theorem reach_source (h : (system c epochDuration).Reach s) (p : Fin c.proxies) :
    batchSource.Reach (s.source p) := by
  have hinit : (system c epochDuration).init.source p = batchSource.init := rfl
  refine h.abs (fun s => s.source p) hinit ?_
  intro s e t _ _ hs
  have hset : ∀ (q : Fin c.proxies) (e : SourceEvent) (b : BatchSource),
      (s.source q).step e = some b →
        Function.update s.source q b p = s.source p ∨
          ∃ d, True ∧ batchSource.step (s.source p) d = some (Function.update s.source q b p) := by
    intro q e b hb
    by_cases hp : p = q
    · subst hp
      rw [Function.update_self]
      exact Or.inr ⟨e, trivial, hb⟩
    · rw [Function.update_of_ne hp]
      exact Or.inl rfl
  cases effect_of_step hs with
  | source he hb => exact hset _ _ _ hb
  | handOver hphase hn hb => exact hset _ _ _ hb
  | numbered he hn => exact Or.inl rfl

/-! ## Frames carry batches -/

/-- The frames of each proxy carry the batches its buffer handed over, in order. -/
def Handed (s : SystemState c) : Prop :=
  ∀ p, (s.numbered.frames p).map (fun f => f.payload.data) =
    (s.source p).handed.map CommandBatch.encode

/-- A step that sends nothing adds no frame. -/
theorem newFrames_eq_nil {s : NumberedState c} {e : NumberedEvent c}
    (he : ∀ p payload clients, e ≠ .send p payload clients) (p : Fin c.proxies) :
    s.newFrames p e = [] := by
  cases e with
  | send q payload clients => exact absurd rfl (he q payload clients)
  | _ => rfl

/-- **One step.** -/
theorem handed_step {e : SystemEvent c} (hr : (system c epochDuration).Reach s) (h : Handed s)
    (hs : s.step epochDuration e = some t) : Handed t := by
  intro p
  cases effect_of_step hs with
  | @source q e b he hb =>
    refine (h p).trans (congrArg _ ?_)
    by_cases hp : p = q
    · subst hp
      simp only [Function.update_self]
      exact (BatchSource.handed_step he hb).symm
    · simp only [Function.update_of_ne hp]
  | @handOver q r payload n b hphase hn hb =>
    have hframes := NumberedState.frames_step hn p
    simp only [hframes, List.map_append, h p]
    obtain ⟨batchSeq, hsending⟩ : ∃ batchSeq, (s.numbered.timer q).phase = .sending batchSeq := by
      cases NumberedState.effect_of_step hn with
      | send hsending hsh => exact ⟨_, hsending⟩
    by_cases hp : p = q
    · subst hp
      obtain ⟨commands, hhanded, hdata⟩ :=
        BatchSource.handed_handOver (reach_source hr p) hphase hb
      simp only [NumberedState.newFrames, hsending, if_true, Function.update_self, hhanded,
        List.map_append, List.map_cons, List.map_nil, hdata]
    · simp only [NumberedState.newFrames, hsending, if_neg hp, Function.update_of_ne hp,
        List.map_nil, List.append_nil]
  | numbered he hn =>
    rw [NumberedState.frames_step hn p, newFrames_eq_nil he, List.append_nil]
    exact h p

/-- **Every run.** -/
theorem handed_of_reach (h : (system c epochDuration).Reach s) : Handed s :=
  h.invariant Handed (fun _ => rfl) fun _ _ _ hr hh _ hs => handed_step hr hh hs

end SystemState

end Ziplog
