import Ziplog.Proxy.EpochTimer
import Ziplog.Shard.Origin

/-!
# Who numbers the batches

Each proxy assigns its slots itself, from a counter of its own that starts at 1. `numbered` adds the
timer threads to the shard: a batch is sent under the number of the slot that is due, and the thread
goes on when the call of `replicate_bytes` has been answered. What is sent is still left open.

A proxy uses its numbers in order and each once (`Consecutive`). Two proxies use the same numbers.
-/

namespace Ziplog

structure NumberedState (c : ShardConfig) where
  shard : ShardState c
  timer : Fin c.proxies → EpochTimer

inductive NumberedEvent (c : ShardConfig)
  | timer (p : Fin c.proxies) (e : TimerEvent)
  | send (p : Fin c.proxies) (payload : Payload) (clients : Finset ℕ)
  | respond (p : Fin c.proxies)
  | shard (e : ShardEvent c)

/-- The events that belong to the timer thread of a proxy. -/
def ShardEvent.ofTimer {c : ShardConfig} : ShardEvent c → Bool
  | .replicate .. => true
  | .respond _ => true
  | _ => false

namespace NumberedState

variable {c : ShardConfig} {s t : NumberedState c} {epochDuration : ℕ}

def init : NumberedState c := ⟨.init, fun _ => .init⟩

/-- The timer thread of a proxy enters another phase. -/
def setPhase (s : NumberedState c) (p : Fin c.proxies) (phase : TimerPhase) : NumberedState c :=
  { s with timer := Function.update s.timer p { s.timer p with phase := phase } }

def step (epochDuration : ℕ) (s : NumberedState c) : NumberedEvent c → Option (NumberedState c)
  | .timer p e => ((s.timer p).step epochDuration e).map fun t =>
      { s with timer := Function.update s.timer p t }
  | .send p payload clients =>
    match (s.timer p).phase with
    | .sending batchSeq =>
      (s.shard.step (.replicate p batchSeq payload clients)).map fun sh =>
        { s.setPhase p .replicating with shard := sh }
    | _ => none
  | .respond p =>
    match (s.timer p).phase with
    | .replicating => (s.shard.step (.respond p)).map fun sh =>
        { s.setPhase p .fetching with shard := sh }
    | _ => none
  | .shard e => if e.ofTimer then none else (s.shard.step e).map fun sh => { s with shard := sh }

end NumberedState

def numbered (c : ShardConfig) (epochDuration : ℕ) : Lts (NumberedState c) (NumberedEvent c) :=
  ⟨NumberedState.init, NumberedState.step epochDuration⟩

namespace NumberedState

variable {c : ShardConfig} {s t : NumberedState c} {epochDuration : ℕ}

/-! ## What a step does -/

/-- The steps: the timer thread before the send, the send, the response, and everything else. -/
inductive Effect (epochDuration : ℕ) (s : NumberedState c) :
    NumberedEvent c → NumberedState c → Prop
  | timer {p : Fin c.proxies} {e : TimerEvent} {th : EpochTimer}
      (hth : (s.timer p).step epochDuration e = some th) :
      Effect epochDuration s (.timer p e) ⟨s.shard, Function.update s.timer p th⟩
  | send {p : Fin c.proxies} {payload : Payload} {clients : Finset ℕ} {batchSeq : ℕ}
      {sh : ShardState c} (hphase : (s.timer p).phase = .sending batchSeq)
      (hsh : s.shard.step (.replicate p batchSeq payload clients) = some sh) :
      Effect epochDuration s (.send p payload clients)
        ⟨sh, Function.update s.timer p { s.timer p with phase := .replicating }⟩
  | respond {p : Fin c.proxies} {sh : ShardState c}
      (hphase : (s.timer p).phase = .replicating) (hsh : s.shard.step (.respond p) = some sh) :
      Effect epochDuration s (.respond p)
        ⟨sh, Function.update s.timer p { s.timer p with phase := .fetching }⟩
  | shard {e : ShardEvent c} {sh : ShardState c} (hfree : e.ofTimer = false)
      (hsh : s.shard.step e = some sh) : Effect epochDuration s (.shard e) ⟨sh, s.timer⟩

theorem effect_of_step {e : NumberedEvent c} (h : s.step epochDuration e = some t) :
    Effect epochDuration s e t := by
  cases e with
  | timer p e =>
    obtain ⟨th, hth, rfl⟩ := Option.map_eq_some_iff.mp h
    exact .timer hth
  | send p payload clients =>
    rcases hphase : (s.timer p).phase with _ | _ | _ | _ | _ | batchSeq | _ | _ <;>
      simp only [step, hphase] at h <;> try cases h
    obtain ⟨sh, hsh, rfl⟩ := Option.map_eq_some_iff.mp h
    exact .send hphase hsh
  | respond p =>
    rcases hphase : (s.timer p).phase with _ | _ | _ | _ | _ | _ | _ | _ <;>
      simp only [step, hphase] at h <;> try cases h
    obtain ⟨sh, hsh, rfl⟩ := Option.map_eq_some_iff.mp h
    exact .respond hphase hsh
  | shard e =>
    change (if e.ofTimer then none else _) = some t at h
    split_ifs at h with hfree
    obtain ⟨sh, hsh, rfl⟩ := Option.map_eq_some_iff.mp h
    exact .shard (by simpa using hfree) hsh

/-- The runs of the shard inside. -/
theorem reach_shard {guard : NumberedState c → NumberedEvent c → Prop}
    (h : (numbered c epochDuration).ReachVia guard s) : (replication c).Reach s.shard := by
  apply h.abs NumberedState.shard rfl
  intro s e t _ _ hs
  cases effect_of_step hs with
  | timer hth => exact Or.inl rfl
  | send hphase hsh => exact Or.inr ⟨.replicate _ _ _ _, trivial, hsh⟩
  | respond hphase hsh => exact Or.inr ⟨.respond _, trivial, hsh⟩
  | shard hfree hsh => exact Or.inr ⟨_, trivial, hsh⟩

/-- The frames a proxy has sent. -/
def frames (s : NumberedState c) (p : Fin c.proxies) : List Frame :=
  (s.shard.proxy p).batches.map Batch.frame

theorem sent_iff {p : Fin c.proxies} {f : Frame} : s.shard.Sent p f ↔ f ∈ s.frames p := by
  rw [frames, List.mem_map]
  rfl

/-- The frame a step adds for a proxy. -/
def newFrames (s : NumberedState c) (p : Fin c.proxies) : NumberedEvent c → List Frame
  | .send q payload _ =>
    match (s.timer q).phase with
    | .sending batchSeq => if p = q then [⟨q, batchSeq, payload⟩] else []
    | _ => []
  | _ => []

theorem frames_step {e : NumberedEvent c} (hs : s.step epochDuration e = some t)
    (p : Fin c.proxies) : t.frames p = s.frames p ++ s.newFrames p e := by
  cases effect_of_step hs with
  | timer hth => exact (List.append_nil _).symm
  | send hphase hsh =>
    simp only [newFrames, hphase]
    exact ShardState.map_frame_step hsh p
  | respond hphase hsh => exact ShardState.map_frame_step hsh p
  | @shard e sh hfree hsh =>
    apply (ShardState.map_frame_step hsh p).trans
    cases e with
    | replicate q seq payload clients => cases hfree
    | _ => rfl

/-! ## Consecutive numbers -/

/-- The numbers sent and then those outstanding are all that the proxy has assigned. -/
def Consecutive (s : NumberedState c) (p : Fin c.proxies) : Prop :=
  1 ≤ (s.timer p).nextSeq ∧
    (s.frames p).map Frame.seq ++ (s.timer p).outstanding =
      List.range' 1 ((s.timer p).nextSeq - 1)

/-- **One step.** -/
theorem consecutive_step {e : NumberedEvent c} (h : ∀ p, s.Consecutive p)
    (hs : s.step epochDuration e = some t) (p : Fin c.proxies) : t.Consecutive p := by
  obtain ⟨hpos, hseqs⟩ := h p
  have hframes := frames_step hs p
  unfold Consecutive
  rw [hframes]
  cases effect_of_step hs with
  | @timer q e th hth =>
    by_cases hp : p = q
    · subst hp
      obtain ⟨k, hnext, hout⟩ := EpochTimer.outstanding_step hth
      simp only [Function.update_self, newFrames, List.append_nil]
      refine ⟨by omega, ?_⟩
      have hlen : (s.timer p).nextSeq + k - 1 = (s.timer p).nextSeq - 1 + k := by omega
      have hfrom : 1 + ((s.timer p).nextSeq - 1) = (s.timer p).nextSeq := by omega
      rw [hout, hnext, ← List.append_assoc, hseqs, hlen, ← List.range'_append_1, hfrom]
    · simp only [Function.update_of_ne hp, newFrames, List.append_nil]
      exact ⟨hpos, hseqs⟩
  | @send q payload clients batchSeq sh hphase hsh =>
    by_cases hp : p = q
    · subst hp
      simp only [Function.update_self, newFrames, hphase, if_true]
      refine ⟨hpos, ?_⟩
      rw [← hseqs]
      simp only [EpochTimer.outstanding, hphase, List.map_append, List.map_cons, List.map_nil,
        List.append_assoc, List.singleton_append]
    · simp only [Function.update_of_ne hp, newFrames, hphase, if_neg hp, List.append_nil]
      exact ⟨hpos, hseqs⟩
  | @respond q sh hphase hsh =>
    simp only [newFrames, List.append_nil]
    by_cases hp : p = q
    · subst hp
      simp only [Function.update_self]
      refine ⟨hpos, ?_⟩
      rw [← hseqs]
      simp only [EpochTimer.outstanding, hphase]
    · simp only [Function.update_of_ne hp]
      exact ⟨hpos, hseqs⟩
  | shard hfree hsh =>
    simp only [newFrames, List.append_nil]
    exact ⟨hpos, hseqs⟩

/-- **Every run.** -/
theorem consecutive_of_reach (h : (numbered c epochDuration).Reach s) (p : Fin c.proxies) :
    s.Consecutive p := by
  have hall : ∀ p, s.Consecutive p :=
    h.invariant (fun s => ∀ p, s.Consecutive p) (fun p => ⟨le_rfl, rfl⟩)
      fun _ _ _ _ hc _ hs => consecutive_step hc hs
  exact hall p

/-- The batches of a proxy carry the numbers 1, 2, 3 and so on. -/
theorem seq_frames (h : (numbered c epochDuration).Reach s) {p : Fin c.proxies} {i : ℕ}
    {f : Frame} (hf : (s.frames p)[i]? = some f) : f.seq = i + 1 := by
  obtain ⟨-, hseqs⟩ := consecutive_of_reach h p
  have hlt := (List.getElem?_eq_some_iff.mp hf).1
  have hget := congrArg (fun l => l[i]?) hseqs
  simp only [List.getElem?_append_left (show i < ((s.frames p).map Frame.seq).length by
    rwa [List.length_map]), List.getElem?_map, hf, Option.map_some] at hget
  obtain ⟨hi, hval⟩ := List.getElem?_eq_some_iff.mp hget.symm
  rw [List.getElem_range', Nat.one_mul] at hval
  omega

end NumberedState

end Ziplog
