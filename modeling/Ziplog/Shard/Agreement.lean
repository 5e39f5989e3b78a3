import Ziplog.Shard.Numbering
import Ziplog.Shard.SingleServer

/-!
# When the logs agree

The log of a subscriber takes, under each number, one of the batches sent under it. The proxies
count for themselves, so two batches can share a number, and then two subscribers can keep different
ones (`not_agreement`). In the runs without such a clash the logs agree (`agreement_of_distinct`);
one proxy never clashes with itself.
-/

namespace Ziplog

/-- Two logs hold the same bytes wherever both have an entry. -/
def ShardState.Agreement {c : ShardConfig} (s : ShardState c) : Prop :=
  ∀ (x y : Fin c.subscribers) (i : ℕ) (d d' : List UInt8),
    (s.subscriber x).tracker.log[i]? = some d → (s.subscriber y).tracker.log[i]? = some d' → d = d'

namespace NumberedState

variable {c : ShardConfig} {s t : NumberedState c} {epochDuration : ℕ}

/-- The number that is due at the proxy is not that of an earlier batch, of any proxy, with other
bytes. -/
def Distinct (s : NumberedState c) (p : Fin c.proxies) (data : List UInt8) : Prop :=
  ∀ q, ∀ f ∈ s.frames q, (s.timer p).phase = .sending f.seq → f.payload.data = data

instance (s : NumberedState c) (p : Fin c.proxies) (data : List UInt8) :
    Decidable (s.Distinct p data) :=
  inferInstanceAs (Decidable (∀ q, ∀ f ∈ s.frames q, _ → _))

/-- A step that sends no batch under a number taken for other bytes. With one server, or one
subscriber, there is nothing to disagree about. -/
def DistinctStep (s : NumberedState c) : NumberedEvent c → Prop
  | .send p payload _ => c.servers = 1 ∨ c.subscribers ≤ 1 ∨ s.Distinct p payload.data
  | _ => True

instance (s : NumberedState c) (e : NumberedEvent c) : Decidable (s.DistinctStep e) :=
  match e with
  | .send _ _ _ => inferInstanceAs (Decidable (_ ∨ _ ∨ _))
  | .timer _ _ => .isTrue trivial
  | .respond _ => .isTrue trivial
  | .shard _ => .isTrue trivial

/-! ## Batches with one number -/

/-- Two batches with one number have the same bytes. -/
def Coherent (s : NumberedState c) : Prop :=
  ∀ p q, ∀ f ∈ s.frames p, ∀ g ∈ s.frames q, f.seq = g.seq → f.payload.data = g.payload.data

/-- A new frame is the one the event sends. -/
theorem mem_newFrames {e : NumberedEvent c} {q : Fin c.proxies} {f : Frame}
    (hf : f ∈ s.newFrames q e) : ∃ p payload clients, e = .send p payload clients ∧
      (s.timer p).phase = .sending f.seq ∧ f.payload = payload := by
  cases e with
  | send p payload clients =>
    refine ⟨p, payload, clients, rfl, ?_⟩
    rcases hphase : (s.timer p).phase with _ | _ | _ | _ | _ | batchSeq | _ | _ <;>
      simp only [newFrames, hphase] at hf <;> try cases hf
    split_ifs at hf
    · obtain rfl := List.mem_singleton.mp hf
      exact ⟨rfl, rfl⟩
    · cases hf
  | _ => cases hf

/-- **One step.** -/
theorem coherent_step {e : NumberedEvent c} (h : Coherent s)
    (hdistinct : ∀ p payload clients, e = .send p payload clients → s.Distinct p payload.data)
    (hs : s.step epochDuration e = some t) : Coherent t := by
  have hnew : ∀ q r, ∀ f ∈ s.frames q, ∀ g ∈ s.newFrames r e, f.seq = g.seq →
      f.payload.data = g.payload.data := by
    intro q r f hf g hg hseq
    obtain ⟨p, payload, clients, rfl, hphase, rfl⟩ := mem_newFrames hg
    exact hdistinct p _ clients rfl q f hf (by rw [hphase, hseq])
  intro q r f hf g hg hseq
  rw [frames_step hs, List.mem_append] at hf hg
  rcases hf with hf | hf <;> rcases hg with hg | hg
  · exact h q r f hf g hg hseq
  · exact hnew q r f hf g hg hseq
  · exact (hnew r q g hg f hf hseq.symm).symm
  · obtain ⟨p, payload, clients, he, -, rfl⟩ := mem_newFrames hf
    obtain ⟨p', payload', clients', he', -, rfl⟩ := mem_newFrames hg
    have hsame := he.symm.trans he'
    rw [NumberedEvent.send.injEq] at hsame
    rw [hsame.2.1]

/-- A proxy uses no number twice. -/
theorem coherent_of_single_proxy (hone : c.proxies ≤ 1)
    (h : (numbered c epochDuration).Reach s) : Coherent s := by
  intro p q f hf g hg hseq
  have hpq : p = q := Fin.ext (by omega)
  subst hpq
  obtain ⟨i, hi⟩ := List.mem_iff_getElem?.mp hf
  obtain ⟨k, hk⟩ := List.mem_iff_getElem?.mp hg
  have hik : i = k := by
    have := seq_frames h hi
    have := seq_frames h hk
    omega
  subst hik
  rw [hi] at hk
  cases hk
  rfl

/-! ## The logs -/

/-- Where batches with one number have the same bytes, the logs agree. -/
theorem Coherent.agreement (h : Coherent s) (hreach : (replication c).Reach s.shard) :
    s.shard.Agreement := by
  intro x y i d d' hd hd'
  rcases Nat.eq_zero_or_pos i with rfl | hi
  · rw [ShardState.log_zero hreach] at hd hd'
    exact Option.some.inj (hd.symm.trans hd')
  · obtain ⟨p, f, hf, hfseq, rfl⟩ := ShardState.entry_of_log hreach hi hd
    obtain ⟨q, g, hg, hgseq, rfl⟩ := ShardState.entry_of_log hreach hi hd'
    exact h p q f (sent_iff.mp hf) g (sent_iff.mp hg) (hfseq.trans hgseq.symm)

theorem coherent_of_reachVia (hservers : c.servers ≠ 1) (hsubs : ¬ c.subscribers ≤ 1)
    (h : (numbered c epochDuration).ReachVia DistinctStep s) : Coherent s := by
  refine h.invariant Coherent ?_ ?_
  · intro p q f hf
    cases hf
  · intro s e t _ hc hg hs
    refine coherent_step hc ?_ hs
    rintro p payload clients rfl
    exact (hg.resolve_left hservers).resolve_left hsubs

/-- **Agreement.** In every run in which no batch is sent under a number that an earlier batch with
other bytes carries, any two logs agree; with one proxy they agree in every run. -/
theorem agreement_of_distinct (c : ShardConfig) (epochDuration : ℕ) (s : NumberedState c) :
    ((numbered c epochDuration).ReachVia DistinctStep s → s.shard.Agreement) ∧
      (c.proxies ≤ 1 → (numbered c epochDuration).Reach s → s.shard.Agreement) := by
  constructor
  · intro h
    have hreach := reach_shard h
    by_cases hservers : c.servers = 1
    · intro x y i d d' hd hd'
      exact ShardState.agree_of_single_server hservers hreach hd hd'
    · by_cases hsubs : c.subscribers ≤ 1
      · intro x y i d d' hd hd'
        obtain rfl : x = y := Fin.ext (by omega)
        exact Option.some.inj (hd.symm.trans hd')
      · exact (coherent_of_reachVia hservers hsubs h).agreement hreach
  · intro hone h
    exact (coherent_of_single_proxy hone h).agreement (reach_shard h)

/-! ## Two proxies, one number -/

/-- A timer thread up to its first batch. -/
def firstSlot {c : ShardConfig} (p : Fin c.proxies) : List (NumberedEvent c) :=
  [.timer p (.start 0), .timer p (.updateSlotEstimate 0), .timer p .nextBatchInfo,
    .timer p .compare, .timer p (.wake 10)]

/-- A frame of a proxy goes to a server, is stored there and delivered to a subscriber. -/
def relay {c : ShardConfig} (p : Fin c.proxies) (j : Fin c.servers) (x : Fin c.subscribers) :
    List (NumberedEvent c) :=
  [.shard (.connect p j), .shard (.send p j), .shard (.ack p j), .shard (.check p j),
    .shard (.store p j), .shard (.broadcast p j), .shard (.feedSend j x), .shard (.deliver j x 0)]

/-- A batch reaches one subscriber by each of two servers, and the other proxy sends the same bytes
under its own first number. -/
theorem agreement_of_distinct_append :
    ∃ s : NumberedState ⟨0, 2, 2, 2, by decide⟩,
      (s.shard.subscriber 0).tracker.log = [[], [0, 0, 0, 1, 65]] ∧
        (s.shard.subscriber 1).tracker.log = [[], [0, 0, 0, 1, 65]] ∧ s.shard.Agreement := by
  obtain ⟨s, hs, hp⟩ := @Lts.exists_reachVia_of_run _ _ (numbered ⟨0, 2, 2, 2, by decide⟩ 10)
    DistinctStep (fun s e => decide (s.DistinctStep e)) (fun _ _ => of_decide_eq_true)
    (firstSlot 0 ++ firstSlot 1 ++ [.send 0 (.append [0, 0, 0, 1, 65]) {7}] ++ relay 0 0 0 ++
      relay 0 1 1 ++ [.send 1 (.append [0, 0, 0, 1, 65]) {8}] ++
      [.shard (.connect 1 1), .shard (.send 1 1), .shard (.ack 1 1), .shard (.check 1 1),
        .shard (.store 1 1)])
    (fun s => decide ((s.shard.subscriber 0).tracker.log = [[], [0, 0, 0, 1, 65]] ∧
      (s.shard.subscriber 1).tracker.log = [[], [0, 0, 0, 1, 65]])) (by decide)
  have hlogs := of_decide_eq_true hp
  exact ⟨s, hlogs.1, hlogs.2, (agreement_of_distinct _ 10 s).1 hs⟩

/-- A proxy sends a command under its number 1 and another proxy skips its own number 1; the
subscribers keep one each. -/
theorem not_agreement :
    ¬ ∀ (c : ShardConfig) (epochDuration : ℕ) (s : NumberedState c),
      (numbered c epochDuration).Reach s → s.shard.Agreement := by
  intro h
  obtain ⟨s, hs, hp⟩ := @Lts.exists_reach_of_run _ _ (numbered ⟨0, 2, 2, 2, by decide⟩ 10)
    (firstSlot 0 ++ firstSlot 1 ++ [.send 0 (.append [0, 0, 0, 1, 65]) {7}] ++ relay 0 0 0 ++
      [.send 1 .skip ∅] ++ relay 1 1 1)
    (fun s => decide ((s.shard.subscriber 0).tracker.log[1]? = some [0, 0, 0, 1, 65] ∧
      (s.shard.subscriber 1).tracker.log[1]? = some [])) (by decide)
  have hlogs := of_decide_eq_true hp
  have hsame := h _ 10 s hs 0 1 1 _ _ hlogs.1 hlogs.2
  exact absurd hsame (by decide)

end NumberedState

end Ziplog
