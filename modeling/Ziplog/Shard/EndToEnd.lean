import Mathlib.Data.List.Infix
import Ziplog.Shard.System

/-!
# From the client buffer to the log

With a single proxy the log of a subscriber is the batches of this proxy, in order, and the batches
are the commands in the order in which the buffer accepted them. So every log expands to a prefix of
the commands accepted, in every run, whatever crashes and however the steps interleave.
-/

namespace Ziplog

open CommandBatch

/-- Decoding batches gives back their commands. -/
theorem flatMap_deserialize_encode {batches : List (List Command)}
    (h : ∀ commands ∈ batches, ∀ cmd ∈ commands, cmd.length < 2 ^ 32) :
    (batches.map encode).flatMap deserialize = batches.flatten := by
  induction batches with
  | nil => rfl
  | cons commands batches ih =>
    rw [List.forall_mem_cons] at h
    rw [List.map_cons, List.flatMap_cons, deserialize_encode h.1, ih h.2, List.flatten_cons]

/-- The batches handed over are the first of the commands accepted. -/
theorem BatchSource.handed_prefix_accepted {b : BatchSource} (h : batchSource.Reach b) :
    b.handed.flatten <+: b.accepted := by
  obtain ⟨queued, -, haccepted, -⟩ := source_of_reach h
  rw [haccepted]
  exact b.handed_prefix_sent.flatten.trans (List.prefix_append _ _)

namespace SystemState

variable {c : ShardConfig} {s : SystemState c} {epochDuration : ℕ}

/-- An entry of a log, from number 1 on, is the batch handed over at its place. -/
theorem handed_of_log (hone : c.proxies = 1) (h : (system c epochDuration).Reach s)
    (p : Fin c.proxies) {x : Fin c.subscribers} {i : ℕ} {d : List UInt8}
    (hd : (s.numbered.shard.subscriber x).tracker.log[i + 1]? = some d) :
    ((s.source p).handed.map encode)[i]? = some d := by
  have hnumbered := reach_numbered h
  obtain ⟨q, f, hf, hseq, rfl⟩ :=
    ShardState.entry_of_log (NumberedState.reach_shard hnumbered) (Nat.succ_pos i) hd
  have hq : q = p := Fin.ext (by omega)
  subst hq
  obtain ⟨k, hk⟩ := List.mem_iff_getElem?.mp (NumberedState.sent_iff.mp hf)
  have hki : k = i := by
    have := NumberedState.seq_frames hnumbered hk
    omega
  subst hki
  rw [← handed_of_reach h q, List.getElem?_map, hk]
  rfl

/-- **The log of a subscriber** is the placeholder and the first batches of the proxy. -/
theorem log_eq_handed (hone : c.proxies = 1) (h : (system c epochDuration).Reach s)
    (p : Fin c.proxies) (x : Fin c.subscribers) :
    ∃ k, (s.numbered.shard.subscriber x).tracker.log =
      [] :: ((s.source p).handed.take k).map encode := by
  have hzero := ShardState.log_zero (NumberedState.reach_shard (reach_numbered h)) x
  have hentry := fun i d => @handed_of_log c s epochDuration hone h p x i d
  generalize (s.numbered.shard.subscriber x).tracker.log = log at hzero hentry ⊢
  rcases log with _ | ⟨d₀, log⟩
  · cases hzero
  · cases hzero
    refine ⟨log.length, congrArg _ ?_⟩
    rw [List.map_take]
    refine List.ext_getElem? fun i => ?_
    rw [List.getElem?_take]
    split_ifs with hi
    · exact (List.getElem?_eq_getElem hi).trans (hentry i _ (List.getElem?_eq_getElem hi)).symm
    · exact List.getElem?_eq_none (Nat.le_of_not_lt hi)

/-- **End to end.** In a shard with one proxy, every log expands to a prefix of the commands in the
order in which the proxy accepted them, at every moment of every run. -/
theorem expandUnraveled_prefix_accepted (c : ShardConfig) (hone : c.proxies = 1)
    (epochDuration : ℕ) (s : SystemState c) (h : (system c epochDuration).Reach s)
    (p : Fin c.proxies) (x : Fin c.subscribers) :
    (s.numbered.shard.subscriber x).tracker.expandUnraveled <+: (s.source p).accepted := by
  have hsource := reach_source h p
  have haccepted := BatchSource.handed_prefix_accepted hsource
  obtain ⟨k, hlog⟩ := log_eq_handed hone h p x
  have htake : ((s.source p).handed.take k).flatten <+: (s.source p).accepted :=
    (List.take_prefix _ _).flatten.trans haccepted
  have hshort : ∀ commands ∈ (s.source p).handed.take k, ∀ cmd ∈ commands,
      cmd.length < 2 ^ 32 := by
    intro commands hcommands cmd hcmd
    refine BatchSource.short_of_reach hsource cmd (htake.subset ?_)
    exact List.mem_flatten.mpr ⟨commands, hcommands, hcmd⟩
  have hexpand : (s.numbered.shard.subscriber x).tracker.expandUnraveled =
      ((s.source p).handed.take k).flatten := by
    rw [LogTracker.expandUnraveled, hlog, List.flatMap_cons, deserialize_nil, List.nil_append,
      flatMap_deserialize_encode hshort]
  rw [hexpand]
  exact htake

/-- One command on its way through three servers, of which one crashes, and a second accepted. -/
theorem expandUnraveled_prefix_accepted_one_of_two :
    ∃ s : SystemState ⟨1, 1, 3, 1, by decide⟩, (s.source 0).accepted = [[65], [66]] ∧
      (s.numbered.shard.subscriber 0).tracker.expandUnraveled = [[65]] ∧
      (s.numbered.shard.subscriber 0).tracker.expandUnraveled <+: (s.source 0).accepted := by
  obtain ⟨s, hs, hp⟩ := @Lts.exists_reach_of_run _ _ (system ⟨1, 1, 3, 1, by decide⟩ 10)
    [.source 0 (.push 7 [65]), .numbered (.timer 0 (.start 0)),
      .numbered (.timer 0 (.updateSlotEstimate 0)), .numbered (.timer 0 .nextBatchInfo),
      .numbered (.timer 0 .compare), .numbered (.timer 0 (.wake 10)), .source 0 .drain,
      .source 0 (.push 8 [66]), .source 0 .copy, .source 0 .release, .handOver 0,
      .numbered (.shard (.crash 2)),
      .numbered (.shard (.connect 0 0)), .numbered (.shard (.send 0 0)),
      .numbered (.shard (.ack 0 0)), .numbered (.shard (.check 0 0)),
      .numbered (.shard (.store 0 0)), .numbered (.shard (.broadcast 0 0)),
      .numbered (.shard (.feedSend 0 0)), .numbered (.shard (.deliver 0 0 0)),
      .numbered (.shard (.connect 0 1)), .numbered (.shard (.send 0 1)),
      .numbered (.shard (.ack 0 1)), .numbered (.shard (.check 0 1)),
      .numbered (.shard (.store 0 1)), .numbered (.shard (.broadcast 0 1)),
      .numbered (.shard (.feedSend 1 0)), .numbered (.shard (.deliver 1 0 0))]
    (fun s => decide ((s.source 0).accepted = [[65], [66]] ∧
      (s.numbered.shard.subscriber 0).tracker.expandUnraveled = [[65]])) (by decide)
  have hresult := of_decide_eq_true hp
  exact ⟨s, hresult.1, hresult.2, expandUnraveled_prefix_accepted _ rfl 10 s hs 0 0⟩

end SystemState

end Ziplog
