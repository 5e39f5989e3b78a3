import Mathlib.Data.List.Flatten
import Ziplog.Proxy.ClientOrder
import Ziplog.Shard.ByteStores
import Ziplog.Shard.EndToEnd
import Ziplog.Shard.Service

/-!
# From the clients to the logs

Several proxies number their batches from 1 on, and the subscribers cannot tell them apart. What a
log holds are nevertheless whole batches: its entry under a number is the batch that one of the
proxies has given this number (`exists_authors`). So the log expands to commands of these batches,
and the commands of one client connection are in it in the order in which they were pushed, each at
most once (`logs_in_order`).
-/

namespace Ziplog

open CommandBatch

/-! ## Lists -/

section

variable {α : Type*} {β : Type*} {γ : Type*}

/-- A list whose elements all have an origin. -/
theorem exists_map_of_getElem? {f : α → β} {l : List β} {R : ℕ → α → Prop}
    (h : ∀ (i : ℕ) (b : β), l[i]? = some b → ∃ a, R i a ∧ b = f a) :
    ∃ as : List α, l = as.map f ∧ ∀ (i : ℕ) (a : α), as[i]? = some a → R i a := by
  induction l generalizing R with
  | nil => exact ⟨[], rfl, fun _ _ ha => nomatch ha⟩
  | cons b l ih =>
    obtain ⟨a, ha, rfl⟩ := h 0 b rfl
    obtain ⟨as, rfl, has⟩ := @ih (fun i => R (i + 1)) fun i b hb => h (i + 1) b hb
    refine ⟨a :: as, rfl, fun i a' ha' => ?_⟩
    cases i with
    | zero =>
      cases ha'
      exact ha
    | succ i => exact has i a' ha'

/-- The elements of `as` with the tag `x`, where they are those of `l` at their place. -/
theorem filter_sublist_of_getElem? [DecidableEq α] {x : α} {as : List (α × β)} {l : List β}
    (h : ∀ (i : ℕ) (a : α × β), as[i]? = some a → a.1 = x → l[i]? = some a.2) :
    ((as.filter fun a => a.1 = x).map Prod.snd).Sublist l := by
  induction as generalizing l with
  | nil => exact List.nil_sublist l
  | cons a as ih =>
    cases l with
    | nil =>
      have hnone : (a :: as).filter (fun a => a.1 = x) = [] := by
        rw [List.filter_eq_nil_iff]
        intro b hb hx
        obtain ⟨i, hi⟩ := List.mem_iff_getElem?.mp hb
        cases h i b hi (of_decide_eq_true hx)
      rw [hnone]
      exact List.nil_sublist []
    | cons b l =>
      have htail := @ih l fun i a ha => h (i + 1) a ha
      by_cases hx : a.1 = x
      · cases h 0 a rfl hx
        rw [List.filter_cons_of_pos (by simpa using hx)]
        exact htail.cons_cons _
      · rw [List.filter_cons_of_neg (by simpa using hx)]
        exact htail.cons _

end

/-! ## Frames and batches -/

namespace SystemState

variable {c : ShardConfig} {s : SystemState c} {epochDuration : ℕ}

/-- The frames of a proxy have its id, and carry the batches taken out of its buffer under the
numbers from 1 on. -/
theorem sent_of_frame (h : (system c epochDuration).Reach s) {p : Fin c.proxies} {n : ℕ}
    {f : Frame} (hf : (s.numbered.frames p)[n]? = some f) :
    f.senderId = p ∧ f.seq = n + 1 ∧
      ∃ commands, (s.source p).sent[n]? = some commands ∧ f.payload.data = encode commands := by
  have hnumbered := reach_numbered h
  have hlabelled := ShardState.labelled_of_reach (NumberedState.reach_shard hnumbered)
  have hsent := NumberedState.sent_iff.mpr (List.mem_of_getElem? hf)
  refine ⟨hlabelled.sent p f hsent, NumberedState.seq_frames hnumbered hf, ?_⟩
  have hget := congrArg (fun l => l[n]?) (handed_of_reach h p)
  simp only [List.getElem?_map, hf, Option.map_some] at hget
  obtain ⟨commands, hcommands, hdata⟩ := Option.map_eq_some_iff.mp hget.symm
  obtain ⟨rest, hrest⟩ := (s.source p).handed_prefix_sent
  have hlt := (List.getElem?_eq_some_iff.mp hcommands).1
  refine ⟨commands, ?_, hdata.symm⟩
  rw [← hrest, List.getElem?_append_left hlt, hcommands]

end SystemState

namespace Service

variable {c : ShardConfig} {shardId : UInt32} {epochDuration : ℕ} {registered : Bool}
  {rb : ReadBuffer} {s t : Service c}

theorem sent_sourceOf (x : Proxy) (th : EpochTimer) : (sourceOf x th).sent = x.source.sent := by
  unfold sourceOf
  split_ifs <;> rfl

/-- What stands in the frames that a proxy has sent. -/
theorem Represents.batch_of_frame {y : SystemState c} (h : s.Represents shardId y)
    (hy : (system c epochDuration).Reach y) {p : Fin c.proxies}
    (hp : (Ziplog.proxy registered).Reach (s.proxy p)) {n : ℕ} {f : Frame}
    (hf : (y.numbered.frames p)[n]? = some f) :
    f.senderId = p ∧ f.seq = n + 1 ∧ ∃ batch, (s.proxy p).batches[n]? = some batch ∧
      f.payload.data = encode (batch.map Prod.snd) := by
  obtain ⟨hid, hseq, commands, hcommands, hdata⟩ := SystemState.sent_of_frame hy hf
  refine ⟨hid, hseq, ?_⟩
  rw [h.source, sent_sourceOf, Proxy.sent_eq hp, List.getElem?_map] at hcommands
  obtain ⟨batch, hbatch, rfl⟩ := Option.map_eq_some_iff.mp hcommands
  exact ⟨batch, hbatch, hdata⟩

/-! ## The logs -/

/-- The log of a subscriber, with the proxy and the batch that each entry comes from. -/
structure Authors (s : Service c) (x : Fin c.subscribers)
    (entries : List (Fin c.proxies × List (ℕ × Command))) : Prop where
  log : (s.shard.subscriber x).tracker.log =
    [] :: entries.map fun entry => encode (entry.2.map Prod.snd)
  batch : ∀ (i : ℕ) (entry : Fin c.proxies × List (ℕ × Command)), entries[i]? = some entry →
    (s.proxy entry.1).batches[i]? = some entry.2

/-- **Log entries are batches.** -/
theorem exists_authors (hproxies : c.proxies ≤ 2 ^ 32) (hservers : c.servers ≤ 2 ^ 32)
    (hrb : rb.Fresh) (h : (service c shardId epochDuration registered rb).ReachVia Fits s)
    (x : Fin c.subscribers) : ∃ entries, s.Authors x entries := by
  obtain ⟨y, hy, hrep⟩ := exists_system hproxies hservers hrb h
  have hproxy := reach_clients h
  have hnumbered := SystemState.reach_numbered hy
  have hshard := NumberedState.reach_shard hnumbered
  have hsubscriber := congrFun hrep.shard.subscriber x
  have hzero := ShardState.log_zero hshard x
  have hentry : ∀ (i : ℕ) (d : List UInt8),
      (y.numbered.shard.subscriber x).tracker.log[i + 1]? = some d →
      ∃ entry : Fin c.proxies × List (ℕ × Command),
        (s.proxy entry.1).batches[i]? = some entry.2 ∧ d = encode (entry.2.map Prod.snd) := by
    intro i d hd
    obtain ⟨p, f, hf, hseq, rfl⟩ := ShardState.entry_of_log hshard (Nat.succ_pos i) hd
    obtain ⟨n, hn⟩ := List.mem_iff_getElem?.mp (NumberedState.sent_iff.mp hf)
    obtain ⟨-, hseq', batch, hbatch, hdata⟩ := hrep.batch_of_frame hy (hproxy p) hn
    obtain rfl : n = i := by omega
    exact ⟨(p, batch), hbatch, hdata⟩
  rw [← hsubscriber] at hzero hentry
  rcases hlog : (s.shard.subscriber x).tracker.log with _ | ⟨d, log⟩
  · rw [hlog] at hzero
    cases hzero
  · rw [hlog] at hzero hentry
    cases hzero
    obtain ⟨entries, rfl, hentries⟩ := exists_map_of_getElem? hentry
    exact ⟨entries, hlog, hentries⟩

/-- Commands in batches have their length in 32 bits. -/
theorem short_of_batch {x : Proxy} (h : (Ziplog.proxy registered).Reach x) {n : ℕ}
    {batch : List (ℕ × Command)} (hbatch : x.batches[n]? = some batch) :
    ∀ cmd ∈ batch.map Prod.snd, cmd.length < 2 ^ 32 := by
  intro cmd hcmd
  obtain ⟨queued, -, haccepted, -⟩ := source_of_reach (Proxy.reach_source h)
  apply BatchSource.short_of_reach (Proxy.reach_source h)
  rw [haccepted, Proxy.sent_eq h]
  refine List.mem_append_left _ (List.mem_flatten.mpr ⟨batch.map Prod.snd, ?_, hcmd⟩)
  exact List.mem_map_of_mem (List.mem_of_getElem? hbatch)

/-- The commands of the entries of one proxy that came on one connection. -/
def loggedOf (entries : List (Fin c.proxies × List (ℕ × Command))) (p : Fin c.proxies) (k : ℕ) :
    List Command :=
  (((entries.filter fun entry => entry.1 = p).flatMap Prod.snd).filter fun e => e.1 = k).map
    Prod.snd

/-- They are commands of the connection, in order. -/
theorem Authors.sublist {x : Fin c.subscribers}
    {entries : List (Fin c.proxies × List (ℕ × Command))} (h : s.Authors x entries)
    {p : Fin c.proxies} (hp : (Ziplog.proxy registered).Reach (s.proxy p)) {k : ℕ}
    {conn : ClientConnection} (hconn : (s.proxy p).connections[k]? = some conn) :
    (loggedOf entries p k).Sublist conn.pushed := by
  have hbatches : ((entries.filter fun entry => entry.1 = p).map Prod.snd).Sublist
      (s.proxy p).batches :=
    filter_sublist_of_getElem? fun i entry hentry htag => htag ▸ h.batch i entry hentry
  have hcommands : ((entries.filter fun entry => entry.1 = p).flatMap Prod.snd).Sublist
      (s.proxy p).commands := by
    rw [List.flatMap_def]
    exact hbatches.flatten.trans (List.sublist_append_left _ _)
  rw [← (Proxy.accounted hp).2.own k conn hconn]
  exact (hcommands.filter _).map _

/-- **From the clients to the logs.** In every run in which the frames of the batches fit and what
clients push stays in memory, nothing goes wrong, and every log is the placeholder and then whole
batches, each with its place among the batches of the proxy that it comes from; it expands to the
commands of these batches, and those of any one client connection are in it in the order in which
they were pushed for the frames of the connection, each at most once. -/
theorem logs_in_order (c : ShardConfig) (hproxies : c.proxies ≤ 2 ^ 32)
    (hservers : c.servers ≤ 2 ^ 32) (shardId : UInt32) (epochDuration : ℕ) (registered : Bool)
    {rb : ReadBuffer} (hrb : rb.Fresh) {o : Except MemFault (Service c)}
    (h : (serviceWithFaults c shardId epochDuration registered rb).ReachVia
      (Lts.BeforeFault Fits) o) :
    ∃ s, o = .ok s ∧ ∀ x : Fin c.subscribers, ∃ entries, s.Authors x entries ∧
      (s.shard.subscriber x).tracker.expandUnraveled =
        entries.flatMap (fun entry => entry.2.map Prod.snd) ∧
      ∀ p k conn, (s.proxy p).connections[k]? = some conn →
        (loggedOf entries p k).Sublist conn.consumed.reduceOption := by
  obtain ⟨s, rfl, hs⟩ := exists_ok (fun _ _ => id) h
  refine ⟨s, rfl, fun x => ?_⟩
  obtain ⟨entries, hentries⟩ := exists_authors hproxies hservers hrb hs x
  have hproxy := reach_clients hs
  refine ⟨entries, hentries, ?_, fun p k conn hconn => hentries.sublist (hproxy p) hconn⟩
  rw [LogTracker.expandUnraveled, hentries.log, List.flatMap_cons, deserialize_nil,
    List.nil_append, List.flatMap_map]
  refine List.flatMap_congr fun entry hentry => deserialize_encode ?_
  obtain ⟨i, hi⟩ := List.mem_iff_getElem?.mp hentry
  exact short_of_batch (hproxy entry.1) (hentries.batch i entry hi)

/-- The command of the client is in the log. -/
theorem logs_in_order_answered : ∃ (s : Service ⟨0, 1, 1, 1, by decide⟩)
    (entries : List (Fin 1 × List (ℕ × Command))), s.Authors 0 entries ∧ entries.length = 1 ∧
      (@loggedOf ⟨0, 1, 1, 1, by decide⟩ entries 0 0).Sublist [[65]] := by
  obtain ⟨s, hreach, hconnections, hlog⟩ := exists_answered
  have hrun := reach_withFaults (hreach.mono fun _ _ hguard => hguard.1)
  obtain ⟨t, ht, hlogs⟩ := logs_in_order _ (by decide) (by decide) 5 10 true
    ReadBuffer.zeroed_fresh hrun
  cases ht
  obtain ⟨entries, hentries, -, horder⟩ := hlogs 0
  have hfirst : (s.proxy 0).connections[0]? =
      some ⟨5, .reading, [some [65]], [.batch 0 true]⟩ := by
    rw [hconnections]
    rfl
  refine ⟨s, entries, hentries, ?_, horder 0 0 _ hfirst⟩
  have hlength := congrArg List.length (hlog.symm.trans hentries.log)
  simpa using hlength.symm

end Service

end Ziplog
