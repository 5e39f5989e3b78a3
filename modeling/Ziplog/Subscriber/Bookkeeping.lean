import Ziplog.Library.Lts
import Ziplog.Subscriber.QuoratePrefix

/-!
# The bookkeeping of the log tracker

`observing` is a tracker over any sequence of calls, each with its own quorum. `Consistent` says how
its structures fit together: the numbers applied are those in the log and those held behind a gap,
and no number applied is still counted.

The loop of `apply_locked` throws at a payload with a timestamp that `std::stoull` cannot hold,
after the payload has been held and before the bookkeeping is done. So a call returns, and leaves
the tracker consistent, exactly when the payloads that it moves into the log parse
(`observe_returns_iff`).
-/

namespace Ziplog

/-- The arguments of one call of `observe`, with its quorum. -/
structure Observation extends Delivery where
  quorum : ℕ

namespace LogTracker

/-! ## Payloads that do not parse -/

theorem parses_of_entryLatencies {received seq : ℕ} {commands : List Command}
    {toPrint out : List (ℕ × Int64)}
    (h : entryLatencies received seq commands toPrint = .ok out) :
    ∀ command ∈ commands, (commandLatency 0 command).isOk = true := by
  induction commands generalizing toPrint with
  | nil => exact fun _ hcommand => nomatch hcommand
  | cons command commands ih =>
    unfold entryLatencies at h
    rw [List.forall_mem_cons, commandLatency_isOk 0 received]
    cases hc : commandLatency received command with
    | error e => rw [hc] at h; cases h
    | ok latency =>
      rw [hc] at h
      cases latency with
      | none => exact ⟨rfl, ih h⟩
      | some latency => exact ⟨rfl, ih h⟩

/-- The loop over the commands of an entry returns exactly on payloads that parse. -/
theorem entryLatencies_ok_iff {received seq : ℕ} {data : List UInt8} {toPrint : List (ℕ × Int64)} :
    (∃ out, entryLatencies received seq (CommandBatch.deserialize data) toPrint = .ok out) ↔
      parses data = true := by
  constructor
  · rintro ⟨out, hout⟩
    exact List.all_eq_true.mpr (parses_of_entryLatencies hout)
  · intro h
    exact parses_ok h received seq toPrint

/-! ## The loop of `apply_locked` -/

/-- Every payload that continues the log without a gap parses. -/
def Ready (t : LogTracker) : Prop :=
  ∀ s, t.nextSeq ≤ s → (∀ i, t.nextSeq ≤ i → i ≤ s → i ∈ t.outOfOrder) →
    ∀ raw ∈ t.outOfOrder.lookup s, parses raw = true

variable {t : LogTracker} {raw : List UInt8}

theorem mem_outOfOrder_commitNext {i : ℕ} :
    i ∈ (t.commitNext raw).outOfOrder ↔ i ≠ t.nextSeq ∧ i ∈ t.outOfOrder := by
  rw [commitNext_outOfOrder]
  exact AList.mem_erase

theorem ready_of_notMem (h : t.nextSeq ∉ t.outOfOrder) : t.Ready := by
  intro s hs hrun
  exact absurd (hrun t.nextSeq le_rfl hs) h

/-- The first payload parses and so do those behind it. -/
theorem ready_iff_commitNext (hraw : t.outOfOrder.lookup t.nextSeq = some raw) :
    t.Ready ↔ parses raw = true ∧ (t.commitNext raw).Ready := by
  have hmem : t.nextSeq ∈ t.outOfOrder := AList.lookup_isSome.mp (by rw [hraw]; rfl)
  constructor
  · intro h
    refine ⟨h t.nextSeq le_rfl (fun i hi hle => ?_) raw hraw, fun s hs hrun d hd => ?_⟩
    · rw [Nat.le_antisymm hle hi]
      exact hmem
    · have hlt : t.nextSeq < s := hs
      rw [commitNext_outOfOrder, AList.lookup_erase_ne (by omega)] at hd
      refine h s hlt.le (fun i hi hle => ?_) d hd
      rcases Nat.eq_or_lt_of_le hi with rfl | hi
      · exact hmem
      · exact (mem_outOfOrder_commitNext.mp (hrun i hi hle)).2
  · rintro ⟨hfirst, hrest⟩ s hs hrun d hd
    rcases Nat.eq_or_lt_of_le hs with rfl | hlt
    · rw [hraw] at hd
      cases hd
      exact hfirst
    · refine hrest s hlt (fun i hi hle => ?_) d ?_
      · have hi' : t.nextSeq < i := hi
        exact mem_outOfOrder_commitNext.mpr ⟨by omega, hrun i hi'.le hle⟩
      · rw [commitNext_outOfOrder, AList.lookup_erase_ne (by omega)]
        exact hd

/-- **The loop** returns exactly when the payloads it moves parse, and then it has reached a gap. -/
theorem drainLoop_returns_iff {received fuel : ℕ} (hfuel : t.outOfOrder.entries.length ≤ fuel)
    (toPrint : List (ℕ × Int64)) :
    (t.Ready ↔ ∃ out, (drainLoop received fuel t toPrint).2 = .ok out) ∧
    (∀ out, (drainLoop received fuel t toPrint).2 = .ok out →
      (drainLoop received fuel t toPrint).1.nextSeq ∉
        (drainLoop received fuel t toPrint).1.outOfOrder) := by
  induction fuel generalizing t toPrint with
  | zero =>
    have hnil : t.outOfOrder.entries = [] := List.length_eq_zero_iff.mp (Nat.le_zero.mp hfuel)
    have hnone : t.nextSeq ∉ t.outOfOrder := by
      rw [AList.mem_keys, AList.keys, hnil]
      exact List.not_mem_nil
    exact ⟨⟨fun _ => ⟨toPrint, rfl⟩, fun _ => ready_of_notMem hnone⟩, fun _ _ => hnone⟩
  | succ fuel ih =>
    unfold drainLoop
    cases hraw : t.outOfOrder.lookup t.nextSeq with
    | none =>
      have hnone : t.nextSeq ∉ t.outOfOrder := AList.lookup_eq_none.mp hraw
      exact ⟨⟨fun _ => ⟨toPrint, rfl⟩, fun _ => ready_of_notMem hnone⟩, fun _ _ => hnone⟩
    | some raw =>
      have hlen := length_erase_entries hraw
      have hcommit : (t.commitNext raw).outOfOrder.entries.length ≤ fuel := by
        rw [commitNext_outOfOrder]
        omega
      have hparse := @entryLatencies_ok_iff received t.nextSeq raw toPrint
      cases hentry : entryLatencies received t.nextSeq (CommandBatch.deserialize raw) toPrint with
      | error e =>
        simp only [ready_iff_commitNext hraw, ← hparse, hentry]
        refine ⟨⟨?_, ?_⟩, ?_⟩
        · rintro ⟨⟨_, ⟨⟩⟩, _⟩
        · rintro ⟨_, ⟨⟩⟩
        · rintro _ ⟨⟩
      | ok out =>
        simp only [ready_iff_commitNext hraw, ← hparse, hentry]
        obtain ⟨hiff, hstop⟩ := ih hcommit out
        exact ⟨⟨fun h => hiff.mp h.2, fun h => ⟨⟨out, rfl⟩, hiff.mpr h⟩⟩, hstop⟩

/-! ## The structures of the tracker -/

structure Consistent (t : LogTracker) : Prop where
  disjoint : ∀ s ∈ t.pendingQuorum, s ∉ t.applied
  applied : ∀ s, s ∈ t.applied ↔ (1 ≤ s ∧ s < t.nextSeq) ∨ s ∈ t.outOfOrder
  later : ∀ s ∈ t.outOfOrder, t.nextSeq < s
  size : t.log.length = t.nextSeq
  pos : 1 ≤ t.nextSeq

theorem consistent_init : init.Consistent where
  disjoint := fun _ hs => absurd hs (AList.notMem_empty _)
  applied := by
    intro s
    constructor
    · exact fun hs => absurd hs (Finset.notMem_empty s)
    · rintro (⟨h1, hlt⟩ | hs)
      · exact absurd hlt (Nat.not_lt.mpr h1)
      · exact absurd hs (AList.notMem_empty _)
  later := fun _ hs => absurd hs (AList.notMem_empty _)
  size := rfl
  pos := le_rfl

/-- The tracker inside `apply_locked` for `seq`, which was called with `before`. -/
structure Applying (before : LogTracker) (seq : ℕ) (t : LogTracker) : Prop where
  pendingQuorum : t.pendingQuorum = before.pendingQuorum
  same : t.applied = before.applied
  applied : ∀ s, s = seq ∨ s ∈ before.applied ↔ (1 ≤ s ∧ s < t.nextSeq) ∨ s ∈ t.outOfOrder
  later : ∀ s ∈ t.outOfOrder, t.nextSeq ≤ s
  size : t.log.length = t.nextSeq
  pos : 1 ≤ t.nextSeq

theorem Applying.commitNext {before : LogTracker} {seq : ℕ} (h : Applying before seq t)
    (hraw : t.outOfOrder.lookup t.nextSeq = some raw) :
    Applying before seq (t.commitNext raw) := by
  have hmem : t.nextSeq ∈ t.outOfOrder := AList.lookup_isSome.mp (by rw [hraw]; rfl)
  have hpos := h.pos
  refine ⟨h.pendingQuorum, h.same, fun s => ?_, fun s hs => ?_, ?_, ?_⟩
  · rw [h.applied s, mem_outOfOrder_commitNext, commitNext_nextSeq]
    by_cases hs : s = t.nextSeq
    · subst hs
      exact ⟨fun _ => Or.inl ⟨hpos, Nat.lt_succ_self _⟩, fun _ => Or.inr hmem⟩
    · have hlt : s < t.nextSeq + 1 ↔ s < t.nextSeq := by omega
      rw [hlt, and_iff_right hs]
  · obtain ⟨hne, hold⟩ := mem_outOfOrder_commitNext.mp hs
    have hle := h.later s hold
    rw [commitNext_nextSeq]
    omega
  · rw [commitNext_log, commitNext_nextSeq, List.length_append, h.size]
    rfl
  · exact Nat.le_add_left 1 _

/-- One more sender is counted. -/
theorem Consistent.count (h : t.Consistent) {seq : ℕ} (hseq : seq ∉ t.applied) (sender : ℕ) :
    (t.count sender seq).Consistent where
  disjoint := by
    intro s hs
    rcases AList.mem_insert _ |>.mp hs with rfl | hs
    · exact hseq
    · exact h.disjoint s hs
  applied := h.applied
  later := h.later
  size := h.size
  pos := h.pos

theorem Consistent.hold (h : t.Consistent) {seq : ℕ} (h1 : 1 ≤ seq) (hseq : seq ∉ t.applied)
    (data : List UInt8) : Applying t seq (t.hold seq data) where
  pendingQuorum := rfl
  same := rfl
  applied := by
    intro s
    rw [h.applied s, hold_outOfOrder, AList.mem_insert, hold_nextSeq]
    exact or_left_comm
  later := by
    intro s hs
    rcases AList.mem_insert _ |>.mp hs with rfl | hs
    · rw [hold_nextSeq]
      by_contra hlt
      exact hseq ((h.applied s).mpr (Or.inl ⟨h1, Nat.lt_of_not_le hlt⟩))
    · exact (h.later s hs).le
  size := h.size
  pos := h.pos

/-- The bookkeeping after the loop. -/
theorem Applying.settle {before : LogTracker} (hbefore : before.Consistent) {seq : ℕ}
    (h : Applying before seq t) (hgap : t.nextSeq ∉ t.outOfOrder) : (t.settle seq).Consistent where
  disjoint := by
    intro s hs
    obtain ⟨hne, hpending⟩ := AList.mem_erase.mp hs
    rw [h.pendingQuorum] at hpending
    rw [settle_applied, h.same, Finset.mem_insert, not_or]
    exact ⟨hne, hbefore.disjoint s hpending⟩
  applied := by
    intro s
    rw [settle_applied, h.same, Finset.mem_insert]
    exact h.applied s
  later := by
    intro s hs
    refine Nat.lt_of_le_of_ne (h.later s hs) ?_
    rintro rfl
    exact hgap hs
  size := h.size
  pos := h.pos

/-- **`apply_locked`** returns exactly when what it moves parses. -/
theorem Consistent.applyLocked (h : t.Consistent) {seq : ℕ} (h1 : 1 ≤ seq)
    (hseq : seq ∉ t.applied) (received : ℕ) (data : List UInt8) :
    ((t.hold seq data).Ready ↔ ∃ out, (t.applyLocked received seq data).2 = .ok out) ∧
    ∀ out, (t.applyLocked received seq data).2 = .ok out →
      ((t.applyLocked received seq data).1.settle seq).Consistent := by
  obtain ⟨hiff, hstop⟩ := @drainLoop_returns_iff (t.hold seq data) received _ le_rfl []
  refine ⟨hiff, fun out hout => ?_⟩
  have happlying : Applying t seq (t.applyLocked received seq data).1 :=
    drainLoop_invariant (fun u raw hu hraw => hu.commitNext hraw) _ _ [] (h.hold h1 hseq data)
  exact happlying.settle h (hstop out hout)

/-! ## One call and every call -/

/-- The call completes the quorum of its number. -/
def Completes (t : LogTracker) (c : Observation) : Prop :=
  c.seq ∉ t.applied ∧ c.quorum ≤ (insert c.sender (t.senders c.seq)).card

/-- What a call that completes a quorum lets move into the log parses. -/
def Parsable (t : LogTracker) (c : Observation) : Prop :=
  t.Completes c → (t.hold c.seq c.data).Ready

def call (t : LogTracker) (c : Observation) : LogTracker × Outcome :=
  t.observe c.received c.sender c.seq c.data c.quorum

/-- **One call** on a consistent tracker. -/
theorem Consistent.call_iff (h : t.Consistent) {c : Observation} (h1 : 1 ≤ c.seq) :
    (∃ out, (t.call c).2 = .ok out) ∧ (t.call c).1.Consistent ↔ t.Parsable c := by
  unfold call
  rcases t.observe_cases c.received c.sender c.seq c.data c.quorum with
    ⟨ha, hobs⟩ | ⟨ha, hlt, hobs⟩ | ⟨ha, hge, hobs⟩
  · rw [hobs]
    exact ⟨fun _ hcompletes => absurd ha hcompletes.1, fun _ => ⟨⟨[], rfl⟩, h⟩⟩
  · rw [hobs]
    refine ⟨fun _ hcompletes => ?_, fun _ => ⟨⟨[], rfl⟩, h.count ha c.sender⟩⟩
    exact absurd hcompletes.2 (by omega)
  · obtain ⟨hiff, hsettle⟩ := (h.count ha c.sender).applyLocked h1 ha c.received c.data
    have hready : (t.hold c.seq c.data).Ready ↔ t.Parsable c :=
      ⟨fun hready _ => hready, fun hparsable => hparsable ⟨ha, hge⟩⟩
    have hiff' : (t.hold c.seq c.data).Ready ↔ _ := hiff
    rw [← hready, hiff']
    rcases hobs with ⟨t', e, happly, hobs⟩ | ⟨t', out, happly, hobs⟩
    · rw [hobs, happly]
      exact ⟨fun hc => hc.1, nofun⟩
    · rw [hobs, happly]
      rw [happly] at hsettle
      exact ⟨fun hc => hc.1, fun _ => ⟨⟨out, rfl⟩, hsettle out rfl⟩⟩

end LogTracker

/-- A tracker over any sequence of calls; an exception leaves it as it is at that moment. -/
def observing : Lts LogTracker Observation where
  init := .init
  step t c := if 1 ≤ c.seq then some (t.call c).1 else none

namespace LogTracker

/-- **Every call** of a run whose calls all met `Parsable` finds a consistent tracker, and returns
and leaves it consistent exactly when it meets `Parsable` itself. -/
theorem observe_returns_iff {t : LogTracker} (h : observing.ReachVia Parsable t) :
    t.Consistent ∧ ∀ c : Observation, 1 ≤ c.seq →
      ((∃ out, (t.call c).2 = .ok out) ∧ (t.call c).1.Consistent ↔ t.Parsable c) := by
  have hconsistent : t.Consistent := by
    refine h.invariant Consistent consistent_init ?_
    intro s c u _ hs hparsable hstep
    simp only [observing] at hstep
    split_ifs at hstep with h1
    cases hstep
    exact ((hs.call_iff h1).mpr hparsable).2
  exact ⟨hconsistent, fun c h1 => hconsistent.call_iff h1⟩

/-- A number of 20 digits and a bar. -/
def hugeTimestamp : Command := List.replicate 20 57 ++ [124]

/-- A call that completes its quorum at once. -/
def single (seq : ℕ) (data : List UInt8) : Observation := ⟨⟨0, 1, seq, data⟩, 1⟩

/-- The call that fills a gap in front of a held payload. -/
theorem observe_returns_gap : ∃ t : LogTracker, 2 ∈ t.outOfOrder ∧ ((∃ out,
    (t.call (single 1 [])).2 = .ok out) ∧ (t.call (single 1 [])).1.Consistent ↔
      t.Parsable (single 1 [])) := by
  have hgap : (init.hold 2 []).nextSeq ∉ (init.hold 2 []).outOfOrder := by
    rw [hold_outOfOrder, AList.mem_insert]
    rintro (heq | hmem)
    · cases heq
    · exact AList.notMem_empty _ hmem
  have hreach : observing.ReachVia Parsable _ :=
    .step (e := single 2 []) .init (fun _ => ready_of_notMem hgap) rfl
  exact ⟨_, by decide, (observe_returns_iff hreach).2 (single 1 []) (by decide)⟩

theorem observe_not_total : ¬ ∀ t : LogTracker, observing.Reach t → ∀ c : Observation, 1 ≤ c.seq →
    (∃ out, (t.call c).2 = .ok out) ∧ (t.call c).1.Consistent := by
  intro hall
  obtain ⟨⟨out, hout⟩, -⟩ := hall init .init
    (single 1 (CommandBatch.encode [hugeTimestamp])) (by decide)
  have hthrow : (init.call (single 1 (CommandBatch.encode [hugeTimestamp]))).2 =
      .error .outOfRange := by decide
  rw [hthrow] at hout
  cases hout

end LogTracker

end Ziplog
