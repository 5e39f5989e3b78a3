import Ziplog.Library.InitialRun
import Ziplog.Subscriber.LogTracker

/-!
# The log is the quorate prefix

What a tracker is for: a history of deliveries fixes, for each sequence number, the set of its
distinct senders; the numbers with at least `q` of them are quorate, and the log is the payloads of
the initial run of quorate numbers. `Tracks` relates the four structures of the tracker to the
history, `observe_tracks` keeps it across one call, and `observeAll_tracks` across any sequence of
calls.
-/

namespace Ziplog

/-- The arguments of one call of `observe`. -/
structure Delivery where
  received : ℕ
  sender : ℕ
  seq : ℕ
  data : List UInt8
  deriving DecidableEq

/-- The distinct senders of `s` in a history. -/
def sendersOf (calls : List Delivery) (s : ℕ) : Finset ℕ :=
  ((calls.filter fun c => c.seq = s).map Delivery.sender).toFinset

theorem mem_sendersOf {calls : List Delivery} {s : ℕ} {x : ℕ} :
    x ∈ sendersOf calls s ↔ ∃ c ∈ calls, c.seq = s ∧ c.sender = x := by
  simp [sendersOf, and_assoc]

theorem sendersOf_append (calls : List Delivery) (c : Delivery) :
    sendersOf (calls ++ [c]) =
      Function.update (sendersOf calls) c.seq (insert c.sender (sendersOf calls c.seq)) := by
  funext s
  ext x
  by_cases h : s = c.seq
  · subst h
    rw [Function.update_self, Finset.mem_insert, mem_sendersOf, mem_sendersOf]
    simp only [List.mem_append, List.mem_singleton]
    constructor
    · rintro ⟨d, hd | rfl, hs, hx⟩
      · exact Or.inr ⟨d, hd, hs, hx⟩
      · exact Or.inl hx.symm
    · rintro (rfl | ⟨d, hd, hs, hx⟩)
      · exact ⟨c, Or.inr rfl, rfl, rfl⟩
      · exact ⟨d, Or.inl hd, hs, hx⟩
  · rw [Function.update_of_ne h, mem_sendersOf, mem_sendersOf]
    simp only [List.mem_append, List.mem_singleton]
    constructor
    · rintro ⟨d, hd | rfl, hs, hx⟩
      · exact ⟨d, hd, hs, hx⟩
      · exact absurd hs.symm h
    · rintro ⟨d, hd, hs, hx⟩
      exact ⟨d, Or.inl hd, hs, hx⟩

/-- The log a history stands for: the placeholder and the payloads of the initial run of quorate
numbers. -/
noncomputable def quorateLog (q : ℕ) (P : ℕ → List UInt8) (calls : List Delivery) :
    List (List UInt8) :=
  [] :: (List.range' 1 (initialRun fun s => q ≤ (sendersOf calls s).card)).map P

/-! ## Payloads that parse -/

/-- No timestamp in front of a command of the entry overflows `std::stoull`. -/
def parses (data : List UInt8) : Bool :=
  (CommandBatch.deserialize data).all fun command => (commandLatency 0 command).isOk

theorem commandLatency_isOk (received received' : ℕ) (command : Command) :
    (commandLatency received command).isOk = (commandLatency received' command).isOk := by
  unfold commandLatency
  by_cases hbar : (124 : UInt8) ∈ command
  · rw [if_pos hbar, if_pos hbar]
    simp only
    split_ifs
    · cases stoull (command.takeWhile (· ≠ 124)) <;> rfl
    · rfl
  · rw [if_neg hbar, if_neg hbar]

theorem entryLatencies_ok {received : ℕ} {seq : ℕ} {commands : List Command}
    (h : ∀ command ∈ commands, (commandLatency 0 command).isOk = true)
    (toPrint : List (ℕ × Int64)) :
    ∃ out, entryLatencies received seq commands toPrint = .ok out := by
  induction commands generalizing toPrint with
  | nil => exact ⟨toPrint, rfl⟩
  | cons command commands ih =>
    rw [List.forall_mem_cons] at h
    have hok := h.1
    rw [commandLatency_isOk 0 received] at hok
    unfold entryLatencies
    cases hc : commandLatency received command with
    | error e => rw [hc] at hok; cases hok
    | ok latency =>
      cases latency with
      | none => exact ih h.2 toPrint
      | some latency => exact ih h.2 _

theorem parses_ok {data : List UInt8} (h : parses data = true) (received : ℕ)
    (seq : ℕ) (toPrint : List (ℕ × Int64)) :
    ∃ out, entryLatencies received seq (CommandBatch.deserialize data) toPrint = .ok out :=
  entryLatencies_ok (List.all_eq_true.mp h) toPrint

namespace LogTracker

/-- The tracker after a sequence of calls. -/
def observeAll (q : ℕ) (calls : List Delivery) : LogTracker :=
  calls.foldl (fun t c => (t.observe c.received c.sender c.seq c.data q).1) init

theorem observeAll_append (q : ℕ) (calls : List Delivery) (c : Delivery) :
    observeAll q (calls ++ [c]) =
      ((observeAll q calls).observe c.received c.sender c.seq c.data q).1 := by
  rw [observeAll, List.foldl_append]
  rfl

/-! ## The drain -/

/-- The log holds the payloads of `1, …, k`, and `outOfOrder` those of the later numbers in `Q`. -/
structure Holds (P : ℕ → List UInt8) (Q : ℕ → Prop) [DecidablePred Q]
    (t : LogTracker) (k : ℕ) : Prop where
  log : t.log = [] :: (List.range' 1 k).map P
  nextSeq : t.nextSeq = k + 1
  run : ∀ s, 1 ≤ s → s ≤ k → Q s
  held : ∀ s, t.outOfOrder.lookup s = if k < s ∧ Q s then some (P s) else none

variable {P : ℕ → List UInt8}

theorem Holds.commitNext {Q : ℕ → Prop} [DecidablePred Q] {t : LogTracker} {k : ℕ}
    (h : Holds P Q t k) (hQ : Q (k + 1)) : Holds P Q (t.commitNext (P (k + 1))) (k + 1) where
  log := by
    rw [commitNext_log, h.log, List.range'_1_concat, List.map_append, List.cons_append,
      Nat.add_comm 1 k]
    rfl
  nextSeq := by rw [commitNext_nextSeq, h.nextSeq]
  run := by
    intro s h1 hs
    rcases Nat.le_succ_iff.mp hs with hk | rfl
    · exact h.run s h1 hk
    · exact hQ
  held := by
    intro s
    rw [commitNext_outOfOrder, h.nextSeq]
    by_cases hs : s = k + 1
    · subst hs
      rw [AList.lookup_erase, if_neg fun hc => absurd hc.1 (lt_irrefl _)]
    · rw [AList.lookup_erase_ne hs, h.held s]
      congr 1
      rw [eq_iff_iff]
      constructor
      · rintro ⟨hk, hq⟩
        exact ⟨by omega, hq⟩
      · rintro ⟨hk, hq⟩
        exact ⟨by omega, hq⟩

theorem length_erase_entries {t : LogTracker} {s : ℕ} {d : List UInt8}
    (h : t.outOfOrder.lookup s = some d) :
    (t.outOfOrder.erase s).entries.length + 1 = t.outOfOrder.entries.length := by
  have hmem : s ∈ t.outOfOrder.keys :=
    AList.mem_keys.mp (AList.lookup_isSome.mp (by rw [h]; rfl))
  have hkeys (l : AList fun _ : ℕ => List UInt8) :
      l.entries.length = l.keys.length := (List.length_map _).symm
  have hpos := List.length_pos_of_mem hmem
  rw [hkeys, hkeys, AList.keys_erase, List.length_erase_of_mem hmem]
  omega

/-- **The drain runs to the first gap**, and it does not throw when the payloads parse. -/
theorem drainLoop_holds {Q : ℕ → Prop} [DecidablePred Q]
    (hP : ∀ s, 1 ≤ s → parses (P s) = true) {received : ℕ} {fuel : ℕ} {t : LogTracker}
    {k : ℕ} (h : Holds P Q t k) (hfuel : t.outOfOrder.entries.length ≤ fuel)
    (toPrint : List (ℕ × Int64)) :
    ∃ t' k' out, drainLoop received fuel t toPrint = (t', .ok out) ∧ Holds P Q t' k' ∧
      ¬ Q (k' + 1) ∧ t'.pendingQuorum = t.pendingQuorum ∧ t'.applied = t.applied := by
  induction fuel generalizing t k toPrint with
  | zero =>
    have hnil : t.outOfOrder.entries = [] := List.length_eq_zero_iff.mp (Nat.le_zero.mp hfuel)
    have hnone : t.outOfOrder.lookup (k + 1) = none := by
      rw [AList.lookup, hnil]
      rfl
    rw [h.held (k + 1)] at hnone
    refine ⟨t, k, toPrint, rfl, h, ?_, rfl, rfl⟩
    intro hq
    rw [if_pos ⟨by omega, hq⟩] at hnone
    cases hnone
  | succ fuel ih =>
    unfold drainLoop
    by_cases hq : Q (k + 1)
    · have hl : t.outOfOrder.lookup t.nextSeq = some (P (k + 1)) := by
        rw [h.nextSeq, h.held, if_pos ⟨Nat.lt_succ_self k, hq⟩]
      obtain ⟨out, hout⟩ := parses_ok (hP (k + 1) (Nat.le_add_left 1 k)) received t.nextSeq toPrint
      have hlen := length_erase_entries hl
      have hcommit : (t.commitNext (P (k + 1))).outOfOrder.entries.length ≤ fuel := by
        rw [commitNext_outOfOrder]
        omega
      simp only [hl, hout]
      exact ih (h.commitNext hq) hcommit out
    · have hl : t.outOfOrder.lookup t.nextSeq = none := by
        rw [h.nextSeq, h.held, if_neg fun hc => hq hc.2]
      simp only [hl]
      exact ⟨t, k, toPrint, rfl, h, hq, rfl, rfl⟩

/-! ## The relation to the history -/

/-- The tracker after a history in which `S s` are the senders of `s`, all with payload `P s`. -/
structure Tracks (q : ℕ) (P : ℕ → List UInt8) (S : ℕ → Finset ℕ)
    (t : LogTracker) (k : ℕ) : Prop extends Holds P (fun s => q ≤ (S s).card) t k where
  stop : ¬ q ≤ (S (k + 1)).card
  applied : ∀ s, s ∈ t.applied ↔ q ≤ (S s).card
  counted : ∀ s, t.senders s = if q ≤ (S s).card then ∅ else S s

theorem tracks_init {q : ℕ} (hq : 1 ≤ q) : Tracks q P (fun _ => ∅) init 0 where
  log := rfl
  nextSeq := rfl
  run := by intro s h1 h0; omega
  held := by
    intro s
    rw [if_neg (by rw [Finset.card_empty]; omega)]
    rfl
  stop := by rw [Finset.card_empty]; omega
  applied := by
    intro s
    rw [Finset.card_empty]
    exact ⟨fun h => absurd h (Finset.notMem_empty s), fun h => by omega⟩
  counted := by
    intro s
    rw [ite_self]
    rfl

variable {q : ℕ} {S : ℕ → Finset ℕ} {t : LogTracker} {k : ℕ}

/-- A number not yet applied lies behind the log. -/
theorem Tracks.lt_of_notMem (h : Tracks q P S t k) {s : ℕ} (h1 : 1 ≤ s)
    (hs : s ∉ t.applied) : k < s := by
  by_contra hk
  exact hs ((h.applied s).mpr (h.run s h1 (by omega)))

/-- The payloads of numbers that no quorum has reported do not matter. -/
theorem Tracks.congr (h : Tracks q P S t k) {P' : ℕ → List UInt8}
    (hP' : ∀ s, q ≤ (S s).card → P' s = P s) : Tracks q P' S t k where
  log := by
    rw [h.log]
    congr 1
    apply List.map_congr_left
    intro s hs
    obtain ⟨h1, hk⟩ := List.mem_range'_1.mp hs
    exact (hP' s (h.run s h1 (by omega))).symm
  nextSeq := h.nextSeq
  run := h.run
  held := by
    intro s
    rw [h.held s]
    split_ifs with hs
    · rw [hP' s hs.2]
    · rfl
  stop := h.stop
  applied := h.applied
  counted := h.counted

/-- Adding a sender to a number keeps the relation when it changes no quorum. -/
theorem Tracks.update (h : Tracks q P S t k) {t' : LogTracker} {s : ℕ}
    {X : Finset ℕ} (hX : q ≤ X.card ↔ q ≤ (S s).card) (hlog : t'.log = t.log)
    (hnext : t'.nextSeq = t.nextSeq) (hheld : t'.outOfOrder = t.outOfOrder)
    (happ : t'.applied = t.applied)
    (hcount : ∀ r, t'.senders r = if q ≤ (Function.update S s X r).card then ∅
      else Function.update S s X r) :
    Tracks q P (Function.update S s X) t' k := by
  have hiff : ∀ r, q ≤ (Function.update S s X r).card ↔ q ≤ (S r).card := by
    intro r
    by_cases hr : r = s
    · rw [hr, Function.update_self, hX]
    · rw [Function.update_of_ne hr]
  exact
    { log := by rw [hlog, h.log]
      nextSeq := by rw [hnext, h.nextSeq]
      run := fun r h1 hr => (hiff r).mpr (h.run r h1 hr)
      held := by
        intro r
        rw [hheld, h.held r]
        simp only [hiff]
      stop := fun hc => h.stop ((hiff _).mp hc)
      applied := fun r => by rw [happ, h.applied r, hiff]
      counted := hcount }

/-- Which numbers are quorate once the senders of `s` are. -/
theorem quorate_update_iff {X : Finset ℕ} {s : ℕ} (hX : q ≤ X.card) (r : ℕ) :
    q ≤ (Function.update S s X r).card ↔ r = s ∨ q ≤ (S r).card := by
  by_cases hr : r = s
  · rw [hr, Function.update_self]
    exact ⟨fun _ => Or.inl rfl, fun _ => hX⟩
  · rw [Function.update_of_ne hr]
    exact ⟨Or.inr, fun hc => hc.resolve_left hr⟩

/-- Below the quorum one more sender is counted. -/
theorem Tracks.count (h : Tracks q P S t k) {x s : ℕ} (hs : s ∉ t.applied)
    (hlt : (insert x (t.senders s)).card < q) :
    Tracks q P (Function.update S s (insert x (S s))) (t.count x s) k := by
  have hnq : ¬ q ≤ (S s).card := fun hq => hs ((h.applied s).mpr hq)
  have hsend : t.senders s = S s := by rw [h.counted s, if_neg hnq]
  rw [hsend] at hlt
  refine h.update ⟨fun hq => absurd hq (by omega), fun hq => absurd hq hnq⟩ rfl rfl rfl rfl ?_
  intro r
  rw [senders_count]
  by_cases hr : r = s
  · rw [if_pos hr, hr, Function.update_self, if_neg (by omega), hsend]
  · rw [if_neg hr, Function.update_of_ne hr, h.counted r]

/-- At the quorum the payload is held. -/
theorem Tracks.hold (h : Tracks q P S t k) {X : Finset ℕ} {x s : ℕ} (hks : k < s)
    (hX : q ≤ X.card) : Holds P (fun r => q ≤ (Function.update S s X r).card)
      ((t.count x s).hold s (P s)) k where
  log := by rw [hold_log, count_log, h.log]
  nextSeq := by rw [hold_nextSeq, count_nextSeq, h.nextSeq]
  run := fun r hr1 hrk => (quorate_update_iff hX r).mpr (Or.inr (h.run r hr1 hrk))
  held := by
    intro r
    rw [hold_outOfOrder, count_outOfOrder]
    by_cases hr : r = s
    · subst hr
      rw [AList.lookup_insert, if_pos ⟨hks, (quorate_update_iff hX r).mpr (Or.inl rfl)⟩]
    · rw [AList.lookup_insert_ne hr, h.held r]
      simp only [quorate_update_iff hX, hr, false_or]

/-- **One call.** A delivery of `P s` by `x` takes the tracker to the one of the longer history,
and returns. -/
theorem observe_tracks (hP : ∀ s, 1 ≤ s → parses (P s) = true) (h : Tracks q P S t k)
    (received : ℕ) (x : ℕ) {s : ℕ} (h1 : 1 ≤ s) :
    ∃ k' t' out, t.observe received x s (P s) q = (t', .ok out) ∧
      Tracks q P (Function.update S s (insert x (S s))) t' k' := by
  rcases t.observe_cases received x s (P s) q with ⟨ha, hobs⟩ | ⟨ha, hlt, hobs⟩ | ⟨ha, hge, hobs⟩
  · -- already applied: the number stays quorate
    have hq : q ≤ (S s).card := (h.applied s).mp ha
    have hq' : q ≤ (insert x (S s)).card :=
      hq.trans (Finset.card_le_card (Finset.subset_insert _ _))
    refine ⟨k, t, [], hobs, h.update ⟨fun _ => hq, fun _ => hq'⟩ rfl rfl rfl rfl ?_⟩
    intro r
    by_cases hr : r = s
    · rw [hr, Function.update_self, if_pos hq', h.counted s, if_pos hq]
    · rw [Function.update_of_ne hr, h.counted r]
  · exact ⟨k, _, [], hobs, h.count ha hlt⟩
  · -- the quorum is complete: the payload is held and the log drained
    have hnq : ¬ q ≤ (S s).card := fun hq => ha ((h.applied s).mpr hq)
    have hsend : t.senders s = S s := by rw [h.counted s, if_neg hnq]
    rw [hsend] at hge
    have hQ := @quorate_update_iff q S _ s hge
    obtain ⟨t', k', out, hdrain, hholds, hstop, hpend, happ⟩ :=
      @drainLoop_holds _ _ _ hP received _ _ _ (h.hold (h.lt_of_notMem h1 ha) hge) le_rfl []
    have hobs' : t.observe received x s (P s) q = (t'.settle s, .ok out) := by
      have happly : (t.count x s).applyLocked received s (P s) = (t', .ok out) := hdrain
      rcases hobs with ⟨t₂, e, heq, -⟩ | ⟨t₂, out₂, heq, hobs⟩
      · rw [happly] at heq
        cases heq
      · rw [happly] at heq
        cases heq
        exact hobs
    refine ⟨k', t'.settle s, out, hobs',
      { hholds with stop := hstop, applied := ?_, counted := ?_ }⟩
    · intro r
      rw [settle_applied, happ, hold_applied, count_applied, Finset.mem_insert, h.applied r, hQ]
    · intro r
      have hsenders : t'.senders r = (t.count x s).senders r := by
        unfold senders
        rw [hpend, hold_pendingQuorum]
      rw [senders_settle, hsenders, senders_count]
      by_cases hr : r = s
      · rw [if_pos hr, if_pos ((hQ r).mpr (Or.inl hr))]
      · rw [if_neg hr, if_neg hr, h.counted r, Function.update_of_ne hr]

/-- **A run of calls.** -/
theorem observeAll_tracks (hq : 1 ≤ q) (hP : ∀ s, 1 ≤ s → parses (P s) = true)
    {calls : List Delivery} (hcalls : ∀ c ∈ calls, 1 ≤ c.seq ∧ c.data = P c.seq) :
    ∃ k, Tracks q P (sendersOf calls) (observeAll q calls) k := by
  induction calls using List.reverseRecOn with
  | nil => exact ⟨0, tracks_init hq⟩
  | append_singleton calls c ih =>
    obtain ⟨k, hk⟩ := ih fun d hd => hcalls d (List.mem_append_left _ hd)
    obtain ⟨h1, hdata⟩ := hcalls c (List.mem_append_right _ (List.mem_singleton_self c))
    obtain ⟨k', t', out, hobs, htracks⟩ := observe_tracks hP hk c.received c.sender h1
    refine ⟨k', ?_⟩
    rwa [observeAll_append, sendersOf_append, hdata, hobs]

/-- **Refinement.** The log a tracker holds is the one its history stands for. -/
theorem raw_eq_quorateLog (hq : 1 ≤ q) (hP : ∀ s, 1 ≤ s → parses (P s) = true)
    {calls : List Delivery} (hcalls : ∀ c ∈ calls, 1 ≤ c.seq ∧ c.data = P c.seq) :
    (observeAll q calls).raw = quorateLog q P calls := by
  obtain ⟨k, hk⟩ := observeAll_tracks hq hP hcalls
  rw [raw, hk.log, quorateLog, initialRun_eq hk.run hk.stop]

/-- The log depends on the history only through the senders of each number. -/
theorem raw_congr (hq : 1 ≤ q) (hP : ∀ s, 1 ≤ s → parses (P s) = true)
    {calls calls' : List Delivery}
    (hcalls : ∀ c ∈ calls, 1 ≤ c.seq ∧ c.data = P c.seq)
    (hcalls' : ∀ c ∈ calls', 1 ≤ c.seq ∧ c.data = P c.seq)
    (hsame : ∀ s x, x ∈ sendersOf calls' s ↔ x ∈ sendersOf calls s) :
    (observeAll q calls').raw = (observeAll q calls).raw := by
  have hsenders : sendersOf calls' = sendersOf calls := funext fun s => Finset.ext (hsame s)
  rw [raw_eq_quorateLog hq hP hcalls', raw_eq_quorateLog hq hP hcalls, quorateLog, quorateLog,
    hsenders]

/-- **The log is the quorate prefix, whatever the order of the deliveries.** After any calls that
deliver `P seq` under each number, the log is the placeholder followed by the payloads of the
longest run `1, …, k` of numbers with at least `q` distinct senders, the applied numbers are exactly
those with `q` senders, and no call throws. Reordering the calls or repeating one leaves the log as
it is. -/
theorem raw_of_calls (q : ℕ) (hq : 1 ≤ q) (P : ℕ → List UInt8)
    (hP : ∀ s, 1 ≤ s → parses (P s) = true) (calls : List Delivery)
    (hcalls : ∀ c ∈ calls, 1 ≤ c.seq ∧ c.data = P c.seq) :
    (∃ k, (∀ m, m ≤ k ↔ ∀ s, 1 ≤ s → s ≤ m → q ≤ (sendersOf calls s).card) ∧
      (observeAll q calls).raw = [] :: (List.range' 1 k).map P ∧
      (observeAll q calls).nextSeq = k + 1 ∧ (observeAll q calls).size = k + 1) ∧
    (∀ s, s ∈ (observeAll q calls).applied ↔ q ≤ (sendersOf calls s).card) ∧
    (∀ earlier c later, calls = earlier ++ c :: later →
      ∃ out, ((observeAll q earlier).observe c.received c.sender c.seq c.data q).2 = .ok out) ∧
    (∀ calls', calls'.Perm calls → (observeAll q calls').raw = (observeAll q calls).raw) ∧
    (∀ c ∈ calls, ∀ earlier later received, calls = earlier ++ later →
      (observeAll q (earlier ++ { c with received := received } :: later)).raw =
        (observeAll q calls).raw) := by
  obtain ⟨k, hk⟩ := observeAll_tracks hq hP hcalls
  refine ⟨⟨k, ?_, hk.log, hk.nextSeq, ?_⟩, hk.applied, ?_, ?_, ?_⟩
  · intro m
    rw [← le_initialRun_iff hk.run hk.stop, initialRun_eq hk.run hk.stop]
  · rw [size, hk.log, List.length_cons, List.length_map, List.length_range']
  · intro earlier c later heq
    have hsub : ∀ d ∈ earlier, d ∈ calls := fun d hd => by
      rw [heq]
      exact List.mem_append_left _ hd
    obtain ⟨h1, hdata⟩ := hcalls c (by
      rw [heq]
      exact List.mem_append_right _ List.mem_cons_self)
    obtain ⟨k', hk'⟩ := observeAll_tracks hq hP fun d hd => hcalls d (hsub d hd)
    obtain ⟨_, _, out, hobs, -⟩ := observe_tracks hP hk' c.received c.sender h1
    exact ⟨out, by rw [hdata, hobs]⟩
  · intro calls' hperm
    refine raw_congr hq hP hcalls (fun c hc => hcalls c (hperm.mem_iff.mp hc)) fun s x => ?_
    rw [mem_sendersOf, mem_sendersOf]
    simp only [hperm.mem_iff]
  · intro c hc earlier later received heq
    have hmem : ∀ d, d ∈ earlier ++ { c with received := received } :: later ↔
        d = { c with received := received } ∨ d ∈ calls := by
      intro d
      rw [heq, List.mem_append, List.mem_append, List.mem_cons]
      tauto
    refine raw_congr hq hP hcalls ?_ ?_
    · intro d hd
      rcases (hmem d).mp hd with rfl | hd
      · exact hcalls c hc
      · exact hcalls d hd
    · intro s x
      rw [mem_sendersOf, mem_sendersOf]
      constructor
      · rintro ⟨d, hd, hs, hx⟩
        rcases (hmem d).mp hd with rfl | hd
        · exact ⟨c, hc, hs, hx⟩
        · exact ⟨d, hd, hs, hx⟩
      · rintro ⟨d, hd, hs, hx⟩
        exact ⟨d, (hmem d).mpr (Or.inr hd), hs, hx⟩

/-- Two senders, the second number delivered first. -/
theorem raw_of_calls_two_senders :
    (observeAll 2 [⟨0, 7, 2, []⟩, ⟨0, 8, 2, []⟩, ⟨0, 8, 1, [0, 0, 0, 1, 65]⟩,
      ⟨0, 7, 1, [0, 0, 0, 1, 65]⟩]).raw = [[], [0, 0, 0, 1, 65], []] ∧
    ∀ s, s ∈ (observeAll 2 [⟨0, 7, 2, []⟩, ⟨0, 8, 2, []⟩, ⟨0, 8, 1, [0, 0, 0, 1, 65]⟩,
      ⟨0, 7, 1, [0, 0, 0, 1, 65]⟩]).applied ↔
      2 ≤ (sendersOf [⟨0, 7, 2, []⟩, ⟨0, 8, 2, []⟩, ⟨0, 8, 1, [0, 0, 0, 1, 65]⟩,
        ⟨0, 7, 1, [0, 0, 0, 1, 65]⟩] s).card := by
  refine ⟨by decide, (raw_of_calls 2 (by decide) (fun s => if s = 1 then [0, 0, 0, 1, 65] else [])
    ?_ _ (by decide)).2.1⟩
  intro s _
  show parses (if s = 1 then [0, 0, 0, 1, 65] else []) = true
  split_ifs <;> decide

end LogTracker

end Ziplog
