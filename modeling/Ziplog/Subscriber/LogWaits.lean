import Ziplog.Library.CondVar
import Ziplog.Subscriber.Bookkeeping

/-!
# Waiting for the log

`wait_for_size` and `wait_for_seq` block until the log has an entry with a given number. The
connection threads of the subscriber call `observe`, which notifies all waiting threads behind the
loop of `apply_locked` and nobody where that is not called. An exception in `observe` leaves its
thread and ends the process before it notifies anyone.

Each event is what one thread does from taking the mutex to giving it back; threads may also wake
up by themselves. A call waits exactly until a quorum of senders has reported each number up to its
own (`waits_exact`): none sleeps any longer, and none returns before. The senders need not agree on
the payload of a number; the entry is what the call that completes the quorum has brought.
-/

namespace Ziplog

/-- What a blocking call waits for: `wait_for_size(count)` or `wait_for_seq(seq)`. -/
inductive LogWait
  | forSize (count : ℕ)
  | forSeq (seq : ℕ)
  deriving DecidableEq

namespace LogWait

/-- The predicate of the call's `wait`. -/
def holds (t : LogTracker) : LogWait → Bool
  | forSize count => decide (count < t.size)
  | forSeq seq => decide (seq < t.nextSeq)

/-- The number of the entry that the call waits for. -/
def number : LogWait → ℕ
  | forSize count => count
  | forSeq seq => seq

/-- A quorum of senders has reported each number up to that of the call. -/
def Reported (w : LogWait) (q : ℕ) (calls : List Delivery) : Prop :=
  ∀ k, 1 ≤ k → k ≤ w.number → q ≤ (sendersOf calls k).card

end LogWait

/-- The tracker with the threads in its blocking calls. The lists are the calls of `observe`, and
the blocking calls that were made and that have returned. -/
structure LogMonitor (ι : Type) where
  tracker : LogTracker
  cv : CondVar ι LogWait
  calls : List Delivery
  waits : List (ι × LogWait)
  returned : List (ι × LogWait)
  terminated : Bool

/-- One thread's turn with the mutex. -/
inductive LogEvent (ι : Type)
  | observe (call : Delivery)
  /-- A blocking call up to its return, or to its first `wait`. -/
  | wait (i : ι) (w : LogWait)
  /-- A woken thread tests the predicate of its `wait` again. -/
  | resume (i : ι)
  /-- A thread leaves `wait` without being notified. -/
  | wakeUp (i : ι)

namespace LogMonitor

variable {ι : Type}

def init : LogMonitor ι := ⟨.init, .empty, [], [], [], false⟩

/-- Thread `i` has the mutex in its blocking call: it returns, or sleeps. -/
def attempt (m : LogMonitor ι) (i : ι) (w : LogWait) : LogMonitor ι :=
  if w.holds m.tracker then { m with returned := m.returned ++ [(i, w)] }
  else { m with cv := m.cv.wait i w }

/-- `observe` by a connection thread. -/
def observe (quorum : ℕ) (m : LogMonitor ι) (call : Delivery) : LogMonitor ι :=
  let m' := { m with
    tracker := (m.tracker.observe call.received call.sender call.seq call.data quorum).1
    calls := m.calls ++ [call] }
  match (m.tracker.observe call.received call.sender call.seq call.data quorum).2 with
  | .error _ => { m' with terminated := true }
  | .ok _ =>
    if call.seq ∉ m.tracker.applied ∧
        quorum ≤ (insert call.sender (m.tracker.senders call.seq)).card then
      -- `apply_locked` has returned
      { m' with cv := m.cv.notifyAll }
    else m'

variable [DecidableEq ι]

def step (quorum : ℕ) (m : LogMonitor ι) (e : LogEvent ι) : Option (LogMonitor ι) :=
  if m.terminated then none
  else match e with
  | .observe call => some (m.observe quorum call)
  | .wait i w =>
    if m.cv.Waiting i then none
    else some ({ m with waits := m.waits ++ [(i, w)] }.attempt i w)
  | .resume i => (m.cv.resume i).map fun (w, cv) => { m with cv := cv }.attempt i w
  | .wakeUp i => (m.cv.wake i).map fun cv => { m with cv := cv }

/-- `observe` is called with a number from 1 on and a payload that parses. -/
def Delivers (_ : LogMonitor ι) : LogEvent ι → Prop
  | .observe call => 1 ≤ call.seq ∧ parses call.data = true
  | _ => True

end LogMonitor

def logMonitor (ι : Type) [DecidableEq ι] (quorum : ℕ) : Lts (LogMonitor ι) (LogEvent ι) :=
  ⟨.init, LogMonitor.step quorum⟩

/-! ## The predicate of a wait -/

namespace LogWait

variable {q k : ℕ} {P : ℕ → List UInt8} {calls : List Delivery} {t : LogTracker}

/-- Both predicates say that the log reaches the number. -/
theorem holds_iff (h : t.Tracks q P (sendersOf calls) k) (w : LogWait) :
    w.holds t = true ↔ w.number ≤ k := by
  cases w with
  | forSize count =>
    show decide (count < t.log.length) = true ↔ count ≤ k
    rw [decide_eq_true_iff, h.log, List.length_cons, List.length_map, List.length_range']
    omega
  | forSeq seq =>
    show decide (seq < t.nextSeq) = true ↔ seq ≤ k
    rw [decide_eq_true_iff, h.nextSeq]
    omega

theorem holds_iff_reported (h : t.Tracks q P (sendersOf calls) k) (w : LogWait) :
    w.holds t = true ↔ w.Reported q calls := by
  rw [holds_iff h, ← initialRun_eq h.run h.stop]
  exact le_initialRun_iff h.run h.stop

/-- Senders only join. -/
theorem Reported.append {w : LogWait} (h : w.Reported q calls) (c : Delivery) :
    w.Reported q (calls ++ [c]) := by
  intro i h1 hi
  refine (h i h1 hi).trans (Finset.card_le_card ?_)
  intro x hx
  obtain ⟨d, hd, hseq, hsender⟩ := mem_sendersOf.mp hx
  exact mem_sendersOf.mpr ⟨d, List.mem_append_left _ hd, hseq, hsender⟩

end LogWait

/-! ## Payloads that differ -/

/-- The call that completes the quorum of a number has this payload. -/
def Completes (q : ℕ) (calls : List Delivery) (seq : ℕ) (data : List UInt8) : Prop :=
  ∃ earlier c later, calls = earlier ++ c :: later ∧ c.seq = seq ∧ c.data = data ∧
    (sendersOf earlier seq).card < q ∧ q ≤ (sendersOf (earlier ++ [c]) seq).card

/-- The tracker has kept a payload for each number that a quorum has reported, as `P` has it. -/
structure Follows (q : ℕ) (calls : List Delivery) (P : ℕ → List UInt8) (t : LogTracker) (k : ℕ) :
    Prop extends t.Tracks q P (sendersOf calls) k where
  parse : ∀ s, 1 ≤ s → parses (P s) = true
  complete : ∀ s, q ≤ (sendersOf calls s).card → Completes q calls s (P s)

section Follows

variable {q k : ℕ} {P : ℕ → List UInt8} {calls : List Delivery} {t : LogTracker}

theorem Completes.append {seq : ℕ} {data : List UInt8} (h : Completes q calls seq data)
    (c : Delivery) : Completes q (calls ++ [c]) seq data := by
  obtain ⟨earlier, d, later, rfl, hd⟩ := h
  exact ⟨earlier, d, later ++ [c], by rw [List.append_assoc, List.cons_append], hd⟩

theorem follows_init (hq : 1 ≤ q) : Follows q [] (fun _ => []) .init 0 where
  toTracks := LogTracker.tracks_init hq
  parse := fun _ _ => by decide
  complete := by
    intro s hs
    exact absurd (hs.trans_eq Finset.card_empty) (by omega)

/-- Where no quorum has reported the number of a call yet, its payload may be any. -/
theorem Follows.withPayload (h : Follows q calls P t k) {c : Delivery}
    (hparses : parses c.data = true) :
    ∃ P', t.Tracks q P' (sendersOf calls) k ∧ (∀ s, 1 ≤ s → parses (P' s) = true) ∧
      (∀ s, q ≤ (sendersOf calls s).card → Completes q calls s (P' s)) ∧
      (c.seq ∉ t.applied → P' c.seq = c.data) := by
  by_cases hc : c.seq ∈ t.applied
  · exact ⟨P, h.toTracks, h.parse, h.complete, absurd hc⟩
  have hne : ∀ s, q ≤ (sendersOf calls s).card → s ≠ c.seq := by
    rintro s hs rfl
    exact hc ((h.applied _).mpr hs)
  refine ⟨Function.update P c.seq c.data, ?_, fun s h1 => ?_, fun s hs => ?_, fun _ => ?_⟩
  · exact h.toTracks.congr fun s hs => Function.update_of_ne (hne s hs) _ _
  · by_cases hs : s = c.seq
    · rwa [hs, Function.update_self]
    · rw [Function.update_of_ne hs]
      exact h.parse s h1
  · rw [Function.update_of_ne (hne s hs)]
    exact h.complete s hs
  · exact Function.update_self _ _ _

/-- What an applied number is delivered with does not matter. -/
theorem observe_of_applied {c : Delivery} (hc : c.seq ∈ t.applied) (data : List UInt8) :
    t.observe c.received c.sender c.seq c.data q = t.observe c.received c.sender c.seq data q := by
  unfold LogTracker.observe
  rw [if_pos hc, if_pos hc]

/-- **One call.** -/
theorem Follows.observe (h : Follows q calls P t k) {c : Delivery} (h1 : 1 ≤ c.seq)
    (hparses : parses c.data = true) :
    ∃ P' k' t' out, t.observe c.received c.sender c.seq c.data q = (t', .ok out) ∧
      Follows q (calls ++ [c]) P' t' k' := by
  obtain ⟨P', htracks, hparse, hcomplete, hnew⟩ := h.withPayload hparses
  obtain ⟨k', t', out, hobs, hk'⟩ := LogTracker.observe_tracks hparse htracks c.received c.sender h1
  rw [← sendersOf_append] at hk'
  refine ⟨P', k', t', out, ?_, { hk' with parse := hparse, complete := fun s hs => ?_ }⟩
  · by_cases hc : c.seq ∈ t.applied
    · rw [observe_of_applied hc (P' c.seq), hobs]
    · rw [← hnew hc, hobs]
  · by_cases hold : q ≤ (sendersOf calls s).card
    · exact (hcomplete s hold).append c
    · -- only the senders of the call's number have changed
      have hseq : s = c.seq := by
        by_contra hne
        rw [sendersOf_append, Function.update_of_ne hne] at hs
        exact hold hs
      subst hseq
      have hpayload := hnew fun hc => hold ((h.applied _).mp hc)
      exact ⟨calls, c, [], rfl, rfl, hpayload.symm, by omega, hs⟩

end Follows

/-! ## The invariant -/

namespace LogMonitor

variable {ι : Type} {q : ℕ} {m m' : LogMonitor ι}

structure Sound (q : ℕ) (m : LogMonitor ι) : Prop where
  running : m.terminated = false
  follows : ∃ P k, Follows q m.calls P m.tracker k
  none : m.cv.NoneMissed fun _ w => w.holds m.tracker
  distinct : m.cv.Distinct
  account : (m.returned ++ m.cv.waiters).Perm m.waits
  returned : ∀ i w, (i, w) ∈ m.returned → w.Reported q m.calls

theorem sound_init (hq : 1 ≤ q) : Sound q (init : LogMonitor ι) where
  running := rfl
  follows := ⟨_, 0, follows_init hq⟩
  none := fun _ _ hw => nomatch hw
  distinct := List.nodup_nil
  account := .nil
  returned := fun _ _ hw => nomatch hw

/-- **The blocking call** of a thread that is not in `wait`. -/
theorem Sound.attempt {i : ι} {w : LogWait} {waits : List (ι × LogWait)} (h : Sound q m)
    (hi : ¬ m.cv.Waiting i) (haccount : ((i, w) :: m.waits).Perm waits) :
    Sound q ({ m with waits := waits }.attempt i w) := by
  obtain ⟨P, k, hk⟩ := h.follows
  unfold LogMonitor.attempt
  split_ifs with hw
  · refine { h with account := ?_, returned := ?_ }
    · show ((m.returned ++ [(i, w)]) ++ m.cv.waiters).Perm waits
      rw [List.append_assoc, List.singleton_append]
      exact List.perm_middle.trans ((h.account.cons _).trans haccount)
    · intro j v hv
      rcases List.mem_append.mp hv with hv | hv
      · exact h.returned j v hv
      · cases List.mem_singleton.mp hv
        exact (LogWait.holds_iff_reported hk.toTracks w).mp hw
  · refine { h with none := h.none.wait hw, distinct := h.distinct.wait hi w, account := ?_ }
    show (m.returned ++ (m.cv.wait i w).waiters).Perm waits
    have hwait := (m.cv.waiters_wait i w).append_left m.returned
    exact hwait.trans (List.perm_middle.trans ((h.account.cons _).trans haccount))

/-- A call of `observe` that completes no quorum changes no predicate. -/
theorem holds_of_not_applied {t : LogTracker} {c : Delivery}
    (h : ¬ (c.seq ∉ t.applied ∧ q ≤ (insert c.sender (t.senders c.seq)).card)) (w : LogWait) :
    w.holds (t.observe c.received c.sender c.seq c.data q).1 = w.holds t := by
  rcases t.observe_cases c.received c.sender c.seq c.data q with
    ⟨-, hobs⟩ | ⟨-, -, hobs⟩ | ⟨ha, hge, -⟩
  · rw [hobs]
  · rw [hobs]
    cases w <;> rfl
  · exact absurd ⟨ha, hge⟩ h

theorem Sound.observe (h : Sound q m) {c : Delivery} (h1 : 1 ≤ c.seq)
    (hparses : parses c.data = true) : Sound q (m.observe q c) := by
  obtain ⟨P, k, hk⟩ := h.follows
  obtain ⟨P', k', t', out, hobs, hk'⟩ := hk.observe h1 hparses
  have hreturned : ∀ i w, (i, w) ∈ m.returned → w.Reported q (m.calls ++ [c]) :=
    fun i w hw => (h.returned i w hw).append c
  unfold LogMonitor.observe
  rw [hobs]
  dsimp only
  split_ifs with happlied
  · exact
      { running := h.running
        follows := ⟨P', k', hk'⟩
        none := m.cv.noneMissed_notifyAll
        distinct := h.distinct.perm m.cv.waiters_notifyAll
        account := (m.cv.waiters_notifyAll.append_left m.returned).trans h.account
        returned := hreturned }
  · have hsame := holds_of_not_applied happlied
    rw [hobs] at hsame
    refine { h with follows := ⟨P', k', hk'⟩, none := h.none.mono ?_, returned := hreturned }
    intro _ w hw
    rwa [← hsame w]

variable [DecidableEq ι]

/-- **One step.** -/
theorem Sound.step (h : Sound q m) {e : LogEvent ι} (he : m.Delivers e)
    (hs : m.step q e = some m') : Sound q m' := by
  unfold LogMonitor.step at hs
  rw [if_neg (by simp [h.running])] at hs
  cases e with
  | observe c =>
    cases hs
    exact h.observe he.1 he.2
  | wait i w =>
    dsimp only at hs
    split_ifs at hs with hi
    cases hs
    exact h.attempt hi (List.perm_append_singleton _ _).symm
  | resume i =>
    obtain ⟨⟨w, cv⟩, hcv, rfl⟩ := Option.map_eq_some_iff.mp hs
    obtain ⟨hdistinct, hi⟩ := h.distinct.resume hcv
    have hout : Sound q { m with cv := cv, waits := m.returned ++ cv.waiters } :=
      { h with none := h.none.resume hcv, distinct := hdistinct, account := .refl _ }
    refine @Sound.attempt _ _ _ _ w m.waits hout hi ?_
    have hback := (CondVar.waiters_resume hcv).append_left m.returned
    exact List.perm_middle.symm.trans (hback.trans h.account)
  | wakeUp i =>
    obtain ⟨cv, hcv, rfl⟩ := Option.map_eq_some_iff.mp hs
    have hwaiters := CondVar.waiters_wake hcv
    exact { h with
      none := h.none.wake hcv
      distinct := h.distinct.perm hwaiters
      account := (hwaiters.append_left m.returned).trans h.account }

theorem sound_of_reach (hq : 1 ≤ q) (h : (logMonitor ι q).ReachVia Delivers m) : Sound q m :=
  h.invariant (Sound q) (sound_init hq) fun _ _ _ _ hsound hg hs => hsound.step hg hs

/-- **Blocking calls return when they should.** In every run in which `observe` is called with
numbers from 1 on and payloads that parse, whatever the order of the threads and whichever wake up
by themselves, each blocking call has returned or is still in `wait`. Those that are asleep wait for
a number, not above their own, that no quorum has reported. Those that have returned found every
number up to their own reported and in the log, with the payload that completed its quorum. A woken
thread returns with its next turn exactly when its numbers are reported. -/
theorem waits_exact (hq : 1 ≤ q) (h : (logMonitor ι q).ReachVia Delivers m) :
    (m.returned ++ m.cv.waiters).Perm m.waits ∧
    (∀ i w, (i, w) ∈ m.cv.asleep → ¬ w.Reported q m.calls) ∧
    (∀ i w, (i, w) ∈ m.returned → w.Reported q m.calls ∧
      ∀ k, 1 ≤ k → k ≤ w.number →
        ∃ data, m.tracker.log[k]? = some data ∧ Completes q m.calls k data) ∧
    ∀ i w, (i, w) ∈ m.cv.woken → ∃ m', m.step q (.resume i) = some m' ∧
      (m'.returned = m.returned ++ [(i, w)] ↔ w.Reported q m.calls) := by
  have hsound := sound_of_reach hq h
  obtain ⟨P, k, hk⟩ := hsound.follows
  refine ⟨hsound.account, fun i w hw => ?_, fun i w hw => ?_, fun i w hw => ?_⟩
  · rw [← LogWait.holds_iff_reported hk.toTracks]
    exact hsound.none i w hw
  · have hreported := hsound.returned i w hw
    refine ⟨hreported, fun j h1 hj => ⟨P j, ?_, hk.complete j (hreported j h1 hj)⟩⟩
    have hle := (LogWait.holds_iff hk.toTracks w).mp
      ((LogWait.holds_iff_reported hk.toTracks w).mpr hreported)
    obtain ⟨j, rfl⟩ := Nat.exists_eq_add_of_le' h1
    rw [hk.log, List.getElem?_cons_succ, List.getElem?_map, List.getElem?_range' (by omega)]
    rw [Option.map_some, Nat.one_mul, Nat.add_comm]
  · obtain ⟨cv, hcv⟩ := hsound.distinct.resume_of_mem hw
    refine ⟨{ m with cv := cv }.attempt i w, ?_, ?_⟩
    · rw [LogMonitor.step, if_neg (by simp [hsound.running])]
      simp only [hcv, Option.map_some]
    · rw [← LogWait.holds_iff_reported hk.toTracks]
      unfold LogMonitor.attempt
      split_ifs with hholds <;> simp [hholds]

instance (m : LogMonitor ι) (e : LogEvent ι) : Decidable (m.Delivers e) := by
  unfold Delivers
  split <;> infer_instance

/-- Two threads wait, and two senders report the first number only, with different payloads. -/
theorem waits_exact_first : ∃ m : LogMonitor ℕ, m.returned = [(5, .forSize 1)] ∧
    m.cv.asleep = [(6, .forSeq 2)] ∧ ¬ (LogWait.forSeq 2).Reported 2 m.calls ∧
    m.tracker.log[1]? = some [0, 0, 0, 1, 65] ∧ Completes 2 m.calls 1 [0, 0, 0, 1, 65] := by
  have hrun : ((logMonitor ℕ 2).runVia (fun m e => decide (m.Delivers e))
      [.wait 5 (.forSize 1), .wait 6 (.forSeq 2), .observe ⟨0, 0, 1, []⟩, .wakeUp 6, .resume 6,
        .observe ⟨0, 1, 1, [0, 0, 0, 1, 65]⟩, .resume 6, .resume 5] .init).any (fun m =>
        decide (m.returned = [(5, .forSize 1)] ∧ m.cv.asleep = [(6, .forSeq 2)] ∧
          m.tracker.log[1]? = some [0, 0, 0, 1, 65])) = true := by
    decide
  obtain ⟨m, hreach, hm⟩ := Lts.exists_reachVia_of_run _ (fun _ _ => of_decide_eq_true) hrun
  obtain ⟨hreturned, hasleep, hlog⟩ := of_decide_eq_true hm
  obtain ⟨-, hsleeps, hlogged, -⟩ := waits_exact (by decide) hreach
  refine ⟨m, hreturned, hasleep, hsleeps 6 _ (by simp [hasleep]), hlog, ?_⟩
  obtain ⟨data, hdata, hcompletes⟩ :=
    (hlogged 5 (.forSize 1) (by simp [hreturned])).2 1 le_rfl le_rfl
  cases hlog.symm.trans hdata
  exact hcompletes

end LogMonitor

end Ziplog
