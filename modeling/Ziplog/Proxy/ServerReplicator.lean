import Mathlib.Data.Fintype.Card
import Mathlib.Data.Int.Basic
import Mathlib.Logic.Function.Basic
import Ziplog.Library.Lts
import Ziplog.Proxy.ServerWorker

/-!
# The server replicator

`replicate_bytes` puts one item into the queue of every worker and then reads two counters until one
of them lets it return: `ack_count` of the call, which a worker raises for each item that it counts,
and `live_workers_`, which a worker lowers when its thread ends.

`serverReplicator` has any number of servers and any quorum, and takes every step of a worker, of a
server and of the calling thread as an event of its own. `Sound` says what the two counters count;
with `Attended` for each worker it gives the meaning of the two answers (`replicateBytes_exact`).
-/

namespace Ziplog

/-! ## The replicator -/

/-- Where the calling thread is. While it is `pushing` some workers still have to get the item. -/
inductive ReplicateStage (n : ℕ)
  | idle
  | pushing (todo : Finset (Fin n))
  | waiting
  | polled
  | returned (ok : Bool)
  deriving DecidableEq

/-- The replicator with the frames of the calls so far; `ackCount` is by the number of the call. -/
structure ServerReplicator (n : ℕ) where
  calls : List Frame
  ackCount : ℕ → ℕ
  liveWorkers : ℕ
  worker : Fin n → ServerWorker
  stage : ReplicateStage n

inductive ReplicatorEvent (n : ℕ)
  | replicateBytes (frame : Frame)
  | push (j : Fin n)
  | pushed
  | pollAcks
  | pollLive
  | work (j : Fin n) (e : WorkerEvent)
  | count (j : Fin n)
  | exit (j : Fin n)

/-- `static_cast<int>` of a `size_t`. -/
def toInt (q : ℕ) : ℤ :=
  if q % 2 ^ 32 < 2 ^ 31 then (q % 2 ^ 32 : ℕ) else (q % 2 ^ 32 : ℕ) - 2 ^ 32

theorem toInt_eq {q : ℕ} (h : q < 2 ^ 31) : toInt q = q := by
  unfold toInt
  rw [Nat.mod_eq_of_lt (by omega), if_pos h]

theorem toInt_le (q : ℕ) : toInt q ≤ q := by
  unfold toInt
  split_ifs <;> omega

namespace ServerReplicator

variable {n : ℕ}

/-- The replicator when all workers are started. -/
def init : ServerReplicator n := ⟨[], fun _ => 0, n, fun _ => .init, .idle⟩

def setWorker (s : ServerReplicator n) (j : Fin n) (w : ServerWorker) : ServerReplicator n :=
  { s with worker := Function.update s.worker j w }

/-- The number of the last call. -/
def current (s : ServerReplicator n) : ℕ := s.calls.length - 1

/-- `ack_count` of the last call. -/
def acks (s : ServerReplicator n) : ℕ := s.ackCount s.current

def call (s : ServerReplicator n) (frame : Frame) : ServerReplicator n :=
  { s with
    calls := s.calls ++ [frame]
    ackCount := Function.update s.ackCount s.calls.length 0
    stage := .pushing Finset.univ }

def step (quorum : ℕ) (s : ServerReplicator n) :
    ReplicatorEvent n → Option (ServerReplicator n)
  | .replicateBytes frame =>
    match s.stage with
    | .idle | .returned _ => some (s.call frame)
    | _ => none
  | .push j =>
    match s.stage, s.calls.getLast? with
    | .pushing todo, some frame =>
      if j ∈ todo then
        some { s.setWorker j ((s.worker j).push ⟨frame, s.current⟩) with
          stage := .pushing (todo.erase j) }
      else none
    | _, _ => none
  | .pushed =>
    match s.stage with
    | .pushing todo => if todo = ∅ then some { s with stage := .waiting } else none
    | _ => none
  | .pollAcks =>
    match s.stage with
    | .waiting =>
      some { s with stage := if (s.acks : ℤ) < toInt quorum then .polled else .returned true }
    | _ => none
  | .pollLive =>
    match s.stage with
    | .polled =>
      some { s with stage := if s.liveWorkers = 0 then .returned false else .waiting }
    | _ => none
  | .work j e => ((s.worker j).step e).map (s.setWorker j)
  | .count j =>
    match (s.worker j).stage with
    | .acked item =>
      some { s.setWorker j { s.worker j with
          stage := .idle, counted := (s.worker j).counted ++ [item.state] } with
        ackCount := Function.update s.ackCount item.state (s.ackCount item.state + 1) }
    | _ => none
  | .exit j =>
    match (s.worker j).stage with
    | .exiting =>
      some { s.setWorker j { s.worker j with stage := .terminated } with
        liveWorkers := s.liveWorkers - 1 }
    | _ => none

end ServerReplicator

def serverReplicator (n quorum : ℕ) : Lts (ServerReplicator n) (ReplicatorEvent n) :=
  ⟨.init, ServerReplicator.step quorum⟩

/-! ## The invariant of the replicator -/

namespace ServerReplicator

variable {n quorum : ℕ} {s t : ServerReplicator n}

/-- The number of calls of which a worker has the item. -/
def given (s : ServerReplicator n) (j : Fin n) : ℕ :=
  match s.stage with
  | .pushing todo => if j ∈ todo then s.current else s.calls.length
  | _ => s.calls.length

/-- The workers that have counted a call. -/
def counters (s : ServerReplicator n) (i : ℕ) : Finset (Fin n) :=
  Finset.univ.filter fun j => i ∈ (s.worker j).counted

/-- The workers whose threads have not ended. -/
def live (s : ServerReplicator n) : Finset (Fin n) :=
  Finset.univ.filter fun j => (s.worker j).stage ≠ .terminated

structure Sound (quorum : ℕ) (s : ServerReplicator n) : Prop where
  attended : ∀ j, (s.worker j).Attended s.calls (s.given j)
  acks : ∀ i, s.ackCount i = (s.counters i).card
  live : s.liveWorkers = s.live.card
  called : s.stage ≠ .idle → s.calls ≠ []
  enough : s.stage = .returned true → toInt quorum ≤ (s.counters s.current).card
  none : s.stage = .returned false → s.live = ∅

@[simp] theorem mem_counters {i : ℕ} {j : Fin n} :
    j ∈ s.counters i ↔ i ∈ (s.worker j).counted := by
  rw [counters, Finset.mem_filter]
  exact and_iff_right (Finset.mem_univ j)

@[simp] theorem mem_live {j : Fin n} : j ∈ s.live ↔ (s.worker j).stage ≠ .terminated := by
  rw [live, Finset.mem_filter]
  exact and_iff_right (Finset.mem_univ j)

theorem given_le (s : ServerReplicator n) (j : Fin n) : s.given j ≤ s.calls.length := by
  unfold given
  split
  · split_ifs
    · exact Nat.sub_le _ _
    · exact le_rfl
  · exact le_rfl

theorem sound_init : Sound quorum (init : ServerReplicator n) where
  attended := fun _ => ServerWorker.attended_init
  acks := by
    intro i
    refine (Finset.card_eq_zero.mpr ?_).symm
    ext j
    rw [mem_counters]
    exact ⟨nofun, nofun⟩
  live := by
    have hall : (init : ServerReplicator n).live = Finset.univ := by
      ext j
      rw [mem_live]
      exact ⟨fun _ => Finset.mem_univ j, fun _ => nofun⟩
    rw [hall, Finset.card_univ, Fintype.card_fin]
    rfl
  called := fun h => absurd rfl h
  enough := nofun
  none := nofun

/-- A call of `replicate_bytes`. -/
theorem Sound.call (h : Sound quorum s) (hgiven : ∀ j, s.given j = s.calls.length)
    (frame : Frame) : Sound quorum (s.call frame) where
  attended := by
    intro j
    have hnew : (s.call frame).given j = s.calls.length := by
      show (if j ∈ Finset.univ then (s.calls ++ [frame]).length - 1 else _) = _
      rw [if_pos (Finset.mem_univ j), List.length_append, List.length_singleton,
        Nat.add_sub_cancel]
    rw [hnew, ← hgiven j]
    exact (h.attended j).call frame
  acks := by
    intro i
    show Function.update s.ackCount s.calls.length 0 i = (s.counters i).card
    by_cases hi : i = s.calls.length
    · subst hi
      rw [Function.update_self]
      refine (Finset.card_eq_zero.mpr (Finset.eq_empty_iff_forall_notMem.mpr fun j hj => ?_)).symm
      have hlt := (h.attended j).below _ (List.mem_append_left _ (mem_counters.mp hj))
      rw [hgiven j] at hlt
      exact Nat.lt_irrefl _ hlt
    · rw [Function.update_of_ne hi]
      exact h.acks i
  live := h.live
  called := fun _ => List.append_ne_nil_of_right_ne_nil _ (List.cons_ne_nil _ _)
  enough := nofun
  none := nofun

@[simp] theorem setWorker_self {j : Fin n} {w : ServerWorker} : (s.setWorker j w).worker j = w :=
  Function.update_self ..

theorem setWorker_of_ne {j k : Fin n} {w : ServerWorker} (h : k ≠ j) :
    (s.setWorker j w).worker k = s.worker k := Function.update_of_ne h _ _

theorem counters_setWorker {j : Fin n} {w : ServerWorker}
    (hcounted : w.counted = (s.worker j).counted) (i : ℕ) :
    (s.setWorker j w).counters i = s.counters i := by
  ext k
  rw [mem_counters, mem_counters]
  by_cases hk : k = j
  · rw [hk, setWorker_self, hcounted]
  · rw [setWorker_of_ne hk]

theorem live_setWorker {j : Fin n} {w : ServerWorker}
    (hended : w.stage = .terminated ↔ (s.worker j).stage = .terminated) :
    (s.setWorker j w).live = s.live := by
  ext k
  rw [mem_live, mem_live]
  by_cases hk : k = j
  · rw [hk, setWorker_self, ne_eq, hended]
  · rw [setWorker_of_ne hk]

theorem Sound.attended_setWorker (h : Sound quorum s) {j : Fin n} {w : ServerWorker}
    (hattended : w.Attended s.calls (s.given j)) (k : Fin n) :
    ((s.setWorker j w).worker k).Attended s.calls (s.given k) := by
  by_cases hk : k = j
  · rw [hk, setWorker_self]
    exact hattended
  · rw [setWorker_of_ne hk]
    exact h.attended k

/-- The item of the last call is put into one more queue. -/
theorem Sound.push (h : Sound quorum s) {todo : Finset (Fin n)} {frame : Frame} {j : Fin n}
    (hstage : s.stage = .pushing todo) (hlast : s.calls.getLast? = some frame) (hj : j ∈ todo) :
    Sound quorum { s.setWorker j ((s.worker j).push ⟨frame, s.current⟩) with
      stage := .pushing (todo.erase j) } := by
  have hgiven : ∀ k, s.given k = if k ∈ todo then s.current else s.calls.length := by
    intro k
    unfold given
    rw [hstage]
  have hcall : s.calls[s.current]? = some frame := by
    rw [← hlast, List.getLast?_eq_getElem?]
    rfl
  have hlen : s.current + 1 = s.calls.length := by
    have hlt := (List.getElem?_eq_some_iff.mp hcall).1
    unfold current at hlt ⊢
    omega
  refine ⟨fun k => ?_, fun i => ?_, ?_, fun _ => ?_, nofun, nofun⟩
  · show ((s.setWorker j _).worker k).Attended s.calls
      (if k ∈ todo.erase j then s.current else s.calls.length)
    by_cases hk : k = j
    · rw [hk, setWorker_self, if_neg (Finset.notMem_erase j todo), ← hlen]
      have hattended := h.attended j
      rw [hgiven j, if_pos hj] at hattended
      exact hattended.push hcall
    · rw [setWorker_of_ne hk]
      simp only [Finset.mem_erase, ne_eq, hk, not_false_eq_true, true_and]
      rw [← hgiven k]
      exact h.attended k
  · refine (h.acks i).trans (congrArg Finset.card (counters_setWorker ?_ i).symm)
    rfl
  · refine h.live.trans (congrArg Finset.card (live_setWorker ?_).symm)
    exact Iff.rfl
  · refine h.called ?_
    rw [hstage]
    exact nofun

/-- A worker counts the item in hand. -/
theorem Sound.count (h : Sound quorum s) {j : Fin n} {item : WorkItem}
    (hstage : (s.worker j).stage = .acked item) :
    Sound quorum { s.setWorker j { s.worker j with
        stage := .idle, counted := (s.worker j).counted ++ [item.state] } with
      ackCount := Function.update s.ackCount item.state (s.ackCount item.state + 1) } := by
  have hnew : j ∉ s.counters item.state := by
    intro hold
    have hpending : item ∈ (s.worker j).pending := by
      rw [ServerWorker.pending, hstage]
      exact List.mem_cons_self
    exact Nat.lt_irrefl _ ((h.attended j).counted_lt hpending _ (mem_counters.mp hold))
  have hcounters : ∀ i, (s.setWorker j { s.worker j with
      stage := .idle, counted := (s.worker j).counted ++ [item.state] }).counters i =
      if i = item.state then insert j (s.counters i) else s.counters i := by
    intro i
    ext k
    by_cases hk : k = j
    · subst hk
      rw [mem_counters, setWorker_self]
      split_ifs with hi
      · simp [hi]
      · simp [hi]
    · rw [mem_counters, setWorker_of_ne hk]
      split_ifs with hi
      · simp [hk]
      · simp
  have hlive := live_setWorker (s := s) (j := j) (w := { s.worker j with
      stage := .idle, counted := (s.worker j).counted ++ [item.state] })
    (by rw [hstage]; exact ⟨by rintro ⟨⟩, by rintro ⟨⟩⟩)
  refine ⟨h.attended_setWorker ((h.attended j).count hstage), fun i => ?_, ?_, h.called,
    fun htrue => ?_, fun hfalse => ?_⟩
  · show Function.update s.ackCount item.state (s.ackCount item.state + 1) i = _
    refine Eq.trans ?_ (congrArg Finset.card (hcounters i).symm)
    by_cases hi : i = item.state
    · subst hi
      rw [Function.update_self, if_pos rfl, Finset.card_insert_of_notMem hnew, h.acks]
    · rw [Function.update_of_ne hi, if_neg hi]
      exact h.acks i
  · exact h.live.trans (congrArg Finset.card hlive.symm)
  · refine (h.enough htrue).trans (Int.ofNat_le.mpr (Finset.card_le_card ?_))
    intro k hk
    refine (hcounters s.current).symm ▸ ?_
    split_ifs
    · exact Finset.mem_insert_of_mem hk
    · exact hk
  · exact hlive.trans (h.none hfalse)

/-- The thread of a worker ends. -/
theorem Sound.exit (h : Sound quorum s) {j : Fin n} (hstage : (s.worker j).stage = .exiting) :
    Sound quorum { s.setWorker j { s.worker j with stage := .terminated } with
      liveWorkers := s.liveWorkers - 1 } := by
  have hcounters := fun i => counters_setWorker (s := s) (j := j)
    (w := { s.worker j with stage := .terminated }) rfl i
  have hlive : (s.setWorker j { s.worker j with stage := .terminated }).live = s.live.erase j := by
    ext k
    rw [mem_live, Finset.mem_erase, mem_live]
    by_cases hk : k = j
    · rw [hk, setWorker_self]
      simp
    · rw [setWorker_of_ne hk]
      simp [hk]
  have hj : j ∈ s.live := by
    rw [mem_live, hstage]
    exact nofun
  refine ⟨h.attended_setWorker ((h.attended j).exit hstage), fun i => ?_, ?_, h.called,
    fun htrue => ?_, fun hfalse => ?_⟩
  · exact (h.acks i).trans (congrArg Finset.card (hcounters i).symm)
  · show s.liveWorkers - 1 = _
    refine Eq.trans ?_ (congrArg Finset.card hlive.symm)
    rw [Finset.card_erase_of_mem hj, h.live]
  · exact (h.enough htrue).trans (Int.ofNat_le.mpr (Finset.card_le_card (hcounters _).ge))
  · rw [h.none hfalse] at hj
    exact absurd hj (Finset.notMem_empty j)

/-- Outside the loop over the workers, each worker has the items of all calls. -/
theorem Sound.attended_calls (h : Sound quorum s) (hgiven : ∀ j, s.given j = s.calls.length)
    (j : Fin n) : (s.worker j).Attended s.calls s.calls.length := by
  have hattended := h.attended j
  rwa [hgiven j] at hattended

/-- **One step.** -/
theorem Sound.step (h : Sound quorum s) {e : ReplicatorEvent n} (hs : s.step quorum e = some t) :
    Sound quorum t := by
  cases e with
  | replicateBytes frame =>
    simp only [ServerReplicator.step] at hs
    split at hs <;> cases hs
    · rename_i hstage
      exact h.call (fun j => by unfold given; rw [hstage]) frame
    · rename_i hstage
      exact h.call (fun j => by unfold given; rw [hstage]) frame
  | push j =>
    simp only [ServerReplicator.step] at hs
    split at hs
    · rename_i hstage hlast
      split_ifs at hs with hj
      cases hs
      exact h.push hstage hlast hj
    · cases hs
  | pushed =>
    simp only [ServerReplicator.step] at hs
    split at hs
    · rename_i hstage
      split_ifs at hs with hnone
      cases hs
      subst hnone
      refine ⟨fun j => ?_, h.acks, h.live, fun _ => h.called (by rw [hstage]; exact nofun),
        nofun, nofun⟩
      have hattended := h.attended j
      unfold given at hattended
      rw [hstage] at hattended
      exact hattended
    · cases hs
  | pollAcks =>
    simp only [ServerReplicator.step] at hs
    split at hs <;> cases hs
    rename_i hstage
    have hcalled := h.called (by rw [hstage]; exact nofun)
    have hattended := h.attended_calls fun j => by unfold given; rw [hstage]
    split_ifs with hless
    · exact ⟨hattended, h.acks, h.live, fun _ => hcalled, nofun, nofun⟩
    · refine ⟨hattended, h.acks, h.live, fun _ => hcalled, fun _ => ?_, nofun⟩
      rw [not_lt] at hless
      exact hless.trans_eq (congrArg Nat.cast (h.acks s.current))
  | pollLive =>
    simp only [ServerReplicator.step] at hs
    split at hs <;> cases hs
    rename_i hstage
    have hcalled := h.called (by rw [hstage]; exact nofun)
    have hattended := h.attended_calls fun j => by unfold given; rw [hstage]
    split_ifs with hzero
    · refine ⟨hattended, h.acks, h.live, fun _ => hcalled, nofun, fun _ => ?_⟩
      rw [h.live] at hzero
      exact Finset.card_eq_zero.mp hzero
    · exact ⟨hattended, h.acks, h.live, fun _ => hcalled, nofun, nofun⟩
  | work j e =>
    obtain ⟨w, hw, rfl⟩ := Option.map_eq_some_iff.mp hs
    obtain ⟨hcounted, hended⟩ := ServerWorker.step_keeps hw
    have hcounters := counters_setWorker (s := s) hcounted
    have hlive := live_setWorker (s := s) hended
    refine ⟨h.attended_setWorker ((h.attended j).step (given_le s j) hw), fun i => ?_, ?_,
      h.called, fun htrue => ?_, fun hfalse => ?_⟩
    · rw [hcounters]
      exact h.acks i
    · rw [hlive]
      exact h.live
    · rw [hcounters]
      exact h.enough htrue
    · rw [hlive]
      exact h.none hfalse
  | count j =>
    simp only [ServerReplicator.step] at hs
    split at hs <;> cases hs
    rename_i hstage
    exact h.count hstage
  | exit j =>
    simp only [ServerReplicator.step] at hs
    split at hs <;> cases hs
    rename_i hstage
    exact h.exit hstage

/-- **Every run.** -/
theorem sound_of_reach (h : (serverReplicator n quorum).Reach s) : Sound quorum s :=
  h.invariant (Sound quorum) sound_init fun _ _ _ _ hsound _ hs => hsound.step hs

/-! ## The answer of `replicate_bytes` -/

/-- The server of a worker has got the frame of the last call and has replied with its number. -/
def Acked (s : ServerReplicator n) (j : Fin n) : Prop :=
  ∃ frame place, s.calls.getLast? = some frame ∧
    (s.worker j).link.sent[place]? = some ⟨frame, s.current⟩ ∧
    (place, frame.seq) ∈ (s.worker j).link.replies

theorem Sound.acked (h : Sound quorum s) {j : Fin n} (hj : j ∈ s.counters s.current) :
    s.Acked j := by
  have hattended := h.attended j
  obtain ⟨item, hstate, place, hget, hread⟩ := hattended.answered _ (mem_counters.mp hj)
  have hknown := hattended.known item (List.mem_append_left _ (List.mem_of_getElem? hget))
  rw [hstate] at hknown
  refine ⟨item.frame, place, ?_, ?_, ?_⟩
  · rw [List.getLast?_eq_getElem?]
    exact hknown
  · rw [hget, ← hstate]
  · have hmem := List.mem_map_of_mem (f := (·.2)) hread
    rw [hattended.fifo.reads] at hmem
    exact List.mem_of_mem_take hmem

/-- A worker that has counted the last call has not ended. -/
theorem Sound.not_ended (h : Sound quorum s) {j : Fin n} (hj : j ∈ s.counters s.current) :
    ¬ (s.worker j).stage.Ended := by
  intro hended
  have hlt := (h.attended j).ended hended _ (mem_counters.mp hj)
  unfold current at hlt
  omega

/-- **`replicate_bytes`** returns true only if a quorum of servers has replied to this frame, and
false only if all workers have ended without counting it. -/
theorem replicateBytes_exact (hquorum : quorum < 2 ^ 31)
    (h : (serverReplicator n quorum).Reach s) :
    (s.stage = .returned true →
      ∃ servers : Finset (Fin n), quorum ≤ servers.card ∧ ∀ j ∈ servers, s.Acked j) ∧
    (s.stage = .returned false →
      ∀ j, (s.worker j).stage = .terminated ∧ s.current ∉ (s.worker j).counted) := by
  have hsound := sound_of_reach h
  constructor
  · intro htrue
    have henough := hsound.enough htrue
    rw [toInt_eq hquorum] at henough
    exact ⟨s.counters s.current, Int.ofNat_le.mp henough, fun j hj => hsound.acked hj⟩
  · intro hfalse j
    have hj : j ∉ s.live := by
      rw [hsound.none hfalse]
      exact Finset.notMem_empty j
    rw [mem_live, not_not] at hj
    exact ⟨hj, fun hcounted => hsound.not_ended (mem_counters.mpr hcounted) (Or.inr hj)⟩

/-- A call for one server, up to its reply being counted. -/
def acknowledged (j : Fin n) : List (ReplicatorEvent n) :=
  [.work j .connect, .work j .dequeue, .work j .send, .work j .reply, .work j .recv, .count j]

/-- The call for one server, up to the end of the thread when the server is gone. -/
def refused (j : Fin n) : List (ReplicatorEvent n) :=
  [.work j .connect, .work j .dequeue, .work j .sendFail, .exit j]

/-- The first call of `replicate_bytes` among three servers. -/
def firstCall : List (ReplicatorEvent 3) :=
  [.replicateBytes ⟨0, 1, .skip⟩, .push 0, .push 1, .push 2, .pushed]

theorem replicateBytes_exact_two : ∃ s : ServerReplicator 3, s.stage = .returned true ∧
    ∃ servers : Finset (Fin 3), 2 ≤ servers.card ∧ ∀ j ∈ servers, s.Acked j := by
  have hrun : ((serverReplicator 3 2).run
      (firstCall ++ acknowledged 0 ++ refused 1 ++ acknowledged 2 ++ [.pollAcks]) .init).any
      (fun s => s.stage = .returned true) = true := by
    decide
  obtain ⟨s, hreach, hstage⟩ := (serverReplicator 3 2).exists_reach_of_run hrun
  have htrue := of_decide_eq_true hstage
  exact ⟨s, htrue, (replicateBytes_exact (by decide) hreach).1 htrue⟩

/-- A quorum that is negative as an `int` is reached at once. -/
theorem replicateBytes_not_exact : ¬ ∀ (n quorum : ℕ) (s : ServerReplicator n), 1 ≤ quorum →
    (serverReplicator n quorum).Reach s → s.stage = .returned true →
    ∃ servers : Finset (Fin n), quorum ≤ servers.card ∧ ∀ j ∈ servers, s.Acked j := by
  intro hall
  have hrun : ((serverReplicator 3 (2 ^ 31)).run (firstCall ++ [.pollAcks]) .init).any
      (fun s => s.stage = .returned true) = true := by
    decide
  obtain ⟨s, hreach, hstage⟩ := (serverReplicator 3 (2 ^ 31)).exists_reach_of_run hrun
  obtain ⟨servers, hcard, -⟩ := hall 3 (2 ^ 31) s (by decide) hreach (of_decide_eq_true hstage)
  have hle := servers.card_le_univ
  rw [Fintype.card_fin] at hle
  omega

end ServerReplicator

end Ziplog
