import Mathlib.Data.Finset.Max
import Mathlib.Tactic.SplitIfs
import Ziplog.Library.Lts
import Ziplog.Zipper.ProxyRegistry

/-!
# Freezing a proxy

`ReconfigManager` collects reports about a proxy, starts freeze rounds, collects the answers of the
servers, and at an agreeing quorum blocks the proxy and skips what it can no longer use. The lock of
the registry is dropped between the sections of one handler, so each section is a step of its own:
what a thread has still to do after a section is a `ReconfigTask`, and `reconfig` runs the tasks and
the messages that arrive in any order.

The calls of `send_freeze_complete` are recorded with the servers counted, and the answers handled
so far too; nothing depends on either record.
-/

namespace Ziplog

/-- What a thread of the manager does next. -/
inductive ReconfigTask
  | sendFreeze (failedProxy : ℕ) (firstRound : Bool)
  | readRound (failedProxy : ℕ)
  | broadcastFreeze (failedProxy round : ℕ)
  | sendFreezeComplete (failedProxy lastSeq : ℕ)
  | sendSkips (failedProxy lastSeq : ℕ) (allocated : List ℕ)
  deriving DecidableEq

/-- What the manager broadcasts to the servers. -/
inductive ZipperMessage
  | freeze (failedProxy round : ℕ)
  | skip (senderId seq : ℕ)
  | freezeComplete (failedProxy lastSeq : ℕ)
  deriving DecidableEq

/-- What an answer amounts to. -/
inductive Verdict
  | waiting
  | noConsensus
  | consensus (lastSeq : ℕ)
  deriving DecidableEq

/-- A call of `send_freeze_complete`, with the servers that agreed. -/
structure Completion where
  failedProxy : ℕ
  lastSeq : ℕ
  responders : Finset ℕ
  deriving DecidableEq

/-- An answer of a server, by its sender, proxy and round. -/
structure Answer where
  sender : ℕ
  failedProxy : ℕ
  round : ℕ
  deriving DecidableEq

structure ReconfigState where
  registry : ProxyRegistry
  tasks : List ReconfigTask
  sent : List ZipperMessage
  completions : List Completion
  answers : List Answer

inductive ReconfigEvent
  | report (sender failedProxy : ℕ)
  | freezeResponse (sender failedProxy round seq : ℕ)
  | proceed (task : ReconfigTask)
  | rejoin (id : ℕ)
  | allocate (id seq : ℕ)
  deriving DecidableEq

/-! ## The locked sections -/

/-- The last number reported, if there is one. -/
def ProxyState.lastSeq (st : ProxyState) : ℕ := st.lastSequences.min.untopD 0

def ProxyState.verdict (st : ProxyState) (quorum : ℕ) : Verdict :=
  if st.freezeResponders.card < quorum then .waiting
  else if st.lastSequences.card = 1 then .consensus st.lastSeq
  else .noConsensus

/-- An agreeing quorum. -/
theorem ProxyState.verdict_consensus {st : ProxyState} {quorum lastSeq : ℕ}
    (h : st.verdict quorum = .consensus lastSeq) :
    quorum ≤ st.freezeResponders.card ∧ st.lastSequences = {lastSeq} ∧ st.lastSeq = lastSeq := by
  unfold verdict at h
  split_ifs at h with hcard hone
  cases h
  refine ⟨Nat.le_of_not_lt hcard, ?_, rfl⟩
  obtain ⟨a, ha⟩ := Finset.card_eq_one.mp hone
  rw [lastSeq, ha, Finset.min_singleton]
  rfl

namespace ReconfigState

def init (proxies : List Address) : ReconfigState := ⟨.ofConfig proxies, [], [], [], []⟩

def setProxy (s : ReconfigState) (p : ℕ) (st : ProxyState) : ReconfigState :=
  { s with registry := s.registry.insert p st }

def start (s : ReconfigState) (task : ReconfigTask) : ReconfigState :=
  { s with tasks := s.tasks ++ [task] }

def finish (s : ReconfigState) (task : ReconfigTask) : ReconfigState :=
  { s with tasks := s.tasks.erase task }

def send (s : ReconfigState) (message : ZipperMessage) : ReconfigState :=
  { s with sent := s.sent ++ [message] }

def record (s : ReconfigState) (answer : Answer) : ReconfigState :=
  { s with answers := s.answers ++ [answer] }

def complete (s : ReconfigState) (completion : Completion) : ReconfigState :=
  { s with completions := s.completions ++ [completion] }

def handleReport (s : ReconfigState) (quorum sender failedProxy : ℕ) : ReconfigState :=
  match s.registry.lookup failedProxy with
  | none => s
  | some st =>
    if st.status ≠ .active then s
    else if (st.addReporter sender).reporters.card < quorum then
      s.setProxy failedProxy (st.addReporter sender)
    else
      (s.setProxy failedProxy ((st.addReporter sender).setStatus .reconfiguring)).start
        (.sendFreeze failedProxy true)

/-- The status of the proxy is not looked at. -/
def handleFreezeResponse (s : ReconfigState) (quorum sender failedProxy round seq : ℕ) :
    ReconfigState :=
  match s.registry.lookup failedProxy with
  | none => s
  | some st =>
    if round ≠ st.freezeRound then s
    else
      let st := st.addResponse sender seq
      let s := s.setProxy failedProxy st
      match st.verdict quorum with
      | .waiting => s
      | .noConsensus => s.start (.sendFreeze failedProxy false)
      | .consensus lastSeq =>
        (s.start (.sendFreezeComplete failedProxy lastSeq)).complete
          ⟨failedProxy, lastSeq, st.freezeResponders⟩

/-- The next section of a task that has been taken off the list. -/
def proceed (s : ReconfigState) : ReconfigTask → Option ReconfigState
  | .sendFreeze p firstRound => (s.registry.lookup p).map fun st =>
      (s.setProxy p (st.startRound firstRound)).start (.readRound p)
  | .readRound p => (s.registry.lookup p).map fun st =>
      s.start (.broadcastFreeze p st.freezeRound)
  | .broadcastFreeze p round => some (s.send (.freeze p round))
  | .sendFreezeComplete p lastSeq => (s.registry.lookup p).map fun st =>
      (s.setProxy p (st.setStatus .blocked)).start (.sendSkips p lastSeq st.allocatedSequences)
  | .sendSkips p lastSeq [] => some (s.send (.freezeComplete p lastSeq))
  | .sendSkips p lastSeq (seq :: allocated) =>
      some ((if lastSeq < seq then s.send (.skip p seq) else s).start
        (.sendSkips p lastSeq allocated))

def step (quorum : ℕ) (s : ReconfigState) : ReconfigEvent → Option ReconfigState
  | .report sender p => some (s.handleReport quorum sender p)
  | .freezeResponse sender p round seq =>
    some ((s.handleFreezeResponse quorum sender p round seq).record ⟨sender, p, round⟩)
  | .proceed task => if task ∈ s.tasks then (s.finish task).proceed task else none
  | .rejoin id => some { s with registry := s.registry.rejoinProxy id }
  | .allocate id seq => (s.registry.lookup id).map fun st => s.setProxy id (st.allocate seq)

end ReconfigState

def reconfig (quorum : ℕ) (proxies : List Address) : Lts ReconfigState ReconfigEvent :=
  ⟨ReconfigState.init proxies, ReconfigState.step quorum⟩

/-! ## What a step does -/

namespace ReconfigState

/-- The steps: which entry of the registry, which tasks, messages and completions change. -/
inductive Effect (quorum : ℕ) (s : ReconfigState) : ReconfigEvent → ReconfigState → Prop
  | reportIgnored {sender p : ℕ}
      (hst : ∀ st, s.registry.lookup p = some st → st.status ≠ .active) :
      Effect quorum s (.report sender p) s
  | reported {sender p : ℕ} {st : ProxyState} (hst : s.registry.lookup p = some st)
      (hactive : st.status = .active) :
      Effect quorum s (.report sender p) (s.setProxy p (st.addReporter sender))
  | reconfiguring {sender p : ℕ} {st : ProxyState} (hst : s.registry.lookup p = some st)
      (hactive : st.status = .active) (hquorum : quorum ≤ (st.addReporter sender).reporters.card) :
      Effect quorum s (.report sender p)
        ((s.setProxy p ((st.addReporter sender).setStatus .reconfiguring)).start
          (.sendFreeze p true))
  | stale {sender p round seq : ℕ}
      (hst : ∀ st, s.registry.lookup p = some st → round ≠ st.freezeRound) :
      Effect quorum s (.freezeResponse sender p round seq) (s.record ⟨sender, p, round⟩)
  | waiting {sender p seq : ℕ} {st : ProxyState} (hst : s.registry.lookup p = some st)
      (hv : (st.addResponse sender seq).verdict quorum = .waiting) :
      Effect quorum s (.freezeResponse sender p st.freezeRound seq)
        ((s.setProxy p (st.addResponse sender seq)).record ⟨sender, p, st.freezeRound⟩)
  | noConsensus {sender p seq : ℕ} {st : ProxyState} (hst : s.registry.lookup p = some st)
      (hv : (st.addResponse sender seq).verdict quorum = .noConsensus) :
      Effect quorum s (.freezeResponse sender p st.freezeRound seq)
        (((s.setProxy p (st.addResponse sender seq)).start (.sendFreeze p false)).record
          ⟨sender, p, st.freezeRound⟩)
  | consensus {sender p seq lastSeq : ℕ} {st : ProxyState} (hst : s.registry.lookup p = some st)
      (hv : (st.addResponse sender seq).verdict quorum = .consensus lastSeq) :
      Effect quorum s (.freezeResponse sender p st.freezeRound seq)
        ((((s.setProxy p (st.addResponse sender seq)).start
          (.sendFreezeComplete p lastSeq)).complete
          ⟨p, lastSeq, (st.addResponse sender seq).freezeResponders⟩).record
          ⟨sender, p, st.freezeRound⟩)
  | startRound {p : ℕ} {firstRound : Bool} {st : ProxyState}
      (htask : .sendFreeze p firstRound ∈ s.tasks) (hst : s.registry.lookup p = some st) :
      Effect quorum s (.proceed (.sendFreeze p firstRound))
        (((s.finish (.sendFreeze p firstRound)).setProxy p (st.startRound firstRound)).start
          (.readRound p))
  | readRound {p : ℕ} {st : ProxyState} (htask : .readRound p ∈ s.tasks)
      (hst : s.registry.lookup p = some st) :
      Effect quorum s (.proceed (.readRound p))
        ((s.finish (.readRound p)).start (.broadcastFreeze p st.freezeRound))
  | broadcastFreeze {p round : ℕ} (htask : .broadcastFreeze p round ∈ s.tasks) :
      Effect quorum s (.proceed (.broadcastFreeze p round))
        ((s.finish (.broadcastFreeze p round)).send (.freeze p round))
  | block {p lastSeq : ℕ} {st : ProxyState} (htask : .sendFreezeComplete p lastSeq ∈ s.tasks)
      (hst : s.registry.lookup p = some st) :
      Effect quorum s (.proceed (.sendFreezeComplete p lastSeq))
        (((s.finish (.sendFreezeComplete p lastSeq)).setProxy p (st.setStatus .blocked)).start
          (.sendSkips p lastSeq st.allocatedSequences))
  | completed {p lastSeq : ℕ} (htask : .sendSkips p lastSeq [] ∈ s.tasks) :
      Effect quorum s (.proceed (.sendSkips p lastSeq []))
        ((s.finish (.sendSkips p lastSeq [])).send (.freezeComplete p lastSeq))
  | skip {p lastSeq seq : ℕ} {allocated : List ℕ}
      (htask : .sendSkips p lastSeq (seq :: allocated) ∈ s.tasks) (hseq : lastSeq < seq) :
      Effect quorum s (.proceed (.sendSkips p lastSeq (seq :: allocated)))
        (((s.finish (.sendSkips p lastSeq (seq :: allocated))).send (.skip p seq)).start
          (.sendSkips p lastSeq allocated))
  | used {p lastSeq seq : ℕ} {allocated : List ℕ}
      (htask : .sendSkips p lastSeq (seq :: allocated) ∈ s.tasks) :
      Effect quorum s (.proceed (.sendSkips p lastSeq (seq :: allocated)))
        ((s.finish (.sendSkips p lastSeq (seq :: allocated))).start
          (.sendSkips p lastSeq allocated))
  | rejoin {id : ℕ} :
      Effect quorum s (.rejoin id) { s with registry := s.registry.rejoinProxy id }
  | allocate {id seq : ℕ} {st : ProxyState} (hst : s.registry.lookup id = some st) :
      Effect quorum s (.allocate id seq) (s.setProxy id (st.allocate seq))

variable {quorum : ℕ} {s t : ReconfigState}

theorem effect_handleReport (s : ReconfigState) (quorum sender p : ℕ) :
    Effect quorum s (.report sender p) (s.handleReport quorum sender p) := by
  unfold handleReport
  cases hst : s.registry.lookup p with
  | none => exact .reportIgnored fun st h => by cases hst.symm.trans h
  | some st =>
    simp only
    split_ifs with hstatus hcard
    · refine .reportIgnored fun st' h => ?_
      cases hst.symm.trans h
      exact hstatus
    · exact .reported hst (not_not.mp hstatus)
    · exact .reconfiguring hst (not_not.mp hstatus) (Nat.le_of_not_lt hcard)

theorem effect_handleFreezeResponse (s : ReconfigState) (quorum sender p round seq : ℕ) :
    Effect quorum s (.freezeResponse sender p round seq)
      ((s.handleFreezeResponse quorum sender p round seq).record ⟨sender, p, round⟩) := by
  unfold handleFreezeResponse
  cases hst : s.registry.lookup p with
  | none => exact .stale fun st h => by cases hst.symm.trans h
  | some st =>
    simp only
    split_ifs with hround
    · refine .stale fun st' h => ?_
      cases hst.symm.trans h
      exact hround
    · obtain rfl := not_not.mp hround
      cases hv : (st.addResponse sender seq).verdict quorum with
      | waiting => exact .waiting hst hv
      | noConsensus => exact .noConsensus hst hv
      | consensus lastSeq => exact .consensus hst hv

/-- **What a step does.** -/
theorem effect_of_step {e : ReconfigEvent} (h : s.step quorum e = some t) :
    Effect quorum s e t := by
  cases e with
  | report sender p =>
    cases h
    exact effect_handleReport s quorum sender p
  | freezeResponse sender p round seq =>
    cases h
    exact effect_handleFreezeResponse s quorum sender p round seq
  | proceed task =>
    unfold step at h
    simp only at h
    split_ifs at h with htask
    cases task with
    | sendFreeze p firstRound =>
      obtain ⟨st, hst, rfl⟩ := Option.map_eq_some_iff.mp h
      exact .startRound htask hst
    | readRound p =>
      obtain ⟨st, hst, rfl⟩ := Option.map_eq_some_iff.mp h
      exact .readRound htask hst
    | broadcastFreeze p round =>
      cases h
      exact .broadcastFreeze htask
    | sendFreezeComplete p lastSeq =>
      obtain ⟨st, hst, rfl⟩ := Option.map_eq_some_iff.mp h
      exact .block htask hst
    | sendSkips p lastSeq allocated =>
      cases allocated with
      | nil =>
        cases h
        exact .completed htask
      | cons seq allocated =>
        simp only [proceed] at h
        split_ifs at h with hseq <;> cases h
        · exact .skip htask hseq
        · exact .used htask
  | rejoin id =>
    cases h
    exact .rejoin
  | allocate id seq =>
    obtain ⟨st, hst, rfl⟩ := Option.map_eq_some_iff.mp h
    exact .allocate hst

end ReconfigState

end Ziplog
