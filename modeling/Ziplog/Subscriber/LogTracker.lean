import Mathlib.Data.Finset.Card
import Mathlib.Data.List.AList
import Ziplog.Api.Types

/-!
# The log tracker of a subscriber

`observe` counts the distinct senders of each sequence number; at the quorum the payload enters
`outOfOrder`, and the loop of `applyLocked` moves every payload that continues the log into it.
Between the two it parses the timestamps of the commands, which can throw. An exception leaves the
tracker as it is at that moment, so the result is the new tracker together with the outcome.

A null data pointer and an empty payload are both stored as the empty entry; the model passes the
empty list for either. `observe_cases` says what one call can do, `drainLoop_invariant` is the rule
for the loop.
-/

namespace Ziplog

/-- The exception `std::stoull` throws on a decimal that does not fit. -/
inductive StdException
  | outOfRange
  deriving DecidableEq, Repr

/-- The 64 bits of a timestamp read as a signed number. -/
def toInt64 (t : ℕ) : Int64 := (UInt64.ofNat t).toInt64

/-- `std::stoull` on a nonempty string of digits. -/
def stoull (digits : List UInt8) : Except StdException ℕ :=
  let value := digits.foldl (fun n c => 10 * n + (c.toNat - 48)) 0
  if value < 2 ^ 64 then .ok value else .error .outOfRange

/-- The latency printed for a command whose text in front of the first `|` is a number. -/
def commandLatency (received : ℕ) (command : Command) :
    Except StdException (Option Int64) :=
  if (124 : UInt8) ∈ command then
    let tsStr := command.takeWhile (· ≠ 124)
    if tsStr ≠ [] ∧ tsStr.all isDigit then
      match stoull tsStr with
      | .ok sent => .ok (some (toInt64 received - toInt64 sent))
      | .error e => .error e
    else .ok none
  else .ok none

/-- The loop over the commands of one entry; it appends to `toPrint`. -/
def entryLatencies (received : ℕ) (seq : ℕ) :
    List Command → List (ℕ × Int64) →
      Except StdException (List (ℕ × Int64))
  | [], toPrint => .ok toPrint
  | command :: commands, toPrint =>
    match commandLatency received command with
    | .error e => .error e
    | .ok none => entryLatencies received seq commands toPrint
    | .ok (some latency) => entryLatencies received seq commands (toPrint ++ [(seq, latency)])

structure LogTracker where
  log : List (List UInt8)
  outOfOrder : AList fun _ : ℕ => List UInt8
  nextSeq : ℕ
  pendingQuorum : AList fun _ : ℕ => Finset ℕ
  applied : Finset ℕ

namespace LogTracker

/-- The constructor: index 0 holds a placeholder. -/
def init : LogTracker where
  log := [[]]
  outOfOrder := ∅
  nextSeq := 1
  pendingQuorum := ∅
  applied := ∅

abbrev Outcome := Except StdException (List (ℕ × Int64))

/-- The payload of `nextSeq` moves into the log. -/
def commitNext (t : LogTracker) (raw : List UInt8) : LogTracker :=
  { t with
    log := t.log ++ [raw]
    outOfOrder := t.outOfOrder.erase t.nextSeq
    nextSeq := t.nextSeq + 1 }

/-- The `while` loop of `apply_locked`. Each round takes one entry out of `outOfOrder`. -/
def drainLoop (received : ℕ) :
    ℕ → LogTracker → List (ℕ × Int64) → LogTracker × Outcome
  | 0, t, toPrint => (t, .ok toPrint)
  | fuel + 1, t, toPrint =>
    match t.outOfOrder.lookup t.nextSeq with
    | none => (t, .ok toPrint)
    | some raw =>
      match entryLatencies received t.nextSeq (CommandBatch.deserialize raw) toPrint with
      | .error e => (t, .error e)
      | .ok toPrint => drainLoop received fuel (t.commitNext raw) toPrint

/-- `out_of_order_[seq] = data`. -/
def hold (t : LogTracker) (seq : ℕ) (data : List UInt8) : LogTracker :=
  { t with outOfOrder := t.outOfOrder.insert seq data }

def applyLocked (t : LogTracker) (received : ℕ) (seq : ℕ)
    (data : List UInt8) : LogTracker × Outcome :=
  drainLoop received (t.hold seq data).outOfOrder.entries.length (t.hold seq data) []

/-- The senders counted so far for `seq`. -/
def senders (t : LogTracker) (seq : ℕ) : Finset ℕ :=
  (t.pendingQuorum.lookup seq).getD ∅

/-- `pending_quorum_[seq].insert(sender)`. -/
def count (t : LogTracker) (sender : ℕ) (seq : ℕ) : LogTracker :=
  { t with pendingQuorum := t.pendingQuorum.insert seq (insert sender (t.senders seq)) }

/-- The bookkeeping after `apply_locked` has returned. -/
def settle (t : LogTracker) (seq : ℕ) : LogTracker :=
  { t with
    applied := insert seq t.applied
    pendingQuorum := t.pendingQuorum.erase seq }

def observe (t : LogTracker) (received : ℕ) (sender : ℕ) (seq : ℕ)
    (data : List UInt8) (quorum : ℕ) : LogTracker × Outcome :=
  if seq ∈ t.applied then (t, .ok [])
  else
    let t := t.count sender seq
    if quorum ≤ (t.senders seq).card then
      match t.applyLocked received seq data with
      | (t, .error e) => (t, .error e)
      | (t, .ok toPrint) => (t.settle seq, .ok toPrint)
    else (t, .ok [])

/-- `raw`, `size` and `expand_unraveled`. -/
def raw (t : LogTracker) : List (List UInt8) := t.log
def size (t : LogTracker) : ℕ := t.log.length
def expandUnraveled (t : LogTracker) : List Command := t.log.flatMap CommandBatch.deserialize

/-! ## What the updates change -/

@[simp] theorem commitNext_pendingQuorum (t : LogTracker) (raw : List UInt8) :
    (t.commitNext raw).pendingQuorum = t.pendingQuorum := rfl
@[simp] theorem commitNext_applied (t : LogTracker) (raw : List UInt8) :
    (t.commitNext raw).applied = t.applied := rfl
@[simp] theorem commitNext_nextSeq (t : LogTracker) (raw : List UInt8) :
    (t.commitNext raw).nextSeq = t.nextSeq + 1 := rfl
@[simp] theorem commitNext_log (t : LogTracker) (raw : List UInt8) :
    (t.commitNext raw).log = t.log ++ [raw] := rfl
@[simp] theorem commitNext_outOfOrder (t : LogTracker) (raw : List UInt8) :
    (t.commitNext raw).outOfOrder = t.outOfOrder.erase t.nextSeq := rfl

@[simp] theorem hold_pendingQuorum (t : LogTracker) (seq : ℕ) (data : List UInt8) :
    (t.hold seq data).pendingQuorum = t.pendingQuorum := rfl
@[simp] theorem hold_applied (t : LogTracker) (seq : ℕ) (data : List UInt8) :
    (t.hold seq data).applied = t.applied := rfl
@[simp] theorem hold_nextSeq (t : LogTracker) (seq : ℕ) (data : List UInt8) :
    (t.hold seq data).nextSeq = t.nextSeq := rfl
@[simp] theorem hold_log (t : LogTracker) (seq : ℕ) (data : List UInt8) :
    (t.hold seq data).log = t.log := rfl
@[simp] theorem hold_outOfOrder (t : LogTracker) (seq : ℕ) (data : List UInt8) :
    (t.hold seq data).outOfOrder = t.outOfOrder.insert seq data := rfl

@[simp] theorem count_log (t : LogTracker) (sender : ℕ) (seq : ℕ) :
    (t.count sender seq).log = t.log := rfl
@[simp] theorem count_outOfOrder (t : LogTracker) (sender : ℕ) (seq : ℕ) :
    (t.count sender seq).outOfOrder = t.outOfOrder := rfl
@[simp] theorem count_nextSeq (t : LogTracker) (sender : ℕ) (seq : ℕ) :
    (t.count sender seq).nextSeq = t.nextSeq := rfl
@[simp] theorem count_applied (t : LogTracker) (sender : ℕ) (seq : ℕ) :
    (t.count sender seq).applied = t.applied := rfl

theorem senders_count (t : LogTracker) (sender : ℕ) (seq s : ℕ) :
    (t.count sender seq).senders s =
      if s = seq then insert sender (t.senders seq) else t.senders s := by
  unfold count
  unfold senders
  split_ifs with h
  · subst h
    rw [AList.lookup_insert]
    rfl
  · rw [AList.lookup_insert_ne h]

@[simp] theorem settle_log (t : LogTracker) (seq : ℕ) :
    (t.settle seq).log = t.log := rfl
@[simp] theorem settle_outOfOrder (t : LogTracker) (seq : ℕ) :
    (t.settle seq).outOfOrder = t.outOfOrder := rfl
@[simp] theorem settle_nextSeq (t : LogTracker) (seq : ℕ) :
    (t.settle seq).nextSeq = t.nextSeq := rfl
@[simp] theorem settle_applied (t : LogTracker) (seq : ℕ) :
    (t.settle seq).applied = insert seq t.applied := rfl

theorem senders_settle (t : LogTracker) (seq s : ℕ) :
    (t.settle seq).senders s = if s = seq then ∅ else t.senders s := by
  unfold settle
  unfold senders
  split_ifs with h
  · subst h
    rw [AList.lookup_erase]
    rfl
  · rw [AList.lookup_erase_ne h]

/-! ## The loop and one call -/

/-- What every round keeps holds after the loop, also when the loop is left by an exception. -/
theorem drainLoop_invariant {I : LogTracker → Prop} {received : ℕ}
    (hI : ∀ t raw, I t → t.outOfOrder.lookup t.nextSeq = some raw → I (t.commitNext raw))
    (fuel : ℕ) (t : LogTracker) (toPrint : List (ℕ × Int64)) (h : I t) :
    I (drainLoop received fuel t toPrint).1 := by
  induction fuel generalizing t toPrint with
  | zero => exact h
  | succ fuel ih =>
    unfold drainLoop
    cases hl : t.outOfOrder.lookup t.nextSeq with
    | none => exact h
    | some raw =>
      simp only
      cases entryLatencies received t.nextSeq (CommandBatch.deserialize raw) toPrint with
      | error e => exact h
      | ok toPrint => exact ih _ _ (hI t raw h hl)

/-- **One call.** A number already applied is ignored; below the quorum only the count changes; at
the quorum the payload is held and the log drained, and the bookkeeping follows unless the drain
threw. -/
theorem observe_cases (t : LogTracker) (received : ℕ) (sender : ℕ)
    (seq : ℕ) (data : List UInt8) (quorum : ℕ) :
    (seq ∈ t.applied ∧ t.observe received sender seq data quorum = (t, .ok [])) ∨
    (seq ∉ t.applied ∧ (insert sender (t.senders seq)).card < quorum ∧
      t.observe received sender seq data quorum = (t.count sender seq, .ok [])) ∨
    (seq ∉ t.applied ∧ quorum ≤ (insert sender (t.senders seq)).card ∧
      ((∃ t' e, (t.count sender seq).applyLocked received seq data = (t', .error e) ∧
        t.observe received sender seq data quorum = (t', .error e)) ∨
      ∃ t' toPrint, (t.count sender seq).applyLocked received seq data = (t', .ok toPrint) ∧
        t.observe received sender seq data quorum = (t'.settle seq, .ok toPrint))) := by
  have hs : (t.count sender seq).senders seq = insert sender (t.senders seq) := by
    rw [senders_count, if_pos rfl]
  by_cases ha : seq ∈ t.applied
  · exact Or.inl ⟨ha, if_pos ha⟩
  · right
    unfold observe
    simp only [if_neg ha, hs]
    by_cases hq : quorum ≤ (insert sender (t.senders seq)).card
    · refine Or.inr ⟨ha, hq, ?_⟩
      rw [if_pos hq]
      rcases (t.count sender seq).applyLocked received seq data with ⟨t', e | toPrint⟩
      · exact Or.inl ⟨t', e, rfl, rfl⟩
      · exact Or.inr ⟨t', toPrint, rfl, rfl⟩
    · exact Or.inl ⟨ha, by omega, if_neg hq⟩

end LogTracker

end Ziplog
