import Ziplog.Subscriber.QuoratePrefix

/-!
# Replaying deliveries

The moment at which a payload is received enters the latencies that are printed and nothing else, so
the tracker is a function of the senders, numbers and bytes delivered (`observe_received`). Its log
only grows (`log_observe`): of two subscribers that were delivered prefixes of one sequence, one has
a log that continues the other's.
-/

namespace Ziplog

theorem entryLatencies_isOk (received received' : ℕ) (seq : ℕ) (commands : List Command)
    (toPrint toPrint' : List (ℕ × Int64)) :
    (entryLatencies received seq commands toPrint).isOk =
      (entryLatencies received' seq commands toPrint').isOk := by
  induction commands generalizing toPrint toPrint' with
  | nil => rfl
  | cons command commands ih =>
    have hsame := commandLatency_isOk received received' command
    unfold entryLatencies
    revert hsame
    rcases commandLatency received command with e | _ | latency <;>
      rcases commandLatency received' command with e' | _ | latency' <;>
      intro hsame <;>
      first
        | rfl
        | exact ih _ _
        | cases hsame

namespace LogTracker

theorem drainLoop_received (received received' : ℕ) (fuel : ℕ) (t : LogTracker)
    (toPrint toPrint' : List (ℕ × Int64)) :
    (drainLoop received fuel t toPrint).1 = (drainLoop received' fuel t toPrint').1 ∧
      (drainLoop received fuel t toPrint).2.isOk =
        (drainLoop received' fuel t toPrint').2.isOk := by
  induction fuel generalizing t toPrint toPrint' with
  | zero => exact ⟨rfl, rfl⟩
  | succ fuel ih =>
    unfold drainLoop
    cases t.outOfOrder.lookup t.nextSeq with
    | none => exact ⟨rfl, rfl⟩
    | some raw =>
      have hsame := entryLatencies_isOk received received' t.nextSeq
        (CommandBatch.deserialize raw) toPrint toPrint'
      simp only
      revert hsame
      generalize CommandBatch.deserialize raw = cmds
      rcases entryLatencies received t.nextSeq cmds toPrint with e | out <;>
        rcases entryLatencies received' t.nextSeq cmds toPrint' with e' | out' <;>
        intro hsame
      · exact ⟨rfl, rfl⟩
      · cases hsame
      · cases hsame
      · exact ih _ _ _

/-- **The time of receipt does not matter** for what the tracker becomes. -/
theorem observe_received (t : LogTracker) (received received' sender seq : ℕ)
    (data : List UInt8) (quorum : ℕ) :
    (t.observe received sender seq data quorum).1 =
      (t.observe received' sender seq data quorum).1 := by
  unfold observe
  by_cases ha : seq ∈ t.applied
  · rw [if_pos ha, if_pos ha]
  · rw [if_neg ha, if_neg ha]
    simp only
    by_cases hq : quorum ≤ ((t.count sender seq).senders seq).card
    · rw [if_pos hq, if_pos hq]
      obtain ⟨hfst, hok⟩ := drainLoop_received received received'
        ((t.count sender seq).hold seq data).outOfOrder.entries.length
        ((t.count sender seq).hold seq data) [] []
      unfold applyLocked
      revert hfst hok
      rcases drainLoop received _ _ [] with ⟨u, e | out⟩ <;>
        rcases drainLoop received' _ _ [] with ⟨u', e' | out'⟩ <;>
        intro hfst hok
      · exact hfst
      · cases hok
      · cases hok
      · exact congrArg (fun v => settle v seq) hfst
    · rw [if_neg hq, if_neg hq]

/-- **The log only grows.** -/
theorem log_observe (t : LogTracker) (received sender seq : ℕ) (data : List UInt8) (quorum : ℕ) :
    t.log <+: (t.observe received sender seq data quorum).1.log := by
  have hdrain : t.log <+: ((t.count sender seq).applyLocked received seq data).1.log :=
    drainLoop_invariant (I := fun u => t.log <+: u.log)
      (fun u raw hu _ => hu.trans (List.prefix_append _ _)) _ _ _ List.prefix_rfl
  rcases t.observe_cases received sender seq data quorum with
    ⟨-, hobs⟩ | ⟨-, -, hobs⟩ | ⟨-, -, ⟨u, e, heq, hobs⟩ | ⟨u, out, heq, hobs⟩⟩
  · rw [hobs]
  · rw [hobs]
    exact List.prefix_rfl
  · rw [hobs]
    rwa [heq] at hdrain
  · rw [hobs]
    rwa [heq] at hdrain

theorem log_observeAll_append (q : ℕ) (calls calls' : List Delivery) :
    (observeAll q calls).log <+: (observeAll q (calls ++ calls')).log := by
  induction calls' using List.reverseRecOn with
  | nil => rw [List.append_nil]
  | append_singleton calls' c ih =>
    rw [← List.append_assoc, observeAll_append]
    exact ih.trans (log_observe _ _ _ _ _ _)

/-- Two histories of which one continues the other give logs that agree wherever both have an
entry. -/
theorem log_observeAll_agree {q : ℕ} {calls calls' : List Delivery} {i : ℕ} {d d' : List UInt8}
    (h : calls <+: calls') (hd : (observeAll q calls).log[i]? = some d)
    (hd' : (observeAll q calls').log[i]? = some d') : d = d' := by
  obtain ⟨rest, rfl⟩ := h
  obtain ⟨more, hmore⟩ := log_observeAll_append q calls rest
  have hi := (List.getElem?_eq_some_iff.mp hd).1
  rw [← hmore, List.getElem?_append_left hi, hd] at hd'
  exact Option.some.inj hd'

end LogTracker

end Ziplog
