import Mathlib.Data.List.Basic

/-!
# Writes that may be short

A stream that is written in units by calls of which each may take only a part of its unit. As long
as nobody writes behind a short write the stream is a sequence of whole units, with at most a part
of one at its end (`Intact.exists_units`).
-/

universe u

/-- A call that was given `unit` and took the first `accepted` elements. -/
structure Write (α : Type u) where
  unit : List α
  accepted : ℕ
  le : accepted ≤ unit.length

namespace Write

variable {α : Type u} {ws : List (Write α)}

def Whole (w : Write α) : Prop := w.accepted = w.unit.length

instance (w : Write α) : Decidable w.Whole := inferInstanceAs (Decidable (_ = _))

def taken (w : Write α) : List α := w.unit.take w.accepted

/-- What stands on the stream. -/
def stream (ws : List (Write α)) : List α := ws.flatMap taken

/-- Nobody has written behind a short write. -/
def Intact (ws : List (Write α)) : Prop := ∀ w ∈ ws.dropLast, w.Whole

theorem taken_of_whole {w : Write α} (h : w.Whole) : w.taken = w.unit :=
  List.take_of_length_le (Nat.le_of_eq h.symm)

/-- There is something to take from what is not taken whole. -/
theorem unit_ne_nil {w : Write α} (h : ¬ w.Whole) : w.unit ≠ [] := by
  intro hnil
  have hle := w.le
  apply h
  unfold Whole
  rw [hnil] at hle ⊢
  exact Nat.le_zero.mp hle

theorem intact_nil : Intact ([] : List (Write α)) := fun _ h => nomatch h

theorem intact_concat_iff (w : Write α) : Intact (ws ++ [w]) ↔ ∀ w' ∈ ws, w'.Whole := by
  unfold Intact
  rw [List.dropLast_concat]

/-- The units behind each other. -/
theorem stream_of_whole (h : ∀ w ∈ ws, w.Whole) : stream ws = (ws.map unit).flatten := by
  unfold stream
  rw [List.flatMap_def]
  exact congrArg _ (List.map_congr_left fun w hw => taken_of_whole (h w hw))

/-- **Whole units**, and at most a part of one at the end. -/
theorem Intact.exists_units (h : Intact ws) :
    ∃ (units : List (List α)) (rest : List α), stream ws = units.flatten ++ rest ∧
    (∀ xs ∈ units, ∃ w ∈ ws, w.unit = xs) ∧
      (rest = [] ∨ ∃ w ∈ ws, ¬ w.Whole ∧ rest = w.taken) := by
  rcases List.eq_nil_or_concat ws with rfl | ⟨front, w, rfl⟩
  · exact ⟨[], [], rfl, fun _ hunit => (nomatch hunit), Or.inl rfl⟩
  · rw [List.concat_eq_append] at h ⊢
    have hfront := (intact_concat_iff w).mp h
    have hself : w ∈ front ++ [w] := List.mem_append_right _ (List.mem_singleton_self _)
    have hunits : ∀ xs ∈ front.map unit, ∃ w' ∈ front ++ [w], w'.unit = xs := by
      intro xs hunit
      obtain ⟨w', hw', rfl⟩ := List.mem_map.mp hunit
      exact ⟨w', List.mem_append_left _ hw', rfl⟩
    have hstream : stream (front ++ [w]) = (front.map unit).flatten ++ w.taken := by
      rw [← stream_of_whole hfront]
      unfold stream
      rw [List.flatMap_append, List.flatMap_singleton]
    by_cases hw : w.Whole
    · refine ⟨front.map unit ++ [w.unit], [], ?_, fun xs hunit => ?_, Or.inl rfl⟩
      · rw [hstream, taken_of_whole hw, List.flatten_append, List.flatten_singleton,
          List.append_nil]
      · rcases List.mem_append.mp hunit with hold | hlast
        · exact hunits xs hold
        · exact ⟨w, hself, (List.mem_singleton.mp hlast).symm⟩
    · exact ⟨front.map unit, w.taken, hstream, hunits, Or.inr ⟨w, hself, hw, rfl⟩⟩

end Write
