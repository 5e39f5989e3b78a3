import Mathlib.Data.List.AList

/-!
# Changing the values of a finite map

`mapValues f m` has the keys of `m` in the same order, with `f` applied to each value. Looking a key
up commutes with it, and so does an insertion.
-/

namespace ValueMaps

variable {α : Type*} {β γ δ : Type*}

/-- The keys are those of before. -/
theorem keys_map (f : α → β → γ) (l : List (Sigma fun _ : α => β)) :
    (l.map (Sigma.map id f) : List (Sigma fun _ : α => γ)).keys = l.keys := by
  unfold List.keys
  rw [List.map_map]
  rfl

def mapValues (f : α → β → γ) (m : AList fun _ : α => β) : AList fun _ : α => γ where
  entries := m.entries.map (Sigma.map id f)
  nodupKeys := by
    rw [List.NodupKeys, keys_map]
    exact m.nodupKeys

theorem mapValues_mapValues (f : α → β → γ) (g : α → γ → δ) (m : AList fun _ : α => β) :
    mapValues g (mapValues f m) = mapValues (fun a b => g a (f a b)) m := by
  apply AList.ext
  show (m.entries.map _).map _ = m.entries.map _
  rw [List.map_map]
  rfl

variable [DecidableEq α]

@[simp] theorem lookup_mapValues (f : α → β → γ) (m : AList fun _ : α => β) (a : α) :
    (mapValues f m).lookup a = (m.lookup a).map (f a) :=
  @List.dlookup_map₂ α _ (fun _ => β) (fun _ => γ) m.entries (fun a => f a) a

theorem map_kerase (f : α → β → γ) (l : List (Sigma fun _ : α => β)) (a : α) :
    (l.kerase a).map (Sigma.map id f) =
      (l.map (Sigma.map id f) : List (Sigma fun _ : α => γ)).kerase a := by
  induction l with
  | nil => rfl
  | cons e l ih =>
    obtain ⟨k, v⟩ := e
    have hcons : (⟨k, v⟩ :: l).map (Sigma.map id f) =
        (⟨k, f k v⟩ :: l.map (Sigma.map id f) : List (Sigma fun _ : α => γ)) := rfl
    rw [hcons]
    by_cases ha : a = k
    · rw [List.kerase_cons_eq ha, List.kerase_cons_eq ha]
    · rw [List.kerase_cons_ne ha, List.kerase_cons_ne ha, List.map_cons, ih]
      rfl

theorem mapValues_insert (f : α → β → γ) (m : AList fun _ : α => β) (a : α) (b : β) :
    mapValues f (m.insert a b) = (mapValues f m).insert a (f a b) := by
  apply AList.ext
  show (AList.insert a b m).entries.map _ = (AList.insert a (f a b) (mapValues f m)).entries
  rw [AList.entries_insert, AList.entries_insert, List.map_cons, map_kerase]
  rfl

end ValueMaps
