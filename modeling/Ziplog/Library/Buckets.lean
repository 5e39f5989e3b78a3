import Mathlib.Data.List.AList

/-!
# Lists by key

A map from keys to lists in which a key without an entry stands for the empty list. `append` adds to
the list of one key and leaves the others (`get_append`), and whatever is read off all lists grows
by what the one list gains (`flatMap_append_perm`).
-/

/-- A finite map from keys to lists. -/
abbrev Buckets (κ α : Type*) := AList fun _ : κ => List α

namespace Buckets

variable {κ α β : Type*} [DecidableEq κ]

def get (m : Buckets κ α) (k : κ) : List α := (m.lookup k).getD []

def append (m : Buckets κ α) (k : κ) (as : List α) : Buckets κ α := m.insert k (m.get k ++ as)

theorem lookup_append (m : Buckets κ α) (k : κ) (as : List α) (q : κ) :
    (m.append k as).lookup q = if q = k then some (m.get k ++ as) else m.lookup q := by
  unfold append
  split_ifs with h
  · rw [h, AList.lookup_insert]
  · rw [AList.lookup_insert_ne h]

theorem get_append (m : Buckets κ α) (k : κ) (as : List α) (q : κ) :
    (m.append k as).get q = if q = k then m.get k ++ as else m.get q := by
  unfold get
  rw [lookup_append]
  split_ifs <;> rfl

/-- Entries that each contribute copies of their own key. -/
theorem count_flatMap_replicate (f : κ → α → ℕ) {l : List (Sigma fun _ : κ => α)}
    (hl : l.NodupKeys) (k : κ) :
    (l.flatMap fun e => List.replicate (f e.1 e.2) e.1).count k =
      ((l.dlookup k).map (f k)).getD 0 := by
  induction l with
  | nil => rfl
  | cons e l ih =>
    obtain ⟨q, v⟩ := e
    rw [List.nodupKeys_cons] at hl
    rw [List.flatMap_cons, List.count_append, ih hl.2, List.count_replicate]
    by_cases hq : q = k
    · subst hq
      have hnone : l.dlookup q = none := List.dlookup_eq_none.mpr hl.1
      rw [hnone, List.dlookup_cons_eq]
      simp
    · have hrest : (⟨q, v⟩ :: l : List (Sigma fun _ : κ => α)).dlookup k = l.dlookup k :=
        List.dlookup_cons_ne l _ (Ne.symm hq)
      rw [hrest, if_neg (by simpa using hq), Nat.zero_add]

/-- Whatever `f` reads off the lists: all of it, in some order, grows by what `f` reads off the
longer list. -/
theorem flatMap_append_perm (f : List α → List β) (hnil : f [] = []) (m : Buckets κ α) (k : κ)
    {as : List α} {bs : List β} (hf : f (m.get k ++ as) = f (m.get k) ++ bs) :
    ((m.append k as).entries.flatMap fun e => f e.2).Perm
      ((m.entries.flatMap fun e => f e.2) ++ bs) := by
  have hentries : (m.append k as).entries = ⟨k, m.get k ++ as⟩ :: m.entries.kerase k :=
    AList.entries_insert
  rw [hentries, List.flatMap_cons, hf]
  by_cases hk : k ∈ m.entries.keys
  · obtain ⟨vs, before, after, -, heq, hkerase⟩ := List.exists_of_kerase hk
    have hget : m.get k = vs := by
      have hmem : (⟨k, vs⟩ : Sigma fun _ : κ => List α) ∈ m.entries := by
        rw [heq]
        exact List.mem_append_right _ List.mem_cons_self
      rw [get, AList.mem_lookup_iff.mpr hmem, Option.getD_some]
    rw [hkerase, heq, hget]
    simp only [List.flatMap_append, List.flatMap_cons]
    -- what `k` had goes back behind the entries before it, and the new part to the end
    apply List.perm_append_comm.trans
    simp only [List.append_assoc]
    apply List.Perm.append_left _
    rw [← List.append_assoc, ← List.append_assoc]
    exact List.Perm.append_right _ List.perm_append_comm
  · have hget : m.get k = [] := by
      rw [get, AList.lookup_eq_none.mpr hk, Option.getD_none]
    rw [List.kerase_of_notMem_keys hk, hget, hnil, List.nil_append]
    exact List.perm_append_comm

end Buckets
