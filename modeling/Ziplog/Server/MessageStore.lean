import Mathlib.Data.List.AList

/-!
# The message store of a server

The frames a server has stored, by the proxy that sent them and in the order of arrival. Nothing is
ever removed (`mem_stored_store`).
-/

namespace Ziplog

structure MessageStore (α : Type*) where
  messages : AList fun _ : ℕ => List α

namespace MessageStore

variable {α : Type*}

def empty : MessageStore α := ⟨∅⟩

/-- The frames of a proxy. -/
def stored (st : MessageStore α) (proxyId : ℕ) : List α := (st.messages.lookup proxyId).getD []

def store (st : MessageStore α) (proxyId : ℕ) (wire : α) : MessageStore α :=
  ⟨st.messages.insert proxyId (st.stored proxyId ++ [wire])⟩

theorem stored_store (st : MessageStore α) (proxyId : ℕ) (wire : α) (q : ℕ) :
    (st.store proxyId wire).stored q =
      if q = proxyId then st.stored proxyId ++ [wire] else st.stored q := by
  unfold store
  unfold stored
  split_ifs with h
  · rw [h, AList.lookup_insert]
    rfl
  · rw [AList.lookup_insert_ne h]

/-- A store adds one frame and keeps the others. -/
theorem mem_stored_store {st : MessageStore α} {proxyId : ℕ} {wire : α} {q : ℕ} {x : α} :
    x ∈ (st.store proxyId wire).stored q ↔ x ∈ st.stored q ∨ q = proxyId ∧ x = wire := by
  rw [stored_store]
  split_ifs with h
  · rw [h, List.mem_append, List.mem_singleton]
    tauto
  · tauto

/-- The frames in a snapshot are those of the proxies. -/
theorem mem_stored_iff {st : MessageStore α} {proxyId : ℕ} {x : α} :
    x ∈ st.stored proxyId ↔ ∃ e ∈ st.messages.entries, e.1 = proxyId ∧ x ∈ e.2 := by
  unfold stored
  constructor
  · intro hx
    cases hlookup : st.messages.lookup proxyId with
    | none =>
      rw [hlookup] at hx
      cases hx
    | some wires =>
      rw [hlookup] at hx
      exact ⟨⟨proxyId, wires⟩, AList.mem_lookup_iff.mp hlookup, rfl, hx⟩
  · rintro ⟨⟨q, wires⟩, he, rfl, hx⟩
    rw [AList.mem_lookup_iff.mpr he]
    exact hx

end MessageStore

end Ziplog
