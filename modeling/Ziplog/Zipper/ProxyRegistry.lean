import Mathlib.Data.Finset.Card
import Mathlib.Data.List.AList
import Ziplog.Api.Types

/-!
# What the zipper knows about the proxies

One `ProxyState` for each proxy: its address, its slots, and the state of a reconfiguration. The
slot allocator and the reconfiguration manager share the registry.
-/

namespace Ziplog

inductive ProxyStatus
  | active
  | reconfiguring
  | blocked
  deriving DecidableEq, Repr

structure ProxyState where
  address : Address
  estimate : ℕ := 0
  allocatedSequences : List ℕ := []
  status : ProxyStatus := .active
  freezeRound : ℕ := 0
  freezeResponders : Finset ℕ := ∅
  reporters : Finset ℕ := ∅
  lastSequences : Finset ℕ := ∅

namespace ProxyState

/-- A server reports the proxy. -/
def addReporter (st : ProxyState) (sender : ℕ) : ProxyState :=
  { st with reporters := insert sender st.reporters }

/-- A server answers the current freeze round. -/
def addResponse (st : ProxyState) (sender seq : ℕ) : ProxyState :=
  { st with
    freezeResponders := insert sender st.freezeResponders
    lastSequences := insert seq st.lastSequences }

/-- A freeze round starts. -/
def startRound (st : ProxyState) (firstRound : Bool) : ProxyState :=
  { st with
    freezeRound := if firstRound then 1 else st.freezeRound + 1
    freezeResponders := ∅
    lastSequences := ∅ }

def setStatus (st : ProxyState) (status : ProxyStatus) : ProxyState :=
  { st with status := status }

/-- `allocated_sequences.push_back`. -/
def allocate (st : ProxyState) (seq : ℕ) : ProxyState :=
  { st with allocatedSequences := st.allocatedSequences ++ [seq] }

end ProxyState

abbrev ProxyRegistry := AList fun _ : ℕ => ProxyState

namespace ProxyRegistry

def addProxy (registry : ProxyRegistry) (id : ℕ) (address : Address) : ProxyRegistry :=
  registry.insert id { address := address }

/-- Everything but the address is reset. -/
def rejoinProxy (registry : ProxyRegistry) (id : ℕ) : ProxyRegistry :=
  match registry.lookup id with
  | none => registry
  | some st => registry.insert id { address := st.address }

/-- A proxy that has rejoined is known as active, and nothing else about it. -/
theorem lookup_rejoinProxy {registry : ProxyRegistry} {id : ℕ} {st : ProxyState}
    (h : (registry.rejoinProxy id).lookup id = some st) :
    ∃ address, st = { address := address } := by
  unfold rejoinProxy at h
  cases hlookup : registry.lookup id with
  | none =>
    rw [hlookup] at h
    cases hlookup.symm.trans h
  | some old =>
    rw [hlookup] at h
    exact ⟨_, Option.some.inj ((AList.lookup_insert _).symm.trans h).symm⟩

/-- The registry of a starting zipper: the proxies of the configuration, numbered in order. -/
def ofConfig (proxies : List Address) : ProxyRegistry :=
  (proxies.zipIdx).foldl (fun registry entry => registry.addProxy entry.2 entry.1) ∅

theorem lookup_foldl_addProxy (proxies : List Address) (k : ℕ) (registry : ProxyRegistry) (p : ℕ) :
    ((proxies.zipIdx k).foldl (fun registry entry => registry.addProxy entry.2 entry.1)
      registry).lookup p = if k ≤ p ∧ p < k + proxies.length then
        proxies[p - k]?.map fun address => { address := address } else registry.lookup p := by
  induction proxies generalizing k registry with
  | nil => rw [if_neg fun h => Nat.not_lt.mpr h.1 h.2, List.zipIdx_nil, List.foldl_nil]
  | cons address proxies ih =>
    rw [List.zipIdx_cons, List.foldl_cons, ih, List.length_cons]
    by_cases hafter : k + 1 ≤ p ∧ p < k + 1 + proxies.length
    · have hindex : p - k = p - (k + 1) + 1 := by omega
      rw [if_pos hafter, if_pos (by omega), hindex, List.getElem?_cons_succ]
    · rw [if_neg hafter]
      unfold addProxy
      by_cases hself : p = k
      · subst hself
        rw [if_pos (by omega), AList.lookup_insert, Nat.sub_self, List.getElem?_cons_zero]
        rfl
      · rw [if_neg (by omega), AList.lookup_insert_ne hself]

/-- A starting zipper knows each proxy under its index, with its address and nothing else. -/
theorem lookup_ofConfig_eq (proxies : List Address) (p : ℕ) :
    (ofConfig proxies).lookup p = proxies[p]?.map fun address => { address := address } := by
  unfold ofConfig
  rw [lookup_foldl_addProxy, Nat.zero_add, Nat.sub_zero]
  split_ifs with hlt
  · rfl
  · rw [List.getElem?_eq_none (by omega), AList.lookup_empty]
    rfl

/-- A starting zipper knows each proxy as active, and nothing else about it. -/
theorem lookup_ofConfig {proxies : List Address} {p : ℕ} {st : ProxyState}
    (h : (ofConfig proxies).lookup p = some st) : ∃ address, st = { address := address } := by
  rw [lookup_ofConfig_eq] at h
  obtain ⟨address, -, rfl⟩ := Option.map_eq_some_iff.mp h
  exact ⟨address, rfl⟩

end ProxyRegistry

end Ziplog
