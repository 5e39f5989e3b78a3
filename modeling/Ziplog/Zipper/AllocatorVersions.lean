import Ziplog.Library.ValueMaps
import Ziplog.Zipper.Allocation

/-!
# The two versions of the slot allocator

`slot_allocator_og.cpp` keeps the estimate of a proxy in its entry of the registry;
`slot_allocator.cpp` keeps it in a map of its own. An entry that is registered again starts without
an estimate, and the map still has the old one. The two versions return the same allocations as long
as every active proxy has sent an estimate since it was registered last, or had asked for nothing
before; at the first call where this fails they return different ones (`versions_agree`).
-/

namespace Ziplog

open ValueMaps

variable {τ : Type*}

namespace ProxyRegistry

/-- The entry of a proxy is changed in place. -/
def modify (registry : ProxyRegistry) (id : ℕ) (f : ProxyState → ProxyState) : ProxyRegistry :=
  mapValues (fun q st => if q = id then f st else st) registry

def setStatus (registry : ProxyRegistry) (id : ℕ) (status : ProxyStatus) : ProxyRegistry :=
  registry.modify id fun st => st.setStatus status

theorem lookup_modify (registry : ProxyRegistry) (id : ℕ) (f : ProxyState → ProxyState) (q : ℕ) :
    (registry.modify id f).lookup q =
      (registry.lookup q).map fun st => if q = id then f st else st :=
  lookup_mapValues _ _ _

end ProxyRegistry

/-! ## The old version -/

namespace SlotAllocatorOg

/-- `update_estimate` of the old version. -/
def updateEstimate (registry : ProxyRegistry) (proxyId numRequests : ℕ) : ProxyRegistry :=
  if registry.lookup proxyId = none then registry
  else registry.modify proxyId fun st => { st with estimate := numRequests }

/-- The slots of one proxy, evenly spaced over the epoch. -/
def slotsOf (D : Doubles τ) (epochDuration proxyId : ℕ) (st : ProxyState) : List (τ × ℕ) :=
  if st.status ≠ .active then []
  else if st.estimate = 0 then []
  else
    let interval := D.div (D.ofNat epochDuration) (D.ofNat st.estimate)
    (SlotAllocator.timePoints D interval st.estimate (D.div interval (D.ofNat 2))).map (·, proxyId)

def timestamps (D : Doubles τ) (registry : ProxyRegistry) (epochDuration : ℕ) : List (τ × ℕ) :=
  (registry.entries.flatMap fun e => slotsOf D epochDuration e.1 e.2).insertionSort
    fun x y => D.before y x = false

/-- `compute_allocations` of the old version. The map of estimates plays no part in it. -/
def computeAllocations (a : SlotAllocator) (D : Doubles τ) (registry : ProxyRegistry)
    (nextEpoch epochDuration : ℕ) : Option Recording :=
  (timestamps D registry epochDuration).foldlM (SlotAllocator.recordSlot D nextEpoch)
    ⟨a, registry, ∅⟩

end SlotAllocatorOg

/-! ## Runs -/

/-- What the callers of an allocator do, one after another. -/
inductive AllocatorOp
  | updateEstimate (proxyId numRequests : ℕ)
  | addProxy (proxyId : ℕ) (address : Address)
  | setStatus (proxyId : ℕ) (status : ProxyStatus)
  | rejoinProxy (proxyId : ℕ)
  | computeAllocations (nextEpoch epochDuration : ℕ)

/-- An allocator with its registry and what its calls returned. -/
structure AllocatorState where
  allocator : SlotAllocator
  registry : ProxyRegistry
  returned : List Allocations

namespace AllocatorState

def init (startingSeq : UInt64) (registry : ProxyRegistry) : AllocatorState :=
  ⟨.init startingSeq, registry, []⟩

def record (s : AllocatorState) (r : Recording) : AllocatorState :=
  ⟨r.allocator, r.registry, s.returned ++ [r.result]⟩

def step (D : Doubles τ) (s : AllocatorState) : AllocatorOp → Option AllocatorState
  | .updateEstimate proxyId numRequests =>
    some { s with allocator := s.allocator.updateEstimate proxyId numRequests }
  | .addProxy proxyId address => some { s with registry := s.registry.addProxy proxyId address }
  | .setStatus proxyId status => some { s with registry := s.registry.setStatus proxyId status }
  | .rejoinProxy proxyId => some { s with registry := s.registry.rejoinProxy proxyId }
  | .computeAllocations nextEpoch epochDuration =>
    (s.allocator.computeAllocations D s.registry nextEpoch epochDuration).map s.record

/-- The same with the old version. -/
def stepOg (D : Doubles τ) (s : AllocatorState) : AllocatorOp → Option AllocatorState
  | .updateEstimate proxyId numRequests =>
    some { s with registry := SlotAllocatorOg.updateEstimate s.registry proxyId numRequests }
  | .addProxy proxyId address => some { s with registry := s.registry.addProxy proxyId address }
  | .setStatus proxyId status => some { s with registry := s.registry.setStatus proxyId status }
  | .rejoinProxy proxyId => some { s with registry := s.registry.rejoinProxy proxyId }
  | .computeAllocations nextEpoch epochDuration =>
    (SlotAllocatorOg.computeAllocations s.allocator D s.registry nextEpoch epochDuration).map
      s.record

/-- The numbers that were given to a proxy, as its entry has them. -/
def allocatedSequences (s : AllocatorState) (p : ℕ) : Option (List ℕ) :=
  (s.registry.lookup p).map ProxyState.allocatedSequences

end AllocatorState

/-- Both versions after the same operations. The last two fields are read off the operations: the
proxies that have sent an estimate since they were registered last, and the estimate that each
proxy was registered with. -/
structure Versions where
  new : AllocatorState
  og : AllocatorState
  since : Finset ℕ
  registeredWith : ℕ → ℕ

namespace Versions

def init (startingSeq : UInt64) (registry : ProxyRegistry) : Versions where
  new := .init startingSeq registry
  og := .init startingSeq registry
  since := ∅
  registeredWith := fun p => ((registry.lookup p).map ProxyState.estimate).getD 0

/-- The proxy is registered, or registered again, without an estimate. -/
def register (s : Versions) (p : ℕ) : Versions :=
  { s with since := s.since.erase p, registeredWith := Function.update s.registeredWith p 0 }

/-- What an operation says about estimates. -/
def track (s : Versions) : AllocatorOp → Versions
  | .updateEstimate p _ =>
    if s.og.registry.lookup p = none then s else { s with since := insert p s.since }
  | .addProxy p _ => s.register p
  | .rejoinProxy p => if s.og.registry.lookup p = none then s else s.register p
  | .setStatus .. | .computeAllocations .. => s

def step (D : Doubles τ) (s : Versions) (op : AllocatorOp) : Option Versions :=
  (s.new.step D op).bind fun new =>
    (s.og.stepOg D op).map fun og => { s.track op with new := new, og := og }

/-- Both versions from the same registry and the same number on. -/
def both (D : Doubles τ) (startingSeq : UInt64) (registry : ProxyRegistry) :
    Lts Versions AllocatorOp :=
  ⟨init startingSeq registry, step D⟩

/-- The same maps were returned, and every proxy has the same numbers. -/
def Same (s : Versions) : Prop :=
  s.new.returned = s.og.returned ∧ ∀ p, s.new.allocatedSequences p = s.og.allocatedSequences p

/-- The last estimate of the proxy came after its last registration, or it asks for as much as the
proxy was registered with. -/
def UpToDate (s : Versions) (p : ℕ) : Prop :=
  p ∈ s.since ∨ s.new.allocator.estimate p = s.registeredWith p

/-- Slots are computed only when the estimates of all active proxies are up to date. -/
def Current (s : Versions) : AllocatorOp → Prop
  | .computeAllocations .. =>
    ∀ p ∈ s.new.registry.keys, ∀ st ∈ s.new.registry.lookup p, st.status = .active → s.UpToDate p
  | _ => True

instance (s : Versions) (op : AllocatorOp) : Decidable (s.Current op) :=
  match op with
  | .computeAllocations .. => by unfold Current UpToDate; infer_instance
  | .updateEstimate .. | .addProxy .. | .setStatus .. | .rejoinProxy _ => .isTrue trivial

end Versions

/-! ## Registries that agree up to estimates -/

/-- An entry without its estimate. -/
def ProxyState.forget (st : ProxyState) : ProxyState := { st with estimate := 0 }

theorem ProxyState.forget_allocate (st : ProxyState) (seq : ℕ) :
    (st.allocate seq).forget = st.forget.allocate seq := rfl

/-- The same proxies in the same order, with the same entries up to their estimates. -/
def Alike (registry registry' : ProxyRegistry) : Prop :=
  mapValues (fun _ st => ProxyState.forget st) registry =
    mapValues (fun _ st => ProxyState.forget st) registry'

namespace Alike

variable {registry registry' : ProxyRegistry}

theorem lookup (h : Alike registry registry') (p : ℕ) :
    (registry.lookup p).map ProxyState.forget = (registry'.lookup p).map ProxyState.forget := by
  have hlookup := congrArg (fun m : ProxyRegistry => m.lookup p) h
  simp only [lookup_mapValues] at hlookup
  exact hlookup

theorem lookup_some (h : Alike registry registry') {p : ℕ} {st : ProxyState}
    (hst : registry.lookup p = some st) :
    ∃ st', registry'.lookup p = some st' ∧ st'.forget = st.forget := by
  have hlookup := h.lookup p
  rw [hst] at hlookup
  exact Option.map_eq_some_iff.mp hlookup.symm

theorem lookup_none (h : Alike registry registry') (p : ℕ) :
    registry.lookup p = none ↔ registry'.lookup p = none := by
  rw [← Option.map_eq_none_iff (f := ProxyState.forget), h.lookup p, Option.map_eq_none_iff]

theorem insert (h : Alike registry registry') (p : ℕ) {st st' : ProxyState}
    (hst : st.forget = st'.forget) : Alike (registry.insert p st) (registry'.insert p st') := by
  unfold Alike
  rw [mapValues_insert, mapValues_insert, hst, h]

theorem setStatus (h : Alike registry registry') (p : ℕ) (status : ProxyStatus) :
    Alike (registry.setStatus p status) (registry'.setStatus p status) := by
  have hcomm : ∀ r : ProxyRegistry,
      mapValues (fun _ st => ProxyState.forget st) (r.setStatus p status) =
        mapValues (fun q st => if q = p then st.setStatus status else st)
          (mapValues (fun _ st => ProxyState.forget st) r) := by
    intro r
    unfold ProxyRegistry.setStatus ProxyRegistry.modify
    rw [mapValues_mapValues, mapValues_mapValues]
    congr 1
    funext q st
    split_ifs <;> rfl
  unfold Alike
  rw [hcomm, hcomm, h]

theorem addProxy (h : Alike registry registry') (p : ℕ) (address : Address) :
    Alike (registry.addProxy p address) (registry'.addProxy p address) := h.insert p rfl

theorem rejoinProxy (h : Alike registry registry') (p : ℕ) :
    Alike (registry.rejoinProxy p) (registry'.rejoinProxy p) := by
  unfold ProxyRegistry.rejoinProxy
  rcases hst : registry.lookup p with _ | st
  · rw [(h.lookup_none p).mp hst]
    exact h
  · obtain ⟨st', hst', hforget⟩ := h.lookup_some hst
    rw [hst']
    apply h.insert p
    have haddress : st'.address = st.address := (congrArg ProxyState.address hforget :)
    rw [haddress]

/-- An estimate makes no difference. -/
theorem updateEstimate (h : Alike registry registry') (p n : ℕ) :
    Alike registry (SlotAllocatorOg.updateEstimate registry' p n) := by
  unfold SlotAllocatorOg.updateEstimate
  split_ifs
  · exact h
  · unfold Alike ProxyRegistry.modify
    rw [mapValues_mapValues, h]
    congr 1
    funext q st
    split_ifs <;> rfl

end Alike

/-! ## One call -/

section Call

open SlotAllocator

variable {D : Doubles τ} {nextEpoch epochDuration : ℕ} {registry registry' : ProxyRegistry}

/-- The estimates that the entries of a registry hold. -/
def estimatesOf (registry : ProxyRegistry) : AList fun _ : ℕ => ℕ :=
  mapValues (fun _ st => st.estimate) registry

theorem estimate_of_entry (seq : ℕ) {p : ℕ} {st : ProxyState}
    (h : registry.lookup p = some st) :
    SlotAllocator.estimate ⟨seq, estimatesOf registry⟩ p = st.estimate := by
  unfold SlotAllocator.estimate estimatesOf
  rw [lookup_mapValues, h]
  rfl

/-- The old version is the new one with the estimates of the registry. -/
theorem timestamps_og (seq : ℕ) : SlotAllocatorOg.timestamps D registry epochDuration =
    SlotAllocator.timestamps ⟨seq, estimatesOf registry⟩ D registry epochDuration := by
  unfold SlotAllocatorOg.timestamps SlotAllocator.timestamps
  congr 1
  refine List.flatMap_congr fun e he => ?_
  unfold SlotAllocatorOg.slotsOf SlotAllocator.slotsOf
  rw [estimate_of_entry seq (AList.mem_lookup_iff.mpr he)]

/-- The slots depend on the registry up to estimates, and on the estimates of active proxies. -/
theorem timestamps_congr {a a' : SlotAllocator} (h : Alike registry registry')
    (hest : ∀ p st, registry'.lookup p = some st → st.status = .active →
      a.estimate p = a'.estimate p) :
    a.timestamps D registry epochDuration = a'.timestamps D registry' epochDuration := by
  unfold timestamps
  congr 1
  have hforget : ∀ r : ProxyRegistry,
      (r.entries.flatMap fun e => a.slotsOf D epochDuration e.1 e.2) =
        (mapValues (fun _ st => ProxyState.forget st) r).entries.flatMap
          fun e => a.slotsOf D epochDuration e.1 e.2 := by
    intro r
    show _ = (r.entries.map _).flatMap _
    rw [List.flatMap_map]
    rfl
  rw [hforget registry, h, ← hforget registry']
  refine List.flatMap_congr fun e he => ?_
  unfold slotsOf
  by_cases hactive : e.2.status = .active
  · rw [hest e.1 e.2 (AList.mem_lookup_iff.mpr he) hactive]
  · rw [if_pos hactive, if_pos hactive]

/-- Two recordings that agree up to estimates. -/
structure SameRecording (r r' : Recording) : Prop where
  seq : r.allocator.globalSeqNum = r'.allocator.globalSeqNum
  result : r.result = r'.result
  registry : Alike r.registry r'.registry

theorem recordSlot_same {r r' t : Recording} {slot : τ × ℕ} (h : SameRecording r r')
    (ht : recordSlot D nextEpoch r slot = some t) :
    ∃ t', recordSlot D nextEpoch r' slot = some t' ∧ SameRecording t t' := by
  obtain ⟨st, hst, rfl⟩ := Option.map_eq_some_iff.mp ht
  obtain ⟨st', hst', hforget⟩ := h.registry.lookup_some hst
  refine ⟨_, by unfold recordSlot; rw [hst']; rfl, ?_, ?_, ?_⟩
  · show (r.allocator.globalSeqNum + 1) % 2 ^ 64 = (r'.allocator.globalSeqNum + 1) % 2 ^ 64
    rw [h.seq]
  · show r.result.append slot.2 [_, _] = r'.result.append slot.2 [_, _]
    rw [h.result, h.seq]
  · show Alike (r.registry.insert slot.2 _) (r'.registry.insert slot.2 _)
    apply h.registry.insert
    rw [ProxyState.forget_allocate, ProxyState.forget_allocate, h.seq, hforget]

theorem foldlM_recordSlot_same {slots : List (τ × ℕ)} {r r' t : Recording}
    (h : SameRecording r r') (ht : slots.foldlM (recordSlot D nextEpoch) r = some t) :
    ∃ t', slots.foldlM (recordSlot D nextEpoch) r' = some t' ∧ SameRecording t t' := by
  induction slots generalizing r r' with
  | nil =>
    cases ht
    exact ⟨r', rfl, h⟩
  | cons slot slots ih =>
    obtain ⟨mid, hmid, hrest⟩ := foldlM_recordSlot_cons ht
    obtain ⟨mid', hmid', hsame⟩ := recordSlot_same h hmid
    obtain ⟨t', ht', hsame'⟩ := ih hsame hrest
    exact ⟨t', by rw [List.foldlM_cons, hmid']; exact ht', hsame'⟩

/-- A recording leaves the estimates as they are, in the map and in the registry. -/
theorem foldlM_recordSlot_estimates {slots : List (τ × ℕ)} {r t : Recording}
    (ht : slots.foldlM (recordSlot D nextEpoch) r = some t) :
    t.allocator.estimates = r.allocator.estimates ∧ ∀ p,
      (t.registry.lookup p).map ProxyState.estimate =
        (r.registry.lookup p).map ProxyState.estimate := by
  induction slots generalizing r with
  | nil =>
    cases ht
    exact ⟨rfl, fun _ => rfl⟩
  | cons slot slots ih =>
    obtain ⟨mid, hmid, hrest⟩ := foldlM_recordSlot_cons ht
    obtain ⟨hestimates, hentries⟩ := ih hrest
    obtain ⟨st, sendTime, hst, -, hallocator, hregistry, -⟩ := recordSlot_eq_some hmid
    refine ⟨by rw [hestimates, hallocator], fun p => ?_⟩
    rw [hentries, hregistry]
    by_cases hp : p = slot.2
    · rw [hp, AList.lookup_insert, hst]
      rfl
    · rw [AList.lookup_insert_ne hp]

/-- Calls of the two versions on registries that agree up to estimates, with the same estimates for
the active proxies. -/
theorem computeAllocations_same {a a' : SlotAllocator} {t : Recording}
    (hseq : a.globalSeqNum = a'.globalSeqNum) (halike : Alike registry registry')
    (hest : ∀ p st, registry'.lookup p = some st → st.status = .active →
      a.estimate p = st.estimate)
    (ht : a.computeAllocations D registry nextEpoch epochDuration = some t) :
    ∃ t', SlotAllocatorOg.computeAllocations a' D registry' nextEpoch epochDuration = some t' ∧
      SameRecording t t' := by
  have hslots : a.timestamps D registry epochDuration =
      SlotAllocatorOg.timestamps D registry' epochDuration := by
    rw [timestamps_og a'.globalSeqNum]
    refine timestamps_congr halike fun p st hst hactive => ?_
    rw [hest p st hst hactive, estimate_of_entry a'.globalSeqNum hst]
  unfold SlotAllocator.computeAllocations at ht
  unfold SlotAllocatorOg.computeAllocations
  rw [← hslots]
  have hstart : SameRecording ⟨a, registry, ∅⟩ ⟨a', registry', ∅⟩ := ⟨hseq, rfl, halike⟩
  exact foldlM_recordSlot_same hstart ht

/-- What a call of the old version returns is what the new one returns for the estimates of the
registry. -/
theorem computeAllocations_og {a : SlotAllocator} :
    ∃ t t', SlotAllocatorOg.computeAllocations a D registry nextEpoch epochDuration = some t ∧
      SlotAllocator.computeAllocations ⟨a.globalSeqNum, estimatesOf registry⟩ D registry nextEpoch
        epochDuration = some t' ∧ t'.result = t.result := by
  obtain ⟨t', ht'⟩ := computeAllocations_isSome ⟨a.globalSeqNum, estimatesOf registry⟩ D registry
    nextEpoch epochDuration
  obtain ⟨t, ht, hsame⟩ := @computeAllocations_same τ D nextEpoch epochDuration registry registry
    ⟨a.globalSeqNum, estimatesOf registry⟩ a t' rfl rfl
    (fun p st hst _ => estimate_of_entry a.globalSeqNum hst) ht'
  exact ⟨t, t', ht, ht', hsame.result⟩

end Call

/-! ## The estimates of the two versions -/

theorem SlotAllocator.estimate_updateEstimate (a : SlotAllocator) (p n q : ℕ) :
    (a.updateEstimate p n).estimate q = if q = p then n else a.estimate q := by
  unfold updateEstimate estimate
  split_ifs with hq
  · rw [hq, AList.lookup_insert]
    rfl
  · rw [AList.lookup_insert_ne hq]

theorem SlotAllocatorOg.lookup_updateEstimate (registry : ProxyRegistry) (p n q : ℕ) :
    (SlotAllocatorOg.updateEstimate registry p n).lookup q =
      (registry.lookup q).map fun st => if q = p then { st with estimate := n } else st := by
  unfold updateEstimate
  by_cases hnone : registry.lookup p = none
  · rw [if_pos hnone]
    by_cases hq : q = p
    · rw [hq, hnone]
      rfl
    · rcases registry.lookup q with _ | st
      · rfl
      · rw [Option.map_some, if_neg hq]
  · rw [if_neg hnone]
    exact ProxyRegistry.lookup_modify _ _ _ _

namespace Versions

variable {D : Doubles τ} {s t : Versions} {op : AllocatorOp}

/-- The entry of a proxy holds the estimate that it has sent since it was registered, or the one it
was registered with. -/
def Tracked (s : Versions) : Prop :=
  ∀ p st, s.og.registry.lookup p = some st →
    st.estimate = if p ∈ s.since then s.new.allocator.estimate p else s.registeredWith p

/-- What a step does to both versions. -/
theorem step_eq_some (h : s.step D op = some t) :
    ∃ new og, s.new.step D op = some new ∧ s.og.stepOg D op = some og ∧
      t = { s.track op with new := new, og := og } := by
  obtain ⟨new, hnew, h⟩ := Option.bind_eq_some_iff.mp h
  obtain ⟨og, hog, rfl⟩ := Option.map_eq_some_iff.mp h
  exact ⟨new, og, hnew, hog, rfl⟩

/-- A registered proxy has no estimate. -/
theorem tracked_register {p : ℕ} {new og : AllocatorState} (h : s.Tracked)
    (hnew : new.allocator = s.new.allocator)
    (hself : ∀ st, og.registry.lookup p = some st → st.estimate = 0)
    (hother : ∀ q, q ≠ p → og.registry.lookup q = s.og.registry.lookup q) :
    Tracked { s.register p with new := new, og := og } := by
  intro q st hst
  show st.estimate = if q ∈ s.since.erase p then new.allocator.estimate q
    else Function.update s.registeredWith p 0 q
  by_cases hq : q = p
  · subst hq
    rw [if_neg (Finset.notMem_erase q s.since), Function.update_self]
    exact hself st hst
  · have htracked := h q st (by rw [← hother q hq]; exact hst)
    rw [hnew, Function.update_of_ne hq, htracked]
    simp only [Finset.mem_erase, ne_eq, hq, not_false_eq_true, true_and]

theorem tracked_updateEstimate {p n : ℕ} (h : s.Tracked)
    (hstep : s.step D (.updateEstimate p n) = some t) : t.Tracked := by
  obtain ⟨new, og, hnew, hog, rfl⟩ := step_eq_some hstep
  cases hnew
  cases hog
  intro q st hst
  replace hst : (SlotAllocatorOg.updateEstimate s.og.registry p n).lookup q = some st := hst
  rw [SlotAllocatorOg.lookup_updateEstimate] at hst
  obtain ⟨old, hold, rfl⟩ := Option.map_eq_some_iff.mp hst
  have htracked := h q old hold
  have hestimate := s.new.allocator.estimate_updateEstimate p n q
  by_cases hnone : s.og.registry.lookup p = none
  · have hq : q ≠ p := by
      rintro rfl
      rw [hnone] at hold
      cases hold
    rw [if_neg hq] at hestimate ⊢
    unfold track
    simp only [if_pos hnone]
    rw [hestimate]
    exact htracked
  · unfold track
    simp only [if_neg hnone]
    rw [hestimate]
    by_cases hq : q = p
    · rw [if_pos hq, if_pos hq, if_pos]
      rw [hq]
      exact Finset.mem_insert_self _ _
    · rw [if_neg hq, if_neg hq, htracked]
      simp only [Finset.mem_insert, hq, false_or]

/-- What the two versions have in common while the estimates are up to date. -/
structure Together (s : Versions) : Prop where
  seq : s.new.allocator.globalSeqNum = s.og.allocator.globalSeqNum
  alike : Alike s.new.registry s.og.registry
  returned : s.new.returned = s.og.returned
  tracked : s.Tracked

theorem together_init (startingSeq : UInt64) (registry : ProxyRegistry) :
    (init startingSeq registry).Together where
  seq := rfl
  alike := rfl
  returned := rfl
  tracked := by
    intro p st hst
    show st.estimate = ((registry.lookup p).map ProxyState.estimate).getD 0
    rw [show registry.lookup p = some st from hst]
    rfl

theorem Together.same (h : s.Together) : s.Same := by
  refine ⟨h.returned, fun p => ?_⟩
  unfold AllocatorState.allocatedSequences
  rcases hst : s.new.registry.lookup p with _ | st
  · rw [(h.alike.lookup_none p).mp hst]
  · obtain ⟨st', hst', hforget⟩ := h.alike.lookup_some hst
    have hnumbers : st'.allocatedSequences = st.allocatedSequences :=
      (congrArg ProxyState.allocatedSequences hforget :)
    rw [hst', Option.map_some, Option.map_some, hnumbers]

/-- The estimates on which the two versions work. -/
theorem Together.estimate_iff (h : s.Together) {p : ℕ} {st : ProxyState}
    (hst : s.og.registry.lookup p = some st) :
    s.new.allocator.estimate p = st.estimate ↔ s.UpToDate p := by
  rw [h.tracked p st hst]
  unfold UpToDate
  by_cases hsince : p ∈ s.since
  · rw [if_pos hsince]
    exact iff_of_true rfl (Or.inl hsince)
  · rw [if_neg hsince, or_iff_right hsince]

/-- One call, with estimates that are up to date. -/
theorem together_computeAllocations {nextEpoch epochDuration : ℕ} (h : s.Together)
    (hcurrent : s.Current (.computeAllocations nextEpoch epochDuration))
    (hstep : s.step D (.computeAllocations nextEpoch epochDuration) = some t) : t.Together := by
  obtain ⟨new, og, hnew, hog, rfl⟩ := step_eq_some hstep
  obtain ⟨r, hr, rfl⟩ := Option.map_eq_some_iff.mp hnew
  obtain ⟨r', hr', rfl⟩ := Option.map_eq_some_iff.mp hog
  have hest : ∀ p st, s.og.registry.lookup p = some st → st.status = .active →
      s.new.allocator.estimate p = st.estimate := by
    intro p st hst hactive
    rw [h.estimate_iff hst]
    obtain ⟨old, hold⟩ := Option.ne_none_iff_exists'.mp fun hnone =>
      Option.some_ne_none st (hst.symm.trans ((h.alike.lookup_none p).mp hnone))
    obtain ⟨st', hst', hforget⟩ := h.alike.lookup_some hold
    rw [hst] at hst'
    cases hst'
    have hstatus : st.status = old.status := (congrArg ProxyState.status hforget :)
    have hkey : p ∈ s.new.registry.keys := by
      rw [← AList.mem_keys, ← AList.lookup_isSome, hold]
      rfl
    exact hcurrent p hkey old hold (hstatus.symm.trans hactive)
  obtain ⟨r'', hr'', hsame⟩ := computeAllocations_same h.seq h.alike hest hr
  cases hr'.symm.trans hr''
  refine ⟨hsame.seq, hsame.registry, ?_, ?_⟩
  · show s.new.returned ++ [r.result] = s.og.returned ++ [r'.result]
    rw [h.returned, hsame.result]
  · intro p st hst
    obtain ⟨hestimates, -⟩ := foldlM_recordSlot_estimates hr
    obtain ⟨-, hentries⟩ := foldlM_recordSlot_estimates hr'
    have hentry := hentries p
    rw [show r'.registry.lookup p = some st from hst] at hentry
    obtain ⟨old, hold, holdest⟩ := Option.map_eq_some_iff.mp hentry.symm
    have htracked := h.tracked p old hold
    have hsameEstimate : r.allocator.estimate p = s.new.allocator.estimate p := by
      unfold SlotAllocator.estimate
      rw [hestimates]
    show st.estimate = if p ∈ s.since then r.allocator.estimate p else s.registeredWith p
    rw [hsameEstimate, ← htracked, holdest]

/-- **One operation** keeps the versions together. -/
theorem Together.step (h : s.Together) (hcurrent : s.Current op) (hstep : s.step D op = some t) :
    t.Together := by
  rcases op with ⟨p, n⟩ | ⟨p, address⟩ | ⟨p, status⟩ | p | ⟨nextEpoch, epochDuration⟩
  · have htracked := tracked_updateEstimate h.tracked hstep
    obtain ⟨new, og, hnew, hog, rfl⟩ := step_eq_some hstep
    cases hnew
    cases hog
    exact ⟨h.seq, h.alike.updateEstimate p n, h.returned, htracked⟩
  · obtain ⟨new, og, hnew, hog, rfl⟩ := step_eq_some hstep
    cases hnew
    cases hog
    refine ⟨h.seq, h.alike.addProxy p address, h.returned, ?_⟩
    refine tracked_register h.tracked rfl (fun st hst => ?_) fun q hq => AList.lookup_insert_ne hq
    cases (AList.lookup_insert _).symm.trans hst
    rfl
  · obtain ⟨new, og, hnew, hog, rfl⟩ := step_eq_some hstep
    cases hnew
    cases hog
    refine ⟨h.seq, h.alike.setStatus p status, h.returned, fun q st hst => ?_⟩
    replace hst : (s.og.registry.setStatus p status).lookup q = some st := hst
    rw [ProxyRegistry.setStatus, ProxyRegistry.lookup_modify] at hst
    obtain ⟨old, hold, rfl⟩ := Option.map_eq_some_iff.mp hst
    have hkept : (if q = p then old.setStatus status else old).estimate = old.estimate := by
      split_ifs <;> rfl
    rw [hkept]
    exact h.tracked q old hold
  · obtain ⟨new, og, hnew, hog, rfl⟩ := step_eq_some hstep
    cases hnew
    cases hog
    refine ⟨h.seq, h.alike.rejoinProxy p, h.returned, ?_⟩
    unfold track
    by_cases hnone : s.og.registry.lookup p = none
    · simp only [if_pos hnone]
      intro q st hst
      replace hst : (s.og.registry.rejoinProxy p).lookup q = some st := hst
      unfold ProxyRegistry.rejoinProxy at hst
      rw [hnone] at hst
      exact h.tracked q st hst
    · simp only [if_neg hnone]
      refine tracked_register h.tracked rfl (fun st hst => ?_) fun q hq => ?_
      · obtain ⟨address, rfl⟩ := ProxyRegistry.lookup_rejoinProxy hst
        rfl
      · show (s.og.registry.rejoinProxy p).lookup q = _
        unfold ProxyRegistry.rejoinProxy
        rcases hst : s.og.registry.lookup p with _ | st
        · rfl
        · exact AList.lookup_insert_ne hq
  · exact together_computeAllocations h hcurrent hstep

/-- A call for an active proxy whose estimate is not up to date. -/
theorem Together.not_same (h : s.Together) (hstale : ¬s.Current op) (hstep : s.step D op = some t) :
    ¬t.Same := by
  rcases op with _ | _ | _ | _ | ⟨nextEpoch, epochDuration⟩
  case computeAllocations =>
    unfold Current at hstale
    push Not at hstale
    obtain ⟨p, -, st, hst, hactive, hp⟩ := hstale
    obtain ⟨st', hst', hforget⟩ := h.alike.lookup_some hst
    have hstatus : st'.status = st.status := (congrArg ProxyState.status hforget :)
    rw [← h.estimate_iff hst'] at hp
    obtain ⟨new, og, hnew, hog, rfl⟩ := step_eq_some hstep
    obtain ⟨r, hr, rfl⟩ := Option.map_eq_some_iff.mp hnew
    obtain ⟨r', hr', rfl⟩ := Option.map_eq_some_iff.mp hog
    rintro ⟨hreturned, -⟩
    replace hreturned : s.new.returned ++ [r.result] = s.og.returned ++ [r'.result] := hreturned
    rw [h.returned] at hreturned
    have hresult := List.singleton_inj.mp (List.append_cancel_left hreturned)
    obtain ⟨u, u', hu, hu', hsame⟩ := @computeAllocations_og _ D nextEpoch epochDuration
      s.og.registry s.og.allocator
    cases hr'.symm.trans hu
    have hlength := SlotAllocator.length_get_computeAllocations hr p
    have hlength' := SlotAllocator.length_get_computeAllocations hu' p
    unfold SlotAllocator.slotCount at hlength hlength'
    rw [hst, Option.map_some, if_pos hactive, hresult, ← hsame, hlength', hst', Option.map_some,
      if_pos (hstatus.trans hactive), estimate_of_entry _ hst'] at hlength
    apply hp
    simp only [Option.getD_some] at hlength
    omega
  all_goals exact absurd trivial hstale

theorem together_of_reachVia {startingSeq : UInt64} {registry : ProxyRegistry}
    (h : (both D startingSeq registry).ReachVia Current s) : s.Together :=
  h.invariant Together (together_init startingSeq registry)
    fun _ _ _ _ hi hcurrent hstep => hi.step hcurrent hstep

/-- No operation is refused. -/
theorem exists_step (D : Doubles τ) (s : Versions) (op : AllocatorOp) :
    ∃ t, s.step D op = some t := by
  rcases op with _ | _ | _ | _ | ⟨nextEpoch, epochDuration⟩
  case computeAllocations =>
    obtain ⟨r, hr⟩ := SlotAllocator.computeAllocations_isSome s.new.allocator D s.new.registry
      nextEpoch epochDuration
    obtain ⟨r', -, hr', -, -⟩ := @computeAllocations_og _ D nextEpoch epochDuration s.og.registry
      s.og.allocator
    refine ⟨{ s with new := s.new.record r, og := s.og.record r' }, ?_⟩
    unfold Versions.step AllocatorState.step AllocatorState.stepOg
    simp only [hr, hr', Option.map_some, Option.bind_some]
    rfl
  all_goals exact ⟨_, rfl⟩

/-- **The two versions agree** in every run whose calls find the estimates of all active proxies up
to date, and return different maps at the first call that does not. -/
theorem versions_agree (D : Doubles τ) (startingSeq : UInt64) (registry : ProxyRegistry)
    (s : Versions) (h : (both D startingSeq registry).ReachVia Current s) :
    s.Same ∧ ∀ (op : AllocatorOp) (t : Versions), ¬s.Current op → s.step D op = some t →
      ¬t.Same := by
  have htogether := together_of_reachVia h
  exact ⟨htogether.same, fun op t hstale hstep => htogether.not_same hstale hstep⟩

/-- A proxy that sends an estimate again after it has rejoined. -/
theorem versions_agree_rejoined :
    ∃ s : Versions, s.new.returned.map (fun m => (m.get 0).length) = [4, 2] ∧ s.Same ∧
      ∀ (op : AllocatorOp) (t : Versions), ¬s.Current op → s.step wholeNumbers op = some t →
        ¬t.Same := by
  have hrun : ((both wholeNumbers 1 (.ofConfig [⟨"a", 1⟩])).runVia
      (fun s op => decide (s.Current op))
      [.updateEstimate 0 2, .computeAllocations 100 8, .rejoinProxy 0, .updateEstimate 0 1,
        .computeAllocations 200 8] (init 1 (.ofConfig [⟨"a", 1⟩]))).any
      (fun s => decide (s.new.returned.map (fun m => (m.get 0).length) = [4, 2])) = true := by
    decide +kernel
  obtain ⟨s, hreach, hs⟩ := (both wholeNumbers 1 (.ofConfig [⟨"a", 1⟩])).exists_reachVia_of_run
    (fun s op => of_decide_eq_true) hrun
  exact ⟨s, of_decide_eq_true hs, versions_agree _ _ _ s hreach⟩

/-- After a rejoin the new version still goes by the old estimate. -/
theorem not_versions_agree :
    ¬∀ (D : Doubles ℕ) (startingSeq : UInt64) (registry : ProxyRegistry) (s : Versions),
      (both D startingSeq registry).Reach s → s.Same := by
  intro hall
  have hrun : ((both wholeNumbers 1 (.ofConfig [⟨"a", 1⟩])).run
      [.updateEstimate 0 2, .rejoinProxy 0, .computeAllocations 100 8]
      (init 1 (.ofConfig [⟨"a", 1⟩]))).any
      (fun s => decide (s.new.returned.map (fun m => (m.get 0).length) = [4] ∧
        s.og.returned.map (fun m => (m.get 0).length) = [0])) = true := by
    decide +kernel
  obtain ⟨s, hreach, hs⟩ :=
    (both wholeNumbers 1 (.ofConfig [⟨"a", 1⟩])).exists_reach_of_run hrun
  obtain ⟨hnew, hog⟩ := of_decide_eq_true hs
  rw [(hall _ _ _ s hreach).1, hog] at hnew
  exact absurd hnew (by decide)

end Versions

end Ziplog
