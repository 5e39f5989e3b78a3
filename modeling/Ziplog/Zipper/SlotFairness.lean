import Ziplog.Zipper.SlotClock

/-!
# The slots of one allocation

One call of `compute_allocations` numbers the slots of all active proxies in the order of their
times, ties going to the smaller id. So the pairs of each proxy are a part of one ascending list
(`slotPairs_computeAllocations`), which depends on the registry as a set and not on the order in
which it is scanned (`computeAllocations_fair`).

Send times and numbers are 64-bit words: an epoch that ends behind the last time that a word can
hold, or a counter that wraps, breaks the order.
-/

namespace Ziplog

namespace SlotAllocator

/-! ## The pairs of a call -/

section

variable {τ : Type*} {D : Doubles τ} {nextEpoch : ℕ}

/-- The send times and numbers of the slots of a proxy, when the first slot gets number `count`. -/
def pairsOf (D : Doubles τ) (nextEpoch count : ℕ) (slots : List (τ × ℕ)) (p : ℕ) : List (ℕ × ℕ) :=
  ((slots.zipIdx count).filter fun e => e.1.2 = p).map fun e =>
    (nextEpoch + D.toTimestamp e.1.1, e.2)

theorem pairsOf_cons (slot : τ × ℕ) (slots : List (τ × ℕ)) (count p : ℕ) :
    pairsOf D nextEpoch count (slot :: slots) p =
      (if slot.2 = p then [(nextEpoch + D.toTimestamp slot.1, count)] else []) ++
        pairsOf D nextEpoch (count + 1) slots p := by
  unfold pairsOf
  rw [List.zipIdx_cons, List.filter_cons]
  simp only [decide_eq_true_eq]
  split_ifs <;> rfl

/-- **Recording** adds the pairs of the slots, as long as no word overflows. -/
theorem slotPairs_foldlM_recordSlot {slots : List (τ × ℕ)} {r r' : Recording} {count : ℕ}
    (heven : ∀ p, (r.result.get p).length % 2 = 0)
    (hglobal : r.allocator.globalSeqNum = count % 2 ^ 64) (hcount : count + slots.length ≤ 2 ^ 64)
    (htimes : ∀ slot ∈ slots, nextEpoch + D.toTimestamp slot.1 < 2 ^ 64)
    (hfold : slots.foldlM (recordSlot D nextEpoch) r = some r') (p : ℕ) :
    slotPairs (r'.result.get p) =
      slotPairs (r.result.get p) ++ pairsOf D nextEpoch count slots p := by
  induction slots generalizing r count with
  | nil =>
    cases hfold
    exact (List.append_nil _).symm
  | cons slot slots ih =>
    obtain ⟨mid, hmid, hrest⟩ := foldlM_recordSlot_cons hfold
    obtain ⟨st, hst, rfl⟩ := Option.map_eq_some_iff.mp hmid
    rw [List.length_cons] at hcount
    rw [Nat.mod_eq_of_lt (by omega)] at hglobal
    have htime := Nat.mod_eq_of_lt (htimes slot List.mem_cons_self)
    simp only [hglobal, htime] at hrest
    have hpairs := @ih _ (count + 1) (fun q => Allocations.even_append heven _ _ _ q) rfl
      (by omega) (fun other hother => htimes other (List.mem_cons_of_mem _ hother)) hrest
    rw [hpairs, pairsOf_cons, ← List.append_assoc, Buckets.get_append]
    by_cases hp : p = slot.2
    · subst hp
      rw [if_pos rfl, if_pos rfl, slotPairs_append (heven slot.2)]
      rfl
    · rw [if_neg hp, if_neg (Ne.symm hp), List.append_nil]

theorem slotPairs_computeAllocations {a : SlotAllocator} {registry : ProxyRegistry}
    {epochDuration : ℕ} {r : Recording}
    (hcount : a.globalSeqNum + (a.timestamps D registry epochDuration).length ≤ 2 ^ 64)
    (hglobal : a.globalSeqNum < 2 ^ 64)
    (htimes : ∀ slot ∈ a.timestamps D registry epochDuration,
      nextEpoch + D.toTimestamp slot.1 < 2 ^ 64)
    (hcall : a.computeAllocations D registry nextEpoch epochDuration = some r) (p : ℕ) :
    slotPairs (r.result.get p) =
      pairsOf D nextEpoch a.globalSeqNum (a.timestamps D registry epochDuration) p :=
  slotPairs_foldlM_recordSlot (fun _ => rfl) (Nat.mod_eq_of_lt hglobal).symm hcount htimes hcall p

/-! ## The order of the scan -/

/-- Two recordings that agree, with registries that know the same. -/
structure Agree (r r' : Recording) : Prop where
  allocator : r'.allocator = r.allocator
  result : r'.result = r.result
  registry : ∀ p, r'.registry.lookup p = r.registry.lookup p

theorem Agree.recordSlot {slot : τ × ℕ} {r r' s : Recording} (h : Agree r r')
    (hslot : SlotAllocator.recordSlot D nextEpoch r slot = some s) :
    ∃ s', SlotAllocator.recordSlot D nextEpoch r' slot = some s' ∧ Agree s s' := by
  obtain ⟨st, hst, rfl⟩ := Option.map_eq_some_iff.mp hslot
  refine ⟨_, congrArg (Option.map _) ((h.registry slot.2).trans hst), ?_, ?_, fun p => ?_⟩
  · simp only [h.allocator]
  · simp only [h.allocator, h.result]
  · simp only [h.allocator]
    by_cases hp : p = slot.2
    · rw [hp, AList.lookup_insert, AList.lookup_insert]
    · rw [AList.lookup_insert_ne hp, AList.lookup_insert_ne hp]
      exact h.registry p

theorem Agree.foldlM_recordSlot {slots : List (τ × ℕ)} {r r' s : Recording} (h : Agree r r')
    (hfold : slots.foldlM (SlotAllocator.recordSlot D nextEpoch) r = some s) :
    ∃ s', slots.foldlM (SlotAllocator.recordSlot D nextEpoch) r' = some s' ∧ Agree s s' := by
  induction slots generalizing r r' with
  | nil =>
    cases hfold
    exact ⟨r', rfl, h⟩
  | cons slot slots ih =>
    obtain ⟨mid, hmid, hrest⟩ := foldlM_recordSlot_cons hfold
    obtain ⟨mid', hmid', hagree⟩ := h.recordSlot hmid
    obtain ⟨s', hs', hlast⟩ := ih hagree hrest
    exact ⟨s', by rw [List.foldlM_cons, hmid']; exact hs', hlast⟩

end

instance : Std.Antisymm NotAfter where
  antisymm x y hxy hyx := by
    rw [notAfter_iff] at hxy hyx
    rcases hxy with hlt | ⟨heq, hle⟩
    · rcases hyx with hgt | ⟨heq, -⟩
      · exact absurd hlt hgt.asymm
      · exact absurd heq hlt.ne'
    · rcases hyx with hgt | ⟨-, hge⟩
      · exact absurd heq hgt.ne'
      · exact Prod.ext heq (Nat.le_antisymm hle hge)

/-- The slots of an epoch are sorted without ties. -/
theorem timestamps_of_perm {a : SlotAllocator} {registry registry' : ProxyRegistry}
    {epochDuration : ℕ} (hperm : registry'.entries.Perm registry.entries) :
    a.timestamps exactDoubles registry' epochDuration =
      a.timestamps exactDoubles registry epochDuration := by
  refine List.Perm.eq_of_pairwise' (r := NotAfter) (List.pairwise_insertionSort NotAfter _)
    (List.pairwise_insertionSort NotAfter _) ?_
  exact ((List.perm_insertionSort _ _).trans (hperm.flatMap_right _)).trans
    (List.perm_insertionSort _ _).symm

/-! ## Fairness -/

/-- The pairs of all proxies, which the call was to place in the epoch from `nextEpoch` on. -/
structure Fair (nextEpoch epochDuration : ℕ) (result : Allocations) : Prop where
  ascending : ∀ p, (slotPairs (result.get p)).Pairwise fun x y => x.2 < y.2 ∧ x.1 ≤ y.1
  window : ∀ p, ∀ x ∈ slotPairs (result.get p), nextEpoch ≤ x.1 ∧ x.1 < nextEpoch + epochDuration
  ordered : ∀ p q, ∀ x ∈ slotPairs (result.get p), ∀ y ∈ slotPairs (result.get q),
    x.2 < y.2 → x.1 ≤ y.1

/-- Numbering a list keeps its order. -/
theorem pairwise_zipIdx {α : Type*} {R : α → α → Prop} {l : List α} (h : l.Pairwise R) (k : ℕ) :
    (l.zipIdx k).Pairwise fun x y => x.2 < y.2 ∧ R x.1 y.1 := by
  induction l generalizing k with
  | nil => exact .nil
  | cons a l ih =>
    obtain ⟨hhead, htail⟩ := List.pairwise_cons.mp h
    rw [List.zipIdx_cons]
    refine List.pairwise_cons.mpr ⟨fun x hx => ⟨?_, ?_⟩, ih htail (k + 1)⟩
    · exact List.le_snd_of_mem_zipIdx hx
    · exact hhead _ (List.fst_mem_of_mem_zipIdx hx)

theorem fair_of_pairsOf {a : SlotAllocator} {registry : ProxyRegistry}
    {nextEpoch epochDuration count : ℕ} {result : Allocations} (hd : 0 < epochDuration)
    (hpairs : ∀ p, slotPairs (result.get p) = pairsOf exactDoubles nextEpoch count
      (a.timestamps exactDoubles registry epochDuration) p) :
    Fair nextEpoch epochDuration result := by
  obtain ⟨hsorted, hplaces⟩ := a.sendTimes_timestamps registry hd
  have hnumbered := pairwise_zipIdx hsorted count
  refine ⟨fun p => ?_, fun p x hx => ?_, fun p q x hx y hy hlt => ?_⟩
  · rw [hpairs, pairsOf, List.pairwise_map]
    exact (hnumbered.filter _).imp fun h => ⟨h.1, Nat.add_le_add_left h.2 nextEpoch⟩
  · rw [hpairs] at hx
    obtain ⟨e, he, rfl⟩ := List.mem_map.mp hx
    have hplace := hplaces _ (List.fst_mem_of_mem_zipIdx (List.mem_filter.mp he).1)
    exact ⟨Nat.le_add_right _ _, Nat.add_lt_add_left hplace nextEpoch⟩
  · rw [hpairs] at hx hy
    obtain ⟨e, he, rfl⟩ := List.mem_map.mp hx
    obtain ⟨e', he', rfl⟩ := List.mem_map.mp hy
    obtain ⟨i, hi, rfl⟩ := List.getElem_of_mem (List.mem_filter.mp he).1
    obtain ⟨j, hj, rfl⟩ := List.getElem_of_mem (List.mem_filter.mp he').1
    rw [List.pairwise_iff_getElem] at hnumbered
    rcases Nat.lt_trichotomy i j with hij | rfl | hji
    · exact Nat.add_le_add_left (hnumbered i j hi hj hij).2 nextEpoch
    · exact absurd hlt (Nat.lt_irrefl _)
    · exact absurd hlt (hnumbered j i hj hi hji).1.asymm

/-- **The slot schedule is fair.** Each active proxy gets as many slots as it wants; as long as no
word overflows they lie in the epoch and follow the numbers; and the order in which the registry is
scanned does not matter. -/
theorem computeAllocations_fair (a : SlotAllocator) (registry : ProxyRegistry)
    (nextEpoch epochDuration : ℕ) :
    ∃ r, a.computeAllocations exactDoubles registry nextEpoch epochDuration = some r ∧
      (∀ p, (slotPairs (r.result.get p)).length = a.slotCount registry p) ∧
      (0 < epochDuration → nextEpoch + epochDuration ≤ 2 ^ 64 → a.globalSeqNum < 2 ^ 64 →
        a.globalSeqNum + (a.timestamps exactDoubles registry epochDuration).length ≤ 2 ^ 64 →
        Fair nextEpoch epochDuration r.result) ∧
      ∀ registry' : ProxyRegistry, registry'.entries.Perm registry.entries →
        (a.computeAllocations exactDoubles registry' nextEpoch epochDuration).map
          Recording.result = some r.result := by
  obtain ⟨r, hr⟩ := a.computeAllocations_isSome exactDoubles registry nextEpoch epochDuration
  refine ⟨r, hr, fun p => ?_, fun hd hepoch hglobal hcount => ?_, fun registry' hperm => ?_⟩
  · obtain ⟨hnone, hsome⟩ := lookup_computeAllocations hr p
    rw [length_slotPairs, Buckets.get]
    rcases Nat.eq_zero_or_pos (a.slotCount registry p) with hzero | hpos
    · rw [hnone hzero, hzero]
      rfl
    · obtain ⟨values, hvalues, hlen⟩ := hsome hpos
      rw [hvalues, Option.getD_some, hlen]
      omega
  · refine fair_of_pairsOf hd
      (slotPairs_computeAllocations hcount hglobal (fun slot hslot => ?_) hr)
    have hplace := (a.sendTimes_timestamps registry hd).2 slot hslot
    omega
  · have hagree : Agree ⟨a, registry, ∅⟩ ⟨a, registry', ∅⟩ :=
      ⟨rfl, rfl, fun p => AList.perm_lookup hperm⟩
    obtain ⟨r', hr', hlast⟩ := hagree.foldlM_recordSlot hr
    rw [computeAllocations, timestamps_of_perm hperm, hr', Option.map_some, hlast.result]

/-- An active proxy. -/
def activeProxy : ProxyState := { address := ⟨"127.0.0.1", 5000⟩, status := .active }

/-- Two proxies that want two slots and three, and are scanned in either order. -/
theorem computeAllocations_fair_two : ∃ r,
    (SlotAllocator.mk 1 ((AList.singleton 0 2).insert 1 3)).computeAllocations exactDoubles
      ((AList.singleton 0 activeProxy).insert 1 activeProxy) 8 12 = some r ∧
    (slotPairs (r.result.get 0)).length = 2 ∧ (slotPairs (r.result.get 1)).length = 3 ∧
    Fair 8 12 r.result ∧
    ((SlotAllocator.mk 1 ((AList.singleton 0 2).insert 1 3)).computeAllocations exactDoubles
      ((AList.singleton 1 activeProxy).insert 0 activeProxy) 8 12).map Recording.result =
        some r.result := by
  obtain ⟨r, hr, hlength, hfair, hperm⟩ :=
    computeAllocations_fair ⟨1, (AList.singleton 0 2).insert 1 3⟩
      ((AList.singleton 0 activeProxy).insert 1 activeProxy) 8 12
  refine ⟨r, hr, (hlength 0).trans (by decide), (hlength 1).trans (by decide),
    hfair (by decide) (by decide) (by decide) (by decide +kernel), hperm _ ?_⟩
  exact List.Perm.swap _ _ []

/-- An allocator at number `seq` for one proxy that wants `n` slots. -/
def oneProxy (seq n : ℕ) : SlotAllocator := ⟨seq, AList.singleton 0 n⟩

def oneProxyRegistry (status : ProxyStatus) : ProxyRegistry :=
  AList.singleton 0 { activeProxy with status := status }

/-- The pairs of the proxy in an epoch of length 4. -/
theorem exists_oneProxy {seq n nextEpoch : ℕ} {status : ProxyStatus} {pairs : List (ℕ × ℕ)}
    (h : ((oneProxy seq n).computeAllocations exactDoubles (oneProxyRegistry status) nextEpoch
      4).map (fun r => slotPairs (r.result.get 0)) = some pairs) :
    ∃ r, (oneProxy seq n).computeAllocations exactDoubles (oneProxyRegistry status) nextEpoch 4 =
      some r ∧ slotPairs (r.result.get 0) = pairs :=
  Option.map_eq_some_iff.mp h

/-- A proxy that is not active gets no slots; an epoch at the end of the clock puts a slot in front
of it; and a counter that wraps numbers the last slot 0. -/
theorem computeAllocations_not_fair :
    (¬ ∀ (a : SlotAllocator) (registry : ProxyRegistry) (nextEpoch epochDuration : ℕ)
      (r : Recording), 0 < epochDuration →
      a.computeAllocations exactDoubles registry nextEpoch epochDuration = some r →
      ∀ p, (registry.lookup p).isSome → (slotPairs (r.result.get p)).length = a.estimate p) ∧
    (¬ ∀ (a : SlotAllocator) (registry : ProxyRegistry) (nextEpoch epochDuration : ℕ)
      (r : Recording), 0 < epochDuration → nextEpoch < 2 ^ 64 →
      a.computeAllocations exactDoubles registry nextEpoch epochDuration = some r →
      ∀ p, ∀ x ∈ slotPairs (r.result.get p), nextEpoch ≤ x.1 ∧ x.1 < nextEpoch + epochDuration) ∧
    ¬ ∀ (a : SlotAllocator) (registry : ProxyRegistry) (nextEpoch epochDuration : ℕ)
      (r : Recording), 0 < epochDuration → a.globalSeqNum < 2 ^ 64 →
      a.computeAllocations exactDoubles registry nextEpoch epochDuration = some r →
      ∀ p q, ∀ x ∈ slotPairs (r.result.get p), ∀ y ∈ slotPairs (r.result.get q),
        x.2 < y.2 → x.1 ≤ y.1 := by
  refine ⟨fun h => ?_, fun h => ?_, fun h => ?_⟩
  · obtain ⟨r, hr, hpairs⟩ :=
      @exists_oneProxy 1 1 8 .blocked [] (by decide +kernel)
    have hlen := h _ _ 8 4 r (by decide) hr 0 (by decide)
    rw [hpairs] at hlen
    exact absurd hlen (by decide)
  · obtain ⟨r, hr, hpairs⟩ :=
      @exists_oneProxy 1 1 (2 ^ 64 - 1) .active [(1, 1)] (by decide +kernel)
    have hwindow := h _ _ _ 4 r (by decide) (by decide) hr 0 (1, 1)
    rw [hpairs] at hwindow
    exact absurd (hwindow (List.mem_singleton_self _)).1 (by decide)
  · obtain ⟨r, hr, hpairs⟩ :=
      @exists_oneProxy (2 ^ 64 - 1) 2 8 .active [(9, 2 ^ 64 - 1), (11, 0)] (by decide +kernel)
    have hordered := h _ _ 8 4 r (by decide) (by decide) hr 0 0 (11, 0)
    rw [hpairs] at hordered
    exact absurd (hordered (by decide) (9, 2 ^ 64 - 1) (by decide) (by decide)) (by decide)

end SlotAllocator

end Ziplog
