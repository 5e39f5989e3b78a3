import Ziplog.Zipper.Allocation
import Ziplog.Zipper.Completions
import Ziplog.Zipper.FreezeAgreement

/-!
# Numbers that were handed out

The allocator scans the registry in one locked section and records the slots one by one after it,
while the manager freezes proxies and proxies rejoin. A number is safe while its proxy keeps it in
its record and is not blocked, because the record is read when the proxy is blocked; after that it
has to be settled: decided, or skipped. A rejoin empties the record, and a slot may be recorded for
a proxy that was blocked after the scan. `keptAndExact` says that numbers get lost in these two ways
and in no other.
-/

namespace Ziplog

/-- The task will send a skip for the number. -/
def ReconfigTask.skips (p seq : ℕ) : ReconfigTask → Bool
  | .sendSkips q lastSeq allocated => q == p && decide (lastSeq < seq) && allocated.contains seq
  | _ => false

namespace ReconfigState

variable {quorum p seq : ℕ} {s t : ReconfigState}

/-- The number is at most the last one decided for the proxy, or has been skipped, or a running
`send_freeze_complete` is about to skip it. -/
def Settled (s : ReconfigState) (p seq : ℕ) : Prop :=
  (∃ call ∈ s.completions, call.failedProxy = p ∧ seq ≤ call.lastSeq) ∨ .skip p seq ∈ s.sent ∨
    ∃ task ∈ s.tasks, task.skips p seq = true

instance (s : ReconfigState) (p seq : ℕ) : Decidable (s.Settled p seq) :=
  inferInstanceAs (Decidable (_ ∨ _ ∨ _))

/-- What has been decided and sent stays so. -/
theorem subset_step {e : ReconfigEvent} (hs : s.step quorum e = some t) :
    s.completions ⊆ t.completions ∧ s.sent ⊆ t.sent := by
  have hsub {α : Type} (l m : List α) : l ⊆ l ++ m := List.subset_append_left l m
  have hrefl {α : Type} (l : List α) : l ⊆ l := List.Subset.refl l
  cases effect_of_step hs with
  | consensus => exact ⟨hsub _ _, hrefl _⟩
  | broadcastFreeze | completed | skip => exact ⟨hrefl _, hsub _ _⟩
  | _ => exact ⟨hrefl _, hrefl _⟩

/-- A task waits until it goes on. -/
theorem mem_tasks_step {e : ReconfigEvent} (hs : s.step quorum e = some t) {task : ReconfigTask}
    (htask : task ∈ s.tasks) (hne : e ≠ .proceed task) : task ∈ t.tasks := by
  have herase (other : ReconfigTask) (h : e = .proceed other) : task ∈ (s.finish other).tasks := by
    refine (List.mem_erase_of_ne ?_).mpr htask
    rintro rfl
    exact hne h
  cases effect_of_step hs with
  | reconfiguring | noConsensus | consensus => exact List.mem_append_left _ htask
  | startRound | readRound | block | skip | used =>
    exact List.mem_append_left _ (herase _ rfl)
  | broadcastFreeze | completed => exact herase _ rfl
  | _ => exact htask

/-- The next section of a task that sends skips. -/
theorem proceed_sendSkips {lastSeq seq : ℕ} {allocated : List ℕ}
    (hs : s.step quorum (.proceed (.sendSkips p lastSeq (seq :: allocated))) = some t) :
    (lastSeq < seq → .skip p seq ∈ t.sent) ∧ .sendSkips p lastSeq allocated ∈ t.tasks := by
  simp only [step, proceed] at hs
  split_ifs at hs with htask hseq <;> cases hs
  · exact ⟨fun _ => List.mem_append_right _ (List.mem_singleton_self _),
      List.mem_append_right _ (List.mem_singleton_self _)⟩
  · exact ⟨fun hlt => absurd hlt hseq, List.mem_append_right _ (List.mem_singleton_self _)⟩

/-- **What is settled stays settled.** -/
theorem settled_step {e : ReconfigEvent} (h : s.Settled p seq) (hs : s.step quorum e = some t) :
    t.Settled p seq := by
  obtain ⟨hcompletions, hsent⟩ := subset_step hs
  rcases h with ⟨call, hcall, hp, hle⟩ | hskip | ⟨task, htask, hskips⟩
  · exact Or.inl ⟨call, hcompletions hcall, hp, hle⟩
  · exact Or.inr (Or.inl (hsent hskip))
  · by_cases he : e = .proceed task
    · subst he
      cases task with
      | sendSkips q lastSeq allocated =>
        simp only [ReconfigTask.skips, Bool.and_eq_true, beq_iff_eq, decide_eq_true_eq,
          List.contains_iff_mem] at hskips
        obtain ⟨⟨rfl, hlt⟩, hmem⟩ := hskips
        cases allocated with
        | nil => cases hmem
        | cons first rest =>
          obtain ⟨hfirst, hrest⟩ := proceed_sendSkips hs
          rcases List.mem_cons.mp hmem with rfl | hmem
          · exact Or.inr (Or.inl (hfirst hlt))
          · refine Or.inr (Or.inr ⟨_, hrest, ?_⟩)
            simp only [ReconfigTask.skips, Bool.and_eq_true, beq_iff_eq, decide_eq_true_eq,
              List.contains_iff_mem]
            exact ⟨⟨trivial, hlt⟩, hmem⟩
      | _ => cases hskips
    · exact Or.inr (Or.inr ⟨task, mem_tasks_step hs htask he, hskips⟩)

/-- A proxy is blocked together with the skips for what its record holds. -/
theorem settled_of_block {lastSeq : ℕ} (h : Grounded s)
    (hs : s.step quorum (.proceed (.sendFreezeComplete p lastSeq)) = some t) {st : ProxyState}
    (hst : s.registry.lookup p = some st) (hseq : seq ∈ st.allocatedSequences) :
    t.Settled p seq := by
  obtain ⟨hcompletions, -⟩ := subset_step hs
  cases effect_of_step hs with
  | @block _ _ st' htask hst' =>
    cases hst.symm.trans hst'
    rcases Nat.lt_or_ge lastSeq seq with hlt | hle
    · refine Or.inr (Or.inr ⟨_, List.mem_append_right _ (List.mem_singleton_self _), ?_⟩)
      simp only [ReconfigTask.skips, Bool.and_eq_true, beq_iff_eq, decide_eq_true_eq,
        List.contains_iff_mem]
      exact ⟨⟨trivial, hlt⟩, hseq⟩
    · obtain ⟨call, hcall, hp, rfl⟩ := h.blocks p lastSeq htask
      exact Or.inl ⟨call, hcompletions hcall, hp, hle⟩

/-- Only a rejoin and the recording of a slot change the record of a proxy. -/
theorem allocated_step {e : ReconfigEvent} (hs : s.step quorum e = some t)
    (hrejoin : e ≠ .rejoin p) (hallocate : ∀ seq, e ≠ .allocate p seq) :
    (t.registry.lookup p).map ProxyState.allocatedSequences =
      (s.registry.lookup p).map ProxyState.allocatedSequences := by
  by_cases hp : e.failedProxy = p
  · subst hp
    have hset : ∀ u v : ProxyState, t.registry.lookup e.failedProxy = some u →
        s.registry.lookup e.failedProxy = some v → u.allocatedSequences = v.allocatedSequences →
        (t.registry.lookup e.failedProxy).map ProxyState.allocatedSequences =
          (s.registry.lookup e.failedProxy).map ProxyState.allocatedSequences := by
      intro u v hu hv heq
      rw [hu, hv, Option.map_some, Option.map_some, heq]
    cases effect_of_step hs with
    | reported hst | waiting hst | noConsensus hst | consensus hst | reconfiguring hst =>
      exact hset _ _ (AList.lookup_insert _) hst rfl
    | startRound htask hst | block htask hst => exact hset _ _ (AList.lookup_insert _) hst rfl
    | rejoin => exact absurd rfl hrejoin
    | allocate => exact absurd rfl (hallocate _)
    | _ => rfl
  · rw [(sameFor_step hs hp).registry]

end ReconfigState

/-! ## The system -/

variable {τ : Type*}

/-- The allocator and the manager, with the call of `compute_allocations` that is under way. -/
structure HandoutState (τ : Type*) where
  zipper : ReconfigState
  allocator : SlotAllocator
  nextEpoch : ℕ
  /-- The slots still to be recorded. -/
  slots : List (τ × ℕ)
  result : Allocations
  /-- The numbers handed out, with their proxies. -/
  handed : List (ℕ × ℕ)

inductive HandoutEvent
  | updateEstimate (proxyId numRequests : ℕ)
  | scan (nextEpoch epochDuration : ℕ)
  | record
  | zipper (e : ReconfigEvent)
  deriving DecidableEq

namespace HandoutState

def init (startingSeq : UInt64) (proxies : List Address) : HandoutState τ :=
  ⟨.init proxies, .init startingSeq, 0, [], ∅, []⟩

/-- Calls of `compute_allocations` run on one thread, so a scan waits for the slots of the last. -/
def step (D : Doubles τ) (quorum : ℕ) (s : HandoutState τ) : HandoutEvent → Option (HandoutState τ)
  | .updateEstimate proxyId numRequests =>
    some { s with allocator := s.allocator.updateEstimate proxyId numRequests }
  | .scan nextEpoch epochDuration =>
    if s.slots = [] then
      some { s with
        nextEpoch := nextEpoch
        slots := s.allocator.timestamps D s.zipper.registry epochDuration
        result := ∅ }
    else none
  | .record =>
    match s.slots with
    | [] => none
    | slot :: slots =>
      (SlotAllocator.recordSlot D s.nextEpoch ⟨s.allocator, s.zipper.registry, s.result⟩ slot).map
        fun r =>
          { s with
            zipper := { s.zipper with registry := r.registry }
            allocator := r.allocator
            result := r.result
            slots := slots
            handed := s.handed ++ [(slot.2, s.allocator.globalSeqNum)] }
  | .zipper (.allocate ..) => none
  | .zipper e => (s.zipper.step quorum e).map fun z => { s with zipper := z }

theorem step_zipper {D : Doubles τ} {quorum : ℕ} {s : HandoutState τ} {e : ReconfigEvent}
    (he : ∀ p seq, e ≠ .allocate p seq) : s.step D quorum (.zipper e) =
      (s.zipper.step quorum e).map fun z => { s with zipper := z } := by
  cases e with
  | allocate p seq => exact absurd rfl (he p seq)
  | _ => rfl

/-- In the record of its proxy, which is not blocked. -/
def Recorded (s : HandoutState τ) (p seq : ℕ) : Prop :=
  ∃ st, s.zipper.registry.lookup p = some st ∧ st.status ≠ .blocked ∧ seq ∈ st.allocatedSequences

/-- No number that was handed out is forgotten. -/
def Kept (s : HandoutState τ) : Prop :=
  ∀ p seq, (p, seq) ∈ s.handed → s.Recorded p seq ∨ s.zipper.Settled p seq

/-- A proxy rejoins when it is blocked or all in its record is settled, and a slot is recorded while
its proxy is not blocked or the number is settled already. -/
def Careful (s : HandoutState τ) : HandoutEvent → Prop
  | .zipper (.rejoin p) => ∀ st ∈ s.zipper.registry.lookup p,
      st.status = .blocked ∨ ∀ seq ∈ st.allocatedSequences, s.zipper.Settled p seq
  | .record => ∀ slot ∈ s.slots.head?, ∀ st ∈ s.zipper.registry.lookup slot.2,
      st.status ≠ .blocked ∨ s.zipper.Settled slot.2 s.allocator.globalSeqNum
  | _ => True

instance (s : HandoutState τ) (e : HandoutEvent) : Decidable (s.Careful e) :=
  match e with
  | .zipper (.rejoin p) =>
    inferInstanceAs (Decidable (∀ st ∈ s.zipper.registry.lookup p, _ ∨ _))
  | .record => inferInstanceAs (Decidable (∀ slot ∈ s.slots.head?,
      ∀ st ∈ s.zipper.registry.lookup slot.2, _ ∨ _))
  | .updateEstimate .. | .scan .. | .zipper (.report ..) | .zipper (.freezeResponse ..)
  | .zipper (.proceed _) | .zipper (.allocate ..) => .isTrue trivial

end HandoutState

def handouts (D : Doubles τ) (quorum : ℕ) (startingSeq : UInt64) (proxies : List Address) :
    Lts (HandoutState τ) HandoutEvent :=
  ⟨HandoutState.init startingSeq proxies, HandoutState.step D quorum⟩

namespace HandoutState

open ReconfigState

variable {D : Doubles τ} {quorum : ℕ} {startingSeq : UInt64} {proxies : List Address}
  {s t : HandoutState τ}

/-! ## The invariant -/

/-- What a proxy has in its record was handed out to it, and is settled when it is blocked. -/
structure Inv (s : HandoutState τ) : Prop where
  grounded : Grounded s.zipper
  kept : s.Kept
  handed : ∀ p st, s.zipper.registry.lookup p = some st →
    ∀ seq ∈ st.allocatedSequences, (p, seq) ∈ s.handed
  blocked : ∀ p st, s.zipper.registry.lookup p = some st → st.status = .blocked →
    ∀ seq ∈ st.allocatedSequences, s.zipper.Settled p seq

theorem inv_init (startingSeq : UInt64) (proxies : List Address) :
    Inv (init startingSeq proxies : HandoutState τ) := by
  refine ⟨grounded_init proxies, fun p seq h => ?_, fun p st hst seq hseq => ?_,
    fun p st hst hstatus => ?_⟩
  · cases h
  · obtain ⟨address, rfl⟩ := ProxyRegistry.lookup_ofConfig hst
    cases hseq
  · obtain ⟨address, rfl⟩ := ProxyRegistry.lookup_ofConfig hst
    cases hstatus

/-- The steps that leave the records alone. -/
theorem Inv.zipper {e : ReconfigEvent} {z : ReconfigState} (h : Inv s)
    (hrejoin : ∀ p, e ≠ .rejoin p) (hallocate : ∀ p seq, e ≠ .allocate p seq)
    (hs : s.zipper.step quorum e = some z) : Inv { s with zipper := z } := by
  have hrecord : ∀ p, _ := fun p => allocated_step hs (hrejoin p) (hallocate p)
  have hback : ∀ p st', z.registry.lookup p = some st' →
      ∃ st, s.zipper.registry.lookup p = some st ∧
        st.allocatedSequences = st'.allocatedSequences := by
    intro p st' hst'
    have hmap := hrecord p
    rw [hst', Option.map_some] at hmap
    exact Option.map_eq_some_iff.mp hmap.symm
  have hblock : ∀ p st st', s.zipper.registry.lookup p = some st → st.status ≠ .blocked →
      z.registry.lookup p = some st' → st'.status = .blocked →
      ∀ seq ∈ st.allocatedSequences, z.Settled p seq := by
    intro p st st' hst hopen hst' hblocked seq hseq
    obtain ⟨lastSeq, rfl⟩ := eq_block_of_blocked hs hst hopen hst' hblocked
    exact settled_of_block h.grounded hs hst hseq
  refine ⟨grounded_step h.grounded hs, fun p seq hmem => ?_, fun p st' hst' seq hseq => ?_,
    fun p st' hst' hblocked seq hseq => ?_⟩
  · rcases h.kept p seq hmem with ⟨st, hst, hopen, hseq⟩ | hsettled
    · have hmap := hrecord p
      rw [hst, Option.map_some] at hmap
      obtain ⟨st', hst', heq⟩ := Option.map_eq_some_iff.mp hmap
      by_cases hblocked : st'.status = .blocked
      · exact Or.inr (hblock p st st' hst hopen hst' hblocked seq hseq)
      · exact Or.inl ⟨st', hst', hblocked, heq ▸ hseq⟩
    · exact Or.inr (settled_step hsettled hs)
  · obtain ⟨st, hst, heq⟩ := hback p st' hst'
    exact h.handed p st hst seq (heq ▸ hseq)
  · obtain ⟨st, hst, heq⟩ := hback p st' hst'
    by_cases hopen : st.status = .blocked
    · exact settled_step (h.blocked p st hst hopen seq (heq ▸ hseq)) hs
    · exact hblock p st st' hst hopen hst' hblocked seq (heq ▸ hseq)

/-- A rejoin empties a record. -/
theorem Inv.rejoin {p : ℕ} (h : Inv s) (hguard : s.Careful (.zipper (.rejoin p))) :
    Inv { s with zipper := { s.zipper with registry := s.zipper.registry.rejoinProxy p } } := by
  have hother : ∀ q, q ≠ p → (s.zipper.registry.rejoinProxy p).lookup q =
      s.zipper.registry.lookup q := fun q hq => lookup_rejoinProxy_ne hq.symm _
  refine ⟨⟨h.grounded.blocks, h.grounded.skips, h.grounded.sent⟩, fun q seq hmem => ?_,
    fun q st hst seq hseq => ?_, fun q st hst hblocked => ?_⟩
  · rcases h.kept q seq hmem with ⟨st, hst, hopen, hseq⟩ | hsettled
    · by_cases hq : q = p
      · subst hq
        rcases hguard st hst with hblocked | hall
        · exact absurd hblocked hopen
        · exact Or.inr (hall seq hseq)
      · exact Or.inl ⟨st, (hother q hq).trans hst, hopen, hseq⟩
    · exact Or.inr hsettled
  · by_cases hq : q = p
    · subst hq
      obtain ⟨address, rfl⟩ := ProxyRegistry.lookup_rejoinProxy hst
      cases hseq
    · exact h.handed q st ((hother q hq).symm.trans hst) seq hseq
  · by_cases hq : q = p
    · subst hq
      obtain ⟨address, rfl⟩ := ProxyRegistry.lookup_rejoinProxy hst
      cases hblocked
    · exact h.blocked q st ((hother q hq).symm.trans hst) hblocked

/-- What the recording of a slot does. -/
theorem eq_of_record (hs : s.step D quorum .record = some t) :
    ∃ slot slots st, s.slots = slot :: slots ∧ s.zipper.registry.lookup slot.2 = some st ∧
      t.zipper = s.zipper.setProxy slot.2 (st.allocate s.allocator.globalSeqNum) ∧
      t.handed = s.handed ++ [(slot.2, s.allocator.globalSeqNum)] := by
  simp only [step] at hs
  split at hs
  · cases hs
  · rename_i slot slots hslots
    obtain ⟨r, hr, rfl⟩ := Option.map_eq_some_iff.mp hs
    obtain ⟨st, sendTime, hst, -, -, hregistry, -⟩ := SlotAllocator.recordSlot_eq_some hr
    refine ⟨slot, slots, st, hslots, hst, ?_, rfl⟩
    show { s.zipper with registry := r.registry } = _
    rw [hregistry]
    rfl

/-- A slot is recorded. -/
theorem Inv.record (h : Inv s) (hguard : s.Careful .record)
    (hs : s.step D quorum .record = some t) : Inv t := by
  obtain ⟨slot, slots, st, hslots, hst, hzipper, hhanded⟩ := eq_of_record hs
  have hsafe : st.status ≠ .blocked ∨ s.zipper.Settled slot.2 s.allocator.globalSeqNum :=
    hguard slot (by rw [hslots]; rfl) st hst
  have hself : t.zipper.registry.lookup slot.2 =
      some (st.allocate s.allocator.globalSeqNum) := by
    rw [hzipper]
    exact AList.lookup_insert _
  have hother : ∀ q, q ≠ slot.2 →
      t.zipper.registry.lookup q = s.zipper.registry.lookup q := by
    intro q hq
    rw [hzipper]
    exact AList.lookup_insert_ne hq
  have hsettled : ∀ q seq, s.zipper.Settled q seq → t.zipper.Settled q seq := by
    intro q seq hseq
    rw [hzipper]
    exact hseq
  refine ⟨hzipper ▸ h.grounded.setProxy _ _, fun q seq hmem => ?_, fun q u hu seq hseq => ?_,
    fun q u hu hblocked seq hseq => ?_⟩
  · rw [hhanded] at hmem
    rcases List.mem_append.mp hmem with hold | hnew
    · rcases h.kept q seq hold with ⟨u, hu, hopen, hseq⟩ | hdone
      · by_cases hq : q = slot.2
        · subst hq
          cases hst.symm.trans hu
          exact Or.inl ⟨_, hself, hopen, List.mem_append_left _ hseq⟩
        · exact Or.inl ⟨u, (hother q hq).trans hu, hopen, hseq⟩
      · exact Or.inr (hsettled q seq hdone)
    · cases List.mem_singleton.mp hnew
      rcases hsafe with hopen | hdone
      · exact Or.inl ⟨_, hself, hopen, List.mem_append_right _ (List.mem_singleton_self _)⟩
      · exact Or.inr (hsettled _ _ hdone)
  · rw [hhanded]
    by_cases hq : q = slot.2
    · subst hq
      cases hself.symm.trans hu
      rcases List.mem_append.mp hseq with hold | hnew
      · exact List.mem_append_left _ (h.handed _ st hst seq hold)
      · rw [List.mem_singleton.mp hnew]
        exact List.mem_append_right _ (List.mem_singleton_self _)
    · exact List.mem_append_left _ (h.handed q u ((hother q hq).symm.trans hu) seq hseq)
  · apply hsettled q seq
    by_cases hq : q = slot.2
    · subst hq
      cases hself.symm.trans hu
      rcases List.mem_append.mp hseq with hold | hnew
      · exact h.blocked _ st hst hblocked seq hold
      · rw [List.mem_singleton.mp hnew]
        exact hsafe.resolve_left fun hopen => hopen hblocked
    · exact h.blocked q u ((hother q hq).symm.trans hu) hblocked seq hseq

/-- **What a step keeps.** -/
theorem inv_step {e : HandoutEvent} (h : Inv s) (hguard : s.Careful e)
    (hs : s.step D quorum e = some t) : Inv t := by
  cases e with
  | updateEstimate proxyId numRequests =>
    cases hs
    exact ⟨h.grounded, h.kept, h.handed, h.blocked⟩
  | scan nextEpoch epochDuration =>
    simp only [step] at hs
    split_ifs at hs
    cases hs
    exact ⟨h.grounded, h.kept, h.handed, h.blocked⟩
  | record => exact h.record hguard hs
  | zipper e =>
    cases e with
    | rejoin p =>
      cases hs
      exact h.rejoin hguard
    | allocate id seq => cases hs
    | report | freezeResponse | proceed =>
      rw [step_zipper (by rintro _ _ ⟨⟩)] at hs
      obtain ⟨z, hz, rfl⟩ := Option.map_eq_some_iff.mp hs
      exact h.zipper (by rintro _ ⟨⟩) (by rintro _ _ ⟨⟩) hz

theorem inv (h : (handouts D quorum startingSeq proxies).ReachVia Careful s) : Inv s :=
  h.invariant _ (inv_init startingSeq proxies) fun _ _ _ _ hinv hguard hs => inv_step hinv hguard hs

/-- A step that is not careful forgets a number. -/
theorem Inv.careful_of_kept {e : HandoutEvent} (h : Inv s) (hs : s.step D quorum e = some t)
    (hkept : t.Kept) : s.Careful e := by
  cases e with
  | updateEstimate => trivial
  | scan => trivial
  | record =>
    obtain ⟨slot, slots, st, hslots, hst, hzipper, hhanded⟩ := eq_of_record hs
    intro slot' hslot' st' hst'
    rw [hslots] at hslot'
    cases hslot'
    cases hst.symm.trans hst'
    have hmem : (slot.2, s.allocator.globalSeqNum) ∈ t.handed := by
      rw [hhanded]
      exact List.mem_append_right _ (List.mem_singleton_self _)
    rcases hkept _ _ hmem with ⟨u, hu, hopen, -⟩ | hsettled
    · rw [hzipper] at hu
      cases (AList.lookup_insert _).symm.trans hu
      exact Or.inl hopen
    · rw [hzipper] at hsettled
      exact Or.inr hsettled
  | zipper e =>
    cases e with
    | rejoin p =>
      cases hs
      intro st hst
      refine Or.inr fun seq hseq => ?_
      rcases hkept p seq (h.handed p st hst seq hseq) with ⟨u, hu, -, hseq'⟩ | hsettled
      · obtain ⟨address, rfl⟩ := ProxyRegistry.lookup_rejoinProxy hu
        cases hseq'
      · exact hsettled
    | _ => trivial

/-- **No number is forgotten** in a run whose steps are careful, and the next step of one forgets
a number exactly when it is not. -/
theorem keptAndExact (h : (handouts D quorum startingSeq proxies).ReachVia Careful s) :
    s.Kept ∧ ∀ e t, s.step D quorum e = some t → (t.Kept ↔ s.Careful e) :=
  ⟨(inv h).kept, fun _ _ hs => ⟨(inv h).careful_of_kept hs, fun hguard =>
    (inv_step (inv h) hguard hs).kept⟩⟩

/-- Of two numbers one is decided and the other skipped. -/
theorem keptAndExact_skipped : ∃ s, (handouts wholeNumbers 1 1 [⟨"127.0.0.1", 5000⟩]).ReachVia
    Careful s ∧ s.handed = [(0, 1), (0, 2)] ∧ .skip 0 2 ∈ s.zipper.sent ∧
      s.Kept ∧ ∀ e t, s.step wholeNumbers 1 e = some t → (t.Kept ↔ s.Careful e) := by
  obtain ⟨s, hs, hp⟩ := @Lts.exists_reachVia_of_run _ _
    (handouts wholeNumbers 1 1 [⟨"127.0.0.1", 5000⟩])
    Careful (fun s e => decide (s.Careful e)) (fun _ _ => of_decide_eq_true)
    [.updateEstimate 0 2, .scan 1000 12, .record, .record, .zipper (.report 7 0),
      .zipper (.proceed (.sendFreeze 0 true)), .zipper (.proceed (.readRound 0)),
      .zipper (.proceed (.broadcastFreeze 0 1)), .zipper (.freezeResponse 7 0 1 1),
      .zipper (.proceed (.sendFreezeComplete 0 1)),
      .zipper (.proceed (.sendSkips 0 1 [1, 2])), .zipper (.proceed (.sendSkips 0 1 [2]))]
    (fun s => decide (s.handed = [(0, 1), (0, 2)] ∧ .skip 0 2 ∈ s.zipper.sent)) (by decide)
  obtain ⟨hhanded, hsent⟩ := of_decide_eq_true hp
  exact ⟨s, hs, hhanded, hsent, keptAndExact hs⟩

/-- An active proxy rejoins and its record is emptied. -/
theorem not_kept : ¬ ∀ (quorum : ℕ) (startingSeq : UInt64) (proxies : List Address)
    (s : HandoutState ℕ), (handouts wholeNumbers quorum startingSeq proxies).Reach s → s.Kept := by
  intro h
  obtain ⟨s, hs, hp⟩ := @Lts.exists_reach_of_run _ _
    (handouts wholeNumbers 1 1 [⟨"127.0.0.1", 5000⟩])
    [.updateEstimate 0 1, .scan 1000 12, .record, .zipper (.rejoin 0)]
    (fun s => decide ((0, 1) ∈ s.handed ∧ ¬ s.zipper.Settled 0 1 ∧
      (s.zipper.registry.lookup 0).map ProxyState.allocatedSequences = some []))
    (by decide)
  obtain ⟨hhanded, hsettled, hempty⟩ := of_decide_eq_true hp
  rcases h 1 1 _ s hs 0 1 hhanded with ⟨st, hst, -, hseq⟩ | hdone
  · rw [hst, Option.map_some] at hempty
    rw [Option.some.inj hempty] at hseq
    cases hseq
  · exact hsettled hdone

end HandoutState

end Ziplog
