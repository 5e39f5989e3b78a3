import Ziplog.Proxy.SlotScheduler
import Ziplog.Zipper.SlotAllocator

/-!
# The queue of slots

The two queues of a scheduler side by side, and what each operation does to them. The assertion of
`load_slots` holds for lists of pairs (`loadSlots_eq`).
-/

namespace Ziplog

namespace SlotScheduler

/-- The slots of a scheduler. -/
def queue (sch : SlotScheduler) : List (ℕ × ℕ) := sch.timeouts.zip sch.sequences

/-- What `load_slots` asserts. -/
def Balanced (sch : SlotScheduler) : Prop := sch.timeouts.length = sch.sequences.length

theorem balanced_init : init.Balanced := rfl

theorem balanced_loadSlots {sch sch' : SlotScheduler} {orderingValues : List ℕ}
    (h : sch.loadSlots orderingValues = some sch') : sch'.Balanced := by
  unfold loadSlots at h
  simp only at h
  split_ifs at h with hlen
  cases h
  exact hlen

theorem balanced_popNextSlot {sch sch' : SlotScheduler} {slot : ℕ × ℕ} (hsch : sch.Balanced)
    (h : sch.popNextSlot = some (slot, sch')) : sch'.Balanced := by
  unfold popNextSlot at h
  split_ifs at h
  split at h <;> cases h
  rename_i hsequences htimeouts
  unfold Balanced at *
  rw [hsequences, htimeouts, List.length_cons, List.length_cons] at hsch
  exact Nat.succ.inj hsch

theorem balanced_pushFront {sch : SlotScheduler} (hsch : sch.Balanced) (ts seq : ℕ) :
    (sch.pushFront ts seq).Balanced := congrArg Nat.succ hsch

/-- The loop of `load_slots` on values in pairs. -/
theorem pushValues_eq {values : List ℕ} (h : values.length % 2 = 0) (sch : SlotScheduler) :
    sch.pushValues values = { sch with
      timeouts := sch.timeouts ++ (slotPairs values).map Prod.fst
      sequences := sch.sequences ++ (slotPairs values).map Prod.snd } := by
  induction values using slotPairs.induct generalizing sch with
  | case1 sendTime seq values ih =>
    rw [List.length_cons, List.length_cons] at h
    rw [pushValues, ih (by omega), slotPairs]
    simp only [List.map_cons, List.append_assoc, List.singleton_append]
  | case2 values hvalues =>
    rcases values with _ | ⟨x, _ | ⟨y, values⟩⟩
    · simp only [pushValues, slotPairs, List.map_nil, List.append_nil]
    · simp at h
    · exact absurd rfl (hvalues x y values)

/-- Values in pairs are loaded behind the slots that are there. -/
theorem loadSlots_eq {sch : SlotScheduler} (hsch : sch.Balanced) {values : List ℕ}
    (h : values.length % 2 = 0) :
    ∃ sch', sch.loadSlots values = some sch' ∧ sch'.queue = sch.queue ++ slotPairs values := by
  have hzip : ((slotPairs values).map Prod.fst).zip ((slotPairs values).map Prod.snd) =
      slotPairs values := by
    rw [List.zip_map', List.map_id'' fun _ => rfl]
  have hqueue : (sch.timeouts ++ (slotPairs values).map Prod.fst).zip
      (sch.sequences ++ (slotPairs values).map Prod.snd) = sch.queue ++ slotPairs values := by
    rw [List.zip_append hsch, hzip]
    rfl
  have hlen : (sch.timeouts ++ (slotPairs values).map Prod.fst).length =
      (sch.sequences ++ (slotPairs values).map Prod.snd).length := by
    simp only [List.length_append, List.length_map]
    rw [hsch]
  unfold loadSlots
  rw [pushValues_eq h]
  simp only
  split
  · rename_i htimeouts
    refine ⟨_, if_pos ?_, ?_⟩
    · exact hlen
    · exact hqueue
  · exact ⟨_, if_pos hlen, hqueue⟩

/-! ## The cached send time -/

/-- What a list for `load_slots` consists of: pairs of a send time and a number, none of them 0. -/
def ValidSlots (orderingValues : List ℕ) : Prop :=
  orderingValues.length % 2 = 0 ∧ ∀ value ∈ orderingValues, value ≠ 0

instance (orderingValues : List ℕ) : Decidable (ValidSlots orderingValues) :=
  inferInstanceAs (Decidable (_ ∧ _))

variable {sch sch' : SlotScheduler} {ts seq : ℕ}

theorem mem_of_mem_slotPairs {values : List ℕ} {x : ℕ × ℕ} (h : x ∈ slotPairs values) :
    x.1 ∈ values := by
  induction values using slotPairs.induct with
  | case1 timeout seq values ih =>
    rw [slotPairs] at h
    rcases List.mem_cons.mp h with rfl | h
    · exact List.mem_cons_self
    · exact List.mem_cons_of_mem _ (List.mem_cons_of_mem _ (ih h))
  | case2 values hvalues =>
    rw [slotPairs.eq_2 _ hvalues] at h
    cases h

theorem map_fst_queue (h : sch.Balanced) : sch.queue.map Prod.fst = sch.timeouts :=
  List.map_fst_zip (le_of_eq h)

theorem map_snd_queue (h : sch.Balanced) : sch.queue.map Prod.snd = sch.sequences :=
  List.map_snd_zip (le_of_eq h.symm)

theorem nextSend_loadSlots {values : List ℕ} (hnext : sch.nextSend = sch.timeouts.headD 0)
    (hvalues : values.length % 2 = 0) (hs : sch.loadSlots values = some sch') :
    sch'.nextSend = sch'.timeouts.headD 0 := by
  unfold loadSlots at hs
  rw [pushValues_eq hvalues] at hs
  simp only at hs
  split_ifs at hs
  cases hs
  split
  · rename_i heq
    rw [heq]
    rfl
  · rename_i heq
    rw [heq, hnext, (List.append_eq_nil_iff.mp heq).1]

/-- **Loading.** The new slots follow the old ones, and each of them can be popped. -/
theorem Aligned.loadSlots (h : sch.Aligned) {values : List ℕ} (hvalid : ValidSlots values) :
    ∃ sch', sch.loadSlots values = some sch' ∧ sch'.Aligned ∧
      sch'.queue = sch.queue ++ slotPairs values := by
  obtain ⟨sch', hsch', hqueue⟩ := loadSlots_eq h.length hvalid.1
  have hbalanced := balanced_loadSlots hsch'
  refine ⟨sch', hsch', ⟨hbalanced, nextSend_loadSlots h.nextSend hvalid.1 hsch', ?_⟩, hqueue⟩
  intro ts hts
  rw [← map_fst_queue hbalanced, hqueue, List.map_append, map_fst_queue h.length] at hts
  rcases List.mem_append.mp hts with hold | hnew
  · exact h.pos ts hold
  · obtain ⟨x, hx, rfl⟩ := List.mem_map.mp hnew
    exact Nat.pos_of_ne_zero (hvalid.2 _ (mem_of_mem_slotPairs hx))

theorem queue_popNextSlot (hs : sch.popNextSlot = some ((ts, seq), sch')) :
    sch.queue = (ts, seq) :: sch'.queue := by
  obtain ⟨sequences, timeouts, nextSend⟩ := sch
  unfold popNextSlot at hs
  split_ifs at hs
  split at hs <;> cases hs
  rename_i hsequences htimeouts
  subst hsequences htimeouts
  rfl

theorem queue_pushFront (sch : SlotScheduler) (ts seq : ℕ) :
    (sch.pushFront ts seq).queue = (ts, seq) :: sch.queue := rfl

/-- The cached send time is 0 exactly when there is no slot. -/
theorem Aligned.nextSend_eq_zero_iff (h : sch.Aligned) : sch.nextSend = 0 ↔ sch.timeouts = [] := by
  rw [h.nextSend]
  cases heq : sch.timeouts with
  | nil => exact ⟨fun _ => rfl, fun _ => rfl⟩
  | cons ts timeouts =>
    have hpos : 0 < ts := h.pos ts (heq ▸ List.mem_cons_self)
    exact ⟨fun hzero => absurd hzero (Nat.ne_of_gt hpos), nofun⟩

end SlotScheduler

end Ziplog
