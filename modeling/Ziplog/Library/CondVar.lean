import Mathlib.Data.List.Nodup

/-!
# Condition variables

The threads in `wait` on one condition variable, each with what it goes on with once it has the
lock again. A thread in `wait` is asleep until it is notified, or until it wakes up by itself, and
woken from then on until it has the lock. `notify_one` wakes one of the threads that are asleep and
is lost when there is none; which one is open, so the thread is an argument. `notify_all` wakes all
that are asleep.

`NoneMissed` says that no thread sleeps although it could go on. Going to sleep keeps it when the
thread has just found that it cannot, and `notify_all` makes it true whatever has changed.
-/

/-- The threads in `wait`. -/
structure CondVar (ι α : Type*) where
  asleep : List (ι × α)
  woken : List (ι × α)

namespace CondVar

variable {ι α : Type*}

/-- No thread is in `wait`. -/
def empty : CondVar ι α := ⟨[], []⟩

/-- Thread `i` gives the lock back and falls asleep. -/
def wait (c : CondVar ι α) (i : ι) (x : α) : CondVar ι α :=
  { c with asleep := c.asleep ++ [(i, x)] }

/-- `notify_all` wakes every thread. -/
def notifyAll (c : CondVar ι α) : CondVar ι α := ⟨[], c.woken ++ c.asleep⟩

/-- Thread `i` is in `wait`. -/
def Waiting (c : CondVar ι α) (i : ι) : Prop :=
  i ∈ c.asleep.map Prod.fst ∨ i ∈ c.woken.map Prod.fst

/-- The threads in `wait`, asleep or woken. -/
def waiters (c : CondVar ι α) : List (ι × α) := c.asleep ++ c.woken

/-- Each thread is in `wait` once. -/
def Distinct (c : CondVar ι α) : Prop := (c.waiters.map Prod.fst).Nodup

/-- No thread is asleep that is `ready`. -/
def NoneMissed (c : CondVar ι α) (ready : ι → α → Prop) : Prop :=
  ∀ i x, (i, x) ∈ c.asleep → ¬ ready i x

theorem waiting_iff {c : CondVar ι α} {i : ι} : c.Waiting i ↔ i ∈ c.waiters.map Prod.fst := by
  rw [waiters, List.map_append, List.mem_append]
  rfl

theorem not_waiting_iff {c : CondVar ι α} {i : ι} :
    ¬ c.Waiting i ↔ i ∉ c.waiters.map Prod.fst := not_congr waiting_iff

theorem waiting_congr {c c' : CondVar ι α} (h : c'.waiters.Perm c.waiters) (i : ι) :
    c'.Waiting i ↔ c.Waiting i := by
  rw [waiting_iff, waiting_iff]
  exact (h.map Prod.fst).mem_iff

/-! ## Falling asleep and `notify_all` -/

theorem waiters_wait (c : CondVar ι α) (i : ι) (x : α) :
    (c.wait i x).waiters.Perm ((i, x) :: c.waiters) := by
  unfold waiters wait
  rw [List.append_assoc, List.singleton_append]
  exact List.perm_middle

theorem waiting_wait {c : CondVar ι α} {i j : ι} {x : α} :
    (c.wait i x).Waiting j ↔ j = i ∨ c.Waiting j := by
  rw [waiting_iff, waiting_iff, ((waiters_wait c i x).map Prod.fst).mem_iff, List.map_cons,
    List.mem_cons]

theorem waiters_notifyAll (c : CondVar ι α) : c.notifyAll.waiters.Perm c.waiters := by
  show (c.woken ++ c.asleep).Perm (c.asleep ++ c.woken)
  exact List.perm_append_comm

theorem Distinct.perm {c c' : CondVar ι α} (h : c.Distinct) (hp : c'.waiters.Perm c.waiters) :
    c'.Distinct := (hp.map Prod.fst).nodup_iff.mpr h

theorem Distinct.wait {c : CondVar ι α} (h : c.Distinct) {i : ι} (hi : ¬ c.Waiting i) (x : α) :
    (c.wait i x).Distinct := by
  refine ((waiters_wait c i x).map Prod.fst).nodup_iff.mpr ?_
  exact List.nodup_cons.mpr ⟨not_waiting_iff.mp hi, h⟩

section

variable {ready ready' : ι → α → Prop}

theorem NoneMissed.mono {c : CondVar ι α} (h : c.NoneMissed ready)
    (hready : ∀ i x, ready' i x → ready i x) : c.NoneMissed ready' := by
  intro i x hx hr
  exact h i x hx (hready i x hr)

theorem NoneMissed.wait {c : CondVar ι α} (h : c.NoneMissed ready) {i : ι} {x : α}
    (hx : ¬ ready i x) : (c.wait i x).NoneMissed ready := by
  intro j y hy
  rcases List.mem_append.mp hy with hy | hy
  · exact h j y hy
  · cases List.mem_singleton.mp hy
    exact hx

/-- **After `notify_all`** nobody is asleep. -/
theorem noneMissed_notifyAll (c : CondVar ι α) : c.notifyAll.NoneMissed ready :=
  fun _ _ hx => nomatch hx

end

variable [DecidableEq ι]

instance (c : CondVar ι α) (i : ι) : Decidable (c.Waiting i) := inferInstanceAs (Decidable (_ ∨ _))

/-- Thread `i`, which is asleep, wakes up. -/
def wake (c : CondVar ι α) (i : ι) : Option (CondVar ι α) :=
  (c.asleep.find? fun p => p.1 = i).map fun p =>
    { asleep := c.asleep.eraseP fun p => p.1 = i, woken := c.woken ++ [p] }

/-- `notify_one` wakes the thread `notified`, or none when no thread is asleep. -/
def notifyOne (c : CondVar ι α) : Option ι → Option (CondVar ι α)
  | none => if c.asleep = [] then some c else none
  | some notified => c.wake notified

/-- Thread `i`, which is woken, has the lock again. -/
def resume (c : CondVar ι α) (i : ι) : Option (α × CondVar ι α) :=
  (c.woken.find? fun p => p.1 = i).map fun p =>
    (p.2, { c with woken := c.woken.eraseP fun p => p.1 = i })

/-! ## What each operation does to the number of threads -/

theorem length_eraseP_of_find? {l : List (ι × α)} {i : ι} {p : ι × α}
    (h : (l.find? fun p => p.1 = i) = some p) :
    (l.eraseP fun p => p.1 = i).length + 1 = l.length := by
  have hmem := List.mem_of_find?_eq_some h
  have hpos := List.length_pos_of_mem hmem
  rw [List.length_eraseP_of_mem hmem (List.find?_some h)]
  omega

theorem length_wake {c c' : CondVar ι α} {i : ι} (h : c.wake i = some c') :
    c'.asleep.length + 1 = c.asleep.length ∧ c'.woken.length = c.woken.length + 1 := by
  obtain ⟨p, hp, rfl⟩ := Option.map_eq_some_iff.mp h
  exact ⟨length_eraseP_of_find? hp, List.length_append⟩

theorem wake_ne_of_nil {c c' : CondVar ι α} (h : c.asleep = []) {i : ι} : c.wake i ≠ some c' := by
  rw [wake, h]
  nofun

/-- **One notification** wakes one thread, unless all are awake. -/
theorem length_notifyOne {c c' : CondVar ι α} {notified : Option ι}
    (h : c.notifyOne notified = some c') :
    c'.asleep = [] ∨
      c'.asleep.length + 1 = c.asleep.length ∧ c'.woken.length = c.woken.length + 1 := by
  cases notified with
  | none =>
    rw [notifyOne] at h
    split at h
    · rename_i hempty
      cases h
      exact .inl hempty
    · cases h
  | some i => exact .inr (length_wake h)

theorem length_resume {c c' : CondVar ι α} {i : ι} {x : α} (h : c.resume i = some (x, c')) :
    c'.asleep = c.asleep ∧ c'.woken.length + 1 = c.woken.length := by
  obtain ⟨p, hp, heq⟩ := Option.map_eq_some_iff.mp h
  cases heq
  exact ⟨rfl, length_eraseP_of_find? hp⟩

/-- The thread woken first can always go on. -/
theorem resume_first {c : CondVar ι α} {i : ι} {x : α} {rest : List (ι × α)}
    (h : c.woken = (i, x) :: rest) : c.resume i = some (x, { c with woken := rest }) := by
  rw [resume, h, List.find?_cons_of_pos (by simp), List.eraseP_cons_of_pos (by simp)]
  rfl

/-! ## Which threads are in `wait` -/

theorem perm_of_find? {l : List (ι × α)} {i : ι} {p : ι × α}
    (h : (l.find? fun p => p.1 = i) = some p) : (p :: l.eraseP fun p => p.1 = i).Perm l := by
  induction l with
  | nil => cases h
  | cons q l ih =>
    by_cases hq : q.1 = i
    · rw [List.find?_cons_of_pos (by simpa using hq)] at h
      cases h
      rw [List.eraseP_cons_of_pos (by simpa using hq)]
    · rw [List.find?_cons_of_neg (by simpa using hq)] at h
      rw [List.eraseP_cons_of_neg (by simpa using hq)]
      exact (List.Perm.swap q p _).trans ((ih h).cons q)

theorem waiters_wake {c c' : CondVar ι α} {i : ι} (h : c.wake i = some c') :
    c'.waiters.Perm c.waiters := by
  obtain ⟨p, hp, rfl⟩ := Option.map_eq_some_iff.mp h
  have hmoved : ((c.asleep.eraseP fun p => p.1 = i) ++ (c.woken ++ [p])).Perm
      (p :: ((c.asleep.eraseP fun p => p.1 = i) ++ c.woken)) := by
    rw [← List.append_assoc]
    exact List.perm_append_comm
  exact hmoved.trans ((perm_of_find? hp).append_right c.woken)

theorem waiters_notifyOne {c c' : CondVar ι α} {notified : Option ι}
    (h : c.notifyOne notified = some c') : c'.waiters.Perm c.waiters := by
  cases notified with
  | none =>
    rw [notifyOne] at h
    split at h <;> cases h
    exact .refl _
  | some i => exact waiters_wake h

theorem waiters_resume {c c' : CondVar ι α} {i : ι} {x : α} (h : c.resume i = some (x, c')) :
    ((i, x) :: c'.waiters).Perm c.waiters := by
  obtain ⟨p, hp, heq⟩ := Option.map_eq_some_iff.mp h
  cases heq
  have hi : p.1 = i := by simpa using List.find?_some hp
  subst hi
  exact List.perm_middle.symm.trans ((perm_of_find? hp).append_left c.asleep)

theorem waiting_of_resume {c c' : CondVar ι α} {i : ι} {x : α} (h : c.resume i = some (x, c')) :
    c.Waiting i := by
  rw [waiting_iff]
  exact ((waiters_resume h).map Prod.fst).subset List.mem_cons_self

/-- A thread that has the lock again is not in `wait`. -/
theorem Distinct.resume {c c' : CondVar ι α} (h : c.Distinct) {i : ι} {x : α}
    (hr : c.resume i = some (x, c')) : c'.Distinct ∧ ¬ c'.Waiting i := by
  have hnodup := ((waiters_resume hr).map Prod.fst).nodup_iff.mpr h
  rw [List.map_cons, List.nodup_cons] at hnodup
  exact ⟨hnodup.2, not_waiting_iff.mpr hnodup.1⟩

theorem Distinct.waiting_resume {c c' : CondVar ι α} (h : c.Distinct) {i : ι} {x : α}
    (hr : c.resume i = some (x, c')) (j : ι) : c'.Waiting j ↔ c.Waiting j ∧ j ≠ i := by
  have hi := (h.resume hr).2
  have hmem := ((waiters_resume hr).map Prod.fst).mem_iff (a := j)
  rw [List.map_cons, List.mem_cons, ← waiting_iff, ← waiting_iff] at hmem
  constructor
  · intro hj
    refine ⟨hmem.mp (Or.inr hj), ?_⟩
    rintro rfl
    exact hi hj
  · rintro ⟨hj, hne⟩
    exact (hmem.mpr hj).resolve_left hne

/-- A woken thread gets the lock with what it went to sleep with. -/
theorem Distinct.resume_of_mem {c : CondVar ι α} (h : c.Distinct) {i : ι} {x : α}
    (hx : (i, x) ∈ c.woken) : ∃ c', c.resume i = some (x, c') := by
  have hnodup : (c.woken.map Prod.fst).Nodup := by
    unfold Distinct waiters at h
    rw [List.map_append] at h
    exact h.of_append_right
  obtain ⟨p, hp⟩ : ∃ p, (c.woken.find? fun p => p.1 = i) = some p := by
    rw [← Option.isSome_iff_exists, List.find?_isSome]
    exact ⟨(i, x), hx, by simp⟩
  have hi : p.1 = i := by simpa using List.find?_some hp
  have heq : p = (i, x) := List.inj_on_of_nodup_map hnodup (List.mem_of_find?_eq_some hp) hx hi
  subst heq
  exact ⟨_, Option.map_eq_some_iff.mpr ⟨_, hp, rfl⟩⟩

theorem asleep_subset_of_wake {c c' : CondVar ι α} {i : ι} (hw : c.wake i = some c') :
    c'.asleep.map Prod.fst ⊆ c.asleep.map Prod.fst := by
  obtain ⟨p, -, rfl⟩ := Option.map_eq_some_iff.mp hw
  exact List.map_subset _ List.eraseP_subset

/-- The thread that wakes up is asleep no more. -/
theorem Distinct.not_asleep_of_wake {c c' : CondVar ι α} (h : c.Distinct) {i : ι}
    (hw : c.wake i = some c') : i ∉ c'.asleep.map Prod.fst := by
  have hnodup := h.perm (waiters_wake hw)
  obtain ⟨p, hp, rfl⟩ := Option.map_eq_some_iff.mp hw
  have hi : p.1 = i := by simpa using List.find?_some hp
  unfold Distinct waiters at hnodup
  rw [List.map_append] at hnodup
  intro hmem
  exact hnodup.disjoint hmem (by simp [hi])

/-- **One notification** is enough when only thread `i` can be asleep. -/
theorem Distinct.asleep_of_notifyOne {c c' : CondVar ι α} (h : c.Distinct) {notified : Option ι}
    (hn : c.notifyOne notified = some c') {i : ι} (honly : ∀ j x, (j, x) ∈ c.asleep → j = i) :
    c'.asleep = [] := by
  rcases length_notifyOne hn with hempty | ⟨hlen, -⟩
  · exact hempty
  · have hnodup : (c.asleep.map Prod.fst).Nodup := by
      unfold Distinct waiters at h
      rw [List.map_append] at h
      exact h.of_append_left
    have hsub : c.asleep.map Prod.fst ⊆ [i] := by
      intro j hj
      obtain ⟨⟨j, x⟩, hmem, rfl⟩ := List.mem_map.mp hj
      exact List.mem_singleton.mpr (honly j x hmem)
    have hle := hnodup.length_le_of_subset hsub
    rw [List.length_map, List.length_singleton] at hle
    rw [← List.length_eq_zero_iff]
    omega

section

variable {ready : ι → α → Prop}

theorem NoneMissed.wake {c c' : CondVar ι α} (h : c.NoneMissed ready) {i : ι}
    (hw : c.wake i = some c') : c'.NoneMissed ready := by
  obtain ⟨p, -, rfl⟩ := Option.map_eq_some_iff.mp hw
  intro j y hy
  exact h j y (List.mem_of_mem_eraseP hy)

theorem NoneMissed.resume {c c' : CondVar ι α} (h : c.NoneMissed ready) {i : ι} {x : α}
    (hr : c.resume i = some (x, c')) : c'.NoneMissed ready := by
  rw [NoneMissed, (length_resume hr).1]
  exact h

end

end CondVar
