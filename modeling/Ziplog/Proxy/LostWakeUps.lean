import Ziplog.Proxy.BufferMonitor

/-!
# Lost wake-ups

The circular buffer is a first-in first-out list in every run. Its `pop` wakes one of the threads
that sleep in `push` for each cell it frees, and so there is always a woken thread on its way to
every free cell (`Covered`). `drain_all` frees all cells at once and wakes nobody: when a thread
sleeps, and there are fewer woken threads than cells, then these threads put their items and the
sleeper stays asleep at a buffer with space (`exists_lostWakeUp`).
-/

namespace Ziplog

namespace Monitor

variable {ι T σ τ : Type}

/-- The items put so far, in the order of the turns. -/
def inserted (m : Monitor ι T σ) : List T := m.responses.flatMap fun r => r.2.inserted

/-- The items taken so far, in the order of the turns. -/
def removed (m : Monitor ι T σ) : List T := m.responses.flatMap fun r => r.2.removed

/-- There is space, a thread sleeps in `push`, and no thread is on its way out of `wait`. -/
def LostWakeUp (C : BufferOps σ T) (m : Monitor ι T σ) : Prop :=
  C.hasSpace m.buffer = true ∧ m.cv.asleep ≠ [] ∧ m.cv.woken = []

instance (C : BufferOps σ T) (m : Monitor ι T σ) : Decidable (m.LostWakeUp C) :=
  inferInstanceAs (Decidable (_ ∧ _ ∧ _))

/-- `drain_all` is called only when no thread is asleep in `push`, or when at least as many threads
as the buffer has cells are already woken. -/
def DrainsAwake (capacity : ℕ) (m : Monitor ι T σ) : MonitorEvent ι T → Prop
  | .drainAll _ => m.cv.asleep = [] ∨ capacity ≤ m.cv.woken.length
  | _ => True

instance (capacity : ℕ) (m : Monitor ι T σ) (e : MonitorEvent ι T) :
    Decidable (m.DrainsAwake capacity e) :=
  match e with
  | .drainAll _ => inferInstanceAs (Decidable (_ ∨ _))
  | .push .. | .resume _ | .wakeUp _ | .tryPush .. | .pop .. | .peek _ => .isTrue trivial

theorem inserted_respond (m : Monitor ι T σ) (i : ι) (r : BufferResponse T) :
    (m.respond i r).inserted = m.inserted ++ r.inserted := by
  unfold inserted respond
  rw [List.flatMap_append, List.flatMap_singleton]

theorem removed_respond (m : Monitor ι T σ) (i : ι) (r : BufferResponse T) :
    (m.respond i r).removed = m.removed ++ r.removed := by
  unfold removed respond
  rw [List.flatMap_append, List.flatMap_singleton]

/-! ## First in, first out -/

variable {capacity : ℕ}

/-- The list holds what was put and not yet taken, in order. -/
structure Fifo (capacity : ℕ) (m : Monitor ι T (List T)) : Prop where
  length_le : m.buffer.length ≤ capacity
  inserted_eq : m.inserted = m.removed ++ m.buffer

/-- A call that puts and takes what the list gains and loses. -/
theorem Fifo.call {m : Monitor ι T (List T)} (h : m.Fifo capacity) {i : ι} {items : List T}
    {r : BufferResponse T} (hbalance : m.buffer ++ r.inserted = r.removed ++ items)
    (hlength : items.length ≤ capacity) : (m.call i items r).Fifo capacity := by
  refine ⟨hlength, ?_⟩
  unfold Monitor.call
  rw [inserted_respond, removed_respond]
  calc m.inserted ++ r.inserted = m.removed ++ (m.buffer ++ r.inserted) := by
        rw [h.inserted_eq, List.append_assoc]
    _ = m.removed ++ r.removed ++ items := by rw [hbalance, List.append_assoc]

theorem Fifo.attempt {m : Monitor ι T (List T)} (h : m.Fifo capacity) (i : ι) (item : T) :
    (m.attempt (fifoOps T capacity) i item).Fifo capacity := by
  unfold Monitor.attempt
  split
  · rename_i hspace
    apply h.call rfl
    show (m.buffer ++ [item]).length ≤ capacity
    rw [List.length_append]
    exact of_decide_eq_true hspace
  · exact ⟨h.length_le, h.inserted_eq⟩

variable [DecidableEq ι]

theorem Fifo.step {m m' : Monitor ι T (List T)} {e : MonitorEvent ι T} (h : m.Fifo capacity)
    (hstep : m.step (fifoOps T capacity) e = some m') : m'.Fifo capacity := by
  have hle := h.length_le
  have hcv : ∀ cv, Fifo capacity { m with cv } := fun _ => ⟨h.length_le, h.inserted_eq⟩
  have htail : m.buffer.tail.length ≤ capacity := by
    rw [List.length_tail]
    omega
  have hbalance : ∀ first, m.buffer.head? = first → m.buffer = first.toList ++ m.buffer.tail := by
    rintro first rfl
    cases m.buffer <;> rfl
  cases turn_of_step hstep with
  | push i item => exact h.attempt i item
  | @resume i item cv _ => exact (hcv cv).attempt i item
  | @wakeUp i cv _ => exact hcv cv
  | tryPush i item =>
    by_cases hfull : m.buffer.length = capacity
    · simp only [fifoOps, if_pos hfull]
      exact h.call (List.append_nil _) hle
    · simp only [fifoOps, if_neg hfull]
      apply h.call rfl
      rw [List.length_append, List.length_singleton]
      omega
  | popNone i notified hnone =>
    exact h.call ((List.append_nil _).trans (hbalance none hnone)) htail
  | @popSome i notified item cv hsome _ =>
    exact (hcv cv).call ((List.append_nil _).trans (hbalance (some item) hsome)) htail
  | peek i => exact h.call (List.append_nil _) hle
  | drainAll i => exact h.call rfl (Nat.zero_le _)

/-! ## Sleepers -/

/-- While a thread sleeps, there is a woken thread for every free cell. -/
def Covered (capacity : ℕ) (m : Monitor ι T (List T)) : Prop :=
  m.cv.asleep ≠ [] → capacity ≤ m.buffer.length + m.cv.woken.length

omit [DecidableEq ι] in
theorem Covered.not_lostWakeUp {m : Monitor ι T (List T)} (h : m.Covered capacity) :
    ¬ m.LostWakeUp (fifoOps T capacity) := by
  rintro ⟨hspace, hasleep, hwoken⟩
  have hlt : m.buffer.length < capacity := of_decide_eq_true hspace
  have hle := h hasleep
  rw [hwoken, List.length_nil] at hle
  omega

omit [DecidableEq ι] in
/-- The thread that has the lock may itself be the one missing. -/
theorem covered_attempt {m : Monitor ι T (List T)}
    (h : m.cv.asleep ≠ [] → capacity ≤ m.buffer.length + (m.cv.woken.length + 1)) (i : ι)
    (item : T) : (m.attempt (fifoOps T capacity) i item).Covered capacity := by
  unfold Monitor.attempt
  split
  · intro hasleep
    have hle := h hasleep
    show capacity ≤ (m.buffer ++ [item]).length + m.cv.woken.length
    rw [List.length_append, List.length_singleton]
    omega
  · rename_i hspace
    intro _
    have hfull : ¬ m.buffer.length < capacity := fun hlt => hspace (decide_eq_true hlt)
    show capacity ≤ m.buffer.length + m.cv.woken.length
    omega

theorem Covered.step {m m' : Monitor ι T (List T)} {e : MonitorEvent ι T} (h : m.Covered capacity)
    (hdrain : m.DrainsAwake capacity e) (hstep : m.step (fifoOps T capacity) e = some m') :
    m'.Covered capacity := by
  cases turn_of_step hstep with
  | push i item =>
    apply covered_attempt
    intro hasleep
    have hle := h hasleep
    omega
  | @resume i item cv hcv =>
    obtain ⟨hasleep, hwoken⟩ := CondVar.length_resume hcv
    apply covered_attempt
    show cv.asleep ≠ [] → capacity ≤ m.buffer.length + (cv.woken.length + 1)
    rw [hasleep, hwoken]
    exact h
  | @wakeUp i cv hcv =>
    obtain ⟨hasleep, hwoken⟩ := CondVar.length_wake hcv
    intro _
    have hle := h (List.ne_nil_of_length_pos (by omega))
    show capacity ≤ m.buffer.length + cv.woken.length
    omega
  | tryPush i item =>
    intro hasleep
    have hle := h hasleep
    by_cases hfull : m.buffer.length = capacity
    · simp only [fifoOps, if_pos hfull]
      exact hle
    · simp only [fifoOps, if_neg hfull]
      show capacity ≤ (m.buffer ++ [item]).length + m.cv.woken.length
      rw [List.length_append]
      omega
  | popNone i notified hnone =>
    have hempty : m.buffer = [] := List.head?_eq_none_iff.mp hnone
    intro hasleep
    have hle := h hasleep
    show capacity ≤ m.buffer.tail.length + m.cv.woken.length
    rwa [hempty] at hle ⊢
  | @popSome i notified item cv _ hcv =>
    intro hasleep
    rcases CondVar.length_notifyOne hcv with hnone | ⟨hlength, hwoken⟩
    · exact absurd hnone hasleep
    · have hle := h (List.ne_nil_of_length_pos (by omega))
      show capacity ≤ m.buffer.tail.length + cv.woken.length
      rw [List.length_tail]
      omega
  | peek i => exact h
  | drainAll i =>
    intro hasleep
    rcases hdrain with hnone | hwoken
    · exact absurd hnone hasleep
    · show capacity ≤ ([] : List T).length + m.cv.woken.length
      rw [List.length_nil]
      omega

/-! ## A drain past the sleepers -/

theorem resume_step (capacity : ℕ) {m : Monitor ι T (List T)} {i : ι} {item : T}
    {rest : List (ι × T)} (hwoken : m.cv.woken = (i, item) :: rest)
    (hspace : m.buffer.length < capacity) :
    m.step (fifoOps T capacity) (.resume i) =
      some ({ m with
        buffer := m.buffer ++ [item]
        cv := { m.cv with woken := rest } }.respond i (.pushed item)) := by
  show Option.map _ (m.cv.resume i) = _
  rw [CondVar.resume_first hwoken, Option.map_some]
  exact congrArg some (if_pos (decide_eq_true hspace))

/-- Fewer woken threads than free cells leave a sleeper behind. -/
theorem exists_lostWakeUp_of_woken {m : Monitor ι T (List T)} (hasleep : m.cv.asleep ≠ [])
    (hfew : m.buffer.length + m.cv.woken.length < capacity) :
    ∃ is : List ι, ∃ m', (lts ι (fifoOps T capacity) []).run (is.map .resume) m = some m' ∧
      m'.LostWakeUp (fifoOps T capacity) := by
  generalize hwoken : m.cv.woken = woken at hfew
  induction woken generalizing m with
  | nil => exact ⟨[], m, rfl, decide_eq_true hfew, hasleep, hwoken⟩
  | cons p rest ih =>
    obtain ⟨i, item⟩ := p
    rw [List.length_cons] at hfew
    have hstep := resume_step capacity hwoken (by omega)
    have hfew' : (m.buffer ++ [item]).length + rest.length < capacity := by
      rw [List.length_append, List.length_singleton]
      omega
    obtain ⟨is, m', hrun, hlost⟩ := ih (m := { m with
      buffer := m.buffer ++ [item]
      cv := { m.cv with woken := rest } }.respond i (.pushed item)) hasleep rfl hfew'
    refine ⟨i :: is, m', ?_, hlost⟩
    rw [List.map_cons, Lts.run_cons]
    exact (congrArg (Option.bind · _) hstep).trans hrun

/-- **A drain past the sleepers** loses a wake-up: once the woken threads have put their items,
nobody is left to wake the thread that sleeps at a buffer with space. -/
theorem exists_lostWakeUp (capacity : ℕ) {m : Monitor ι T (List T)} {i : ι}
    (hfree : ¬ m.cv.Waiting i)
    (hdrain : ¬ m.DrainsAwake capacity (.drainAll i)) :
    ∃ is : List ι, ∃ m',
      (lts ι (fifoOps T capacity) []).run (.drainAll i :: is.map .resume) m = some m' ∧
        m'.LostWakeUp (fifoOps T capacity) := by
  obtain ⟨hasleep, hfew⟩ := not_or.mp hdrain
  obtain ⟨is, m', hrun, hlost⟩ :=
    exists_lostWakeUp_of_woken (m := m.call i [] (.drained m.buffer)) hasleep (by
      show 0 + m.cv.woken.length < capacity
      omega)
  refine ⟨is, m', ?_, hlost⟩
  rw [Lts.run_cons]
  exact (congrArg (Option.bind · _) (if_neg hfree)).trans hrun

end Monitor

/-! ## The circular buffer -/

namespace CircularBuffer

open Monitor

variable {ι T : Type} [DecidableEq ι] [Inhabited T] {capacity : ℕ}

theorem refines_fifoOps (T : Type) [Inhabited T] (capacity : ℕ) :
    (ops T).Refines (fifoOps T capacity) (Ok capacity) contents where
  hasSpace h := h.hasSpace_eq
  put item h hspace := by
    apply h.put item
    rw [← h.capacity_eq]
    exact of_decide_eq_true hspace
  tryPush item h := h.tryPush item
  pop h := ⟨h.pop.1, Prod.ext_iff.mpr h.pop.2⟩
  peek h := h.peek
  drainAll h := ⟨h.drainAll.1, Prod.ext_iff.mpr h.drainAll.2⟩

/-- The runs of the threads `ι` on a circular buffer of `capacity` cells. -/
def bufferLts (ι T : Type) [DecidableEq ι] [Inhabited T] (capacity : ℕ) :
    Lts (Monitor ι T (CircularBuffer T)) (MonitorEvent ι T) :=
  Monitor.lts ι (ops T) (new T capacity)

/-- The buffer is a list of at most `capacity` items: its positions fit together, it holds what was
put and not yet taken, in order, and the same turns with the same answers are a run on a list. -/
structure BehavesAsFifo (capacity : ℕ) (m : Monitor ι T (CircularBuffer T)) : Prop where
  tail_eq : m.buffer.tail = (m.buffer.head + m.buffer.size) % capacity
  size_le : m.buffer.size ≤ capacity
  inserted_eq : m.inserted = m.removed ++ m.buffer.contents
  reach : (Monitor.lts ι (fifoOps T capacity) []).Reach (m.map contents)

theorem ok_of_reach (hcapacity : 1 ≤ capacity) {m : Monitor ι T (CircularBuffer T)}
    (hreach : (bufferLts ι T capacity).Reach m) : m.buffer.Ok capacity :=
  hreach.invariant (fun m => m.buffer.Ok capacity) (ok_new hcapacity)
    fun _ _ _ _ hok _ hstep => (refines_fifoOps T capacity).ok_step hok hstep

/-- The runs on the circular buffer are runs on a list. -/
theorem reachVia_map (hcapacity : 1 ≤ capacity)
    {guard : Monitor ι T (CircularBuffer T) → MonitorEvent ι T → Prop}
    {guard' : Monitor ι T (List T) → MonitorEvent ι T → Prop}
    (hguard : ∀ m e, guard m e → guard' (m.map contents) e)
    {m : Monitor ι T (CircularBuffer T)} (hreach : (bufferLts ι T capacity).ReachVia guard m) :
    (Monitor.lts ι (fifoOps T capacity) []).ReachVia guard' (m.map contents) := by
  refine hreach.abs (Monitor.map contents) rfl ?_
  intro m e m' hm hg hstep
  refine .inr ⟨e, hguard m e hg, ?_⟩
  have hmap := (refines_fifoOps T capacity).map_step m e (ok_of_reach hcapacity hm.reach)
  exact hmap.symm.trans (congrArg (Option.map (Monitor.map contents)) hstep)

theorem behavesAsFifo (hcapacity : 1 ≤ capacity) {m : Monitor ι T (CircularBuffer T)}
    (hreach : (bufferLts ι T capacity).Reach m) : BehavesAsFifo capacity m := by
  have hok := ok_of_reach hcapacity hreach
  have hlist : (Monitor.lts ι (fifoOps T capacity) []).Reach (m.map contents) :=
    reachVia_map hcapacity (fun _ _ _ => trivial) hreach
  have hfifo := hlist.invariant (Fifo capacity) ⟨Nat.zero_le _, rfl⟩
    fun _ _ _ _ h _ hstep => h.step hstep
  exact ⟨hok.tail_eq, hok.size_le, hfifo.inserted_eq, hlist⟩

omit [DecidableEq ι] in
theorem lostWakeUp_map {m : Monitor ι T (CircularBuffer T)} (hok : m.buffer.Ok capacity) :
    m.LostWakeUp (ops T) ↔ (m.map contents).LostWakeUp (fifoOps T capacity) := by
  unfold LostWakeUp
  rw [(refines_fifoOps T capacity).hasSpace hok]
  rfl

/-- **Threads at a circular buffer.** In every run the buffer behaves as a bounded list. As long as
`drain_all` is called only when no thread sleeps in `push`, or when enough threads are woken to
fill the buffer again, no wake-up is lost; and each other call of `drain_all` loses one as soon as
the woken threads have gone on. -/
theorem behavesAsFifo_and_wakes (ι T : Type) [DecidableEq ι] [Inhabited T] (capacity : ℕ)
    (hcapacity : 1 ≤ capacity) :
    (∀ m, (bufferLts ι T capacity).Reach m → BehavesAsFifo capacity m) ∧
      (∀ m, (bufferLts ι T capacity).ReachVia (DrainsAwake capacity) m →
        ¬ m.LostWakeUp (ops T)) ∧
      ∀ m i, (bufferLts ι T capacity).Reach m → ¬ m.cv.Waiting i →
        ¬ m.DrainsAwake capacity (.drainAll i) → ∃ is : List ι, ∃ m',
          (bufferLts ι T capacity).run (.drainAll i :: is.map .resume) m = some m' ∧
            m'.LostWakeUp (ops T) := by
  refine ⟨fun m => behavesAsFifo hcapacity, ?_, ?_⟩
  · intro m hreach
    have hlist : (Monitor.lts ι (fifoOps T capacity) []).ReachVia (DrainsAwake capacity)
        (m.map contents) := reachVia_map hcapacity (fun _ e hg => by cases e <;> exact hg) hreach
    have hcovered := hlist.invariant (Covered capacity) (fun hasleep => absurd rfl hasleep)
      fun _ _ _ _ h hg hstep => h.step hg hstep
    rw [lostWakeUp_map (ok_of_reach hcapacity hreach.reach)]
    exact hcovered.not_lostWakeUp
  · intro m i hreach hfree hdrain
    obtain ⟨is, u, hrun, hlost⟩ := exists_lostWakeUp capacity (m := m.map contents) hfree hdrain
    obtain ⟨m', hrun', hok', rfl⟩ := Lts.exists_run_of_map (M := bufferLts ι T capacity)
      (fun m => m.buffer.Ok capacity) (fun m e => (refines_fifoOps T capacity).map_step m e)
      (fun _ _ _ hok => (refines_fifoOps T capacity).ok_step hok) (ok_of_reach hcapacity hreach)
      hrun
    exact ⟨is, m', hrun', (lostWakeUp_map hok').mpr hlost⟩

/-- Two threads sleep at a full buffer, both are woken by `pop`, and the drain comes before either
of them has the lock; they put their items in the order in which they get it. -/
theorem behavesAsFifo_and_wakes_two :
    ∃ m, (bufferLts ℕ ℕ 2).ReachVia (DrainsAwake 2) m ∧ m.removed = [10, 11] ∧
      m.buffer.contents = [13, 12] ∧ BehavesAsFifo 2 m ∧ ¬ m.LostWakeUp (ops ℕ) := by
  have hrun : ((bufferLts ℕ ℕ 2).runVia (fun m e => decide (m.DrainsAwake 2 e))
      [.push 0 10, .push 1 11, .push 2 12, .push 3 13, .pop 0 (some 2), .pop 0 (some 3),
        .drainAll 4, .resume 3, .resume 2] (bufferLts ℕ ℕ 2).init).any
      (fun m => decide (m.removed = [10, 11] ∧ m.buffer.contents = [13, 12])) = true := by
    decide +kernel
  obtain ⟨m, hreach, hm⟩ :=
    (bufferLts ℕ ℕ 2).exists_reachVia_of_run (fun _ _ => of_decide_eq_true) hrun
  obtain ⟨hremoved, hcontents⟩ := of_decide_eq_true hm
  obtain ⟨hfifo, hwakes, _⟩ := behavesAsFifo_and_wakes ℕ ℕ 2 (by decide)
  exact ⟨m, hreach, hremoved, hcontents, hfifo m hreach.reach, hwakes m hreach⟩

/-- One cell, one sleeper, one drain: the buffer is empty and the sleeper is not woken. -/
theorem not_wakes_after_drainAll :
    ¬ ∀ capacity, 1 ≤ capacity → ∀ m, (bufferLts ℕ ℕ capacity).Reach m →
      BehavesAsFifo capacity m ∧ ¬ m.LostWakeUp (ops ℕ) := by
  intro hall
  have hrun : ((bufferLts ℕ ℕ 1).run [.push 0 10, .push 1 11, .drainAll 2]
      (bufferLts ℕ ℕ 1).init).any (fun m => decide (m.LostWakeUp (ops ℕ))) = true := by
    decide +kernel
  obtain ⟨m, hreach, hm⟩ := (bufferLts ℕ ℕ 1).exists_reach_of_run hrun
  exact (hall 1 (by decide) m hreach).2 (of_decide_eq_true hm)

end CircularBuffer

end Ziplog
