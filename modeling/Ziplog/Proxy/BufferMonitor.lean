import Ziplog.Library.CondVar
import Ziplog.Library.Lts
import Ziplog.Proxy.CircularBuffer

/-!
# Threads at a buffer

The member functions of `CircularBuffer` under the class's mutex: each event is what one thread
does from taking the lock to giving it back. `push` may fall asleep in `cv_.wait` and go on later,
`pop` notifies one thread, `drain_all` notifies none.

The steps are written over the operations of a buffer (`BufferOps`), and so run over the circular
buffer and over a plain list of bounded length. A buffer that `Refines` another one takes the same
steps (`map_step`).
-/

namespace Ziplog

/-- What the member functions do with the items. -/
structure BufferOps (σ T : Type) where
  hasSpace : σ → Bool
  put : σ → T → σ
  tryPush : σ → T → Bool × σ
  pop : σ → Option T × σ
  peek : σ → Option T
  drainAll : σ → List T × σ

/-- The operations of the circular buffer. -/
def CircularBuffer.ops (T : Type) [Inhabited T] : BufferOps (CircularBuffer T) T :=
  { hasSpace, put, tryPush, pop, peek, drainAll }

/-- A first-in first-out list of at most `capacity` items. -/
def fifoOps (T : Type) (capacity : ℕ) : BufferOps (List T) T where
  hasSpace items := items.length < capacity
  put items item := items ++ [item]
  tryPush items item :=
    if items.length = capacity then (false, items) else (true, items ++ [item])
  pop items := (items.head?, items.tail)
  peek items := items.head?
  drainAll items := (items, [])

/-- What a call has returned; `push` and `try_push` with the item they were called with. -/
inductive BufferResponse (T : Type)
  | pushed (item : T)
  | tryPushed (item : T) (accepted : Bool)
  | popped (item : Option T)
  | peeked (item : Option T)
  | drained (items : List T)
  deriving DecidableEq, Repr

/-- The items that a call has put into the buffer. -/
def BufferResponse.inserted {T : Type} : BufferResponse T → List T
  | .pushed item => [item]
  | .tryPushed item true => [item]
  | _ => []

/-- The items that a call has taken out of the buffer. -/
def BufferResponse.removed {T : Type} : BufferResponse T → List T
  | .popped item => item.toList
  | .drained items => items
  | _ => []

/-- A buffer with the threads in `push`, and the calls that have returned, in this order. -/
structure Monitor (ι T σ : Type) where
  buffer : σ
  cv : CondVar ι T
  responses : List (ι × BufferResponse T)

/-- One thread's turn with the lock. -/
inductive MonitorEvent (ι T : Type)
  /-- `push` up to its return, or to its first `wait`. -/
  | push (i : ι) (item : T)
  /-- A woken thread tests the condition of its `wait` again. -/
  | resume (i : ι)
  /-- A thread leaves `wait` without being notified. -/
  | wakeUp (i : ι)
  | tryPush (i : ι) (item : T)
  /-- `pop`, with the thread that its `notify_one` wakes. -/
  | pop (i : ι) (notified : Option ι)
  | peek (i : ι)
  | drainAll (i : ι)

namespace Monitor

variable {ι T σ τ : Type}

/-- A call returns. -/
def respond (m : Monitor ι T σ) (i : ι) (r : BufferResponse T) : Monitor ι T σ :=
  { m with responses := m.responses ++ [(i, r)] }

/-- Thread `i` has the lock in `push`: it puts its item, or sleeps while there is no space. -/
def attempt (C : BufferOps σ T) (m : Monitor ι T σ) (i : ι) (item : T) : Monitor ι T σ :=
  if C.hasSpace m.buffer then
    { m with buffer := C.put m.buffer item }.respond i (.pushed item)
  else { m with cv := m.cv.wait i item }

/-- The lines of `pop` behind its test. -/
def finishPop [DecidableEq ι] (m : Monitor ι T σ) (i : ι) (item : T) (buffer : σ)
    (notified : Option ι) : Option (Monitor ι T σ) :=
  (m.cv.notifyOne notified).map fun cv => { m with buffer, cv }.respond i (.popped (some item))

/-- A call that neither waits nor notifies. -/
def call (m : Monitor ι T σ) (i : ι) (buffer : σ) (r : BufferResponse T) : Monitor ι T σ :=
  { m with buffer }.respond i r

variable [DecidableEq ι]

/-- One turn; `none` where the thread is not in a state to take it. A thread that is in `push`
calls nothing else. -/
def step (C : BufferOps σ T) (m : Monitor ι T σ) : MonitorEvent ι T → Option (Monitor ι T σ)
  | .push i item => if m.cv.Waiting i then none else some (m.attempt C i item)
  | .resume i => (m.cv.resume i).map fun p => { m with cv := p.2 }.attempt C i p.1
  | .wakeUp i => (m.cv.wake i).map fun cv => { m with cv }
  | .tryPush i item =>
    if m.cv.Waiting i then none
    else some (m.call i (C.tryPush m.buffer item).2 (.tryPushed item (C.tryPush m.buffer item).1))
  | .pop i notified =>
    if m.cv.Waiting i then none
    else match (C.pop m.buffer).1 with
      | none => some (m.call i (C.pop m.buffer).2 (.popped none))
      | some item => m.finishPop i item (C.pop m.buffer).2 notified
  | .peek i =>
    if m.cv.Waiting i then none else some (m.call i m.buffer (.peeked (C.peek m.buffer)))
  | .drainAll i =>
    if m.cv.Waiting i then none
    else some (m.call i (C.drainAll m.buffer).2 (.drained (C.drainAll m.buffer).1))

/-- The runs of all threads on a buffer. -/
def lts (ι : Type) [DecidableEq ι] (C : BufferOps σ T) (buffer : σ) :
    Lts (Monitor ι T σ) (MonitorEvent ι T) where
  init := { buffer, cv := .empty, responses := [] }
  step := step C

/-! ## What a turn can do -/

/-- The state after a turn, with what the thread saw. -/
inductive Turn (C : BufferOps σ T) (m : Monitor ι T σ) : MonitorEvent ι T → Monitor ι T σ → Prop
  | push (i : ι) (item : T) : Turn C m (.push i item) (m.attempt C i item)
  | resume {i : ι} {item : T} {cv : CondVar ι T} (hcv : m.cv.resume i = some (item, cv)) :
      Turn C m (.resume i) ({ m with cv }.attempt C i item)
  | wakeUp {i : ι} {cv : CondVar ι T} (hcv : m.cv.wake i = some cv) :
      Turn C m (.wakeUp i) { m with cv }
  | tryPush (i : ι) (item : T) :
      Turn C m (.tryPush i item) (m.call i (C.tryPush m.buffer item).2
        (.tryPushed item (C.tryPush m.buffer item).1))
  | popNone (i : ι) (notified : Option ι) (hnone : (C.pop m.buffer).1 = none) :
      Turn C m (.pop i notified) (m.call i (C.pop m.buffer).2 (.popped none))
  | popSome (i : ι) {notified : Option ι} {item : T} {cv : CondVar ι T}
      (hsome : (C.pop m.buffer).1 = some item) (hcv : m.cv.notifyOne notified = some cv) :
      Turn C m (.pop i notified)
        ({ m with cv }.call i (C.pop m.buffer).2 (.popped (some item)))
  | peek (i : ι) : Turn C m (.peek i) (m.call i m.buffer (.peeked (C.peek m.buffer)))
  | drainAll (i : ι) :
      Turn C m (.drainAll i) (m.call i (C.drainAll m.buffer).2
        (.drained (C.drainAll m.buffer).1))

theorem turn_of_step {C : BufferOps σ T} {m m' : Monitor ι T σ} {e : MonitorEvent ι T}
    (hstep : m.step C e = some m') : m.Turn C e m' := by
  cases e with
  | push i item =>
    obtain ⟨_, hs⟩ := Option.ite_none_left_eq_some.mp hstep
    cases hs
    exact .push i item
  | resume i =>
    obtain ⟨⟨item, cv⟩, hcv, rfl⟩ := Option.map_eq_some_iff.mp hstep
    exact .resume hcv
  | wakeUp i =>
    obtain ⟨cv, hcv, rfl⟩ := Option.map_eq_some_iff.mp hstep
    exact .wakeUp hcv
  | tryPush i item =>
    obtain ⟨_, hs⟩ := Option.ite_none_left_eq_some.mp hstep
    cases hs
    exact .tryPush i item
  | pop i notified =>
    obtain ⟨_, hs⟩ := Option.ite_none_left_eq_some.mp hstep
    split at hs
    · rename_i hnone
      cases hs
      exact .popNone i notified hnone
    · rename_i item hsome
      obtain ⟨cv, hcv, rfl⟩ := Option.map_eq_some_iff.mp hs
      exact .popSome i hsome hcv
  | peek i =>
    obtain ⟨_, hs⟩ := Option.ite_none_left_eq_some.mp hstep
    cases hs
    exact .peek i
  | drainAll i =>
    obtain ⟨_, hs⟩ := Option.ite_none_left_eq_some.mp hstep
    cases hs
    exact .drainAll i

/-! ## Refinement -/

/-- The same threads at another buffer. -/
def map (f : σ → τ) (m : Monitor ι T σ) : Monitor ι T τ := { m with buffer := f m.buffer }

end Monitor

/-- The operations `C` do on the buffers that are `Ok` what `A` does on their images. -/
structure BufferOps.Refines {σ τ T : Type} (C : BufferOps σ T) (A : BufferOps τ T)
    (Ok : σ → Prop) (f : σ → τ) : Prop where
  hasSpace {b : σ} : Ok b → C.hasSpace b = A.hasSpace (f b)
  put {b : σ} (item : T) : Ok b → C.hasSpace b = true →
    Ok (C.put b item) ∧ f (C.put b item) = A.put (f b) item
  tryPush {b : σ} (item : T) : Ok b →
    Ok (C.tryPush b item).2 ∧ (C.tryPush b item).map id f = A.tryPush (f b) item
  pop {b : σ} : Ok b → Ok (C.pop b).2 ∧ (C.pop b).map id f = A.pop (f b)
  peek {b : σ} : Ok b → C.peek b = A.peek (f b)
  drainAll {b : σ} : Ok b → Ok (C.drainAll b).2 ∧ (C.drainAll b).map id f = A.drainAll (f b)

namespace BufferOps.Refines

open Monitor

variable {ι T σ τ : Type} {C : BufferOps σ T} {A : BufferOps τ T} {Ok : σ → Prop} {f : σ → τ}

theorem attempt (h : C.Refines A Ok f) {m : Monitor ι T σ} (hok : Ok m.buffer) (i : ι) (item : T) :
    Ok (m.attempt C i item).buffer ∧
      (m.attempt C i item).map f = (m.map f).attempt A i item := by
  have hspace := h.hasSpace hok
  unfold Monitor.attempt
  show _ ∧ _ = if A.hasSpace (f m.buffer) then _ else _
  rw [← hspace]
  cases hs : C.hasSpace m.buffer with
  | true =>
    obtain ⟨hput, heq⟩ := h.put item hok hs
    refine ⟨hput, ?_⟩
    show Monitor.mk (f (C.put m.buffer item)) _ _ = _
    rw [heq]
    rfl
  | false => exact ⟨hok, rfl⟩

variable [DecidableEq ι]

/-- **Turn by turn.** The threads take the same turns at a buffer and at its image. -/
theorem map_step (h : C.Refines A Ok f) (m : Monitor ι T σ) (e : MonitorEvent ι T)
    (hok : Ok m.buffer) : (m.step C e).map (Monitor.map f) = (m.map f).step A e := by
  cases e with
  | push i item =>
    show Option.map _ (if m.cv.Waiting i then _ else _) = if m.cv.Waiting i then _ else _
    split
    · rfl
    · exact congrArg some (h.attempt hok i item).2
  | resume i =>
    show Option.map _ (Option.map _ (m.cv.resume i)) = Option.map _ (m.cv.resume i)
    rw [Option.map_map]
    congr 1
    funext p
    exact (h.attempt (m := { m with cv := p.2 }) hok i p.1).2
  | wakeUp i =>
    show Option.map _ (Option.map _ (m.cv.wake i)) = Option.map _ (m.cv.wake i)
    rw [Option.map_map]
    rfl
  | tryPush i item =>
    show Option.map _ (if m.cv.Waiting i then _ else _) = if m.cv.Waiting i then _ else
      some ((m.map f).call i (A.tryPush (f m.buffer) item).2
        (.tryPushed item (A.tryPush (f m.buffer) item).1))
    rw [← (h.tryPush item hok).2]
    split <;> rfl
  | pop i notified =>
    show Option.map _ (if m.cv.Waiting i then _ else _) = if m.cv.Waiting i then _ else
      match (A.pop (f m.buffer)).1 with
      | none => some ((m.map f).call i (A.pop (f m.buffer)).2 (.popped none))
      | some item => (m.map f).finishPop i item (A.pop (f m.buffer)).2 notified
    rw [← (h.pop hok).2, Prod.map_fst, Prod.map_snd, id]
    split
    · rfl
    · cases (C.pop m.buffer).1 with
      | none => rfl
      | some item =>
        show Option.map _ (Option.map _ _) = Option.map _ _
        rw [Option.map_map]
        rfl
  | peek i =>
    show Option.map _ (if m.cv.Waiting i then _ else _) = if m.cv.Waiting i then _ else
      some ((m.map f).call i (f m.buffer) (.peeked (A.peek (f m.buffer))))
    rw [← h.peek hok]
    split <;> rfl
  | drainAll i =>
    show Option.map _ (if m.cv.Waiting i then _ else _) = if m.cv.Waiting i then _ else
      some ((m.map f).call i (A.drainAll (f m.buffer)).2 (.drained (A.drainAll (f m.buffer)).1))
    rw [← (h.drainAll hok).2]
    split <;> rfl

theorem ok_step (h : C.Refines A Ok f) {m m' : Monitor ι T σ} {e : MonitorEvent ι T}
    (hok : Ok m.buffer) (hstep : m.step C e = some m') : Ok m'.buffer := by
  cases turn_of_step hstep with
  | push i item => exact (h.attempt hok i item).1
  | @resume i item cv _ => exact (h.attempt (m := { m with cv }) hok i item).1
  | wakeUp _ => exact hok
  | tryPush i item => exact (h.tryPush item hok).1
  | popNone i notified _ => exact (h.pop hok).1
  | popSome i _ _ => exact (h.pop hok).1
  | peek i => exact hok
  | drainAll i => exact (h.drainAll hok).1

end BufferOps.Refines

end Ziplog
