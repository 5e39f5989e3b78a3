import Mathlib.Data.Fintype.Basic
import Mathlib.Logic.Function.Basic
import Ziplog.Library.Lts

/-!
# Multicasts to queues

Readers with a queue each, and writers that put every item into the queues of all readers. In
`atomicMulticast` this is one step. In `multicast` the writer goes from queue to queue with a mutex
in hand that keeps out other writers and new readers; the readers take items meanwhile.

`Multicast.settle` puts the item into the queues that still have to get it. It sends every run of
`multicast` to a run of `atomicMulticast` (`settle_reach`), where each reader gets the same sequence
of items from the point on where it joined (`Mailboxes.Ordered`).
-/

/-- The queues of the readers. What was sent, what each reader has taken, and how much had been sent
when it joined, are recorded. -/
@[ext] structure Mailboxes (ι α : Type*) where
  queue : ι → Option (List α)
  sent : List α
  taken : ι → List α
  joined : ι → ℕ

/-- The queues, with the item that a writer is putting into those in `todo`. -/
structure Multicast (ι α : Type*) extends Mailboxes ι α where
  writing : Option (α × Finset ι)

inductive MailboxEvent (ι α : Type*)
  | send (x : α)
  | join (j : ι)
  | take (j : ι)

inductive MulticastEvent (ι α : Type*)
  | start (x : α)
  | push (j : ι)
  | finish
  | join (j : ι)
  | take (j : ι)

variable {ι α : Type*}

/-- Whether a writer is at work after the event. -/
def MulticastEvent.writes (before : Bool) : MulticastEvent ι α → Bool
  | .start _ | .push _ => true
  | .finish | .join _ => false
  | .take _ => before

namespace Mailboxes

def init : Mailboxes ι α := ⟨fun _ => none, [], fun _ => [], fun _ => 0⟩

/-- The item goes into every queue. -/
def send (s : Mailboxes ι α) (x : α) : Mailboxes ι α :=
  { s with queue := fun j => (s.queue j).map (· ++ [x]), sent := s.sent ++ [x] }

/-- The readers have got the same sequence, each from where it joined. -/
def Ordered (s : Mailboxes ι α) : Prop :=
  ∀ j q, s.queue j = some q → s.joined j ≤ s.sent.length ∧
    s.taken j ++ q = s.sent.drop (s.joined j)

variable [DecidableEq ι]

def join (s : Mailboxes ι α) (j : ι) : Mailboxes ι α :=
  { s with
    queue := Function.update s.queue j (some [])
    taken := Function.update s.taken j []
    joined := Function.update s.joined j s.sent.length }

/-- The reader takes the first item of its queue, which was `x :: rest`. -/
def take (s : Mailboxes ι α) (j : ι) (x : α) (rest : List α) : Mailboxes ι α :=
  { s with
    queue := Function.update s.queue j (some rest)
    taken := Function.update s.taken j (s.taken j ++ [x]) }

def step (s : Mailboxes ι α) : MailboxEvent ι α → Option (Mailboxes ι α)
  | .send x => some (s.send x)
  | .join j => if s.queue j = none then some (s.join j) else none
  | .take j =>
    match s.queue j with
    | some (x :: rest) => some (s.take j x rest)
    | _ => none

end Mailboxes

def atomicMulticast (ι α : Type*) [DecidableEq ι] : Lts (Mailboxes ι α) (MailboxEvent ι α) :=
  ⟨.init, Mailboxes.step⟩

/-! ## The order of the items -/

namespace Mailboxes

variable {s t : Mailboxes ι α}

theorem Ordered.send (h : s.Ordered) (x : α) : (s.send x).Ordered := by
  intro j q hq
  obtain ⟨q', hq', rfl⟩ := Option.map_eq_some_iff.mp hq
  obtain ⟨hle, heq⟩ := h j q' hq'
  constructor
  · show s.joined j ≤ (s.sent ++ [x]).length
    rw [List.length_append]
    omega
  · show s.taken j ++ (q' ++ [x]) = (s.sent ++ [x]).drop (s.joined j)
    rw [List.drop_append_of_le_length hle, ← List.append_assoc, heq]

variable [DecidableEq ι]

theorem Ordered.join (h : s.Ordered) (j : ι) : (s.join j).Ordered := by
  intro k q hq
  unfold Mailboxes.join at hq ⊢
  by_cases hk : k = j
  · subst hk
    simp only [Function.update_self, Option.some.injEq] at hq ⊢
    subst hq
    simp
  · simp only [Function.update_of_ne hk] at hq ⊢
    exact h k q hq

theorem Ordered.take (h : s.Ordered) {j : ι} {x : α} {rest : List α}
    (hj : s.queue j = some (x :: rest)) : (s.take j x rest).Ordered := by
  intro k q hq
  unfold Mailboxes.take at hq ⊢
  by_cases hk : k = j
  · subst hk
    simp only [Function.update_self, Option.some.injEq] at hq ⊢
    subst hq
    rw [List.append_assoc, List.singleton_append]
    exact h k _ hj
  · simp only [Function.update_of_ne hk] at hq ⊢
    exact h k q hq

/-- **One step.** -/
theorem Ordered.step (h : s.Ordered) {e : MailboxEvent ι α} (hs : s.step e = some t) :
    t.Ordered := by
  cases e with
  | send x =>
    cases hs
    exact h.send x
  | join j =>
    simp only [Mailboxes.step] at hs
    split_ifs at hs
    cases hs
    exact h.join j
  | take j =>
    simp only [Mailboxes.step] at hs
    split at hs <;> cases hs
    exact h.take (by assumption)

/-- **Every run.** -/
theorem ordered_of_reach (h : (atomicMulticast ι α).Reach s) : s.Ordered :=
  h.invariant Ordered (fun _ _ hq => by cases hq) fun _ _ _ _ hordered _ hs => hordered.step hs

end Mailboxes

/-! ## One queue after another -/

namespace Multicast

variable [DecidableEq ι] [Fintype ι]

def init : Multicast ι α := { Mailboxes.init with writing := none }

/-- The readers. -/
def readers (s : Multicast ι α) : Finset ι := Finset.univ.filter fun j => (s.queue j).isSome

/-- The item goes into one queue. -/
def push (s : Multicast ι α) (x : α) (todo : Finset ι) (j : ι) : Multicast ι α :=
  { s with
    queue := Function.update s.queue j ((s.queue j).map (· ++ [x]))
    writing := some (x, todo.erase j) }

def step (s : Multicast ι α) : MulticastEvent ι α → Option (Multicast ι α)
  | .start x =>
    if s.writing.isNone then
      some { s with sent := s.sent ++ [x], writing := some (x, s.readers) }
    else none
  | .push j =>
    match s.writing with
    | some (x, todo) => if j ∈ todo then some (s.push x todo j) else none
    | none => none
  | .finish =>
    match s.writing with
    | some (_, todo) => if todo = ∅ then some { s with writing := none } else none
    | none => none
  | .join j =>
    if s.writing.isNone ∧ s.queue j = none then some { s.toMailboxes.join j with writing := none }
    else none
  | .take j =>
    match s.queue j with
    | some (x :: rest) => some { s.toMailboxes.take j x rest with writing := s.writing }
    | _ => none

/-- The queues once the item in hand is in all of them. -/
def settle (s : Multicast ι α) : Mailboxes ι α :=
  match s.writing with
  | none => s.toMailboxes
  | some (x, todo) =>
    { s.toMailboxes with
      queue := fun j => if j ∈ todo then (s.queue j).map (· ++ [x]) else s.queue j }

end Multicast

def multicast (ι α : Type*) [DecidableEq ι] [Fintype ι] :
    Lts (Multicast ι α) (MulticastEvent ι α) :=
  ⟨.init, Multicast.step⟩

namespace Multicast

variable [DecidableEq ι] {s t : Multicast ι α}

theorem settle_of_none (h : s.writing = none) : s.settle = s.toMailboxes := by
  unfold settle
  rw [h]

theorem settle_of_some {x : α} {todo : Finset ι} (h : s.writing = some (x, todo)) :
    s.settle = { s.toMailboxes with
      queue := fun j => if j ∈ todo then (s.queue j).map (· ++ [x]) else s.queue j } := by
  unfold settle
  rw [h]

theorem settle_push {x : α} {todo : Finset ι} (h : s.writing = some (x, todo)) {j : ι}
    (hj : j ∈ todo) : (s.push x todo j).settle = s.settle := by
  rw [settle_of_some h, @settle_of_some _ _ _ (s.push x todo j) x _ rfl]
  ext1
  · funext k
    by_cases hk : k = j
    · subst hk
      simp [push, hj]
    · simp [push, hk]
  all_goals rfl

/-- The first item of a queue stays the first when another is put behind. -/
theorem settle_take {j : ι} {x : α} {rest : List α} (hj : s.queue j = some (x :: rest)) :
    s.settle.step (.take j) =
      some (settle { s.toMailboxes.take j x rest with writing := s.writing }) := by
  rcases hw : s.writing with _ | ⟨y, todo⟩
  · rw [settle_of_none hw, settle_of_none rfl]
    simp only [Mailboxes.step, hj]
  · rw [settle_of_some hw, settle_of_some rfl]
    by_cases hmem : j ∈ todo
    · simp only [Mailboxes.step, hmem, hj, if_true, Option.map_some, List.cons_append,
        Option.some.injEq]
      ext1
      · funext k
        by_cases hk : k = j
        · subst hk
          simp [Mailboxes.take, hmem]
        · simp [Mailboxes.take, hk]
      all_goals rfl
    · simp only [Mailboxes.step, hmem, hj, if_false, Option.some.injEq]
      ext1
      · funext k
        by_cases hk : k = j
        · subst hk
          simp [Mailboxes.take, hmem]
        · simp [Mailboxes.take, hk]
      all_goals rfl

variable [Fintype ι]

theorem settle_start (h : s.writing = none) (x : α) :
    settle { s with sent := s.sent ++ [x], writing := some (x, s.readers) } =
      s.settle.send x := by
  rw [settle_of_none h, settle_of_some rfl]
  ext1
  · funext j
    cases hq : s.queue j <;> simp [readers, Mailboxes.send, hq]
  all_goals rfl

/-- **One step** is a step of the atomic multicast, or none. -/
theorem settle_step {e : MulticastEvent ι α} (hs : s.step e = some t) :
    t.settle = s.settle ∨ ∃ d, s.settle.step d = some t.settle := by
  cases e with
  | start x =>
    simp only [Multicast.step, Option.isNone_iff_eq_none] at hs
    split_ifs at hs with hnone
    cases hs
    exact Or.inr ⟨.send x, by rw [settle_start hnone]; rfl⟩
  | push j =>
    simp only [Multicast.step] at hs
    split at hs <;> try split_ifs at hs with hj
    all_goals cases hs
    rename_i hw
    exact Or.inl (settle_push hw hj)
  | finish =>
    simp only [Multicast.step] at hs
    split at hs <;> try split_ifs at hs with hnone
    all_goals cases hs
    rename_i hw
    subst hnone
    refine Or.inl ?_
    rw [settle_of_none rfl, settle_of_some hw]
    simp
  | join j =>
    simp only [Multicast.step, Option.isNone_iff_eq_none] at hs
    split_ifs at hs with hjoin
    cases hs
    refine Or.inr ⟨.join j, ?_⟩
    rw [settle_of_none hjoin.1]
    exact if_pos hjoin.2
  | take j =>
    simp only [Multicast.step] at hs
    split at hs <;> cases hs
    exact Or.inr ⟨.take j, settle_take (by assumption)⟩

/-- A step changes no other queue. -/
theorem queue_of_step {e : MulticastEvent ι α} (hs : s.step e = some t) {k : ι}
    (hpush : e ≠ .push k) (hjoin : e ≠ .join k) (htake : e ≠ .take k) :
    t.queue k = s.queue k := by
  cases e with
  | start x =>
    simp only [Multicast.step] at hs
    split_ifs at hs
    cases hs
    rfl
  | push j =>
    have hk : k ≠ j := fun hk => hpush (by rw [hk])
    simp only [Multicast.step] at hs
    split at hs <;> try split_ifs at hs
    all_goals cases hs
    exact Function.update_of_ne hk _ _
  | finish =>
    simp only [Multicast.step] at hs
    split at hs <;> try split_ifs at hs
    all_goals cases hs
    rfl
  | join j =>
    have hk : k ≠ j := fun hk => hjoin (by rw [hk])
    simp only [Multicast.step] at hs
    split_ifs at hs
    cases hs
    exact Function.update_of_ne hk _ _
  | take j =>
    have hk : k ≠ j := fun hk => htake (by rw [hk])
    simp only [Multicast.step] at hs
    split at hs <;> cases hs
    exact Function.update_of_ne hk _ _

/-- A writer is at work from its start to its end. -/
theorem writing_of_step {e : MulticastEvent ι α} (hs : s.step e = some t) :
    t.writing.isSome = e.writes s.writing.isSome := by
  cases e with
  | start x | join j =>
    simp only [Multicast.step] at hs
    split_ifs at hs
    cases hs
    rfl
  | push j | finish =>
    simp only [Multicast.step] at hs
    split at hs <;> try split_ifs at hs
    all_goals cases hs
    rfl
  | take j =>
    simp only [Multicast.step] at hs
    split at hs <;> cases hs
    rfl

/-- **Every run** is a run of the atomic multicast. -/
theorem settle_reach (h : (multicast ι α).Reach s) : (atomicMulticast ι α).Reach s.settle := by
  refine h.abs settle rfl ?_
  intro s e t _ _ hs
  rcases settle_step hs with hsame | ⟨d, hd⟩
  · exact Or.inl hsame
  · exact Or.inr ⟨d, trivial, hd⟩

end Multicast
