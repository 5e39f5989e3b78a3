import Mathlib.Data.List.Nodup
import Mathlib.Data.List.Range
import Ziplog.Shard.Batches

/-!
# What a counted reply says

A worker sends one frame at a time and counts it at the reply. So the frames of a connection are
counted in order, each at most once, and only after the server's handler has read and answered them.
`LinkFlow` is this invariant of one connection and `Flow` the one of the shard, both for any
property `S` of frames that a frame gets when it is answered and never loses.
-/

namespace Ziplog

variable {n : ℕ}

/-! ## One connection -/

/-- The items the worker has not counted, the current one first. -/
def Link.pending (l : Link) : List WorkItem :=
  match l.worker with
  | .awaiting item => item :: l.queue
  | _ => l.queue

/-- The frame and the reply under way between the two ends. -/
def InFlight (S : Frame → Prop) (l : Link) : WorkerPhase → Prop
  | .connecting => l.wire = [] ∧ l.acks = []
  | .idle => l.wire = [] ∧ l.acks = []
  | .awaiting item =>
    l.wire = [item.frame] ∧ l.acks = [] ∨
    l.wire = [] ∧ (∃ reply, l.acks = [reply]) ∧ S item.frame
  | .terminated => True

/-- The worker of server `j` counts the batches in order, each at most once, and only answered
ones. -/
structure LinkFlow (batches : List (Batch n)) (j : Fin n) (S : Frame → Prop) (l : Link) :
    Prop where
  inFlight : InFlight S l l.worker
  counted : ∀ b ∈ batches, j ∈ b.acks → S b.frame
  items : ∀ item ∈ l.pending, ∃ b, batches[item.state]? = some b ∧ b.frame = item.frame
  order : l.worker ≠ .terminated → ∃ k, k ≤ batches.length ∧
    l.pending.map WorkItem.state = List.range' k (batches.length - k) ∧
    ∀ i b, batches[i]? = some b → j ∈ b.acks → i < k

variable {batches : List (Batch n)} {j : Fin n} {S S' : Frame → Prop} {l l' : Link}

theorem linkFlow_init : LinkFlow [] j S .init where
  inFlight := ⟨rfl, rfl⟩
  counted := fun _ hb => nomatch hb
  items := fun _ hitem => nomatch hitem
  order := fun _ => ⟨0, le_rfl, rfl, fun _ _ hb => nomatch hb⟩

/-- A larger property. -/
theorem LinkFlow.mono (h : LinkFlow batches j S l) (hS : ∀ f, S f → S' f) :
    LinkFlow batches j S' l := by
  refine ⟨?_, fun b hb hj => hS _ (h.counted b hb hj), h.items, h.order⟩
  have hin := h.inFlight
  cases hw : l.worker with
  | connecting => rwa [hw] at hin
  | idle => rwa [hw] at hin
  | awaiting item =>
    rw [hw] at hin
    exact hin.imp id fun ⟨hwire, hacks, hs⟩ => ⟨hwire, hacks, hS _ hs⟩
  | terminated => trivial

/-- A step of the handler that answers nothing. -/
theorem LinkFlow.setHandler (h : LinkFlow batches j S l) (handler : HandlerPhase) :
    LinkFlow batches j S { l with handler := handler } :=
  ⟨h.inFlight, h.counted, h.items, h.order⟩

theorem LinkFlow.push (h : LinkFlow batches j S l) (frame : Frame) (clients : Finset ℕ) :
    LinkFlow (batches ++ [⟨frame, clients, []⟩]) j S (l.push ⟨frame, batches.length⟩) := by
  have hpending : (l.push ⟨frame, batches.length⟩).pending =
      l.pending ++ [⟨frame, batches.length⟩] := by
    unfold Link.pending
    unfold Link.push
    cases l.worker <;> rfl
  refine ⟨h.inFlight, ?_, ?_, ?_⟩
  · intro b hb hj
    rcases List.mem_append.mp hb with hb | hb
    · exact h.counted b hb hj
    · rw [List.mem_singleton] at hb
      subst hb
      cases hj
  · intro item hitem
    rw [hpending] at hitem
    rcases List.mem_append.mp hitem with hitem | hitem
    · obtain ⟨b, hb, hframe⟩ := h.items item hitem
      have hlt := (List.getElem?_eq_some_iff.mp hb).1
      exact ⟨b, by rw [List.getElem?_append_left hlt, hb], hframe⟩
    · rw [List.mem_singleton] at hitem
      subst hitem
      exact ⟨⟨frame, clients, []⟩, List.getElem?_concat_length, rfl⟩
  · intro hterm
    obtain ⟨k, hk, hrange, hbound⟩ := h.order hterm
    have hlen : (batches ++ [(⟨frame, clients, []⟩ : Batch n)]).length = batches.length + 1 := by
      rw [List.length_append, List.length_singleton]
    refine ⟨k, by omega, ?_, ?_⟩
    · rw [hpending, List.map_append, hrange, hlen, Nat.sub_add_comm hk, List.range'_concat]
      simp only [List.map_cons, List.map_nil, Nat.one_mul, Nat.add_sub_cancel' hk]
    · intro i b hb hj
      by_cases hi : i < batches.length
      · rw [List.getElem?_append_left hi] at hb
        exact hbound i b hb hj
      · rw [List.getElem?_append_right (by omega), List.getElem?_singleton] at hb
        split_ifs at hb
        cases hb
        cases hj

theorem LinkFlow.connect (h : LinkFlow batches j S l) (hl : l.connect = some l') :
    LinkFlow batches j S l' := by
  obtain ⟨hw, rfl⟩ := Link.connect_eq_some hl
  have hin := h.inFlight
  have hitems := h.items
  have horder := h.order
  unfold Link.pending at hitems horder
  rw [hw] at hin hitems horder
  exact ⟨hin, h.counted, hitems, fun _ => horder (by decide)⟩

theorem LinkFlow.send (h : LinkFlow batches j S l) (hl : l.send = some l') :
    LinkFlow batches j S l' := by
  obtain ⟨item, queue, hw, hq, rfl⟩ := Link.send_eq_some hl
  have hin := h.inFlight
  have hitems := h.items
  have horder := h.order
  unfold Link.pending at hitems horder
  rw [hw, hq] at hitems horder
  rw [hw] at hin
  obtain ⟨hwire, hacks⟩ := hin
  refine ⟨Or.inl ⟨?_, hacks⟩, h.counted, hitems, fun _ => horder (by decide)⟩
  simp only [hwire, List.nil_append]

theorem LinkFlow.fail (h : LinkFlow batches j S l) (hl : l.fail = some l') :
    LinkFlow batches j S l' := by
  obtain ⟨queue, hsuffix, rfl⟩ := Link.fail_eq_some hl
  refine ⟨trivial, h.counted, fun item hitem => ?_, fun hterm => absurd rfl hterm⟩
  have hmem : item ∈ l.queue := hsuffix.subset hitem
  apply h.items item
  unfold Link.pending
  split
  · exact List.mem_cons_of_mem _ hmem
  · exact hmem

/-- **The handler answers a frame.** -/
theorem LinkFlow.ack (h : LinkFlow batches j S l) (hl : l.ack = some l') (hS : ∀ f, S f → S' f)
    (hnew : ∀ frame, l.wire.head? = some frame → S' frame) : LinkFlow batches j S' l' := by
  obtain ⟨frame, wire, -, hwire, rfl⟩ := Link.ack_eq_some hl
  refine ⟨?_, fun b hb hj => hS _ (h.counted b hb hj), h.items, h.order⟩
  have hin := h.inFlight
  rw [hwire] at hnew
  show InFlight S' _ l.worker
  cases hw : l.worker with
  | connecting => rw [hw] at hin; rw [hin.1] at hwire; cases hwire
  | idle => rw [hw] at hin; rw [hin.1] at hwire; cases hwire
  | awaiting item =>
    rw [hw] at hin
    rcases hin with ⟨hw', ha⟩ | ⟨hw', -, -⟩
    · rw [hw'] at hwire
      cases hwire
      exact Or.inr ⟨rfl, ⟨item.frame.seq, by simp only [ha, List.nil_append]⟩, hnew _ rfl⟩
    · rw [hw'] at hwire
      cases hwire
  | terminated => trivial

/-! ## Counting -/

/-- The worker of server `i` counts; the connection of server `j` is another one. -/
theorem LinkFlow.countOther (h : LinkFlow batches j S l) {i : Fin n} (hij : j ≠ i) (state : ℕ) :
    LinkFlow (addAck batches state i) j S l := by
  have hacks : ∀ (m : ℕ) (b : Batch n), (addAck batches state i)[m]? = some b → j ∈ b.acks →
      ∃ b₀ : Batch n, batches[m]? = some b₀ ∧ j ∈ b₀.acks ∧ b₀.frame = b.frame := by
    intro m b hb hj
    rcases getElem?_addAck hb with hb | ⟨-, b₀, hb₀, rfl⟩
    · exact ⟨b, hb, hj, rfl⟩
    · refine ⟨b₀, hb₀, ?_, rfl⟩
      rcases List.mem_append.mp hj with hj | hj
      · exact hj
      · exact absurd (List.mem_singleton.mp hj) hij
  refine ⟨h.inFlight, ?_, ?_, ?_⟩
  · intro b hb hj
    obtain ⟨m, hm⟩ := List.mem_iff_getElem?.mp hb
    obtain ⟨b₀, hb₀, hj₀, hframe⟩ := hacks m b hm hj
    rw [← hframe]
    exact h.counted b₀ (List.mem_of_getElem? hb₀) hj₀
  · intro item hitem
    obtain ⟨b, hb, hframe⟩ := h.items item hitem
    obtain ⟨b', hb', hframe'⟩ := @frame_addAck _ _ state _ _ hb i
    exact ⟨b', hb', hframe'.trans hframe⟩
  · intro hterm
    obtain ⟨k, hk, hrange, hbound⟩ := h.order hterm
    rw [length_addAck]
    refine ⟨k, hk, hrange, fun m b hb hj => ?_⟩
    obtain ⟨b₀, hb₀, hj₀, -⟩ := hacks m b hb hj
    exact hbound m b₀ hb₀ hj₀

/-- **The worker counts its item**, which it had not counted before. -/
theorem LinkFlow.count (h : LinkFlow batches j S l) {item : WorkItem}
    (hl : l.count = some (item, l')) :
    LinkFlow (addAck batches item.state j) j S l' ∧
      ∃ b, batches[item.state]? = some b ∧ j ∉ b.acks := by
  obtain ⟨reply, acks, hw, ha, rfl⟩ := Link.count_eq_some hl
  have hin := h.inFlight
  rw [hw] at hin
  obtain ⟨hwire, hnil, hanswered⟩ :
      l.wire = [] ∧ acks = [] ∧ S item.frame := by
    rcases hin with ⟨-, hacks⟩ | ⟨hwire, ⟨reply', hacks⟩, hanswered⟩
    · rw [ha] at hacks
      cases hacks
    · rw [ha] at hacks
      cases hacks
      exact ⟨hwire, rfl, hanswered⟩
  have hitems := h.items
  have horder := h.order
  unfold Link.pending at hitems horder
  simp only [hw] at hitems horder
  obtain ⟨k, hk, hrange, hbound⟩ := horder (by simp)
  obtain ⟨b, hb, hframe⟩ := hitems item List.mem_cons_self
  have hlt := (List.getElem?_eq_some_iff.mp hb).1
  -- the current item is the first one not counted
  obtain ⟨hstate, hqueue⟩ : item.state = k ∧
      l.queue.map WorkItem.state = List.range' (k + 1) (batches.length - (k + 1)) := by
    rw [List.map_cons] at hrange
    obtain ⟨m, hm⟩ : ∃ m, batches.length - k = m + 1 := by
      cases hd : batches.length - k with
      | zero => rw [hd] at hrange; cases hrange
      | succ m => exact ⟨m, rfl⟩
    rw [hm, List.range'_succ] at hrange
    obtain ⟨hstate, hqueue⟩ := List.cons.inj hrange
    refine ⟨hstate, hqueue.trans ?_⟩
    congr 1
    omega
  refine ⟨⟨⟨hwire, hnil⟩, ?_, ?_, ?_⟩, b, hb, fun hj => ?_⟩
  · intro b' hb' hj
    obtain ⟨m, hm⟩ := List.mem_iff_getElem?.mp hb'
    rcases getElem?_addAck hm with hm | ⟨rfl, b₀, hb₀, rfl⟩
    · exact h.counted b' (List.mem_of_getElem? hm) hj
    · rw [hb] at hb₀
      cases hb₀
      show S b.frame
      rw [hframe]
      exact hanswered
  · intro item' hitem'
    obtain ⟨b', hb', hframe'⟩ := hitems item' (List.mem_cons_of_mem _ hitem')
    obtain ⟨b'', hb'', hframe''⟩ := @frame_addAck _ _ item.state _ _ hb' j
    exact ⟨b'', hb'', hframe''.trans hframe'⟩
  · intro _
    rw [length_addAck]
    refine ⟨k + 1, by omega, hqueue, fun m b' hb' hj => ?_⟩
    rcases getElem?_addAck hb' with hb' | ⟨hm, -⟩
    · exact (hbound m b' hb' hj).trans (Nat.lt_succ_self k)
    · omega
  · have := hbound item.state b hb hj
    omega

/-! ## The shard -/

namespace ShardState

variable {c : ShardConfig} {s t : ShardState c}
  {S S' : Fin c.proxies × Fin c.servers → Frame → Prop}

structure Flow (S : Fin c.proxies × Fin c.servers → Frame → Prop) (s : ShardState c) : Prop where
  link : ∀ k : Fin c.proxies × Fin c.servers,
    LinkFlow (s.proxy k.1).batches k.2 (S k) (s.link k)
  nodup : ∀ p, ∀ b ∈ (s.proxy p).batches, b.acks.Nodup
  called : ∀ p, (s.proxy p).call = .returned true →
    ∃ b, (s.proxy p).batches.getLast? = some b ∧ c.quorum ≤ b.acks.length

theorem flow_init : Flow S (init : ShardState c) where
  link := fun _ => linkFlow_init
  nodup := fun _ _ hb => nomatch hb
  called := fun _ h => nomatch h

theorem Flow.mono (h : Flow S s) (hS : ∀ k f, S k f → S' k f) : Flow S' s :=
  ⟨fun k => (h.link k).mono (hS k), h.nodup, h.called⟩

/-- A change of the servers or of the way to the subscribers. -/
theorem Flow.congr (h : Flow S s) (hproxy : t.proxy = s.proxy) (hlink : t.link = s.link) :
    Flow S t := by
  refine ⟨?_, ?_, ?_⟩
  · rw [hproxy, hlink]
    exact h.link
  · rw [hproxy]
    exact h.nodup
  · rw [hproxy]
    exact h.called

theorem Flow.setLink (h : Flow S s) {p : Fin c.proxies} {j : Fin c.servers} {l : Link}
    (hl : LinkFlow (s.proxy p).batches j (S (p, j)) l) : Flow S (s.setLink p j l) where
  link := (Function.forall_update_iff s.link fun k l' =>
    LinkFlow (s.proxy k.1).batches k.2 (S k) l').mpr ⟨hl, fun k _ => h.link k⟩
  nodup := h.nodup
  called := h.called

/-- A step of a handler that answers nothing. -/
theorem Flow.setHandler (h : Flow S s) (p : Fin c.proxies) (j : Fin c.servers)
    (handler : HandlerPhase) :
    Flow S (s.setLink p j { s.link (p, j) with handler := handler }) :=
  h.setLink ((h.link (p, j)).setHandler handler)

/-- A step of the wait loop. -/
theorem Flow.setCall (h : Flow S s) {p : Fin c.proxies} {ps : ReplicatorState c.servers}
    (hbatches : ps.batches = (s.proxy p).batches)
    (hcalled : ps.call = .returned true →
      ∃ b, ps.batches.getLast? = some b ∧ c.quorum ≤ b.acks.length) : Flow S (s.setProxy p ps) where
  link := by
    intro k
    have hk : ((s.setProxy p ps).proxy k.1).batches = (s.proxy k.1).batches := by
      by_cases hp : k.1 = p
      · rw [hp]
        simp only [setProxy, Function.update_self, hbatches]
      · simp only [setProxy, Function.update_of_ne hp]
    rw [hk]
    exact h.link k
  nodup := (Function.forall_update_iff s.proxy fun _ ps' => ∀ b ∈ ps'.batches, b.acks.Nodup).mpr
    ⟨by rw [hbatches]; exact h.nodup p, fun q _ => h.nodup q⟩
  called := (Function.forall_update_iff s.proxy fun _ ps' => ps'.call = .returned true →
    ∃ b, ps'.batches.getLast? = some b ∧ c.quorum ≤ b.acks.length).mpr
    ⟨hcalled, fun q _ => h.called q⟩

theorem Flow.replicate (h : Flow S s) {p : Fin c.proxies} (frame : Frame) (clients : Finset ℕ) :
    Flow S ((s.pushItem p ⟨frame, (s.proxy p).batches.length⟩).setProxy p
      ((s.proxy p).replicate frame clients)) where
  link := by
    intro k
    by_cases hk : k.1 = p
    · have hlink := (h.link k).push frame clients
      simp only [setProxy, pushItem, hk, Function.update_self, if_true]
      rwa [hk] at hlink
    · simp only [setProxy, pushItem, if_neg hk, Function.update_of_ne hk]
      exact h.link k
  nodup := by
    refine (Function.forall_update_iff s.proxy fun _ ps' => ∀ b ∈ ps'.batches, b.acks.Nodup).mpr
      ⟨fun b hb => ?_, fun q _ => h.nodup q⟩
    rcases List.mem_append.mp hb with hb | hb
    · exact h.nodup p b hb
    · rw [List.mem_singleton] at hb
      subst hb
      exact List.nodup_nil
  called := (Function.forall_update_iff s.proxy fun _ ps' => ps'.call = .returned true →
    ∃ b, ps'.batches.getLast? = some b ∧ c.quorum ≤ b.acks.length).mpr
    ⟨fun hcall => (by cases hcall), fun q _ => h.called q⟩

theorem Flow.count (h : Flow S s) {p : Fin c.proxies} {j : Fin c.servers} {item : WorkItem}
    {l : Link} (hl : (s.link (p, j)).count = some (item, l)) :
    Flow S ((s.setLink p j l).setProxy p ((s.proxy p).count item.state j)) := by
  obtain ⟨hlink, b₀, hb₀, hnew⟩ := (h.link (p, j)).count hl
  refine ⟨?_, ?_, ?_⟩
  · intro k
    by_cases hk : k = (p, j)
    · subst hk
      simp only [setProxy, ShardState.setLink, Function.update_self]
      exact hlink
    · by_cases hp : k.1 = p
      · have hj : k.2 ≠ j := fun hj => hk (Prod.ext hp hj)
        have hother := (h.link k).countOther hj item.state
        simp only [setProxy, ShardState.setLink, Function.update_of_ne hk, hp, Function.update_self]
        rwa [hp] at hother
      · simp only [setProxy, ShardState.setLink, Function.update_of_ne hk, Function.update_of_ne hp]
        exact h.link k
  · refine (Function.forall_update_iff s.proxy fun _ ps' => ∀ b ∈ ps'.batches, b.acks.Nodup).mpr
      ⟨fun b hb => ?_, fun q _ => h.nodup q⟩
    obtain ⟨m, hm⟩ := List.mem_iff_getElem?.mp hb
    rcases getElem?_addAck hm with hm | ⟨rfl, b₁, hb₁, rfl⟩
    · exact h.nodup p b (List.mem_of_getElem? hm)
    · rw [hb₀] at hb₁
      cases hb₁
      have hnodup := h.nodup p b₀ (List.mem_of_getElem? hb₀)
      exact hnodup.append (List.nodup_singleton j) (List.disjoint_singleton.mpr hnew)
  · refine (Function.forall_update_iff s.proxy fun _ ps' => ps'.call = .returned true →
      ∃ b, ps'.batches.getLast? = some b ∧ c.quorum ≤ b.acks.length).mpr
      ⟨fun hcall => ?_, fun q _ => h.called q⟩
    obtain ⟨b, hb, hq⟩ := h.called p hcall
    obtain ⟨b', hb', hle⟩ := getLast?_addAck hb item.state j
    exact ⟨b', hb', hq.trans hle⟩

/-- **One step.** `S` may grow, and grows by the frame that is answered. -/
theorem flow_step {e : ShardEvent c} (h : Flow S s) (hS : ∀ k f, S k f → S' k f)
    (hnew : ∀ p j frame, e = .ack p j → (s.link (p, j)).wire.head? = some frame →
      S' (p, j) frame) (hs : s.step e = some t) : Flow S' t := by
  have h' := h.mono hS
  cases effect_of_step hs with
  | replicate idle => exact h'.replicate _ _
  | @pollAcks p ps hp =>
    unfold ReplicatorState.pollAcks at hp
    split at hp <;> cases hp
    rename_i b hcall hlast
    refine h'.setCall rfl fun hret => ⟨b, hlast, ?_⟩
    simp only at hret
    split_ifs at hret with hlt
    exact Nat.not_lt.mp hlt
  | @pollLive p ps hp =>
    unfold ReplicatorState.pollLive at hp
    split at hp <;> cases hp
    refine h'.setCall rfl fun hret => ?_
    simp only at hret
    split_ifs at hret
    cases hret
  | @respond p ps hp =>
    unfold ReplicatorState.respond at hp
    split at hp <;> cases hp
    exact h'.setCall rfl fun hret => by cases hret
  | connect up hl => exact h'.setLink ((h'.link _).connect hl)
  | send hl => exact h'.setLink ((h'.link _).send hl)
  | fail hl => exact h'.setLink ((h'.link _).fail hl)
  | count hl => exact h'.count hl
  | ack up hl =>
    refine h'.setLink ((h.link _).ack hl (hS _) ?_)
    exact fun frame hframe => hnew _ _ frame rfl hframe
  | check up hl =>
    obtain ⟨frame, -, rfl⟩ := Link.check_eq_some hl
    exact h'.setHandler _ _ _
  | store up hl =>
    obtain ⟨-, rfl⟩ := Link.store_eq_some hl
    exact (h'.setHandler _ _ _).congr rfl rfl
  | broadcast up hl =>
    obtain ⟨-, rfl⟩ := Link.broadcast_eq_some hl
    exact (h'.setHandler _ _ _).congr rfl rfl
  | deliver running hd =>
    unfold ShardState.observe
    split <;> exact h'.congr rfl rfl
  | _ => exact h'.congr rfl rfl

end ShardState

end Ziplog
