import Ziplog.Subscriber.QuoratePrefix

/-!
# Where log entries come from

Nothing is assumed about the payloads here: different senders may deliver different bytes under one
number, and a call may throw. `Provenance D q t` says that everything in the tracker was delivered,
for a relation `D sender seq data` of the deliveries so far: counted senders did deliver their
number, and a payload that is held or in the log was delivered by some sender under a number that
`q` distinct senders delivered. Every call keeps it (`observe_provenance`).

The quorum is one of senders of a number, not of its bytes: `not_content_quorum` is a history in
which an entry of the log was delivered by a single sender.
-/

namespace Ziplog

/-- At least `q` distinct senders delivered the number `s`. -/
def Quorate (D : ℕ → ℕ → List UInt8 → Prop) (q s : ℕ) : Prop :=
  ∃ S : Finset ℕ, q ≤ S.card ∧ ∀ x ∈ S, ∃ d, D x s d

/-- Some sender delivered `d` under `s`, and at least `q` distinct senders delivered `s`. -/
def Backed (D : ℕ → ℕ → List UInt8 → Prop) (q s : ℕ) (d : List UInt8) : Prop :=
  (∃ x, D x s d) ∧ Quorate D q s

theorem Quorate.mono {D D' : ℕ → ℕ → List UInt8 → Prop} (hD : ∀ x s d, D x s d → D' x s d)
    {q s : ℕ} (h : Quorate D q s) : Quorate D' q s := by
  obtain ⟨S, hcard, hS⟩ := h
  refine ⟨S, hcard, fun x hx => ?_⟩
  obtain ⟨d, hd⟩ := hS x hx
  exact ⟨d, hD x s d hd⟩

theorem Backed.mono {D D' : ℕ → ℕ → List UInt8 → Prop} (hD : ∀ x s d, D x s d → D' x s d)
    {q s : ℕ} {d : List UInt8} (h : Backed D q s d) : Backed D' q s d := by
  obtain ⟨⟨x, hx⟩, hq⟩ := h
  exact ⟨⟨x, hD x s d hx⟩, hq.mono hD⟩

namespace LogTracker

/-- Everything in the tracker was delivered. -/
structure Provenance (D : ℕ → ℕ → List UInt8 → Prop) (q : ℕ) (t : LogTracker) : Prop where
  counted : ∀ s, ∀ x ∈ t.senders s, ∃ d, D x s d
  held : ∀ s d, t.outOfOrder.lookup s = some d → Backed D q s d
  log : ∀ i d, 1 ≤ i → t.log[i]? = some d → Backed D q i d
  head : t.log[0]? = some []
  size : t.log.length = t.nextSeq

variable {D D' : ℕ → ℕ → List UInt8 → Prop} {q : ℕ} {t : LogTracker}

theorem provenance_init : Provenance D q init where
  counted := by
    intro s x hx
    exact absurd hx (Finset.notMem_empty x)
  held := by
    intro s d hd
    cases hd
  log := by
    intro i d hi hd
    obtain ⟨j, rfl⟩ : ∃ j, i = j + 1 := ⟨i - 1, by omega⟩
    cases hd
  head := rfl
  size := rfl

theorem Provenance.mono (hD : ∀ x s d, D x s d → D' x s d) (h : Provenance D q t) :
    Provenance D' q t where
  counted := by
    intro s x hx
    obtain ⟨d, hd⟩ := h.counted s x hx
    exact ⟨d, hD x s d hd⟩
  held := fun s d hd => (h.held s d hd).mono hD
  log := fun i d hi hd => (h.log i d hi hd).mono hD
  head := h.head
  size := h.size

theorem Provenance.commitNext (h : Provenance D q t) {raw : List UInt8}
    (hl : t.outOfOrder.lookup t.nextSeq = some raw) : Provenance D q (t.commitNext raw) where
  counted := h.counted
  held := by
    intro s d hd
    rw [commitNext_outOfOrder] at hd
    by_cases hs : s = t.nextSeq
    · rw [hs, AList.lookup_erase] at hd
      cases hd
    · rw [AList.lookup_erase_ne hs] at hd
      exact h.held s d hd
  log := by
    intro i d hi hd
    rw [commitNext_log, List.getElem?_append] at hd
    split_ifs at hd with hlt
    · exact h.log i d hi hd
    · obtain ⟨hpos, rfl⟩ := List.getElem?_eq_some_iff.mp hd
      rw [List.length_singleton] at hpos
      have hidx : i = t.nextSeq := by
        have := h.size
        omega
      subst hidx
      rw [List.getElem_singleton]
      exact h.held _ _ hl
  head := by
    have hpos := (List.getElem?_eq_some_iff.mp h.head).1
    rw [commitNext_log, List.getElem?_append_left hpos, h.head]
  size := by rw [commitNext_log, List.length_append, h.size, commitNext_nextSeq]; rfl

theorem Provenance.hold (h : Provenance D q t) {s : ℕ} {d : List UInt8} (hd : Backed D q s d) :
    Provenance D q (t.hold s d) where
  counted := h.counted
  held := by
    intro r e he
    rw [hold_outOfOrder] at he
    by_cases hr : r = s
    · subst hr
      rw [AList.lookup_insert] at he
      cases he
      exact hd
    · rw [AList.lookup_insert_ne hr] at he
      exact h.held r e he
  log := h.log
  head := h.head
  size := h.size

theorem Provenance.count (h : Provenance D q t) {x s : ℕ} {d : List UInt8} (hd : D x s d) :
    Provenance D q (t.count x s) where
  counted := by
    intro r y hy
    rw [senders_count] at hy
    split_ifs at hy with hr
    · subst hr
      rcases Finset.mem_insert.mp hy with rfl | hy
      · exact ⟨d, hd⟩
      · exact h.counted r y hy
    · exact h.counted r y hy
  held := h.held
  log := h.log
  head := h.head
  size := h.size

theorem Provenance.settle (h : Provenance D q t) (s : ℕ) : Provenance D q (t.settle s) where
  counted := by
    intro r y hy
    rw [senders_settle] at hy
    split_ifs at hy with hr
    · exact absurd hy (Finset.notMem_empty y)
    · exact h.counted r y hy
  held := h.held
  log := h.log
  head := h.head
  size := h.size

/-- **Every call keeps the provenance**, also a call that throws. -/
theorem observe_provenance (h : Provenance D q t) (received : ℕ) {x s : ℕ} {d : List UInt8}
    (hd : D x s d) : Provenance D q (t.observe received x s d q).1 := by
  rcases t.observe_cases received x s d q with ⟨-, hobs⟩ | ⟨-, -, hobs⟩ | ⟨-, hge, hobs⟩
  · rwa [hobs]
  · rw [hobs]
    exact h.count hd
  · have hbacked : Backed D q s d := by
      refine ⟨⟨x, hd⟩, insert x (t.senders s), hge, fun y hy => ?_⟩
      rcases Finset.mem_insert.mp hy with rfl | hy
      · exact ⟨d, hd⟩
      · exact h.counted s y hy
    have hdrain : Provenance D q ((t.count x s).applyLocked received s d).1 :=
      drainLoop_invariant (fun u raw hu hraw => hu.commitNext hraw) _ _ _
        ((h.count hd).hold hbacked)
    rcases hobs with ⟨t', e, heq, hobs⟩ | ⟨t', out, heq, hobs⟩
    · rw [hobs]
      rwa [heq] at hdrain
    · rw [hobs]
      rw [heq] at hdrain
      exact hdrain.settle s

/-- The relation of a list of calls. -/
def delivered (calls : List Delivery) (x s : ℕ) (d : List UInt8) : Prop :=
  ∃ c ∈ calls, c.sender = x ∧ c.seq = s ∧ c.data = d

/-- **A run of calls.** -/
theorem observeAll_provenance (q : ℕ) (calls : List Delivery) :
    Provenance (delivered calls) q (observeAll q calls) := by
  induction calls using List.reverseRecOn with
  | nil => exact provenance_init
  | append_singleton calls c ih =>
    rw [observeAll_append]
    refine observe_provenance (ih.mono ?_) c.received ⟨c, ?_, rfl, rfl, rfl⟩
    · rintro x s d ⟨e, he, hx⟩
      exact ⟨e, List.mem_append_left _ he, hx⟩
    · exact List.mem_append_right _ (List.mem_singleton_self c)

theorem quorate_delivered {calls : List Delivery} {q s : ℕ} (h : Quorate (delivered calls) q s) :
    q ≤ (sendersOf calls s).card := by
  obtain ⟨S, hcard, hS⟩ := h
  refine hcard.trans (Finset.card_le_card fun x hx => ?_)
  obtain ⟨d, c, hc, hsender, hseq, -⟩ := hS x hx
  exact mem_sendersOf.mpr ⟨c, hc, hseq, hsender⟩

/-- The senders that delivered exactly `d` under `s`. -/
def sendersOfContent (calls : List Delivery) (s : ℕ) (d : List UInt8) : Finset ℕ :=
  ((calls.filter fun c => c.seq = s ∧ c.data = d).map Delivery.sender).toFinset

/-- **The read quorum.** Every entry of the log was delivered under its number, with exactly its
bytes, by at least one sender, and at least `q` distinct senders delivered that number; if all
deliveries of the number carry the same bytes, `q` distinct senders delivered exactly the entry. -/
theorem log_backed (q : ℕ) (calls : List Delivery) (i : ℕ) (hi : 1 ≤ i) (d : List UInt8)
    (hd : (observeAll q calls).log[i]? = some d) :
    (∃ c ∈ calls, c.seq = i ∧ c.data = d) ∧ q ≤ (sendersOf calls i).card ∧
    ((∀ c ∈ calls, ∀ c' ∈ calls, c.seq = i → c'.seq = i → c.data = c'.data) →
      q ≤ (sendersOfContent calls i d).card) := by
  obtain ⟨⟨x, c, hc, -, hseq, hdata⟩, hq⟩ := (observeAll_provenance q calls).log i d hi hd
  have hcard := quorate_delivered hq
  refine ⟨⟨c, hc, hseq, hdata⟩, hcard, fun hsame => hcard.trans (Finset.card_le_card ?_)⟩
  intro y hy
  obtain ⟨e, he, hes, hey⟩ := mem_sendersOf.mp hy
  simp only [sendersOfContent, List.mem_toFinset, List.mem_map, List.mem_filter, decide_eq_true_eq]
  exact ⟨e, ⟨he, hes, (hsame e he c hc hes hseq).trans hdata⟩, hey⟩

theorem log_backed_skip_race :
    (∃ c ∈ [⟨0, 1, 1, [0, 0, 0, 1, 65]⟩, (⟨0, 2, 1, []⟩ : Delivery)], c.seq = 1 ∧ c.data = []) ∧
      2 ≤ (sendersOf [⟨0, 1, 1, [0, 0, 0, 1, 65]⟩, ⟨0, 2, 1, []⟩] 1).card :=
  have h := log_backed 2 [⟨0, 1, 1, [0, 0, 0, 1, 65]⟩, ⟨0, 2, 1, []⟩] 1 (by decide) [] (by decide)
  ⟨h.1, h.2.1⟩

/-- With a quorum of two, an entry delivered by server 2 alone: server 1 delivered an append under
the number, server 2 a skip. -/
theorem not_content_quorum :
    ¬ ∀ (q : ℕ) (calls : List Delivery), 1 ≤ q → ∀ (i : ℕ) (d : List UInt8), 1 ≤ i →
      (observeAll q calls).log[i]? = some d → q ≤ (sendersOfContent calls i d).card := by
  intro h
  have := h 2 [⟨0, 1, 1, [0, 0, 0, 1, 65]⟩, ⟨0, 2, 1, []⟩] (by decide) 1 [] (by decide) (by decide)
  exact absurd this (by decide)

end LogTracker

end Ziplog
