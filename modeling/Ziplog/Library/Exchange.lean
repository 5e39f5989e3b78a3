import Mathlib.Data.List.Infix

/-!
# Requests and replies in order

A connection on which requests go one way and replies come back, both in order. The far end handles
the requests one after the other and replies to some of them; readers at the near end take the
replies as they come. Nothing on the connection says which request a reply is for: each request,
reply and reader is recorded by the place of its request, and `paired_read_iff` says when the next
reader gets the reply to its own.
-/

universe u v

/-- A connection with requests from `ρ` and replies from `α`. The replies, and what was read, stand
with the place of the request they are for; a read also with the place of the reader's request. -/
structure Exchange (ρ : Type u) (α : Type v) where
  sent : List ρ
  handled : ℕ
  replies : List (ℕ × α)
  reads : List (ℕ × ℕ × α)

namespace Exchange

variable {ρ : Type u} {α : Type v} {replyTo : ρ → Option α} {x y : Exchange ρ α}

def empty : Exchange ρ α := ⟨[], 0, [], []⟩

def send (x : Exchange ρ α) (r : ρ) : Exchange ρ α := { x with sent := x.sent ++ [r] }

/-- The far end handles the next request. -/
def handle (replyTo : ρ → Option α) (x : Exchange ρ α) : Option (Exchange ρ α) :=
  x.sent[x.handled]?.map fun r =>
    { x with
      handled := x.handled + 1
      replies := x.replies ++ (replyTo r).toList.map (x.handled, ·) }

/-- The sender of the request at `place` takes the next reply. -/
def read (x : Exchange ρ α) (place : ℕ) : Option (Exchange ρ α) :=
  x.replies[x.reads.length]?.map fun reply => { x with reads := x.reads ++ [(place, reply)] }

/-- The replies are those to the requests handled so far, in order, and are read in order. -/
structure Fifo (replyTo : ρ → Option α) (x : Exchange ρ α) : Prop where
  handled : x.handled ≤ x.sent.length
  ascending : x.replies.Pairwise (·.1 < ·.1)
  replied : ∀ e ∈ x.replies, e.1 < x.handled ∧ ∃ r, x.sent[e.1]? = some r ∧ replyTo r = some e.2
  complete : ∀ q < x.handled, ∀ r a, x.sent[q]? = some r → replyTo r = some a → (q, a) ∈ x.replies
  reads : x.reads.map (·.2) = x.replies.take x.reads.length

theorem fifo_empty : (empty : Exchange ρ α).Fifo replyTo where
  handled := le_rfl
  ascending := .nil
  replied := fun _ h => nomatch h
  complete := fun _ h => nomatch h
  reads := rfl

/-- A request stays where it is. -/
theorem getElem?_send {q : ℕ} {r r' : ρ} (h : x.sent[q]? = some r) :
    (x.send r').sent[q]? = some r :=
  (List.getElem?_append_left (List.getElem?_eq_some_iff.mp h).1).trans h

theorem getElem?_send_self (x : Exchange ρ α) (r : ρ) :
    (x.send r).sent[x.sent.length]? = some r := List.getElem?_concat_length

theorem Fifo.send (h : x.Fifo replyTo) (r : ρ) : (x.send r).Fifo replyTo where
  handled := by
    show x.handled ≤ (x.sent ++ [r]).length
    rw [List.length_append]
    exact Nat.le_add_right_of_le h.handled
  ascending := h.ascending
  replied := by
    intro e he
    obtain ⟨hlt, r', hr', ha⟩ := h.replied e he
    exact ⟨hlt, r', getElem?_send hr', ha⟩
  complete := by
    intro q hq r' a hr' ha
    have hlt : q < x.sent.length := Nat.lt_of_lt_of_le hq h.handled
    exact h.complete q hq r' a ((List.getElem?_append_left hlt).symm.trans hr') ha
  reads := h.reads

theorem eq_of_handle (hs : x.handle replyTo = some y) : ∃ r, x.sent[x.handled]? = some r ∧
    y = { x with
      handled := x.handled + 1
      replies := x.replies ++ (replyTo r).toList.map (x.handled, ·) } := by
  obtain ⟨r, hr, rfl⟩ := Option.map_eq_some_iff.mp hs
  exact ⟨r, hr, rfl⟩

theorem eq_of_read {place : ℕ} (hs : x.read place = some y) :
    ∃ reply, x.replies[x.reads.length]? = some reply ∧
      y = { x with reads := x.reads ++ [(place, reply)] } := by
  obtain ⟨reply, hreply, rfl⟩ := Option.map_eq_some_iff.mp hs
  exact ⟨reply, hreply, rfl⟩

/-- Readers have taken no more replies than there are. -/
theorem Fifo.length_reads_le (h : x.Fifo replyTo) : x.reads.length ≤ x.replies.length := by
  have hlen := congrArg List.length h.reads
  rw [List.length_map, List.length_take] at hlen
  omega

theorem Fifo.handle (h : x.Fifo replyTo) (hs : x.handle replyTo = some y) : y.Fifo replyTo := by
  obtain ⟨r, hr, rfl⟩ := eq_of_handle hs
  have hnew : ∀ e ∈ (replyTo r).toList.map (x.handled, ·),
      e.1 = x.handled ∧ replyTo r = some e.2 := by
    intro e he
    obtain ⟨a, ha, rfl⟩ := List.mem_map.mp he
    exact ⟨rfl, Option.mem_toList.mp ha⟩
  refine ⟨(List.getElem?_eq_some_iff.mp hr).1, ?_, ?_, ?_, ?_⟩
  · refine List.pairwise_append.mpr ⟨h.ascending, ?_, fun e he e' he' => ?_⟩
    · cases replyTo r with
      | none => exact .nil
      | some a => exact List.pairwise_singleton _ _
    · rw [(hnew e' he').1]
      exact (h.replied e he).1
  · intro e he
    rcases List.mem_append.mp he with hold | hlast
    · obtain ⟨hlt, hrest⟩ := h.replied e hold
      exact ⟨Nat.lt_succ_of_lt hlt, hrest⟩
    · obtain ⟨heq, ha⟩ := hnew e hlast
      rw [heq]
      exact ⟨Nat.lt_succ_self _, r, hr, ha⟩
  · intro q hq r' a hr' ha
    rcases Nat.lt_succ_iff_lt_or_eq.mp hq with hlt | rfl
    · exact List.mem_append_left _ (h.complete q hlt r' a hr' ha)
    · cases hr.symm.trans hr'
      refine List.mem_append_right _ (List.mem_map.mpr ⟨a, ?_, rfl⟩)
      rw [ha]
      exact List.mem_singleton_self a
  · exact h.reads.trans (List.take_append_of_le_length h.length_reads_le).symm

theorem Fifo.read {place : ℕ} (h : x.Fifo replyTo) (hs : x.read place = some y) :
    y.Fifo replyTo := by
  obtain ⟨reply, hreply, rfl⟩ := eq_of_read hs
  refine ⟨h.handled, h.ascending, h.replied, h.complete, ?_⟩
  show (x.reads ++ [(place, reply)]).map (·.2) = x.replies.take (x.reads ++ [(place, reply)]).length
  rw [List.map_append, h.reads, List.length_append, List.length_singleton, List.take_add_one,
    hreply]
  rfl

/-- Whoever read got the reply to its own request. -/
def Paired (x : Exchange ρ α) : Prop := ∀ e ∈ x.reads, e.2.1 = e.1

/-- The request at `place` gets a reply, and all requests before it that get one have had it read by
their senders. -/
def Due (replyTo : ρ → Option α) (x : Exchange ρ α) (place : ℕ) : Prop :=
  (∃ r, x.sent[place]? = some r ∧ (replyTo r).isSome) ∧
    ∀ q < place, ∀ r, x.sent[q]? = some r → (replyTo r).isSome → ∃ e ∈ x.reads, e.1 = q

variable {place : ℕ} {reply : ℕ × α}

/-- What was read so far are replies to earlier requests than the next reply. -/
theorem Fifo.lt_of_mem_reads (h : x.Fifo replyTo) (hpaired : x.Paired)
    (hnext : x.replies[x.reads.length]? = some reply) {e : ℕ × ℕ × α} (he : e ∈ x.reads) :
    e.1 < reply.1 := by
  obtain ⟨hlen, hget⟩ := List.getElem?_eq_some_iff.mp hnext
  have htaken : e.2 ∈ x.replies.take x.reads.length := by
    rw [← h.reads]
    exact List.mem_map_of_mem he
  obtain ⟨i, hi, heq⟩ := List.mem_take_iff_getElem.mp htaken
  have hlt := List.pairwise_iff_getElem.mp h.ascending i x.reads.length (by omega) hlen (by omega)
  rwa [heq, hget, hpaired e he] at hlt

/-- The replies to all earlier requests than that were read. -/
theorem Fifo.exists_read_of_lt (h : x.Fifo replyTo) (hpaired : x.Paired)
    (hnext : x.replies[x.reads.length]? = some reply) {e : ℕ × α} (he : e ∈ x.replies)
    (hlt : e.1 < reply.1) : ∃ e' ∈ x.reads, e'.1 = e.1 := by
  obtain ⟨hlen, hget⟩ := List.getElem?_eq_some_iff.mp hnext
  obtain ⟨i, hi, rfl⟩ := List.getElem_of_mem he
  have hbefore : i < x.reads.length := by
    by_contra hge
    rcases Nat.lt_or_eq_of_le (Nat.le_of_not_lt hge) with hgt | heq
    · have hafter := List.pairwise_iff_getElem.mp h.ascending _ _ hlen hi hgt
      rw [hget] at hafter
      exact hafter.asymm hlt
    · simp only [← heq, hget] at hlt
      exact Nat.lt_irrefl _ hlt
  have htaken : x.replies[i] ∈ x.reads.map (·.2) := by
    rw [h.reads]
    exact List.mem_take_iff_getElem.mpr ⟨i, by omega, rfl⟩
  obtain ⟨e', he', heq⟩ := List.mem_map.mp htaken
  refine ⟨e', he', ?_⟩
  rw [← hpaired e' he', heq]

/-- **The next reader** gets the reply to its own request exactly when that reply is due. -/
theorem paired_read_iff (h : x.Fifo replyTo) (hpaired : x.Paired)
    (hnew : ∀ e ∈ x.reads, e.1 ≠ place) (hs : x.read place = some y) :
    y.Paired ↔ x.Due replyTo place := by
  obtain ⟨reply, hnext, rfl⟩ := eq_of_read hs
  obtain ⟨hhandled, r, hr, ha⟩ := h.replied reply (List.mem_of_getElem? hnext)
  have hiff : Paired { x with reads := x.reads ++ [(place, reply)] } ↔ reply.1 = place := by
    constructor
    · intro hall
      exact hall (place, reply) (List.mem_append_right _ (List.mem_singleton_self _))
    · intro heq e he
      rcases List.mem_append.mp he with hold | hlast
      · exact hpaired e hold
      · rw [List.mem_singleton.mp hlast]
        exact heq
  rw [hiff]
  constructor
  · rintro rfl
    refine ⟨⟨r, hr, Option.isSome_iff_exists.mpr ⟨_, ha⟩⟩, fun q hq r' hr' hsome => ?_⟩
    obtain ⟨a', ha'⟩ := Option.isSome_iff_exists.mp hsome
    have hmem := h.complete q (hq.trans hhandled) r' a' hr' ha'
    exact h.exists_read_of_lt hpaired hnext hmem hq
  · rintro ⟨⟨r', hr', hsome⟩, hbefore⟩
    rcases Nat.lt_trichotomy reply.1 place with hlt | heq | hgt
    · obtain ⟨e, he, heq⟩ := hbefore reply.1 hlt r hr (Option.isSome_iff_exists.mpr ⟨_, ha⟩)
      exact absurd heq (h.lt_of_mem_reads hpaired hnext he).ne
    · exact heq
    · obtain ⟨a', ha'⟩ := Option.isSome_iff_exists.mp hsome
      have hmem := h.complete place (hgt.trans hhandled) r' a' hr' ha'
      obtain ⟨e, he, heq⟩ := h.exists_read_of_lt hpaired hnext hmem hgt
      exact absurd heq (hnew e he)

end Exchange
