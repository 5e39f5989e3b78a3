import Ziplog.Api.RefillSpace

/-!
# The receiving end of a connection, step by step

`recv_raw_buffered` cut into the calls of `recv` that its loops make: an `Inbox` is the bytes that
have been sent and not received, with the read buffer. `refill` is one call of `recv` that returns
something, and `whole` is the length that `recv_raw_buffered` returns once it needs no further call
(`whole_of_recvRawBuffered`). Between two of these steps the other end may send more.

`Carries bodies cut` says that the unread bytes are the frames of `bodies`, and behind them what the
last send has left of a frame if `cut`. Each step acts on the frames as on a queue.
-/

namespace Ziplog

open Cells ReadBuffer

structure Inbox where
  pending : List UInt8
  rb : ReadBuffer

namespace Inbox

/-- The bytes of a send. -/
def arrive (x : Inbox) (bytes : List UInt8) : Inbox := { x with pending := x.pending ++ bytes }

/-- The pass of `refill_spin` in which `recv` returns up to `n` bytes. -/
def refill (x : Inbox) (n : ℕ) : Option Inbox :=
  match refillSpin ⟨x.pending, [.chunk n]⟩ x.rb with
  | (true, sock, rb) => some ⟨sock.pending, rb⟩
  | (false, _, _) => none

/-- What `recv_raw_buffered` returns without a call of `recv`. -/
def whole (x : Inbox) : Option ℕ := (recvRawBuffered ⟨x.pending, []⟩ x.rb).1

/-- The memory from the body of the next frame on. -/
def message (x : Inbox) : List UInt8 := x.rb.data.drop 2

def consume (x : Inbox) (n : ℕ) : Inbox := { x with rb := x.rb.consume n }

/-- The bytes sent and not consumed. -/
def unread (x : Inbox) : List UInt8 := x.rb.bytes ++ x.pending

/-! ## The steps of a receive call -/

/-- Some calls of `recv` inside one receive call. -/
inductive Refills : Inbox → Inbox → Prop
  | refl (x : Inbox) : Refills x x
  | step {x y z : Inbox} {n : ℕ} : x.refill n = some y → Refills y z → Refills x z

theorem Refills.trans {x y z : Inbox} (h : Refills x y) (h' : Refills y z) : Refills x z := by
  induction h with
  | refl => exact h'
  | step hrefill _ ih => exact .step hrefill (ih h')

/-- The loop of `refill_spin` passes over the calls that return nothing. -/
theorem exists_recvLoop {rb rb' : ReadBuffer} {pending : List UInt8} {schedule : List RecvEvent}
    {sock : Socket} (h : recvLoop rb pending schedule = (true, sock, rb')) :
    ∃ n, recvLoop rb pending [.chunk n] = (true, ⟨sock.pending, []⟩, rb') := by
  induction schedule with
  | nil => cases h
  | cons event schedule ih =>
    cases event with
    | again => exact ih h
    | chunk n =>
      refine ⟨n, ?_⟩
      unfold recvLoop at h ⊢
      simp only at h ⊢
      split_ifs at h ⊢ with hnone
      · cases h
      · cases h
        rfl

theorem refills_of_fillLoop {needed fuel : ℕ} {sock sock' : Socket} {rb rb' : ReadBuffer}
    (h : fillLoop needed fuel sock rb = (true, sock', rb')) :
    Refills ⟨sock.pending, rb⟩ ⟨sock'.pending, rb'⟩ := by
  induction fuel generalizing sock rb with
  | zero => cases h
  | succ fuel ih =>
    unfold fillLoop at h
    split_ifs at h with hneeded
    · rcases hrefill : refillSpin sock rb with ⟨_ | _, sock₁, rb₁⟩ <;> simp only [hrefill] at h
      · cases h
      · obtain ⟨n, hn⟩ := exists_recvLoop hrefill
        refine .step (n := n) ?_ (ih h)
        unfold refill
        rw [refillSpin, hn]
    · cases h
      exact .refl _

/-- Without a call of `recv` the loops only pass when they need none. -/
theorem fillTo_nil {needed : ℕ} {pending : List UInt8} {rb : ReadBuffer} :
    fillTo needed ⟨pending, []⟩ rb =
      if rb.available < needed then (false, ⟨pending, []⟩, rb.compact)
      else (true, ⟨pending, []⟩, rb) := rfl

/-- The length in front of the unread bytes. -/
def announced (x : Inbox) : ℕ := (ntohs (load16 (slice x.rb.buf x.rb.head 2))).toNat

theorem whole_eq (x : Inbox) : x.whole =
    if x.rb.available < 2 ∨ x.rb.available < 2 + x.announced then none else some x.announced := by
  have hmax : ¬ maxMessageSize < x.announced := by
    have hlt := (ntohs (load16 (slice x.rb.buf x.rb.head 2))).toNat_lt
    unfold maxMessageSize announced
    omega
  unfold announced at hmax ⊢
  unfold whole recvRawBuffered
  rw [fillTo_nil]
  by_cases htwo : x.rb.available < 2
  · rw [if_pos htwo, if_pos (Or.inl htwo)]
  · rw [if_neg htwo]
    simp only [fillTo_nil, if_neg hmax]
    by_cases hbody : x.rb.available < 2 + (ntohs (load16 (slice x.rb.buf x.rb.head 2))).toNat
    · rw [if_pos (Or.inr hbody)]
      simp only [if_pos hbody]
    · rw [if_neg (not_or.mpr ⟨htwo, hbody⟩)]
      simp only [if_neg hbody]

theorem whole_eq_some {x : Inbox} {msgLen : ℕ} : x.whole = some msgLen ↔
    2 + msgLen ≤ x.rb.available ∧ msgLen = x.announced := by
  rw [whole_eq]
  split_ifs with hmissing
  · refine iff_of_false (fun h => nomatch h) ?_
    rintro ⟨hav, rfl⟩
    omega
  · rw [not_or] at hmissing
    constructor
    · intro h
      cases h
      exact ⟨by omega, rfl⟩
    · rintro ⟨-, rfl⟩
      rfl

/-- A receive call that needs no call of `recv` changes nothing. -/
theorem recvRawBuffered_of_whole {x : Inbox} {msgLen : ℕ} (h : x.whole = some msgLen) :
    recvRawBuffered ⟨x.pending, []⟩ x.rb = (some msgLen, ⟨x.pending, []⟩, x.rb) := by
  obtain ⟨hav, rfl⟩ := whole_eq_some.mp h
  unfold announced at h hav ⊢
  have hmax := (ntohs (load16 (slice x.rb.buf x.rb.head 2))).toNat_lt
  unfold recvRawBuffered
  rw [fillTo_of_available _ (show 2 ≤ x.rb.available by omega)]
  simp only
  rw [if_neg (by unfold maxMessageSize; omega), fillTo_of_available _ hav]

/-- A message that `recv_message_buffered` returns without a call of `recv` is consumed. -/
theorem consume_of_recvMessageBuffered {x : Inbox} {msg : Message} {sock : Socket} {rb : ReadBuffer}
    (h : recvMessageBuffered ⟨x.pending, []⟩ x.rb = .ok (some msg, sock, rb)) :
    ∃ msgLen, x.whole = some msgLen ∧ (⟨sock.pending, rb⟩ : Inbox) = x.consume (2 + msgLen) := by
  rcases hwhole : x.whole with _ | msgLen
  · unfold recvMessageBuffered at h
    unfold whole at hwhole
    rcases hraw : recvRawBuffered ⟨x.pending, []⟩ x.rb with ⟨_ | msgLen, sock', rb'⟩
    · rw [hraw] at h
      cases h
    · rw [hraw] at hwhole
      cases hwhole
  · refine ⟨msgLen, rfl, ?_⟩
    unfold recvMessageBuffered at h
    rw [recvRawBuffered_of_whole hwhole] at h
    rcases hdecode : Message.deserialize (x.rb.data.drop 2) msgLen with fault | optMsg <;>
      simp only [hdecode] at h <;> cases h
    rfl

/-- The buffer starts with the first unread bytes. -/
theorem announced_eq_unread {x : Inbox} (h : x.rb.Ok) (hav : 2 ≤ x.rb.available) :
    x.announced = (ntohs (load16 (x.unread.take 2))).toNat := by
  have hhead := @slice_head ⟨x.pending, []⟩ _ h _ hav
  rw [announced, hhead]
  rfl

/-- **A receive call** is some calls of `recv`, after which the frame is whole. -/
theorem whole_of_recvRawBuffered {sock sock' : Socket} {rb rb' : ReadBuffer} {msgLen : ℕ}
    (hok : rb.Ok) (h : recvRawBuffered sock rb = (some msgLen, sock', rb')) :
    Refills ⟨sock.pending, rb⟩ ⟨sock'.pending, rb'⟩ ∧ whole ⟨sock'.pending, rb'⟩ = some msgLen := by
  obtain ⟨hreceived, hlen⟩ := recvRawBuffered_received sock hok h
  obtain ⟨hav, hmsg⟩ := hlen msgLen rfl
  constructor
  · unfold recvRawBuffered at h
    rcases htwo : fillTo 2 sock rb with ⟨_ | _, sock₁, rb₁⟩ <;> simp only [htwo] at h
    · cases h
    · split_ifs at h
      · cases h
      · rcases hbody : fillTo (2 + (ntohs (load16 (slice rb₁.buf rb₁.head 2))).toNat) sock₁ rb₁ with
          ⟨_ | _, sock₂, rb₂⟩ <;> simp only [hbody] at h <;> cases h
        exact (refills_of_fillLoop htwo).trans (refills_of_fillLoop hbody)
  · refine whole_eq_some.mpr ⟨hav, ?_⟩
    rw [announced_eq_unread hreceived.ok (show 2 ≤ rb'.available by omega), hmsg]
    exact congrArg (fun bytes => (ntohs (load16 (List.take 2 bytes))).toNat) hreceived.unread.symm

/-! ## The frames on a connection -/

/-- What a send that was cut short leaves of a frame. -/
def CutFrame (rest : List UInt8) : Prop :=
  ∃ body : List UInt8, body.length ≤ maxMessageSize ∧ ∃ k < (withPrefix body).length,
    rest = (withPrefix body).take k

/-- The unread bytes are the frames of `bodies`, and behind them at most what a last short send has
left, if there was one. -/
structure Carries (x : Inbox) (bodies : List (List UInt8)) (cut : Prop) : Prop where
  ok : x.rb.Ok
  fits : ∀ body ∈ bodies, body.length ≤ maxMessageSize
  stream : ∃ rest, x.unread = bodies.flatMap withPrefix ++ rest ∧ (rest = [] ∨ cut ∧ CutFrame rest)

variable {x y : Inbox} {bodies : List (List UInt8)} {body : List UInt8} {cut : Prop} {msgLen : ℕ}

/-- A connection that nothing was sent on. -/
theorem carries_fresh {rb : ReadBuffer} (h : rb.Fresh) : Carries ⟨[], rb⟩ [] cut where
  ok := h.ok
  fits := fun _ hbody => nomatch hbody
  stream := by
    refine ⟨[], ?_, Or.inl rfl⟩
    rw [unread, h.bytes]
    rfl

theorem unread_arrive (x : Inbox) (bytes : List UInt8) :
    (x.arrive bytes).unread = x.unread ++ bytes := (List.append_assoc _ _ _).symm

/-- **A whole send** puts its frame behind the others. -/
theorem Carries.arrive (h : x.Carries bodies cut) (hcut : ¬ cut)
    (hsize : body.length ≤ maxMessageSize) :
    (x.arrive (withPrefix body)).Carries (bodies ++ [body]) cut := by
  obtain ⟨rest, hstream, hnil | ⟨hbad, -⟩⟩ := h.stream
  · refine ⟨h.ok, ?_, [], ?_, Or.inl rfl⟩
    · intro b hb
      rcases List.mem_append.mp hb with hold | hnew
      · exact h.fits b hold
      · rw [List.mem_singleton.mp hnew]
        exact hsize
    · rw [unread_arrive, hstream, hnil, List.flatMap_append, List.flatMap_singleton,
        List.append_nil, List.append_nil]
  · exact absurd hbad hcut

/-- A short send leaves a part of its frame at the end. -/
theorem Carries.arrive_cut (h : x.Carries bodies cut) (hcut : ¬ cut)
    (hsize : body.length ≤ maxMessageSize) {k : ℕ} (hk : k < (withPrefix body).length) :
    (x.arrive ((withPrefix body).take k)).Carries bodies True := by
  obtain ⟨rest, hstream, hnil | ⟨hbad, -⟩⟩ := h.stream
  · refine ⟨h.ok, h.fits, _, ?_, Or.inr ⟨trivial, body, hsize, k, hk, rfl⟩⟩
    rw [unread_arrive, hstream, hnil, List.append_nil]
  · exact absurd hbad hcut

theorem Carries.mono {cut' : Prop} (h : x.Carries bodies cut) (hcut : cut → cut') :
    x.Carries bodies cut' := by
  obtain ⟨rest, hstream, hrest⟩ := h.stream
  exact ⟨h.ok, h.fits, rest, hstream, hrest.imp_right fun hr => ⟨hcut hr.1, hr.2⟩⟩

/-- A call of `recv` leaves the frames as they are. -/
theorem Carries.refill {n : ℕ} (h : x.Carries bodies cut) (hs : x.refill n = some y) :
    y.Carries bodies cut := by
  have hr := refillSpin_received ⟨x.pending, [.chunk n]⟩ h.ok
  unfold Inbox.refill at hs
  rcases hrefill : refillSpin ⟨x.pending, [.chunk n]⟩ x.rb with ⟨_ | _, sock, rb⟩ <;>
    rw [hrefill] at hs hr <;> cases hs
  obtain ⟨rest, hstream, hrest⟩ := h.stream
  exact ⟨hr.ok, h.fits, rest, Eq.trans hr.unread hstream, hrest⟩

/-- Without a frame there is nothing to return: the length in front of the rest counts more bytes
than there are. -/
theorem not_whole_of_cut (hok : x.rb.Ok) (h : x.unread = [] ∨ CutFrame x.unread) :
    x.whole ≠ some msgLen := by
  intro hwhole
  obtain ⟨hav, hmsg⟩ := whole_eq_some.mp hwhole
  have hlen := congrArg List.length (show x.unread = x.rb.bytes ++ x.pending from rfl)
  rw [List.length_append, hok.length_bytes] at hlen
  rcases h with hnil | ⟨body, hsize, k, hk, hrest⟩
  · rw [hnil, List.length_nil] at hlen
    omega
  · have hframe : (withPrefix body).length = 2 + body.length := length_withPrefix body
    rw [hrest, List.length_take] at hlen
    have hfront : x.unread.take 2 = lengthPrefix body.length := by
      rw [hrest, List.take_take, min_eq_left (by omega), withPrefix,
        List.take_left' (length_lengthPrefix _)]
    rw [announced_eq_unread hok (by omega), hfront, ntohs_lengthPrefix hsize] at hmsg
    omega

/-- The frame at the head of the buffer, once the buffer has as many bytes. -/
theorem Carries.slice_front (h : x.Carries (body :: bodies) cut)
    (hav : 2 + body.length ≤ x.rb.available) :
    slice x.rb.buf x.rb.head (body.length + 2) = withPrefix body := by
  obtain ⟨rest, hstream, -⟩ := h.stream
  rw [List.flatMap_cons, List.append_assoc] at hstream
  rw [@slice_head ⟨x.pending, []⟩ _ h.ok _ (by omega)]
  refine (congrArg (List.take _) hstream).trans (List.take_left' ?_)
  rw [length_withPrefix, Nat.add_comm]

/-- **A receive call that returns** has the first frame in the buffer. -/
theorem Carries.whole (h : x.Carries bodies cut) (hwhole : x.whole = some msgLen) :
    ∃ body later, bodies = body :: later ∧ msgLen = body.length ∧
      2 + body.length ≤ x.rb.available ∧ ∃ after, x.message = body ++ after := by
  obtain ⟨rest, hstream, hrest⟩ := h.stream
  rcases bodies with _ | ⟨body, later⟩
  · rw [List.flatMap_nil, List.nil_append] at hstream
    refine absurd hwhole (not_whole_of_cut h.ok ?_)
    rw [hstream]
    exact hrest.imp_right fun hr => hr.2
  · have hsize := h.fits body List.mem_cons_self
    obtain ⟨hav, hmsg⟩ := whole_eq_some.mp hwhole
    rw [List.flatMap_cons, List.append_assoc] at hstream
    have hann : x.announced = body.length :=
      @announced_eq ⟨x.pending, []⟩ _ h.ok _ _ hsize (by rw [List.append_assoc]; exact hstream)
        (by omega)
    have hfront := h.slice_front (by omega)
    refine ⟨body, later, rfl, by omega, by omega, x.rb.buf.drop (x.rb.head + (body.length + 2)), ?_⟩
    have hdata : x.rb.data = withPrefix body ++ x.rb.buf.drop (x.rb.head + (body.length + 2)) := by
      rw [← hfront, slice, ReadBuffer.data, ← List.drop_drop, List.take_append_drop]
    rw [message, hdata, withPrefix, List.append_assoc, List.drop_left' (length_lengthPrefix _)]

/-- A frame in the buffer is consumed. -/
theorem Carries.consume (h : x.Carries (body :: bodies) cut)
    (hav : 2 + body.length ≤ x.rb.available) :
    (x.consume (2 + body.length)).Carries bodies cut := by
  obtain ⟨rest, hstream, hrest⟩ := h.stream
  refine ⟨h.ok.consume hav, fun b hb => h.fits b (List.mem_cons_of_mem _ hb), rest, ?_, hrest⟩
  refine Eq.trans (@drop_unread ⟨x.pending, []⟩ _ h.ok _ hav) ?_
  rw [List.flatMap_cons, List.append_assoc] at hstream
  refine (congrArg (List.drop _) hstream).trans (List.drop_left' ?_)
  exact length_withPrefix body

end Inbox

end Ziplog
