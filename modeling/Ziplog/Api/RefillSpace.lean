import Ziplog.Api.StreamReassembly

/-!
# The space a refill offers

`recv` returns 0 when the peer has closed, and also when it is offered no space. `refill_spin` takes
the first for granted. It moves the bytes to the front only when the head lies behind the middle of
the buffer, so a frame that starts at or before the middle and ends behind the buffer fills the
buffer before it is complete: the next refill offers nothing, and the connection is taken for
closed. In every other state each refill offers at least one byte (`refillsOffer_iff`).
-/

namespace Ziplog

open Cells ReadBuffer

/-! ## The refills of a receive call -/

/-- The buffers on which the loop of `fillLoop` calls `refill_spin`. -/
def refillLoop (needed : ℕ) : ℕ → Socket → ReadBuffer → List ReadBuffer
  | 0, _, _ => []
  | fuel + 1, sock, rb =>
    if rb.available < needed then
      rb :: match refillSpin sock rb with
        | (false, _, _) => []
        | (true, sock, rb) => refillLoop needed fuel sock rb
    else []

def refillsTo (needed : ℕ) (sock : Socket) (rb : ReadBuffer) : List ReadBuffer :=
  refillLoop needed (sock.schedule.length + 1) sock rb

/-- The buffers on which `recv_raw_buffered`, and so `recv_message_buffered`, calls `refill_spin`.
-/
def refills (sock : Socket) (rb : ReadBuffer) : List ReadBuffer :=
  refillsTo 2 sock rb ++
    match fillTo 2 sock rb with
    | (false, _, _) => []
    | (true, sock, rb) =>
      let msgLen := (ntohs (load16 (slice rb.buf rb.head 2))).toNat
      if maxMessageSize < msgLen then [] else refillsTo (2 + msgLen) sock rb

namespace ReadBuffer

/-- The refill of the buffer offers `recv` at least one byte. -/
def Offers (rb : ReadBuffer) : Prop := rb.compact.tail < capacity

/-- That many bytes from the head on fit in the buffer, or will be moved to its front. -/
def Fits (rb : ReadBuffer) (needed : ℕ) : Prop :=
  rb.head ≤ capacity / 2 → rb.head + needed ≤ capacity

end ReadBuffer

/-- Every refill of the receive call offers at least one byte. -/
def RefillsOffer (sock : Socket) (rb : ReadBuffer) : Prop := ∀ r ∈ refills sock rb, r.Offers

/-- A frame with this body. -/
def withPrefix (body : List UInt8) : List UInt8 := lengthPrefix body.length ++ body

theorem ReadBuffer.length_withPrefix (body : List UInt8) :
    (withPrefix body).length = 2 + body.length := by
  rw [withPrefix, List.length_append, length_lengthPrefix]

/-- The receiving end of a connection that carries `wire`, between two receive calls. -/
inductive Receiving (wire : List UInt8) : Socket → ReadBuffer → Prop
  | start {rb : ReadBuffer} (schedule : List RecvEvent) (hrb : rb.Fresh) :
      Receiving wire ⟨wire, schedule⟩ rb
  | call {sock sock' : Socket} {rb rb' : ReadBuffer} {msgLen : ℕ} : Receiving wire sock rb →
      recvRawBuffered sock rb = (some msgLen, sock', rb') →
      Receiving wire sock' (rb'.consume (2 + msgLen))

/-! ## The head -/

theorem head_recvLoop (rb : ReadBuffer) (pending : List UInt8) (schedule : List RecvEvent) :
    (recvLoop rb pending schedule).2.2.head = rb.head := by
  induction schedule with
  | nil => rfl
  | cons event schedule ih =>
    cases event with
    | again => exact ih
    | chunk n =>
      unfold recvLoop
      simp only
      split_ifs <;> rfl

/-- Compacting leaves the head alone, or moves it to the front. -/
theorem fits_compact {rb : ReadBuffer} {needed : ℕ} (hneeded : needed ≤ capacity)
    (h : rb.Fits needed) : rb.compact.Fits needed := by
  unfold compact
  split_ifs
  · intro _
    show 0 + needed ≤ capacity
    omega
  · exact h

theorem fits_refillSpin {sock : Socket} {rb : ReadBuffer} {needed : ℕ}
    (hneeded : needed ≤ capacity) (h : rb.Fits needed) : (refillSpin sock rb).2.2.Fits needed := by
  unfold refillSpin Fits
  rw [head_recvLoop]
  exact fits_compact hneeded h

theorem fits_fillLoop {needed fuel needed' : ℕ} {sock : Socket} {rb : ReadBuffer}
    (hneeded : needed ≤ capacity) (h : rb.Fits needed) :
    (fillLoop needed' fuel sock rb).2.2.Fits needed := by
  induction fuel generalizing sock rb with
  | zero => exact h
  | succ fuel ih =>
    unfold fillLoop
    split_ifs
    · have hr := @fits_refillSpin sock rb needed hneeded h
      rcases hrefill : refillSpin sock rb with ⟨ok, sock', rb'⟩
      rw [hrefill] at hr
      cases ok with
      | false => exact hr
      | true => exact ih hr
    · exact h

/-! ## Frames that fit -/

/-- A refill that is needed has space, when what is needed fits. -/
theorem offers_of_fits {rb : ReadBuffer} {needed : ℕ} (hok : rb.Ok) (hneeded : needed ≤ capacity)
    (h : rb.Fits needed) (hav : rb.available < needed) : rb.Offers := by
  have hhead := hok.head
  unfold available at hav
  unfold Offers compact
  split_ifs with hback
  · show rb.tail - rb.head < capacity
    omega
  · have hend := h (Nat.not_lt.mp hback)
    omega

theorem offers_of_mem_refillLoop {needed fuel : ℕ} {sock : Socket} {rb r : ReadBuffer}
    (hok : rb.Ok) (hneeded : needed ≤ capacity) (h : rb.Fits needed)
    (hr : r ∈ refillLoop needed fuel sock rb) : r.Offers := by
  induction fuel generalizing sock rb with
  | zero => cases hr
  | succ fuel ih =>
    unfold refillLoop at hr
    split_ifs at hr with hav
    · rcases List.mem_cons.mp hr with rfl | hr
      · exact offers_of_fits hok hneeded h hav
      · have hreceived := (refillSpin_received sock hok).ok
        have hfits := @fits_refillSpin sock rb needed hneeded h
        rcases hrefill : refillSpin sock rb with ⟨ok, sock', rb'⟩
        rw [hrefill] at hr hreceived hfits
        cases ok with
        | false => cases hr
        | true => exact ih hreceived hfits hr
    · cases hr

/-- The length prefix always fits. -/
theorem fits_front (rb : ReadBuffer) : rb.Fits 2 := by
  intro hhead
  have hcap : capacity = 131070 := rfl
  omega

/-- A receive call on a frame that fits. -/
theorem refillsOffer_of_fits {sock : Socket} {rb : ReadBuffer} {body rest : List UInt8}
    (hok : rb.Ok) (hsize : body.length ≤ maxMessageSize)
    (hunread : unread sock rb = withPrefix body ++ rest) (h : rb.Fits (2 + body.length)) :
    RefillsOffer sock rb := by
  have hcap : capacity = 131070 := rfl
  have hmax : maxMessageSize = 65535 := rfl
  intro r hr
  rcases List.mem_append.mp hr with hr | hr
  · exact offers_of_mem_refillLoop hok (by omega) (fits_front rb) hr
  · have hreceived := fillTo_received 2 sock hok
    have hfits : (fillTo 2 sock rb).2.2.Fits (2 + body.length) := fits_fillLoop (by omega) h
    have hav : (fillTo 2 sock rb).1 = true → 2 ≤ (fillTo 2 sock rb).2.2.available :=
      fillTo_available
    rcases hfill : fillTo 2 sock rb with ⟨ok, sock', rb'⟩
    rw [hfill] at hr hreceived hfits hav
    cases ok with
    | false => cases hr
    | true =>
      have hannounced :=
        announced_eq hreceived.ok hsize (hreceived.unread.trans hunread) (hav rfl)
      simp only [hannounced] at hr
      rw [if_neg (Nat.not_lt.mpr hsize)] at hr
      exact offers_of_mem_refillLoop hreceived.ok (by omega) hfits hr

/-- A receive call when nothing more is sent. -/
theorem refillsOffer_of_nil {sock : Socket} {rb : ReadBuffer} (hok : rb.Ok)
    (hunread : unread sock rb = []) : RefillsOffer sock rb := by
  have hcap : capacity = 131070 := rfl
  intro r hr
  rcases List.mem_append.mp hr with hr | hr
  · exact offers_of_mem_refillLoop hok (by omega) (fits_front rb) hr
  · have hreceived := fillTo_received 2 sock hok
    have hav : (fillTo 2 sock rb).1 = true → 2 ≤ (fillTo 2 sock rb).2.2.available :=
      fillTo_available
    rcases hfill : fillTo 2 sock rb with ⟨ok, sock', rb'⟩
    rw [hfill] at hr hreceived hav
    cases ok with
    | false => cases hr
    | true =>
      -- two bytes would have come from nowhere
      have hbytes : rb'.bytes.length = rb'.available := hreceived.ok.length_bytes
      have hnone : rb'.bytes ++ sock'.pending = [] := hreceived.unread.trans hunread
      have htwo : 2 ≤ rb'.available := hav rfl
      rw [(List.append_eq_nil_iff.mp hnone).1, List.length_nil] at hbytes
      omega

/-! ## Frames that do not -/

/-- The buffer after a refill that fills it. -/
def ReadBuffer.filled (rb : ReadBuffer) (pending : List UInt8) : ReadBuffer :=
  { rb with
    buf := overlay rb.buf rb.tail (pending.take (capacity - rb.tail))
    tail := capacity }

/-- A refill that is given all it has space for. -/
theorem refillSpin_chunk {rb : ReadBuffer} {pending : List UInt8} {schedule : List RecvEvent}
    (hhead : rb.head ≤ capacity / 2) (htail : rb.tail < capacity)
    (hpending : capacity - rb.tail ≤ pending.length) :
    refillSpin ⟨pending, .chunk capacity :: schedule⟩ rb =
      (true, ⟨pending.drop (capacity - rb.tail), schedule⟩, rb.filled pending) := by
  have hcompact : rb.compact = rb := if_neg (Nat.not_lt.mpr hhead)
  have hmin : min capacity (capacity - rb.tail) = capacity - rb.tail :=
    Nat.min_eq_right (Nat.sub_le _ _)
  have hlen : (pending.take (capacity - rb.tail)).length = capacity - rb.tail := by
    rw [List.length_take, Nat.min_eq_left hpending]
  have hne : pending.take (capacity - rb.tail) ≠ [] := by
    intro hnil
    rw [hnil, List.length_nil] at hlen
    omega
  have hend : rb.tail + (capacity - rb.tail) = capacity := by omega
  unfold refillSpin recvLoop
  simp only [hcompact, hmin, if_neg hne, hlen, hend]
  rfl

/-- That refill is the only one, when what is needed then is there. -/
theorem fillTo_chunk {needed : ℕ} {rb : ReadBuffer} {pending : List UInt8}
    {schedule : List RecvEvent} (hhead : rb.head ≤ capacity / 2) (htail : rb.tail < capacity)
    (hpending : capacity - rb.tail ≤ pending.length) (hav : rb.available < needed)
    (hneeded : rb.head + needed ≤ capacity) :
    fillTo needed ⟨pending, .chunk capacity :: schedule⟩ rb =
      (true, ⟨pending.drop (capacity - rb.tail), schedule⟩, rb.filled pending) := by
  have hfull : needed ≤ (rb.filled pending).available := by
    show needed ≤ capacity - rb.head
    omega
  unfold fillTo fillLoop
  rw [if_pos hav, refillSpin_chunk hhead htail hpending]
  exact fillTo_of_available _ hfull

theorem mem_refillsTo {needed : ℕ} {rb : ReadBuffer} (sock : Socket) (h : rb.available < needed) :
    rb ∈ refillsTo needed sock rb := by
  unfold refillsTo refillLoop
  rw [if_pos h]
  exact List.mem_cons_self

/-- A full buffer that is not moved to the front offers nothing. -/
theorem not_offers {rb : ReadBuffer} (hhead : rb.head ≤ capacity / 2) (htail : rb.tail = capacity) :
    ¬ rb.Offers := by
  unfold Offers compact
  rw [if_neg (Nat.not_lt.mpr hhead), htail]
  exact Nat.lt_irrefl _

/-- What follows the prefix is waited for, for as long as the frame is not there. -/
theorem mem_refills_of_front {sock sock' : Socket} {rb rb' r : ReadBuffer} {body rest : List UInt8}
    (hok : rb.Ok) (hsize : body.length ≤ maxMessageSize)
    (hunread : unread sock rb = withPrefix body ++ rest)
    (hfill : fillTo 2 sock rb = (true, sock', rb'))
    (hr : r ∈ refillsTo (2 + body.length) sock' rb') : r ∈ refills sock rb := by
  have hreceived := fillTo_received 2 sock hok
  have hav : 2 ≤ (fillTo 2 sock rb).2.2.available := fillTo_available (by rw [hfill])
  rw [hfill] at hreceived hav
  have hannounced := announced_eq hreceived.ok hsize (hreceived.unread.trans hunread) hav
  refine List.mem_append_right _ ?_
  rw [hfill]
  simp only [hannounced]
  rw [if_neg (Nat.not_lt.mpr hsize)]
  exact hr

/-- A frame that does not fit leads to a refill without space, if the peer sends all of it. -/
theorem not_refillsOffer {rb : ReadBuffer} {pending body rest : List UInt8} (hok : rb.Ok)
    (hsize : body.length ≤ maxMessageSize) (hunread : rb.bytes ++ pending = withPrefix body ++ rest)
    (h : ¬ rb.Fits (2 + body.length)) : ¬ RefillsOffer ⟨pending, [.chunk capacity]⟩ rb := by
  have hcap : capacity = 131070 := rfl
  have hmax : maxMessageSize = 65535 := rfl
  have hle := hok.head
  have htail := hok.tail
  obtain ⟨hhead, hend⟩ : rb.head ≤ capacity / 2 ∧ capacity < rb.head + (2 + body.length) := by
    unfold Fits at h
    push Not at h
    exact h
  have hlen := congrArg List.length hunread
  rw [List.length_append, List.length_append, hok.length_bytes, withPrefix, List.length_append,
    length_lengthPrefix] at hlen
  unfold available at hlen
  intro hoffer
  by_cases hfull : rb.tail = capacity
  · -- the buffer is full already
    have hfill : fillTo 2 ⟨pending, [.chunk capacity]⟩ rb = (true, _, rb) :=
      fillTo_of_available _ (by unfold available; omega)
    refine not_offers hhead hfull (hoffer _ (mem_refills_of_front hok hsize hunread hfill ?_))
    exact mem_refillsTo _ (by unfold available; omega)
  · have hrefill := @refillSpin_chunk rb pending [] hhead (by omega) (by omega)
    have hfilled : ∀ r ∈ refills ⟨pending, [.chunk capacity]⟩ rb, r ≠ rb.filled pending :=
      fun r hr hr' => @not_offers (rb.filled pending) hhead rfl (hr' ▸ hoffer r hr)
    have hav : (rb.filled pending).available = capacity - rb.head := rfl
    by_cases hprefix : 2 ≤ rb.available
    · -- the refill for the body fills the buffer
      have hfill : fillTo 2 ⟨pending, [.chunk capacity]⟩ rb = (true, _, rb) :=
        fillTo_of_available _ hprefix
      refine hfilled _ (mem_refills_of_front hok hsize hunread hfill ?_) rfl
      unfold refillsTo refillLoop
      rw [if_pos (by unfold available; omega), hrefill]
      refine List.mem_cons_of_mem _ ?_
      exact @mem_refillsTo (2 + body.length) _ ⟨_, []⟩ (by omega)
    · -- the refill for the prefix does
      have hfill : fillTo 2 ⟨pending, [.chunk capacity]⟩ rb =
          (true, ⟨pending.drop (capacity - rb.tail), []⟩, rb.filled pending) :=
        fillTo_chunk hhead (by omega) (by omega) (by omega) (by omega)
      refine hfilled _ (mem_refills_of_front hok hsize hunread hfill ?_) rfl
      exact mem_refillsTo _ (by omega)

/-! ## Runs -/

/-- The unread bytes are the frames that have not been taken off. -/
theorem Receiving.split {bodies : List (List UInt8)}
    (hsize : ∀ body ∈ bodies, body.length ≤ maxMessageSize) {sock : Socket} {rb : ReadBuffer}
    (h : Receiving (bodies.flatMap withPrefix) sock rb) :
    rb.Ok ∧ ∃ taken later, bodies = taken ++ later ∧ unread sock rb = later.flatMap withPrefix := by
  induction h with
  | start schedule hrb =>
    refine ⟨hrb.ok, [], bodies, rfl, ?_⟩
    rw [unread, hrb.bytes, List.nil_append]
  | @call sock sock' rb rb' msgLen _ hcall ih =>
    obtain ⟨hok, taken, later, hbodies, hunread⟩ := ih
    cases later with
    | nil =>
      obtain ⟨hr, hlen⟩ := recvRawBuffered_received sock hok hcall
      obtain ⟨hav, -⟩ := hlen msgLen rfl
      have hnone : rb'.bytes ++ sock'.pending = [] := hr.unread.trans hunread
      have hbytes := hr.ok.length_bytes
      rw [(List.append_eq_nil_iff.mp hnone).1, List.length_nil] at hbytes
      omega
    | cons body later =>
      have hmem : body ∈ bodies := by
        rw [hbodies]
        exact List.mem_append_right _ List.mem_cons_self
      rw [List.flatMap_cons] at hunread
      obtain ⟨rfl, -, hok', hrest⟩ := recvRawBuffered_frame hok (hsize body hmem) hunread hcall
      exact ⟨hok', taken ++ [body], later, by rw [hbodies, List.append_assoc]; rfl, hrest⟩

/-- **When refills offer space.** Whatever frames are sent and however they are cut into chunks,
before each receive call: its refills offer at least one byte, however the rest arrives, exactly
when the frame that comes next (if there is one) fits in the buffer from the head on or starts
behind the middle. -/
theorem refillsOffer_iff (bodies : List (List UInt8))
    (hsize : ∀ body ∈ bodies, body.length ≤ maxMessageSize) (sock : Socket) (rb : ReadBuffer)
    (h : Receiving (bodies.flatMap withPrefix) sock rb) :
    ∃ taken later, bodies = taken ++ later ∧ unread sock rb = later.flatMap withPrefix ∧
      ((∀ schedule, RefillsOffer ⟨sock.pending, schedule⟩ rb) ↔
        ∀ body ∈ later.head?, rb.Fits (2 + body.length)) := by
  obtain ⟨hok, taken, later, hbodies, hunread⟩ := h.split hsize
  refine ⟨taken, later, hbodies, hunread, ?_⟩
  cases later with
  | nil =>
    refine iff_of_true (fun schedule => refillsOffer_of_nil hok hunread) fun body hbody => ?_
    cases hbody
  | cons body later =>
    have hmem : body ∈ bodies := by
      rw [hbodies]
      exact List.mem_append_right _ List.mem_cons_self
    rw [List.flatMap_cons] at hunread
    constructor
    · intro hoffer body' hbody
      cases hbody
      by_contra hfits
      exact not_refillsOffer hok (hsize body hmem) hunread hfits (hoffer _)
    · intro hfits schedule
      exact refillsOffer_of_fits hok (hsize body hmem) hunread (hfits body rfl)

/-! ## A frame at the middle of the buffer -/

/-- A receive call goes on from where its first wait ended. -/
theorem recvRawBuffered_of_fillTo {sock sock' : Socket} {rb rb' : ReadBuffer}
    (hfill : fillTo 2 sock rb = (true, sock', rb')) (hav : 2 ≤ rb'.available) :
    recvRawBuffered sock rb = recvRawBuffered sock' rb' := by
  unfold recvRawBuffered
  rw [hfill, fillTo_of_available sock' hav]

/-- The first of two large frames is consumed: it ends at the middle of the buffer, and all the
buffer has space for has arrived at once. -/
theorem receiving_middle {first second : List UInt8} (hfirst : first.length = 65533)
    (hsecond : 65533 ≤ second.length) :
    ∃ pending rb, Receiving ([first, second].flatMap withPrefix) ⟨pending, [.chunk capacity]⟩ rb ∧
      rb.Ok ∧ rb.head = 65535 ∧ rb.bytes ++ pending = withPrefix second := by
  have hcap : capacity = 131070 := rfl
  have hmax : maxMessageSize = 65535 := rfl
  have hwire : [first, second].flatMap withPrefix = withPrefix first ++ withPrefix second := by
    rw [List.flatMap_cons, List.flatMap_singleton]
  have hlen : 131070 ≤ ([first, second].flatMap withPrefix).length := by
    rw [hwire, List.length_append, withPrefix, withPrefix, List.length_append, List.length_append,
      length_lengthPrefix, length_lengthPrefix, hfirst]
    omega
  have hstart := @Receiving.start ([first, second].flatMap withPrefix) zeroed
    [.chunk capacity, .chunk capacity] zeroed_fresh
  have hunread₀ : unread ⟨[first, second].flatMap withPrefix, [.chunk capacity, .chunk capacity]⟩
      zeroed = withPrefix first ++ withPrefix second := by
    rw [unread, zeroed_fresh.bytes, List.nil_append, hwire]
  generalize [first, second].flatMap withPrefix = wire at hstart hlen hunread₀ ⊢
  have hhead : zeroed.head = 0 := rfl
  have htail : zeroed.tail = 0 := rfl
  have hav : (zeroed.filled wire).available = capacity := rfl
  have hfill : fillTo 2 ⟨wire, [.chunk capacity, .chunk capacity]⟩ zeroed =
      (true, ⟨wire.drop capacity, [.chunk capacity]⟩, zeroed.filled wire) :=
    fillTo_chunk (by omega) (by omega) (by omega) (by unfold available; omega) (by omega)
  have hreceived := fillTo_received 2 ⟨wire, [.chunk capacity, .chunk capacity]⟩ zeroed_fresh.ok
  rw [hfill] at hreceived
  have hunread := hreceived.unread.trans hunread₀
  have hcall : recvRawBuffered ⟨wire, [.chunk capacity, .chunk capacity]⟩ zeroed =
      (some first.length, ⟨wire.drop capacity, [.chunk capacity]⟩, zeroed.filled wire) := by
    rw [recvRawBuffered_of_fillTo hfill (by omega)]
    refine recvRawBuffered_of_available hreceived.ok (by omega) hunread ?_
    show 2 + first.length ≤ capacity
    omega
  obtain ⟨-, -, hok, hrest⟩ := recvRawBuffered_frame zeroed_fresh.ok (by omega) hunread₀ hcall
  have hconsumed : ((zeroed.filled wire).consume (2 + first.length)).head = 65535 := by
    unfold consume
    rw [if_neg (by show ¬ 0 + (2 + first.length) = capacity; omega)]
    show 0 + (2 + first.length) = 65535
    omega
  exact ⟨_, _, hstart.call hcall, hok, hconsumed, hrest⟩

/-- A second frame that just fits behind the first. -/
theorem refillsOffer_iff_consumed : ∃ pending rb, Receiving
    ([List.replicate 65533 0, List.replicate 65533 1].flatMap withPrefix)
      ⟨pending, [.chunk capacity]⟩ rb ∧
    rb.head = 65535 ∧ rb.bytes ++ pending = withPrefix (List.replicate 65533 1) ∧
      ∀ schedule, RefillsOffer ⟨pending, schedule⟩ rb := by
  have hcap : capacity = 131070 := rfl
  have hmax : maxMessageSize = 65535 := rfl
  have hlength : ∀ body ∈ [List.replicate 65533 (0 : UInt8), List.replicate 65533 1],
      body.length = 65533 := by
    intro body hbody
    rcases List.mem_cons.mp hbody with rfl | hbody
    · exact List.length_replicate
    · rw [List.mem_singleton.mp hbody, List.length_replicate]
  obtain ⟨pending, rb, hreceiving, -, hhead, hunread⟩ :=
    @receiving_middle (List.replicate 65533 0) (List.replicate 65533 1) List.length_replicate
      (by rw [List.length_replicate])
  obtain ⟨taken, later, hbodies, -, hiff⟩ := refillsOffer_iff
    [List.replicate 65533 0, List.replicate 65533 1]
    (fun body hbody => by rw [hlength body hbody]; omega) _ rb hreceiving
  refine ⟨pending, rb, hreceiving, hhead, hunread, hiff.mpr fun body hbody => ?_⟩
  have hmem : body ∈ [List.replicate 65533 0, List.replicate 65533 1] := by
    rw [hbodies]
    exact List.mem_append_right _ (List.mem_of_mem_head? hbody)
  intro _
  rw [hlength body hmem]
  omega

/-- A second frame that would end one byte behind the buffer. -/
theorem refillsOffer_middle {first second : List UInt8} (hfirst : first.length = 65533)
    (hsecond : second.length = 65534) :
    ∃ sock rb, Receiving ([first, second].flatMap withPrefix) sock rb ∧ ¬ RefillsOffer sock rb := by
  have hcap : capacity = 131070 := rfl
  have hmax : maxMessageSize = 65535 := rfl
  obtain ⟨pending, rb, hreceiving, hok, hhead, hunread⟩ :=
    @receiving_middle first second hfirst (by omega)
  refine ⟨_, rb, hreceiving, @not_refillsOffer rb pending second [] hok (by omega) ?_ ?_⟩
  · rw [List.append_nil]
    exact hunread
  · intro hfits
    have hend := hfits (by omega)
    omega

/-- A refill of an open connection can be left without space. -/
theorem not_refillsOffer_always :
    ¬ ∀ bodies : List (List UInt8), (∀ body ∈ bodies, body.length ≤ maxMessageSize) →
        ∀ sock rb, Receiving (bodies.flatMap withPrefix) sock rb → RefillsOffer sock rb := by
  intro hoffer
  obtain ⟨sock, rb, hreceiving, hnot⟩ := @refillsOffer_middle (List.replicate 65533 0)
    (List.replicate 65534 0) List.length_replicate List.length_replicate
  refine hnot (hoffer _ (fun body hbody => ?_) sock rb hreceiving)
  have hmax : maxMessageSize = 65535 := rfl
  rcases List.mem_cons.mp hbody with rfl | hbody
  · rw [List.length_replicate]
    omega
  · rw [List.mem_singleton.mp hbody, List.length_replicate]
    omega

end Ziplog
