import Ziplog.Proxy.SendOutBatch

/-!
# The bounds of the client buffer

`push_raw` compares the bytes in use with the capacity and writes at the write position, which goes
back to the front only when nothing is in use. A buffer that is never empty between two releases
moves through its block until a push is admitted that does not fit behind the write position. So the
accesses stay inside the block exactly as long as the pushes admitted since the buffer was last
empty fit in it together (`inBounds_iff`).
-/

namespace Ziplog

open ClientBufferManager CommandBatch

/-! ## Pushes and drains -/

/-- The buffer with the length that the timer thread has drained and not released, and the bytes
admitted since the buffer was last empty. -/
structure SharedBuffer where
  manager : ClientBufferManager
  drained : Option ℕ
  admitted : ℕ

inductive BufferEvent
  | push (clientSocket : ℕ) (data : Command)
  | remove (clientSocket : ℕ)
  | drain
  | release (all : Bool)

namespace SharedBuffer

def init : SharedBuffer := ⟨ClientBufferManager.init, none, 0⟩

def push (s : SharedBuffer) (clientSocket : ℕ) (data : Command) : Except MemFault SharedBuffer :=
  match s.manager.pushRaw clientSocket data with
  | .error fault => .error fault
  | .ok (false, m) => .ok { s with manager := m }
  | .ok (true, m) => .ok { s with manager := m, admitted := s.admitted + (4 + data.length) }

def release (s : SharedBuffer) (consumed : ℕ) : SharedBuffer :=
  let m := s.manager.release consumed
  ⟨m, none, if m.used = 0 then 0 else s.admitted⟩

/-- A push can end in an access outside the block. The timer thread drains and releases in turn, and
releases all that it has drained or nothing. -/
def step (s : SharedBuffer) : BufferEvent → Option (Except MemFault SharedBuffer)
  | .push clientSocket data => some (s.push clientSocket data)
  | .remove clientSocket => some (.ok { s with manager := s.manager.remove clientSocket })
  | .drain =>
    if s.drained = none then
      let (r, m) := s.manager.drain
      some (.ok { s with manager := m, drained := some r.len })
    else none
  | .release all => s.drained.map fun len => .ok (s.release (if all then len else 0))

/-- What is admitted fits in the block, behind all that was admitted since it was empty. -/
def Fits (s : SharedBuffer) : BufferEvent → Prop
  | .push _ data =>
    s.manager.used + (4 + data.length) ≤ capacity → s.admitted + (4 + data.length) ≤ capacity
  | .remove _ | .drain | .release _ => True

end SharedBuffer

/-- The client buffer of a proxy, which a wild write ends. -/
def sharedBuffer : Lts (Except MemFault SharedBuffer) BufferEvent where
  init := .ok .init
  step s e := match s with
    | .error _ => none
    | .ok s => s.step e

def FitsNext : Except MemFault SharedBuffer → BufferEvent → Prop
  | .error _, _ => True
  | .ok s, e => s.Fits e

/-- No push has left the block, the positions enclose the bytes in use, and no release takes more
than these. -/
def InBounds : Except MemFault SharedBuffer → Prop
  | .error _ => False
  | .ok s => s.manager.readPos + s.manager.used = s.manager.writePos ∧
      s.manager.writePos ≤ capacity ∧ ∀ len ∈ s.drained, len ≤ s.manager.used

namespace SharedBuffer

/-! ## What each step keeps -/

/-- The write position is what was admitted since the buffer was empty. -/
structure Bounded (s : SharedBuffer) : Prop where
  span : s.manager.readPos + s.manager.used = s.manager.writePos
  admitted : s.manager.writePos = s.admitted
  fits : s.manager.writePos ≤ capacity
  drained : ∀ len ∈ s.drained, len ≤ s.manager.used

theorem bounded_init : Bounded init where
  span := rfl
  admitted := rfl
  fits := Nat.zero_le _
  drained := fun _ hlen => nomatch hlen

variable {s : SharedBuffer}

theorem Bounded.inBounds (h : Bounded s) : InBounds (.ok s) := ⟨h.span, h.fits, h.drained⟩

/-- **A push** that fits is refused or admitted; one that does not leaves the block. -/
theorem Bounded.push (h : Bounded s) (clientSocket : ℕ) (data : Command) :
    (s.Fits (.push clientSocket data) → ∃ t, s.push clientSocket data = .ok t ∧ Bounded t) ∧
      (¬ s.Fits (.push clientSocket data) → s.push clientSocket data = .error .outOfBounds) := by
  obtain ⟨hspan, hadmitted, hpos, hdrained⟩ := h
  unfold Fits SharedBuffer.push
  by_cases hused : s.manager.used + (4 + data.length) ≤ capacity
  · constructor
    · intro hfits
      have hwrite : s.manager.writePos + (4 + data.length) ≤ capacity := by
        rw [hadmitted]
        exact hfits hused
      rw [pushRaw_eq hused hwrite]
      refine ⟨_, rfl, ?_, ?_, hwrite, ?_⟩
      · show s.manager.readPos + (s.manager.used + (4 + data.length)) =
          s.manager.writePos + (4 + data.length)
        rw [← hspan, Nat.add_assoc]
      · show s.manager.writePos + (4 + data.length) = s.admitted + (4 + data.length)
        rw [hadmitted]
      · intro len hlen
        exact (hdrained len hlen).trans (Nat.le_add_right _ _)
    · intro hfits
      have hout : capacity < s.manager.writePos + (4 + data.length) := by
        rw [hadmitted]
        exact Nat.lt_of_not_le fun hle => hfits fun _ => hle
      have hfault : s.manager.pushRaw clientSocket data = .error .outOfBounds := by
        unfold pushRaw
        simp only [if_neg (Nat.not_lt.mpr hused), if_pos hout]
      rw [hfault]
  · constructor
    · intro _
      have hfull : s.manager.pushRaw clientSocket data = .ok (false, s.manager) := by
        unfold pushRaw
        exact if_pos (Nat.lt_of_not_le hused)
      rw [hfull]
      exact ⟨s, rfl, hspan, hadmitted, hpos, hdrained⟩
    · intro hfits
      exact (hfits fun hle => absurd hle hused).elim

/-- **A release** of what was drained, or of nothing. -/
theorem Bounded.release (h : Bounded s) {consumed : ℕ} (hconsumed : consumed ≤ s.manager.used) :
    Bounded (s.release consumed) := by
  obtain ⟨hspan, hadmitted, hpos, -⟩ := h
  unfold SharedBuffer.release
  rw [release_eq hconsumed (by omega)]
  by_cases hzero : s.manager.used - consumed = 0
  · rw [if_pos hzero]
    exact ⟨rfl, rfl, Nat.zero_le _, fun len hlen => nomatch hlen⟩
  · rw [if_neg hzero]
    refine ⟨?_, ?_, hpos, fun len hlen => nomatch hlen⟩
    · show s.manager.readPos + consumed + (s.manager.used - consumed) = s.manager.writePos
      omega
    · show s.manager.writePos = if s.manager.used - consumed = 0 then 0 else s.admitted
      rw [if_neg hzero, hadmitted]

/-- The steps other than a push stay in bounds. -/
theorem Bounded.step (h : Bounded s) {e : BufferEvent} {o : Except MemFault SharedBuffer}
    (hs : s.step e = some o) : (s.Fits e → ∃ t, o = .ok t ∧ Bounded t) ∧
      (¬ s.Fits e → o = .error .outOfBounds) := by
  cases e with
  | push clientSocket data =>
    cases hs
    exact h.push clientSocket data
  | remove clientSocket =>
    cases hs
    exact ⟨fun _ => ⟨_, rfl, h.span, h.admitted, h.fits, h.drained⟩,
      fun hfits => (hfits trivial).elim⟩
  | drain =>
    unfold SharedBuffer.step at hs
    split_ifs at hs with hnone
    cases hs
    refine ⟨fun _ => ⟨_, rfl, h.span, h.admitted, h.fits, fun len hlen => ?_⟩,
      fun hfits => (hfits trivial).elim⟩
    cases hlen
    exact le_rfl
  | release all =>
    obtain ⟨len, hlen, rfl⟩ := Option.map_eq_some_iff.mp hs
    refine ⟨fun _ => ⟨_, rfl, h.release ?_⟩, fun hfits => (hfits trivial).elim⟩
    split_ifs
    · exact h.drained len hlen
    · exact Nat.zero_le _

end SharedBuffer

/-! ## Runs -/

/-- As long as everything admitted fits, the positions are as they should be. -/
theorem bounded_of_reachVia {o : Except MemFault SharedBuffer}
    (h : sharedBuffer.ReachVia FitsNext o) : ∃ s, o = .ok s ∧ s.Bounded := by
  refine h.invariant (fun o => ∃ s, o = .ok s ∧ s.Bounded) ⟨_, rfl, SharedBuffer.bounded_init⟩ ?_
  rintro o e o' - ⟨s, rfl, hbounded⟩ hfits hs
  exact (hbounded.step hs).1 hfits

theorem bounded {s : SharedBuffer} (h : sharedBuffer.ReachVia FitsNext (.ok s)) : s.Bounded := by
  obtain ⟨t, ht, hbounded⟩ := bounded_of_reachVia h
  cases ht
  exact hbounded

/-- **The buffer stays inside its block** in a run in which all that is admitted fits behind what
was admitted since the buffer was last empty; and a step that would admit more leaves the block. -/
theorem inBounds_iff {o : Except MemFault SharedBuffer} (h : sharedBuffer.ReachVia FitsNext o) :
    InBounds o ∧ ∀ e o', sharedBuffer.step o e = some o' → (InBounds o' ↔ FitsNext o e) := by
  obtain ⟨s, rfl, hbounded⟩ := bounded_of_reachVia h
  refine ⟨hbounded.inBounds, fun e o' hs => ⟨fun hin => ?_, fun hfits => ?_⟩⟩
  · by_contra hfits
    rw [(hbounded.step hs).2 hfits] at hin
    exact hin
  · obtain ⟨t, rfl, ht⟩ := (hbounded.step hs).1 hfits
    exact ht.inBounds

/-! ## The timer thread of a proxy -/

/-- The length that is drained and not released. -/
def SourcePhase.unreleased : SourcePhase → Option ℕ
  | .idle | .released _ _ => none
  | .drained r _ | .copied r _ _ => some r.len

/-- The buffer under `send_out_batch`. -/
def BatchSource.shared (s : BatchSource) : SharedBuffer :=
  ⟨s.manager, s.phase.unreleased, s.manager.writePos⟩

theorem writePos_release (m : ClientBufferManager) (consumed : ℕ) :
    (m.release consumed).writePos = if (m.release consumed).used = 0 then 0 else m.writePos := by
  unfold ClientBufferManager.release
  simp only
  split_ifs <;> rfl

/-- A push of a client. -/
theorem shared_push {s t : BatchSource} {clientSocket : ℕ} {data : Command}
    (hs : s.step (.push clientSocket data) = some t) :
    s.shared.Fits (.push clientSocket data) ∧
      s.shared.push clientSocket data = .ok t.shared := by
  have hmanager : s.shared.manager = s.manager := rfl
  unfold BatchSource.step at hs
  unfold SharedBuffer.push SharedBuffer.Fits
  rw [hmanager]
  by_cases hfull : capacity < s.manager.used + (4 + data.length)
  · have hpush : s.manager.pushRaw clientSocket data = .ok (false, s.manager) := if_pos hfull
    simp only [hpush] at hs ⊢
    cases hs
    exact ⟨fun hused => absurd hused (Nat.not_le.mpr hfull), rfl⟩
  · by_cases hout : capacity < s.manager.writePos + (4 + data.length)
    · have hpush : s.manager.pushRaw clientSocket data = .error .outOfBounds :=
        (if_neg hfull).trans (if_pos hout)
      simp only [hpush] at hs
      cases hs
    · simp only [pushRaw_eq (Nat.le_of_not_lt hfull) (Nat.le_of_not_lt hout)] at hs ⊢
      cases hs
      exact ⟨fun _ => Nat.le_of_not_lt hout, rfl⟩

/-- **Every run of `send_out_batch`** is one of the buffer in which what is admitted fits. -/
theorem shared_of_batchSource {s : BatchSource} (h : batchSource.Reach s) :
    sharedBuffer.ReachVia FitsNext (.ok s.shared) := by
  refine @Lts.ReachVia.abs _ _ _ _ batchSource sharedBuffer _ FitsNext (fun s => .ok s.shared) rfl
    ?_ s h
  intro s e t _ _ hs
  cases e with
  | push clientSocket data =>
    obtain ⟨hfits, hpush⟩ := shared_push hs
    exact Or.inr ⟨.push clientSocket data, hfits, congrArg some hpush⟩
  | remove clientSocket =>
    cases hs
    exact Or.inr ⟨.remove clientSocket, trivial, rfl⟩
  | drain =>
    unfold batchSource BatchSource.step at hs
    rcases hphase : s.phase with _ | _ | _ | _ <;> simp only [hphase] at hs <;> cases hs
    refine Or.inr ⟨.drain, trivial, if_pos ?_⟩
    exact congrArg SourcePhase.unreleased hphase
  | copy =>
    unfold batchSource BatchSource.step at hs
    rcases hphase : s.phase with _ | ⟨r, commands⟩ | _ | _ <;> simp only [hphase] at hs <;>
      cases hs
    refine Or.inl (congrArg Except.ok ?_)
    unfold BatchSource.shared
    rw [hphase]
    rfl
  | release =>
    unfold batchSource BatchSource.step at hs
    rcases hphase : s.phase with _ | _ | ⟨r, commands, payload⟩ | _ <;> simp only [hphase] at hs <;>
      cases hs
    refine Or.inr ⟨.release (decide (r.participating ≠ ∅)), trivial, ?_⟩
    show (s.phase.unreleased).map _ = _
    rw [hphase]
    refine congrArg some (congrArg Except.ok ?_)
    have hamount : (if decide (r.participating ≠ ∅) = true then r.len else 0) =
        if r.participating = ∅ then 0 else r.len := by
      by_cases hnone : r.participating = ∅ <;> simp [hnone]
    unfold SharedBuffer.release BatchSource.shared
    simp only [hamount, ← writePos_release]
    rfl
  | handOver =>
    unfold batchSource BatchSource.step at hs
    rcases hphase : s.phase with _ | _ | _ | ⟨r, payload⟩ <;> simp only [hphase] at hs <;> cases hs
    refine Or.inl (congrArg Except.ok ?_)
    unfold BatchSource.shared
    rw [hphase]
    rfl

/-! ## A buffer that is never empty -/

variable {s : SharedBuffer}

/-- A push that fits twice. -/
theorem reachVia_push (hs : sharedBuffer.ReachVia FitsNext (.ok s)) (clientSocket : ℕ)
    {data : Command} (hused : s.manager.used + (4 + data.length) ≤ capacity)
    (hfits : s.admitted + (4 + data.length) ≤ capacity) :
    ∃ t, sharedBuffer.ReachVia FitsNext (.ok t) ∧ t.drained = s.drained ∧
      t.manager.used = s.manager.used + (4 + data.length) ∧
      t.admitted = s.admitted + (4 + data.length) := by
  have hbounded := bounded hs
  have hwrite : s.manager.writePos + (4 + data.length) ≤ capacity := by
    rw [hbounded.admitted]
    exact hfits
  obtain ⟨t, hpush, hdrained, hused', hadmitted⟩ : ∃ t, s.push clientSocket data = .ok t ∧
      t.drained = s.drained ∧ t.manager.used = s.manager.used + (4 + data.length) ∧
      t.admitted = s.admitted + (4 + data.length) := by
    unfold SharedBuffer.push
    rw [pushRaw_eq hused hwrite]
    exact ⟨_, rfl, rfl, rfl, rfl⟩
  exact ⟨t, @Lts.ReachVia.step _ _ sharedBuffer _ _ _ (.push clientSocket data) hs (fun _ => hfits)
    (congrArg some hpush), hdrained, hused', hadmitted⟩

theorem step_drain (h : s.drained = none) :
    s.step .drain =
      some (.ok { s with manager := s.manager.drain.2, drained := some s.manager.used }) :=
  if_pos h

theorem step_release {len : ℕ} (h : s.drained = some len) :
    s.step (.release true) = some (.ok (s.release len)) := by
  unfold SharedBuffer.step
  rw [h]
  rfl

/-- The buffer takes 16 commands of 65507 bytes. -/
theorem exists_pushes {data : Command} (hdata : data.length = 65507) {n : ℕ} (hn : n ≤ 16) :
    ∃ s, sharedBuffer.ReachVia FitsNext (.ok s) ∧ s.drained = none ∧
      s.manager.used = n * 65511 ∧ s.admitted = n * 65511 := by
  have hcap : capacity = 2 ^ 20 := rfl
  induction n with
  | zero => exact ⟨_, .init, rfl, rfl, rfl⟩
  | succ n ih =>
    obtain ⟨s, hs, hdrained, hused, hadmitted⟩ := ih (Nat.le_of_lt hn)
    obtain ⟨t, ht, htdrained, htused, htadmitted⟩ :=
      @reachVia_push s hs 7 data (by omega) (by omega)
    exact ⟨t, ht, htdrained.trans hdrained, by omega, by omega⟩

/-- One command is admitted while fifteen are drained, and these are released. -/
theorem exists_release {data : Command} (hdata : data.length = 65507) :
    ∃ s, sharedBuffer.ReachVia FitsNext (.ok s) ∧ s.manager.used = 65511 ∧
      s.admitted = 16 * 65511 := by
  have hcap : capacity = 2 ^ 20 := rfl
  obtain ⟨s, hs, hdrained, hused, hadmitted⟩ := @exists_pushes data hdata 15 (by omega)
  have hdrain := @Lts.ReachVia.step _ _ sharedBuffer FitsNext _ _ .drain hs trivial
    (step_drain hdrained)
  obtain ⟨t, ht, htdrained, htused, htadmitted⟩ :=
    @reachVia_push _ hdrain 7 data (show s.manager.used + _ ≤ _ by omega)
      (show s.admitted + _ ≤ _ by omega)
  have htused' : t.manager.used = s.manager.used + (4 + data.length) := htused
  have htadmitted' : t.admitted = s.admitted + (4 + data.length) := htadmitted
  have hrelease : (t.manager.release s.manager.used).used = 65511 := by
    rw [release_eq (by omega) (by omega), if_neg (by omega)]
    show t.manager.used - s.manager.used = 65511
    omega
  refine ⟨t.release s.manager.used,
    @Lts.ReachVia.step _ _ sharedBuffer _ _ _ (.release true) ht trivial
    (step_release htdrained),
    hrelease, ?_⟩
  show (if (t.manager.release s.manager.used).used = 0 then 0 else t.admitted) = _
  rw [if_neg (by omega)]
  omega

/-- In bounds so far, though the block is nearly at its end. -/
theorem inBounds_iff_release :
    ∃ s, sharedBuffer.ReachVia FitsNext (.ok s) ∧ s.manager.used = 65511 ∧
      s.admitted = 16 * 65511 ∧ InBounds (.ok s) ∧
      ∀ e o', sharedBuffer.step (.ok s) e = some o' → (InBounds o' ↔ FitsNext (.ok s) e) := by
  obtain ⟨s, hs, hused, hadmitted⟩ := @exists_release (List.replicate 65507 65)
    List.length_replicate
  exact ⟨s, hs, hused, hadmitted, inBounds_iff hs⟩

/-- The next command is admitted and written behind the block. -/
theorem not_inBounds : ¬ ∀ o, sharedBuffer.Reach o → InBounds o := by
  intro hin
  have hcap : capacity = 2 ^ 20 := rfl
  have hdata : (List.replicate 65507 (65 : UInt8)).length = 65507 := List.length_replicate
  obtain ⟨s, hs, hused, hadmitted⟩ := exists_release hdata
  have hbounded := bounded hs
  have hfits : ¬ s.Fits (.push 7 (List.replicate 65507 65)) := by
    intro hfits
    have hend := hfits (by omega)
    omega
  have hfault := (hbounded.push 7 (List.replicate 65507 65)).2 hfits
  exact hin _ (@Lts.ReachVia.step _ _ sharedBuffer _ _ _ (.push 7 (List.replicate 65507 65))
    hs.reach trivial (congrArg some hfault))

end Ziplog
