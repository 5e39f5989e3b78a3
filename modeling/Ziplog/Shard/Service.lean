import Ziplog.Proxy.Responses
import Ziplog.Shard.ByteShard
import Ziplog.Shard.System

/-!
# The service

The shard on its bytes, with the timer threads of the proxies and their clients in front of it. The
timer thread drains the client buffer when a slot is due, hands the frame to `replicate_bytes` under
the number of the slot, and sends what that returns to the numbers drained. Client connections come,
push and leave at any moment, and everything in the shard goes on at the same time. A timer that is
paused, like a process that has ended, is one that takes no further step.

The client side of a proxy is `proxy`, the shard `byteShard`. As long as the frames of the batches
fit their length prefixes, the numbers 64 bits, and what clients push the memory it is read from and
written to, a run of the service is a run of `system` (`refines_system`), and the run of each proxy
is one of `proxy` (`reach_proxy`): what is proved of the logs there and of the responses here holds
of the two together.
-/

namespace Ziplog

open ClientBufferManager

structure Service (c : ShardConfig) where
  proxy : Fin c.proxies → Proxy
  timer : Fin c.proxies → EpochTimer
  shard : ByteShard c

inductive ServiceEvent (c : ShardConfig)
  /-- Something at the clients of a proxy, or its timer thread in `send_out_batch`. -/
  | proxy (p : Fin c.proxies) (e : ProxyEvent)
  /-- The timer thread outside `send_out_batch`. -/
  | timer (p : Fin c.proxies) (e : TimerEvent)
  /-- The timer thread calls `replicate_bytes`. -/
  | replicate (p : Fin c.proxies)
  /-- `replicate_bytes` returns to it. -/
  | result (p : Fin c.proxies)
  | shard (e : ByteEvent c)

/-- The events that belong to the timer thread of a proxy. -/
def ByteEvent.ofTimer {c : ShardConfig} : ByteEvent c → Bool
  | .replicate .. => true
  | .respond _ => true
  | _ => false

namespace Service

variable {c : ShardConfig}

def init (registered : Bool) (rb : ReadBuffer) : Service c where
  proxy := fun _ => .init registered
  timer := fun _ => .init
  shard := .init rb

def setProxy (s : Service c) (p : Fin c.proxies) (x : Proxy) : Service c :=
  { s with proxy := Function.update s.proxy p x }

def setPhase (s : Service c) (p : Fin c.proxies) (phase : TimerPhase) : Service c :=
  { s with timer := Function.update s.timer p { s.timer p with phase := phase } }

/-- `send_out_batch` starts with the drain when a slot is due; the call of `replicate_bytes` is not
an event of the proxy alone. -/
def enabled (s : Service c) (p : Fin c.proxies) : ProxyEvent → Bool
  | .drain => (s.timer p).phase.isSending
  | .replicate _ => false
  | _ => true

/-- After `send_out_batch` the timer thread takes the next slot. -/
def afterwards (s : Service c) (p : Fin c.proxies) : ProxyEvent → Service c
  | .finish => s.setPhase p .fetching
  | _ => s

def step (shardId : UInt32) (epochDuration : ℕ) (s : Service c) :
    ServiceEvent c → Option (Service c)
  | .proxy p e =>
    if s.enabled p e then ((s.proxy p).step e).map fun x => (s.setProxy p x).afterwards p e
    else none
  | .timer p e => ((s.timer p).step epochDuration e).map fun t =>
      { s with timer := Function.update s.timer p t }
  | .replicate p =>
    match (s.timer p).phase, (s.proxy p).source.phase with
    | .sending batchSeq, .released r payload =>
      (s.shard.step shardId
        (.replicate p (UInt64.ofNat batchSeq) payload r.participating)).map fun sh =>
          { s.setPhase p .replicating with shard := sh }
    | _, _ => none
  | .result p =>
    match (s.timer p).phase, (s.shard.proxy p).call with
    | .replicating, .returned ok =>
      ((s.proxy p).step (.replicate ok)).bind fun x =>
        (s.shard.step shardId (.respond p)).map fun sh => { s.setProxy p x with shard := sh }
    | _, _ => none
  | .shard e =>
    if e.ofTimer then none else (s.shard.step shardId e).map fun sh => { s with shard := sh }

/-- The frame that goes out fits its length prefix, and its number 64 bits. -/
def FrameFits (s : Service c) (p : Fin c.proxies) : Prop :=
  match (s.timer p).phase, (s.proxy p).source.phase with
  | .sending batchSeq, .released _ payload =>
    batchSeq < 2 ^ 64 ∧ 28 + payload.data.length < 2 ^ 16
  | _, _ => True

/-- Frames fit, and what a client pushes is read and written where it should be. -/
def Fits (s : Service c) : ServiceEvent c → Prop
  | .proxy p e => (s.proxy p).InMemory e
  | .replicate p => s.FrameFits p
  | .timer .. | .result _ | .shard _ => True

instance (s : Service c) (p : Fin c.proxies) : Decidable (s.FrameFits p) := by
  unfold FrameFits
  split <;> infer_instance

instance (s : Service c) (e : ServiceEvent c) : Decidable (s.Fits e) := by
  unfold Fits
  split <;> infer_instance

/-- A push of a client whose command is read or written outside its memory. -/
def fault? (s : Service c) : ServiceEvent c → Option MemFault
  | .proxy p e => (s.proxy p).fault? e
  | _ => none

/-- No number is given out while something refers to it. -/
def NumberFree (s : Service c) : ServiceEvent c → Prop
  | .proxy p e => (s.proxy p).NumberFree e
  | _ => True

instance (s : Service c) (e : ServiceEvent c) : Decidable (s.NumberFree e) := by
  unfold NumberFree
  split <;> infer_instance

end Service

def service (c : ShardConfig) (shardId : UInt32) (epochDuration : ℕ) (registered : Bool)
    (rb : ReadBuffer) : Lts (Service c) (ServiceEvent c) :=
  ⟨.init registered rb, Service.step shardId epochDuration⟩

/-- The service, and the accesses to memory that go wrong in its proxies. -/
def serviceWithFaults (c : ShardConfig) (shardId : UInt32) (epochDuration : ℕ) (registered : Bool)
    (rb : ReadBuffer) : Lts (Except MemFault (Service c)) (ServiceEvent c) :=
  (service c shardId epochDuration registered rb).withFaults Service.fault?

namespace Service

variable {c : ShardConfig} {shardId : UInt32} {epochDuration : ℕ} {s t : Service c}

/-! ## The steps -/

/-- What each step does. -/
inductive Effect (shardId : UInt32) (epochDuration : ℕ) (s : Service c) :
    ServiceEvent c → Service c → Prop
  | proxy {p : Fin c.proxies} {e : ProxyEvent} {x : Proxy} (henabled : s.enabled p e = true)
      (hfinish : e ≠ .finish) (hx : (s.proxy p).step e = some x) :
      Effect shardId epochDuration s (.proxy p e) (s.setProxy p x)
  | finish {p : Fin c.proxies} {x : Proxy} (hx : (s.proxy p).step .finish = some x) :
      Effect shardId epochDuration s (.proxy p .finish) ((s.setProxy p x).setPhase p .fetching)
  | timer {p : Fin c.proxies} {e : TimerEvent} {th : EpochTimer}
      (hth : (s.timer p).step epochDuration e = some th) :
      Effect shardId epochDuration s (.timer p e)
        { s with timer := Function.update s.timer p th }
  | replicate {p : Fin c.proxies} {batchSeq : ℕ} {r : DrainResult} {payload : Payload}
      {sh : ByteShard c} (hsending : (s.timer p).phase = .sending batchSeq)
      (hreleased : (s.proxy p).source.phase = .released r payload)
      (hsh : s.shard.step shardId
        (.replicate p (UInt64.ofNat batchSeq) payload r.participating) = some sh) :
      Effect shardId epochDuration s (.replicate p) { s.setPhase p .replicating with shard := sh }
  | result {p : Fin c.proxies} {ok : Bool} {x : Proxy} {sh : ByteShard c}
      (hreplicating : (s.timer p).phase = .replicating)
      (hcall : (s.shard.proxy p).call = .returned ok)
      (hx : (s.proxy p).step (.replicate ok) = some x)
      (hsh : s.shard.step shardId (.respond p) = some sh) :
      Effect shardId epochDuration s (.result p) { s.setProxy p x with shard := sh }
  | shard {e : ByteEvent c} {sh : ByteShard c} (hfree : e.ofTimer = false)
      (hsh : s.shard.step shardId e = some sh) :
      Effect shardId epochDuration s (.shard e) { s with shard := sh }

theorem effect_of_step {e : ServiceEvent c} (hs : s.step shardId epochDuration e = some t) :
    Effect shardId epochDuration s e t := by
  cases e with
  | proxy p e =>
    simp only [step] at hs
    split_ifs at hs with henabled
    obtain ⟨x, hx, rfl⟩ := Option.map_eq_some_iff.mp hs
    by_cases hfinish : e = .finish
    · subst hfinish
      exact .finish hx
    · have hsame : (s.setProxy p x).afterwards p e = s.setProxy p x := by
        cases e <;> first | rfl | exact absurd rfl hfinish
      rw [hsame]
      exact .proxy henabled hfinish hx
  | timer p e =>
    obtain ⟨th, hth, rfl⟩ := Option.map_eq_some_iff.mp hs
    exact .timer hth
  | replicate p =>
    simp only [step] at hs
    split at hs
    · rename_i hsending hreleased
      obtain ⟨sh, hsh, rfl⟩ := Option.map_eq_some_iff.mp hs
      exact .replicate hsending hreleased hsh
    · cases hs
  | result p =>
    simp only [step] at hs
    split at hs
    · rename_i hreplicating hcall
      obtain ⟨x, hx, hs⟩ := Option.bind_eq_some_iff.mp hs
      obtain ⟨sh, hsh, rfl⟩ := Option.map_eq_some_iff.mp hs
      exact .result hreplicating hcall hx hsh
    · cases hs
  | shard e =>
    simp only [step] at hs
    split_ifs at hs with hfree
    obtain ⟨sh, hsh, rfl⟩ := Option.map_eq_some_iff.mp hs
    exact .shard (by simpa using hfree) hsh

end Service

/-! ## The client side and the timer thread -/

/-- While nothing is drained, or a batch is out of the buffer, clients can push and leave, and what
they do does not depend on which of the two it is. -/
theorem BatchSource.step_of_rest {b b' : BatchSource} {d : SourceEvent} (hd : d ≠ .handOver)
    (hdrain : d = .drain → b.phase ≠ .idle)
    (hrest : b.phase = .idle ∨ ∃ r payload, b.phase = .released r payload)
    (hs : b.step d = some b') : b'.phase = b.phase ∧
      ∀ phase, ({ b with phase := phase } : BatchSource).step d =
        some { b' with phase := phase } := by
  cases d with
  | push clientSocket data =>
    unfold BatchSource.step at hs ⊢
    simp only at hs ⊢
    split at hs <;> cases hs <;> exact ⟨rfl, fun _ => rfl⟩
  | remove clientSocket =>
    cases hs
    exact ⟨rfl, fun _ => rfl⟩
  | drain =>
    have hidle := hdrain rfl
    obtain ⟨r, payload, hphase⟩ := hrest.resolve_left hidle
    simp [BatchSource.step, hphase] at hs
  | copy | release =>
    rcases hrest with hphase | ⟨r, payload, hphase⟩ <;> simp [BatchSource.step, hphase] at hs
  | handOver => exact absurd rfl hd

namespace Proxy

variable {x x' : Proxy}

/-- Only the end of `replicate_bytes` and that of `send_out_batch` change what is being sent. -/
theorem responding_step {e : ProxyEvent} (hreplicate : ∀ ok, e ≠ .replicate ok)
    (hfinish : e ≠ .finish) (hs : x.step e = some x') : x'.responding = x.responding := by
  cases effect_of_step hs with
  | replicated => exact absurd rfl (hreplicate _)
  | finished => exact absurd rfl hfinish
  | _ => rfl

/-- Only the end of `replicate_bytes` adds a result. -/
theorem results_step {e : ProxyEvent} (hreplicate : ∀ ok, e ≠ .replicate ok)
    (hs : x.step e = some x') : x'.results = x.results := by
  cases effect_of_step hs with
  | replicated => exact absurd rfl (hreplicate _)
  | _ => rfl

/-- What a step is for the buffer, where it does not end `replicate_bytes`. -/
theorem source_step {e : ProxyEvent} (hreplicate : ∀ ok, e ≠ .replicate ok)
    (hs : x.step e = some x') : x'.source = x.source ∨
      ∃ d, d ≠ .handOver ∧ (d = .drain → e = .drain) ∧ x.source.step d = some x'.source := by
  cases e with
  | remove i =>
    simp only [step] at hs
    split at hs
    · split_ifs at hs
      obtain ⟨source, hsource, rfl⟩ := Option.map_eq_some_iff.mp hs
      exact Or.inr ⟨.remove _, by rintro ⟨⟩, by rintro ⟨⟩, hsource⟩
    · cases hs
  | drain =>
    simp only [step] at hs
    split_ifs at hs
    obtain ⟨source, hsource, rfl⟩ := Option.map_eq_some_iff.mp hs
    exact Or.inr ⟨.drain, by rintro ⟨⟩, fun _ => rfl, hsource⟩
  | copy =>
    obtain ⟨source, hsource, rfl⟩ := Option.map_eq_some_iff.mp hs
    exact Or.inr ⟨.copy, by rintro ⟨⟩, by rintro ⟨⟩, hsource⟩
  | replicate ok => exact absurd rfl (hreplicate ok)
  | release =>
    obtain ⟨source, hsource, ht⟩ := Option.map_eq_some_iff.mp hs
    refine Or.inr ⟨.release, by rintro ⟨⟩, by rintro ⟨⟩, hsource.trans ?_⟩
    rw [← ht]
    split_ifs <;> rfl
  | frame i mem msgLen =>
    cases effect_frame hs with
    | pushed hc hreading happend hfits hdataLen hdata hpush =>
      exact Or.inr ⟨.push _ _, by rintro ⟨⟩, by rintro ⟨⟩, batchSource_push hpush⟩
    | _ => exact Or.inl rfl
  | accept | hangUp | respond | finish =>
    cases effect_of_step hs
    all_goals exact Or.inl rfl

end Proxy

/-- The thread does not come to or from `replicate_bytes` by itself. -/
theorem EpochTimer.phase_of_step {th th' : EpochTimer} {epochDuration : ℕ} {e : TimerEvent}
    (hs : th.step epochDuration e = some th') :
    th.phase ≠ .replicating ∧ th'.phase ≠ .replicating := by
  constructor
  · intro hp
    cases e <;> simp [EpochTimer.step, hp] at hs
  · intro hp'
    cases e with
    | start now | wake now | endEpoch | compare =>
      simp only [EpochTimer.step] at hs
      split at hs
      · try split_ifs at hs
        all_goals cases hs; cases hp'
      · cases hs
    | updateSlotEstimate now =>
      simp only [EpochTimer.step] at hs
      split at hs
      · obtain ⟨sch, -, rfl⟩ := Option.map_eq_some_iff.mp hs
        cases hp'
      · cases hs
    | nextBatchInfo =>
      simp only [EpochTimer.step] at hs
      split at hs <;> cases hs <;> cases hp'

namespace Service

variable {c : ShardConfig} {shardId : UInt32} {epochDuration : ℕ} {s t : Service c}

/-- A result is sent while the timer thread is in `send_out_batch`, and the call of
`replicate_bytes` is for a batch that is out of the buffer. -/
structure Wired (x : Proxy) (th : EpochTimer) : Prop where
  responding : x.responding ≠ none → th.phase = .replicating ∧ x.source.phase = .idle
  called : th.phase = .replicating → x.responding = none →
    ∃ r payload, x.source.phase = .released r payload

/-- The buffer at rest, unless the timer thread is at work on it. -/
theorem Wired.rest {x : Proxy} {th : EpochTimer} (h : Wired x th)
    (hphase : th.phase = .replicating) :
    x.source.phase = .idle ∨ ∃ r payload, x.source.phase = .released r payload := by
  by_cases hnone : x.responding = none
  · exact Or.inr (h.called hphase hnone)
  · exact Or.inl (h.responding hnone).2

/-- A step at the clients, or in `send_out_batch` before the call. -/
theorem Wired.proxy {x x' : Proxy} {th : EpochTimer} (h : Wired x th) {e : ProxyEvent}
    (hreplicate : ∀ ok, e ≠ .replicate ok) (hfinish : e ≠ .finish)
    (hdrain : e = .drain → th.phase ≠ .replicating) (hs : x.step e = some x') : Wired x' th := by
  have hresponding := Proxy.responding_step hreplicate hfinish hs
  have hphase : th.phase = .replicating → x'.source.phase = x.source.phase := by
    intro hreplicating
    rcases Proxy.source_step hreplicate hs with hsame | ⟨d, hd, hdrained, hstep⟩
    · rw [hsame]
    · refine (BatchSource.step_of_rest hd (fun he => ?_) (h.rest hreplicating) hstep).1
      exact absurd hreplicating (hdrain (hdrained he))
  constructor
  · intro hsome
    rw [hresponding] at hsome
    obtain ⟨hreplicating, hidle⟩ := h.responding hsome
    exact ⟨hreplicating, (hphase hreplicating).trans hidle⟩
  · intro hreplicating hnone
    rw [hresponding] at hnone
    obtain ⟨r, payload, hreleased⟩ := h.called hreplicating hnone
    exact ⟨r, payload, (hphase hreplicating).trans hreleased⟩

/-! ## The system behind it -/

/-- While a result is sent to the clients, the slot is over. -/
def timerOf (x : Proxy) (th : EpochTimer) : EpochTimer :=
  if x.responding = none then th else { th with phase := .fetching }

/-- While `replicate_bytes` runs, the batch has been handed over. -/
def sourceOf (x : Proxy) (th : EpochTimer) : BatchSource :=
  if th.phase = .replicating ∧ x.responding = none then { x.source with phase := .idle }
  else x.source

/-- The service stands for a state of the system. -/
structure Represents (shardId : UInt32) (s : Service c) (t : SystemState c) : Prop where
  wired : ∀ p, Wired (s.proxy p) (s.timer p)
  shard : s.shard.Represents shardId t.numbered.shard
  timer : ∀ p, t.numbered.timer p = timerOf (s.proxy p) (s.timer p)
  source : ∀ p, t.source p = sourceOf (s.proxy p) (s.timer p)

theorem represents_init {registered : Bool} {rb : ReadBuffer} (hrb : rb.Fresh) :
    (init registered rb : Service c).Represents shardId .init where
  wired := fun _ => ⟨fun h => absurd rfl h, by rintro ⟨⟩⟩
  shard := ByteShard.represents_init hrb
  timer := fun _ => rfl
  source := fun _ => rfl

/-- Outside `send_out_batch` no result is sent. -/
theorem Wired.responding_eq_none {x : Proxy} {th : EpochTimer} (h : Wired x th)
    (hphase : th.phase ≠ .replicating) : x.responding = none := by
  by_contra hsome
  exact hphase (h.responding hsome).1

theorem Wired.timerOf_eq {x : Proxy} {th : EpochTimer} (h : Wired x th)
    (hphase : th.phase ≠ .replicating) : timerOf x th = th :=
  if_pos (h.responding_eq_none hphase)

theorem sourceOf_eq {x : Proxy} {th : EpochTimer} (hphase : th.phase ≠ .replicating) :
    sourceOf x th = x.source :=
  if_neg fun h => hphase h.1

/-- A step at the clients, or in `send_out_batch` before the call, as the system sees it. -/
theorem Wired.sourceOf_step {x x' : Proxy} {th : EpochTimer} (h : Wired x th) {e : ProxyEvent}
    (hreplicate : ∀ ok, e ≠ .replicate ok) (hfinish : e ≠ .finish)
    (hdrain : e = .drain → th.phase.isSending = true) (hs : x.step e = some x') :
    sourceOf x' th = sourceOf x th ∨ ∃ d, d ≠ .handOver ∧
      (d = .drain → th.phase.isSending = true) ∧
        (sourceOf x th).step d = some (sourceOf x' th) := by
  have hresponding := Proxy.responding_step hreplicate hfinish hs
  unfold sourceOf
  rw [hresponding]
  rcases Proxy.source_step hreplicate hs with hsame | ⟨d, hd, hdrained, hstep⟩
  · rw [hsame]
    exact Or.inl rfl
  · refine Or.inr ⟨d, hd, fun he => hdrain (hdrained he), ?_⟩
    split_ifs with hcalled
    · -- the batch is out of the buffer, which goes on as if it were handed over
      obtain ⟨r, payload, hreleased⟩ := h.called hcalled.1 hcalled.2
      have hsending : d ≠ .drain := by
        intro he
        have hphase := hdrain (hdrained he)
        rw [hcalled.1] at hphase
        cases hphase
      exact (BatchSource.step_of_rest hd (fun he => absurd he hsending)
        (Or.inr ⟨r, payload, hreleased⟩) hstep).2 .idle
    · exact hstep

/-- What the timer thread does with the shard is not an event of the rest. -/
theorem ofTimer_onFrames {e : ByteEvent c} {d : ShardEvent c} (hd : e.onFrames = some d) :
    d.ofTimer = e.ofTimer := by
  cases e <;> cases hd <;> rfl

theorem fits_of_ofTimer {e : ByteEvent c} (hfree : e.ofTimer = false) (sh : ByteShard c) :
    sh.Fits e := by
  cases e with
  | replicate p seq payload clients => cases hfree
  | _ => trivial

/-- What changes at one proxy, and in the shard. -/
theorem Represents.set {y y' : SystemState c} (h : s.Represents shardId y) (p : Fin c.proxies)
    {x : Proxy} {th : EpochTimer} (hproxy : t.proxy = Function.update s.proxy p x)
    (htimer : t.timer = Function.update s.timer p th) (hwired : Wired x th)
    (hshard : t.shard.Represents shardId y'.numbered.shard)
    (htimer' : y'.numbered.timer = Function.update y.numbered.timer p (timerOf x th))
    (hsource' : y'.source = Function.update y.source p (sourceOf x th)) :
    t.Represents shardId y' := by
  have hall : ∀ q, Wired (t.proxy q) (t.timer q) ∧
      y'.numbered.timer q = timerOf (t.proxy q) (t.timer q) ∧
        y'.source q = sourceOf (t.proxy q) (t.timer q) := by
    intro q
    rw [hproxy, htimer, htimer', hsource']
    by_cases hq : q = p
    · subst hq
      simp only [Function.update_self]
      exact ⟨hwired, trivial, trivial⟩
    · simp only [Function.update_of_ne hq]
      exact ⟨h.wired q, h.timer q, h.source q⟩
  exact ⟨fun q => (hall q).1, hshard, fun q => (hall q).2.1, fun q => (hall q).2.2⟩

/-- A step at the clients, or in `send_out_batch` before the call. -/
theorem Represents.proxy {y : SystemState c} (h : s.Represents shardId y) {p : Fin c.proxies}
    {e : ProxyEvent} {x : Proxy} (henabled : s.enabled p e = true) (hfinish : e ≠ .finish)
    (hx : (s.proxy p).step e = some x) :
    (s.setProxy p x).Represents shardId y ∨
      ∃ d y', y.step epochDuration d = some y' ∧ (s.setProxy p x).Represents shardId y' := by
  have hreplicate : ∀ ok, e ≠ .replicate ok := by
    rintro ok rfl
    cases henabled
  have hdrain : e = .drain → (s.timer p).phase.isSending = true := by
    rintro rfl
    exact henabled
  have hsending : e = .drain → (s.timer p).phase ≠ .replicating := by
    intro he hphase
    have hin := hdrain he
    rw [hphase] at hin
    cases hin
  have hwired := (h.wired p).proxy hreplicate hfinish hsending hx
  have htimer : y.numbered.timer p = timerOf x (s.timer p) := by
    rw [h.timer]
    unfold timerOf
    rw [Proxy.responding_step hreplicate hfinish hx]
  have hset : ∀ y' : SystemState c, y'.numbered = y.numbered →
      y'.source = Function.update y.source p (sourceOf x (s.timer p)) →
        (s.setProxy p x).Represents shardId y' := by
    intro y' hnumbered hsource
    refine h.set p rfl (Function.update_eq_self _ _).symm hwired ?_ ?_ hsource
    · rw [hnumbered]
      exact h.shard
    · rw [hnumbered]
      exact Function.eq_update_self_iff.mpr htimer
  rcases (h.wired p).sourceOf_step hreplicate hfinish hdrain hx with
    hsame | ⟨d, hd, hdrained, hstep⟩
  · left
    apply hset y rfl
    exact Function.eq_update_self_iff.mpr ((h.source p).trans hsame.symm)
  · right
    refine ⟨.source p d, y.setSource p (sourceOf x (s.timer p)), ?_, hset _ rfl rfl⟩
    have hallowed : y.enabled p d = true := by
      cases d with
      | drain =>
        have hphase := hdrained rfl
        have hne : (s.timer p).phase ≠ .replicating := by
          intro hin
          rw [hin] at hphase
          cases hphase
        show (y.numbered.timer p).phase.isSending = true
        rw [h.timer, (h.wired p).timerOf_eq hne]
        exact hphase
      | handOver => exact absurd rfl hd
      | _ => rfl
    show (if y.enabled p d then ((y.source p).step d).map (y.setSource p) else none) = _
    rw [if_pos hallowed, h.source, hstep]
    rfl

/-- The call of `replicate_bytes`. -/
theorem Represents.replicate {y : SystemState c} (h : s.Represents shardId y)
    (hproxies : c.proxies ≤ 2 ^ 32) {p : Fin c.proxies} {batchSeq : ℕ} {r : DrainResult}
    {payload : Payload} {sh : ByteShard c} (hsending : (s.timer p).phase = .sending batchSeq)
    (hreleased : (s.proxy p).source.phase = .released r payload) (hseq : batchSeq < 2 ^ 64)
    (hfits : 28 + payload.data.length < 2 ^ 16)
    (hsh : s.shard.step shardId
      (.replicate p (UInt64.ofNat batchSeq) payload r.participating) = some sh) :
    ∃ d y', y.step epochDuration d = some y' ∧
      ({ s.setPhase p .replicating with shard := sh } : Service c).Represents shardId y' := by
  have hne : (s.timer p).phase ≠ .replicating := by
    rw [hsending]
    exact TimerPhase.noConfusion
  have hnone := (h.wired p).responding_eq_none hne
  have htimer := (h.timer p).trans ((h.wired p).timerOf_eq hne)
  have hsource := (h.source p).trans (sourceOf_eq hne)
  have hwired : Wired (s.proxy p) { s.timer p with phase := .replicating } :=
    ⟨fun hsome => absurd hnone hsome, fun _ _ => ⟨r, payload, hreleased⟩⟩
  obtain ⟨sh', hsh', hrep⟩ := h.shard.replicate hproxies hfits hsh
  rw [UInt64.toNat_ofNat', Nat.mod_eq_of_lt hseq] at hsh'
  have hcalled : sourceOf (s.proxy p) { s.timer p with phase := .replicating } =
      { (s.proxy p).source with phase := .idle } := if_pos ⟨rfl, hnone⟩
  refine ⟨.handOver p,
    ⟨⟨sh', Function.update y.numbered.timer p { s.timer p with phase := .replicating }⟩,
      Function.update y.source p { (s.proxy p).source with phase := .idle }⟩, ?_,
    h.set p (Function.update_eq_self _ _).symm rfl hwired hrep ?_ ?_⟩
  · simp only [SystemState.step, NumberedState.step, BatchSource.step, hsource, htimer, hreleased,
      hsending, hsh', NumberedState.setPhase]
    rfl
  · exact congrArg (Function.update y.numbered.timer p) (if_pos hnone).symm
  · exact congrArg (Function.update y.source p) hcalled.symm

/-- `replicate_bytes` returns, and the loop over the clients starts. -/
theorem Represents.result {y : SystemState c} (h : s.Represents shardId y) {p : Fin c.proxies}
    {ok : Bool} {x : Proxy} {sh : ByteShard c} (hreplicating : (s.timer p).phase = .replicating)
    (hx : (s.proxy p).step (.replicate ok) = some x)
    (hsh : s.shard.step shardId (.respond p) = some sh) :
    ∃ d y', y.step epochDuration d = some y' ∧
      ({ s.setProxy p x with shard := sh } : Service c).Represents shardId y' := by
  cases Proxy.effect_of_step hx with
  | @replicated r payload _ hphase =>
    have hnone : (s.proxy p).responding = none := by
      by_contra hsome
      cases hphase.symm.trans ((h.wired p).responding hsome).2
    have htimer : y.numbered.timer p = s.timer p := (h.timer p).trans (if_pos hnone)
    have hsource : y.source p = { (s.proxy p).source with phase := .idle } :=
      (h.source p).trans (if_pos ⟨hreplicating, hnone⟩)
    obtain ⟨ps, hps, rfl⟩ := Option.map_eq_some_iff.mp hsh
    rw [h.shard.proxy] at hps
    have hstep : y.numbered.shard.step (.respond p) = some (y.numbered.shard.setProxy p ps) := by
      rw [ShardState.step, hps]
      rfl
    refine ⟨.numbered (.respond p),
      ⟨⟨y.numbered.shard.setProxy p ps,
        Function.update y.numbered.timer p { s.timer p with phase := .fetching }⟩, y.source⟩, ?_,
      h.set p rfl (Function.update_eq_self _ _).symm ⟨fun _ => ⟨hreplicating, rfl⟩, ?_⟩
        (h.shard.setProxy p ps) ?_ ?_⟩
    · simp only [SystemState.step, NumberedState.step, htimer, hreplicating, hstep,
        NumberedState.setPhase]
      rfl
    · rintro - ⟨⟩
    · rfl
    · apply Function.eq_update_self_iff.mpr
      rw [hsource]
      exact (if_neg (by rintro ⟨-, ⟨⟩⟩)).symm

/-- The loop over the clients ends. -/
theorem Represents.finish {y : SystemState c} (h : s.Represents shardId y) {p : Fin c.proxies}
    {x : Proxy} (hx : (s.proxy p).step .finish = some x) :
    ((s.setProxy p x).setPhase p .fetching).Represents shardId y := by
  cases Proxy.effect_of_step hx with
  | finished hresponding hclients =>
    have htimer : y.numbered.timer p = { s.timer p with phase := .fetching } :=
      (h.timer p).trans (if_neg hresponding)
    have hsource : y.source p = (s.proxy p).source :=
      (h.source p).trans (if_neg fun hin => hresponding hin.2)
    refine h.set p rfl rfl ⟨fun hsome => absurd rfl hsome, by rintro ⟨⟩⟩ h.shard ?_ ?_
    · exact Function.eq_update_self_iff.mpr htimer
    · exact Function.eq_update_self_iff.mpr hsource

/-- The timer thread takes the next slot, or waits for it. -/
theorem Represents.timer_step {y : SystemState c} (h : s.Represents shardId y) {p : Fin c.proxies}
    {e : TimerEvent} {th : EpochTimer} (hth : (s.timer p).step epochDuration e = some th) :
    ∃ d y', y.step epochDuration d = some y' ∧
      ({ s with timer := Function.update s.timer p th } : Service c).Represents shardId y' := by
  obtain ⟨hne, hne'⟩ := EpochTimer.phase_of_step hth
  have hnone := (h.wired p).responding_eq_none hne
  have htimer := (h.timer p).trans ((h.wired p).timerOf_eq hne)
  have hsource := (h.source p).trans (sourceOf_eq hne)
  have hwired : Wired (s.proxy p) th :=
    ⟨fun hsome => absurd hnone hsome, fun hphase => absurd hphase hne'⟩
  refine ⟨.numbered (.timer p e),
    ⟨⟨y.numbered.shard, Function.update y.numbered.timer p th⟩, y.source⟩, ?_,
    h.set p (Function.update_eq_self _ _).symm rfl hwired h.shard ?_ ?_⟩
  · simp only [SystemState.step, NumberedState.step, htimer, hth]
    rfl
  · rw [hwired.timerOf_eq hne']
  · apply Function.eq_update_self_iff.mpr
    rw [hsource, sourceOf_eq hne']

/-- Everything else in the shard. -/
theorem Represents.shard_step {y : SystemState c} (h : s.Represents shardId y)
    (hproxies : c.proxies ≤ 2 ^ 32) (hservers : c.servers ≤ 2 ^ 32) {e : ByteEvent c}
    {sh : ByteShard c} (hfree : e.ofTimer = false) (hsh : s.shard.step shardId e = some sh) :
    ({ s with shard := sh } : Service c).Represents shardId y ∨
      ∃ d y', y.step epochDuration d = some y' ∧
        ({ s with shard := sh } : Service c).Represents shardId y' := by
  rcases h.shard.step hproxies hservers (fits_of_ofTimer hfree _) hsh with
    ⟨-, hrep⟩ | ⟨d, sh', hd, hsh', hrep⟩
  · exact Or.inl ⟨h.wired, hrep, h.timer, h.source⟩
  · refine Or.inr ⟨.numbered (.shard d), ⟨⟨sh', y.numbered.timer⟩, y.source⟩, ?_,
      h.wired, hrep, h.timer, h.source⟩
    simp only [SystemState.step, NumberedState.step, (ofTimer_onFrames hd).trans hfree, hsh']
    rfl

/-- **One step** of the service is a step of the system, or none. -/
theorem Represents.step {y : SystemState c} (h : s.Represents shardId y)
    (hproxies : c.proxies ≤ 2 ^ 32) (hservers : c.servers ≤ 2 ^ 32) {e : ServiceEvent c}
    (hfits : s.Fits e) (hs : s.step shardId epochDuration e = some t) :
    t.Represents shardId y ∨
      ∃ d y', y.step epochDuration d = some y' ∧ t.Represents shardId y' := by
  cases effect_of_step hs with
  | proxy henabled hfinish hx => exact h.proxy henabled hfinish hx
  | finish hx => exact Or.inl (h.finish hx)
  | timer hth => exact Or.inr (h.timer_step hth)
  | replicate hsending hreleased hsh =>
    simp only [Fits, FrameFits, hsending, hreleased] at hfits
    obtain ⟨hseq, hlen⟩ := hfits
    exact Or.inr (h.replicate hproxies hsending hreleased hseq hlen hsh)
  | result hreplicating hcall hx hsh => exact Or.inr (h.result hreplicating hx hsh)
  | shard hfree hsh => exact h.shard_step hproxies hservers hfree hsh

/-! ## Runs -/

variable {registered : Bool} {rb : ReadBuffer}

theorem Fits.fault?_eq_none {e : ServiceEvent c} (h : s.Fits e) : s.fault? e = none := by
  cases e with
  | proxy p e => exact Proxy.InMemory.fault?_eq_none h
  | _ => rfl

theorem fault?_eq_none_of_step {e : ServiceEvent c} (hs : s.step shardId epochDuration e = some t) :
    s.fault? e = none := by
  cases effect_of_step hs with
  | proxy henabled hfinish hx => exact Proxy.fault?_eq_none_of_step hx
  | finish hx => exact Proxy.fault?_eq_none_of_step hx
  | _ => rfl

/-- A run in which everything fits has no fault. -/
theorem exists_ok {guard : Service c → ServiceEvent c → Prop} {x : Except MemFault (Service c)}
    (hfits : ∀ s e, guard s e → s.Fits e)
    (h : (serviceWithFaults c shardId epochDuration registered rb).ReachVia
      (Lts.BeforeFault guard) x) :
    ∃ s, x = .ok s ∧ (service c shardId epochDuration registered rb).ReachVia guard s :=
  h.exists_ok fun s e hg => (hfits s e hg).fault?_eq_none

theorem reach_withFaults {guard : Service c → ServiceEvent c → Prop}
    (h : (service c shardId epochDuration registered rb).ReachVia guard s) :
    (serviceWithFaults c shardId epochDuration registered rb).ReachVia (Lts.BeforeFault guard)
      (.ok s) :=
  h.withFaults fun _ _ _ => fault?_eq_none_of_step

/-- The run of the system behind a run of the service. -/
theorem exists_system (hproxies : c.proxies ≤ 2 ^ 32) (hservers : c.servers ≤ 2 ^ 32)
    (hrb : rb.Fresh) (h : (service c shardId epochDuration registered rb).ReachVia Fits s) :
    ∃ y, (system c epochDuration).Reach y ∧ s.Represents shardId y := by
  refine h.simulate (N := system c epochDuration) (fun s y => s.Represents shardId y)
    (represents_init hrb) ?_
  intro s e t y hrep hfits hs
  rcases hrep.step hproxies hservers hfits hs with hsame | ⟨d, y', hd, hrep'⟩
  · exact Or.inl hsame
  · exact Or.inr ⟨d, y', trivial, hd, hrep'⟩

/-- The run of one proxy and its clients. -/
theorem reach_proxy {guard : Service c → ServiceEvent c → Prop}
    {free : Proxy → ProxyEvent → Prop} (hreplicate : ∀ x ok, free x (.replicate ok))
    (hguard : ∀ s p e, guard s (.proxy p e) → free (s.proxy p) e)
    (h : (service c shardId epochDuration registered rb).ReachVia guard s) (p : Fin c.proxies) :
    (Ziplog.proxy registered).ReachVia free (s.proxy p) := by
  have hinit : (service c shardId epochDuration registered rb).init.proxy p =
      (Ziplog.proxy registered).init := rfl
  refine h.abs (fun s => s.proxy p) hinit ?_
  intro s e t _ hfree hs
  have hset : ∀ (q : Fin c.proxies) (e : ProxyEvent) (x : Proxy), free (s.proxy q) e →
      (s.proxy q).step e = some x → Function.update s.proxy q x p = s.proxy p ∨
        ∃ d, free (s.proxy p) d ∧
          (s.proxy p).step d = some (Function.update s.proxy q x p) := by
    intro q e x hfree hx
    by_cases hp : p = q
    · subst hp
      rw [Function.update_self]
      exact Or.inr ⟨e, hfree, hx⟩
    · rw [Function.update_of_ne hp]
      exact Or.inl rfl
  cases effect_of_step hs with
  | proxy henabled hfinish hx => exact hset _ _ _ (hguard _ _ _ hfree) hx
  | finish hx => exact hset _ .finish _ (hguard _ _ _ hfree) hx
  | result hreplicating hcall hx hsh => exact hset _ (.replicate _) _ (hreplicate _ _) hx
  | timer hth => exact Or.inl rfl
  | replicate hsending hreleased hsh => exact Or.inl rfl
  | shard hfree hsh => exact Or.inl rfl

theorem reach_clients {guard : Service c → ServiceEvent c → Prop}
    (h : (service c shardId epochDuration registered rb).ReachVia guard s) (p : Fin c.proxies) :
    (Ziplog.proxy registered).Reach (s.proxy p) :=
  reach_proxy (fun _ _ => trivial) (fun _ _ _ _ => trivial) h p

/-- A command of a client on its way through one server to a subscriber, and the answer. -/
theorem exists_answered : ∃ s : Service ⟨0, 1, 1, 1, by decide⟩,
    (service ⟨0, 1, 1, 1, by decide⟩ 5 10 true .zeroed).ReachVia
        (fun s e => s.Fits e ∧ s.NumberFree e) s ∧
      (s.proxy 0).connections = [⟨5, .reading, [some [65]], [.batch 0 true]⟩] ∧
        (s.shard.subscriber 0).tracker.log = [[], [0, 0, 0, 1, 65]] := by
  have hrun : ((service ⟨0, 1, 1, 1, by decide⟩ 5 10 true .zeroed).runVia
      (fun s e => decide (s.Fits e ∧ s.NumberFree e))
      [.proxy 0 (.accept 5), .proxy 0 (.frame 0 ((buildWireBytes 0 0 0 0 [65]).drop 2) 29),
        .timer 0 (.start 0), .timer 0 (.updateSlotEstimate 0), .timer 0 .nextBatchInfo,
        .timer 0 .compare, .timer 0 (.wake 10), .proxy 0 .drain, .proxy 0 .copy,
        .proxy 0 .release, .replicate 0, .shard (.connect 0 0), .shard (.send 0 0),
        .shard (.handlerRecv 0 0 64), .shard (.ack 0 0), .shard (.workerRecv 0 0 64),
        .shard (.count 0 0), .shard (.pollAcks 0), .result 0, .proxy 0 (.respond 5),
        .shard (.check 0 0), .shard (.store 0 0), .shard (.broadcast 0 0),
        .shard (.feedSend 0 0), .shard (.feedHandlerRecv 0 0 64), .shard (.deliver 0 0 0)]
      (init true .zeroed)).any (fun s =>
        decide ((s.proxy 0).connections = [⟨5, .reading, [some [65]], [.batch 0 true]⟩] ∧
          (s.shard.subscriber 0).tracker.log = [[], [0, 0, 0, 1, 65]])) = true := by
    decide +kernel
  obtain ⟨s, hreach, hs⟩ := Lts.exists_reachVia_of_run _ (fun _ _ => of_decide_eq_true) hrun
  exact ⟨s, hreach, of_decide_eq_true hs⟩

/-- **The service runs the system.** In every run in which the frames of the batches fit and what
clients push stays in memory, whatever pieces the bytes arrive in and whichever servers crash, with
clients that come, push and leave at any moment, nothing goes wrong, the state stands for one that
`system` reaches, and every proxy with its clients is in a state that `proxy` reaches. -/
theorem refines_system (c : ShardConfig) (hproxies : c.proxies ≤ 2 ^ 32)
    (hservers : c.servers ≤ 2 ^ 32) (shardId : UInt32) (epochDuration : ℕ) (registered : Bool)
    {rb : ReadBuffer} (hrb : rb.Fresh) {x : Except MemFault (Service c)}
    (h : (serviceWithFaults c shardId epochDuration registered rb).ReachVia
      (Lts.BeforeFault Fits) x) :
    ∃ s, x = .ok s ∧ (∃ y, (system c epochDuration).Reach y ∧ s.Represents shardId y) ∧
      ∀ p, (Ziplog.proxy registered).Reach (s.proxy p) := by
  obtain ⟨s, rfl, hs⟩ := exists_ok (fun _ _ => id) h
  exact ⟨s, rfl, exists_system hproxies hservers hrb hs, reach_clients hs⟩

/-- The log is that of a state of the system. -/
theorem refines_system_answered : ∃ y : SystemState ⟨0, 1, 1, 1, by decide⟩,
    (system ⟨0, 1, 1, 1, by decide⟩ 10).Reach y ∧
      (y.numbered.shard.subscriber 0).tracker.log = [[], [0, 0, 0, 1, 65]] := by
  obtain ⟨s, hreach, -, hlog⟩ := exists_answered
  have hrun := reach_withFaults (hreach.mono fun _ _ hguard => hguard.1)
  obtain ⟨t, ht, ⟨y, hy, hrep⟩, -⟩ := refines_system _ (by decide) (by decide) 5 10 true
    ReadBuffer.zeroed_fresh hrun
  cases ht
  refine ⟨y, hy, ?_⟩
  rw [← hrep.shard.subscriber]
  exact hlog

end Service

end Ziplog
