import Ziplog.Api.NetworkUtils
import Ziplog.Library.Lts
import Ziplog.Library.Writes
import Ziplog.Zipper.Delivery

/-!
# Short sends

A frame is sent by one call, which may take only the first bytes of it; the caller learns that it
was short and nothing else. The replicator's worker then closes its connection, and the
broadcaster's worker stops, but leaves the connection to the pool. The zipper's
`deliver_slot_allocation` goes on to the next server, and `send_out_batch` to the next client, and
both come back to the same connection. `framed_of_takenWhole` says which short sends do no harm.
-/

namespace Ziplog

/-- A connection, as one end writes to it: the zipper's to a server, a proxy's to a client and the
one of a replicator's worker, and a server's to a subscriber. Those from a pool are numbered. -/
inductive OutStream
  | server (server connection : ℕ)
  | client (client : ℕ)
  | replica (worker : ℕ)
  | subscriber (address : Address) (connection : ℕ)
  deriving DecidableEq

/-- A worker of `SubscriberBroadcaster`. -/
structure BroadcastWorker where
  address : Address
  shutdown : Bool
  deriving DecidableEq

structure ShortSends where
  sends : OutStream → List (Write UInt8)
  /-- The connections that the pools have. -/
  serverConnection : ℕ → ℕ
  subscriberConnection : Address → ℕ
  /-- `shutdown` of the replicator's workers. -/
  replicaShutdown : ℕ → Bool
  broadcasters : List BroadcastWorker

inductive ShortSendEvent
  | deliverSlotAllocation (server proxyId : ℕ) (values : List ℕ) (accepted : ℕ)
  | reconnectServer (server : ℕ)
  | respond (client : ℕ) (success : Bool) (accepted : ℕ)
  | replicate (worker : ℕ) (wire : List UInt8) (accepted : ℕ)
  | replicaFails (worker : ℕ)
  | addSubscriber (address : Address)
  | reconnectSubscriber (address : Address)
  | broadcast (worker : ℕ) (wire : List UInt8) (accepted : ℕ)
  | broadcasterFails (worker : ℕ)

namespace ShortSends

def init : ShortSends := ⟨fun _ => [], fun _ => 0, fun _ => 0, fun _ => false, []⟩

/-- The response of `send_out_batch`. -/
def respWire (shard proxyId : UInt32) (success : Bool) : List UInt8 :=
  buildWireBytes (if success then MessageTypes.success.value else MessageTypes.failure.value)
    shard proxyId 0 []

/-- One call of `sendmsg`. -/
def send (s : ShortSends) (k : OutStream) (frame : List UInt8) (accepted : ℕ) :
    Option ShortSends :=
  if h : accepted ≤ frame.length then
    some { s with sends := Function.update s.sends k (s.sends k ++ [⟨frame, accepted, h⟩]) }
  else none

def setShutdown (s : ShortSends) (worker : ℕ) : ShortSends :=
  { s with broadcasters := s.broadcasters.modify worker fun w => { w with shutdown := true } }

/-- A worker that stops while it waits for a reply has sent its frame whole. -/
def step (shard proxyId : UInt32) (s : ShortSends) : ShortSendEvent → Option ShortSends
  | .deliverSlotAllocation server id values accepted =>
    match sendMessage (zipResponse shard id values) with
    | none => some s
    | some frame => s.send (.server server (s.serverConnection server)) frame accepted
  | .reconnectServer server =>
    some { s with
      serverConnection :=
        Function.update s.serverConnection server (s.serverConnection server + 1) }
  | .respond client success accepted =>
    s.send (.client client) (respWire shard proxyId success) accepted
  | .replicate worker wire accepted =>
    if s.replicaShutdown worker then none
    else (s.send (.replica worker) wire accepted).map fun t =>
      if accepted = wire.length then t
      else { t with replicaShutdown := Function.update s.replicaShutdown worker true }
  | .replicaFails worker =>
    some { s with replicaShutdown := Function.update s.replicaShutdown worker true }
  | .addSubscriber address => some { s with broadcasters := s.broadcasters ++ [⟨address, false⟩] }
  | .reconnectSubscriber address =>
    some { s with
      subscriberConnection :=
        Function.update s.subscriberConnection address (s.subscriberConnection address + 1) }
  | .broadcast worker wire accepted =>
    match s.broadcasters[worker]? with
    | some ⟨address, false⟩ =>
      (s.send (.subscriber address (s.subscriberConnection address)) wire accepted).map fun t =>
        if accepted = wire.length then t else t.setShutdown worker
    | _ => none
  | .broadcasterFails worker => some (s.setShutdown worker)

/-- Another worker is still running for the address of this one. -/
def Shared (s : ShortSends) (worker : ℕ) : Prop :=
  ∃ other < s.broadcasters.length, other ≠ worker ∧
    ∃ w ∈ s.broadcasters[worker]?, s.broadcasters[other]? = some ⟨w.address, false⟩

/-- The frames of `deliver_slot_allocation` and the responses are taken whole, a broadcaster's frame
as well when its worker is not the only one for the address, and a worker is added for an address
when all frames on the connection to it were taken whole. -/
def TakenWhole (shard proxyId : UInt32) (s : ShortSends) : ShortSendEvent → Prop
  | .deliverSlotAllocation _ id values accepted =>
    ∀ frame ∈ sendMessage (zipResponse shard id values), accepted = frame.length
  | .respond _ success accepted => accepted = (respWire shard proxyId success).length
  | .broadcast worker wire accepted => s.Shared worker → accepted = wire.length
  | .addSubscriber address =>
    ∀ w ∈ s.sends (.subscriber address (s.subscriberConnection address)), w.Whole
  | _ => True

/-- Nobody sends behind a short send, and what stands on a connection is whole frames and at most
a part of one at the end. -/
structure Framed (s : ShortSends) : Prop where
  intact : ∀ k, Write.Intact (s.sends k)
  bytes : ∀ k, ∃ (frames : List (List UInt8)) (rest : List UInt8),
    Write.stream (s.sends k) = frames.flatten ++ rest ∧
      (∀ frame ∈ frames, ∃ w ∈ s.sends k, w.unit = frame) ∧
      (rest = [] ∨ ∃ w ∈ s.sends k, ¬ w.Whole ∧ rest = w.taken)

end ShortSends

def shortSends (shard proxyId : UInt32) : Lts ShortSends ShortSendEvent :=
  ⟨.init, ShortSends.step shard proxyId⟩

/-! ## Who may still send -/

namespace ShortSends

variable {shard proxyId : UInt32} {s t : ShortSends}

/-- A worker runs for the address. -/
def Served (s : ShortSends) (address : Address) : Prop :=
  ∃ worker : ℕ, s.broadcasters[worker]? = some ⟨address, false⟩

/-- Somebody may still send on the connection, or on one that replaces it. -/
def Open (s : ShortSends) : OutStream → Prop
  | .server .. | .client _ => True
  | .replica worker => s.replicaShutdown worker = false
  | .subscriber address connection =>
    connection = s.subscriberConnection address ∧ s.Served address ∨
      s.subscriberConnection address < connection

/-- Where somebody may still send, all frames were taken whole. -/
structure Sound (s : ShortSends) : Prop where
  intact : ∀ k, Write.Intact (s.sends k)
  whole : ∀ k, s.Open k → ∀ w ∈ s.sends k, w.Whole

theorem sound_init : init.Sound := ⟨fun _ => Write.intact_nil, fun _ _ _ h => nomatch h⟩

theorem Sound.framed (h : s.Sound) : s.Framed := ⟨h.intact, fun k => (h.intact k).exists_units⟩

theorem eq_of_send {k : OutStream} {frame : List UInt8} {accepted : ℕ}
    (hs : s.send k frame accepted = some t) : ∃ h : accepted ≤ frame.length,
      t = { s with sends := Function.update s.sends k (s.sends k ++ [⟨frame, accepted, h⟩]) } := by
  unfold send at hs
  split_ifs at hs with h
  cases hs
  exact ⟨h, rfl⟩

/-- A send alone opens and closes nothing. -/
theorem open_of_send {k k' : OutStream} {frame : List UInt8} {accepted : ℕ}
    (hs : s.send k frame accepted = some t) (h : t.Open k') : s.Open k' := by
  obtain ⟨hle, rfl⟩ := eq_of_send hs
  cases k' <;> exact h

/-- Nothing is sent, and nobody starts to send. -/
theorem Sound.quiet (h : s.Sound) (hsends : t.sends = s.sends)
    (hopen : ∀ k, t.Open k → s.Open k) : t.Sound := by
  constructor
  · intro k
    rw [hsends]
    exact h.intact k
  · intro k hk
    rw [hsends]
    exact h.whole k (hopen k hk)

/-- **A send** on a connection where somebody may send. After a short one nobody may. -/
theorem Sound.send (h : s.Sound) {k : OutStream} {frame : List UInt8} {accepted : ℕ}
    {u : ShortSends} (hs : s.send k frame accepted = some u) (hk : s.Open k)
    (hsends : t.sends = u.sends) (hopen : ∀ k', t.Open k' → u.Open k')
    (hshort : accepted ≠ frame.length → ¬ t.Open k) : t.Sound := by
  replace hopen : ∀ k', t.Open k' → s.Open k' := fun k' hk' => open_of_send hs (hopen k' hk')
  obtain ⟨hle, rfl⟩ := eq_of_send hs
  have hfront := h.whole k hk
  constructor
  · intro k'
    rw [hsends]
    show Write.Intact (Function.update s.sends k _ k')
    rw [Function.update_apply]
    split_ifs
    · exact (Write.intact_concat_iff _).mpr hfront
    · exact h.intact k'
  · intro k' hk' w hw
    rw [hsends] at hw
    replace hw : w ∈ Function.update s.sends k _ k' := hw
    rw [Function.update_apply] at hw
    split_ifs at hw with heq
    · subst heq
      rcases List.mem_append.mp hw with hold | hlast
      · exact hfront w hold
      · rw [List.mem_singleton.mp hlast]
        by_contra hnot
        exact hshort hnot hk'
    · exact h.whole k' (hopen k' hk') w hw

theorem shutdown_setShutdown {worker other : ℕ} {address : Address}
    (h : (s.setShutdown worker).broadcasters[other]? = some ⟨address, false⟩) :
    other ≠ worker ∧ s.broadcasters[other]? = some ⟨address, false⟩ := by
  unfold setShutdown at h
  rw [List.getElem?_modify] at h
  obtain ⟨w, hw, heq⟩ := Option.map_eq_some_iff.mp h
  split_ifs at heq with hsame
  · cases congrArg BroadcastWorker.shutdown heq
  · refine ⟨Ne.symm hsame, ?_⟩
    rw [hw, heq]

/-- A worker that stops opens nothing. -/
theorem open_of_setShutdown {worker : ℕ} {k : OutStream} (h : (s.setShutdown worker).Open k) :
    s.Open k := by
  cases k with
  | server | client | replica => exact h
  | subscriber address connection =>
    rcases h with ⟨hcurrent, other, hother⟩ | hlater
    · exact Or.inl ⟨hcurrent, other, (shutdown_setShutdown hother).2⟩
    · exact Or.inr hlater

theorem open_of_replicaShutdown {worker : ℕ} {k : OutStream}
    (h : ({ s with
      replicaShutdown := Function.update s.replicaShutdown worker true } : ShortSends).Open k) :
    s.Open k ∧ k ≠ .replica worker := by
  cases k with
  | server | client | subscriber => exact ⟨h, fun heq => nomatch heq⟩
  | replica other =>
    replace h : Function.update s.replicaShutdown worker true other = false := h
    rw [Function.update_apply] at h
    split_ifs at h with hsame
    exact ⟨h, fun heq => hsame (OutStream.replica.inj heq)⟩

/-- A replication worker sends. After a short send it does not go on. -/
theorem Sound.replicate (h : s.Sound) {worker : ℕ} {wire : List UInt8} {accepted : ℕ}
    {u : ShortSends} (hk : s.Open (.replica worker))
    (hu : s.send (.replica worker) wire accepted = some u) :
    Sound (if accepted = wire.length then u else
      { u with replicaShutdown := Function.update s.replicaShutdown worker true }) := by
  split_ifs with hwhole
  · exact h.send hu hk rfl (fun _ hk => hk) fun hshort => absurd hwhole hshort
  · refine h.send hu hk rfl (fun _ hk' => ?_) fun _ hopen => ?_
    · obtain ⟨hle, rfl⟩ := eq_of_send hu
      exact (open_of_replicaShutdown hk').1
    · obtain ⟨hle, rfl⟩ := eq_of_send hu
      exact (open_of_replicaShutdown hopen).2 rfl

/-- A worker is added for an address that has its frames whole. -/
theorem Sound.addSubscriber (h : s.Sound) {address : Address}
    (hwhole : ∀ w ∈ s.sends (.subscriber address (s.subscriberConnection address)), w.Whole) :
    ({ s with broadcasters := s.broadcasters ++ [⟨address, false⟩] } : ShortSends).Sound := by
  refine ⟨h.intact, fun k hk => ?_⟩
  cases k with
  | server | client | replica => exact h.whole _ hk
  | subscriber address' connection =>
    rcases hk with ⟨hcurrent, other, hother⟩ | hlater
    · replace hother : (s.broadcasters ++ [⟨address, false⟩])[other]? =
        some ⟨address', false⟩ := hother
      rw [List.getElem?_append] at hother
      split_ifs at hother
      · exact h.whole _ (Or.inl ⟨hcurrent, other, hother⟩)
      · rw [List.getElem?_singleton] at hother
        split_ifs at hother
        cases hother
        rw [hcurrent]
        exact hwhole
    · exact h.whole _ (Or.inr hlater)

/-- A broadcaster sends. After a short send nobody is left for its address. -/
theorem Sound.broadcast (h : s.Sound) {worker : ℕ} {address : Address} {wire : List UInt8}
    {accepted : ℕ} {u : ShortSends} (hworker : s.broadcasters[worker]? = some ⟨address, false⟩)
    (hguard : s.Shared worker → accepted = wire.length)
    (hu : s.send (.subscriber address (s.subscriberConnection address)) wire accepted = some u) :
    Sound (if accepted = wire.length then u else u.setShutdown worker) := by
  have hk : s.Open (.subscriber address (s.subscriberConnection address)) :=
    Or.inl ⟨rfl, worker, hworker⟩
  split_ifs with hwhole
  · exact h.send hu hk rfl (fun _ hk => hk) fun hshort => absurd hwhole hshort
  · refine h.send hu hk rfl (fun _ hk' => open_of_setShutdown hk') fun hshort hopen => ?_
    obtain ⟨hle, rfl⟩ := eq_of_send hu
    rcases hopen with ⟨-, other, hother⟩ | hlater
    · obtain ⟨hne, hrunning⟩ := shutdown_setShutdown hother
      refine hshort (hguard ⟨other, ?_, hne, _, hworker, hrunning⟩)
      exact (List.getElem?_eq_some_iff.mp hrunning).1
    · exact Nat.lt_irrefl _ hlater

/-- **One step** in which frames are taken whole where they have to be. -/
theorem sound_step (h : s.Sound) {e : ShortSendEvent} (hguard : s.TakenWhole shard proxyId e)
    (hs : s.step shard proxyId e = some t) : t.Sound := by
  cases e with
  | deliverSlotAllocation server id values accepted =>
    simp only [step] at hs
    split at hs
    · cases hs
      exact h
    · rename_i frame hframe
      exact h.send hs trivial rfl (fun _ hk => hk) fun hshort => absurd (hguard frame hframe) hshort
  | reconnectServer server =>
    cases hs
    refine h.quiet rfl fun k hk => ?_
    cases k <;> exact hk
  | respond client success accepted =>
    exact h.send hs trivial rfl (fun _ hk => hk) fun hshort => absurd hguard hshort
  | replicate worker wire accepted =>
    have hrunning : ¬ s.replicaShutdown worker = true := by
      intro hshutdown
      rw [step, if_pos hshutdown] at hs
      cases hs
    rw [step, if_neg hrunning] at hs
    obtain ⟨u, hu, rfl⟩ := Option.map_eq_some_iff.mp hs
    exact h.replicate (Bool.eq_false_iff.mpr hrunning) hu
  | replicaFails worker =>
    cases hs
    exact h.quiet rfl fun _ hk => (open_of_replicaShutdown hk).1
  | addSubscriber address =>
    cases hs
    exact h.addSubscriber hguard
  | reconnectSubscriber address =>
    cases hs
    refine h.quiet rfl fun k hk => ?_
    cases k with
    | server | client | replica => exact hk
    | subscriber address' connection =>
      simp only [Open, Function.update_apply] at hk ⊢
      split_ifs at hk with hsame
      · subst hsame
        refine Or.inr ?_
        omega
      · exact hk
  | broadcast worker wire accepted =>
    simp only [step] at hs
    split at hs
    · rename_i address hworker
      obtain ⟨u, hu, rfl⟩ := Option.map_eq_some_iff.mp hs
      exact h.broadcast hworker hguard hu
    · cases hs
  | broadcasterFails worker =>
    cases hs
    exact h.quiet rfl fun _ hk => open_of_setShutdown hk

/-! ## What one more send does -/

/-- There is a short send on the connection. -/
def Torn (s : ShortSends) (k : OutStream) : Prop := ∃ w ∈ s.sends k, ¬ w.Whole

/-- A whole frame goes out on a connection with a short send. -/
def SentBehind (s t : ShortSends) : Prop :=
  ∃ k w, s.Torn k ∧ t.sends k = s.sends k ++ [w] ∧ w.unit ≠ [] ∧ w.Whole

theorem SentBehind.not_framed (h : s.SentBehind t) : ¬ t.Framed := by
  intro hframed
  obtain ⟨k, w, ⟨torn, htorn, hnot⟩, hsends, -⟩ := h
  have hintact := hframed.intact k
  rw [hsends] at hintact
  exact hnot ((Write.intact_concat_iff w).mp hintact torn htorn)

/-- A frame that is not taken whole has bytes. -/
theorem torn_of_send {k : OutStream} {frame : List UInt8} {accepted : ℕ}
    (hs : s.send k frame accepted = some t) (hshort : accepted ≠ frame.length) :
    t.Torn k ∧ frame ≠ [] := by
  obtain ⟨hle, rfl⟩ := eq_of_send hs
  refine ⟨⟨⟨frame, accepted, hle⟩, ?_, hshort⟩, @Write.unit_ne_nil _ ⟨frame, accepted, hle⟩ hshort⟩
  show _ ∈ Function.update s.sends k _ k
  rw [Function.update_self]
  exact List.mem_append_right _ (List.mem_singleton_self _)

/-- A send that takes all of its frame is always possible. -/
theorem exists_send_of_torn {k : OutStream} (h : s.Torn k) {frame : List UInt8}
    (hframe : frame ≠ []) : ∃ u, s.send k frame frame.length = some u ∧ s.SentBehind u :=
  ⟨_, dif_pos (Nat.le_refl _), k, _, h, Function.update_self _ _ _, hframe, rfl⟩

/-- A worker that runs sends again. -/
theorem exists_broadcast_of_torn {worker : ℕ} {address : Address}
    (hworker : s.broadcasters[worker]? = some ⟨address, false⟩)
    (h : s.Torn (.subscriber address (s.subscriberConnection address))) {wire : List UInt8}
    (hwire : wire ≠ []) :
    ∃ u, s.step shard proxyId (.broadcast worker wire wire.length) = some u ∧ s.SentBehind u := by
  obtain ⟨u, hu, hbehind⟩ := exists_send_of_torn h hwire
  refine ⟨u, ?_, hbehind⟩
  simp only [step, hworker, hu, Option.map_some, if_true]

/-- After a step that is not so, a whole frame can go out behind a torn one. -/
theorem exists_sentBehind {e : ShortSendEvent} (hnot : ¬ s.TakenWhole shard proxyId e)
    (hs : s.step shard proxyId e = some t) :
    ∃ e' u, t.step shard proxyId e' = some u ∧ t.SentBehind u := by
  cases e with
  | deliverSlotAllocation server id values accepted =>
    simp only [TakenWhole, not_forall] at hnot
    obtain ⟨frame, hframe, hshort⟩ := hnot
    rw [Option.mem_def] at hframe
    simp only [step, hframe] at hs
    obtain ⟨htorn, hne⟩ := torn_of_send hs hshort
    obtain ⟨hle, rfl⟩ := eq_of_send hs
    obtain ⟨u, hu, hbehind⟩ := exists_send_of_torn htorn hne
    refine ⟨.deliverSlotAllocation server id values frame.length, u, ?_, hbehind⟩
    simp only [step, hframe]
    exact hu
  | respond client success accepted =>
    obtain ⟨htorn, hne⟩ := torn_of_send hs hnot
    obtain ⟨u, hu, hbehind⟩ := exists_send_of_torn htorn hne
    exact ⟨.respond client success (respWire shard proxyId success).length, u, hu, hbehind⟩
  | addSubscriber address =>
    simp only [TakenWhole, not_forall] at hnot
    obtain ⟨w, hw, hshort⟩ := hnot
    cases hs
    refine ⟨_, exists_broadcast_of_torn
      (s := { s with broadcasters := s.broadcasters ++ [⟨address, false⟩] })
      List.getElem?_concat_length ⟨w, hw, hshort⟩ (Write.unit_ne_nil hshort)⟩
  | broadcast worker wire accepted =>
    simp only [TakenWhole, Classical.not_imp] at hnot
    obtain ⟨⟨other, -, hne, ⟨address, shutdown⟩, hworker, hother⟩, hshort⟩ := hnot
    rw [Option.mem_def] at hworker
    simp only [step, hworker] at hs
    cases shutdown with
    | true => cases hs
    | false =>
      obtain ⟨u, hu, rfl⟩ := Option.map_eq_some_iff.mp hs
      rw [if_neg hshort]
      obtain ⟨htorn, hwire⟩ := torn_of_send hu hshort
      have hstopped : (u.setShutdown worker).broadcasters[other]? = some ⟨address, false⟩ ∧
          u.subscriberConnection = s.subscriberConnection := by
        obtain ⟨hle, rfl⟩ := eq_of_send hu
        exact ⟨(List.getElem?_modify_ne _ _ (Ne.symm hne)).trans hother, rfl⟩
      rw [← hstopped.2] at htorn
      exact ⟨_, exists_broadcast_of_torn hstopped.1 htorn hwire⟩
  | reconnectServer | replicate | replicaFails | reconnectSubscriber | broadcasterFails =>
    exact absurd trivial hnot

/-- **A torn frame is never followed by another** in a run in which the frames of slot allocations
and responses are taken whole, and those of a broadcaster's worker that is not alone. After a step
that is not so, a whole frame can follow a torn one at once. -/
theorem framed_of_takenWhole
    (h : (shortSends shard proxyId).ReachVia (TakenWhole shard proxyId) s) :
    s.Framed ∧ ∀ e t, ¬ s.TakenWhole shard proxyId e → s.step shard proxyId e = some t →
      ∃ e' u, t.step shard proxyId e' = some u ∧ t.SentBehind u ∧ ¬ u.Framed := by
  have hsound : s.Sound := h.invariant Sound sound_init
    fun _ _ _ _ hsound hguard hs => sound_step hsound hguard hs
  refine ⟨hsound.framed, fun e t hnot hs => ?_⟩
  obtain ⟨e', u, hu, hbehind⟩ := exists_sentBehind hnot hs
  exact ⟨e', u, hu, hbehind, hbehind.not_framed⟩

instance (s : ShortSends) (e : ShortSendEvent) : Decidable (s.TakenWhole shard proxyId e) :=
  match e with
  | .deliverSlotAllocation _ _ _ _ => inferInstanceAs (Decidable (∀ frame ∈ (_ : Option _), _))
  | .respond _ _ _ => inferInstanceAs (Decidable (_ = _))
  | .broadcast worker _ _ =>
    have : Decidable (s.Shared worker) :=
      inferInstanceAs (Decidable (∃ other < s.broadcasters.length, _ ∧ ∃ w ∈ (_ : Option _), _))
    inferInstanceAs (Decidable (_ → _))
  | .addSubscriber _ => inferInstanceAs (Decidable (∀ w ∈ (_ : List _), _))
  | .reconnectServer _ | .replicate .. | .replicaFails _ | .reconnectSubscriber _
  | .broadcasterFails _ => .isTrue trivial

/-- Short sends of a replicator and of a broadcaster, and a response behind another. -/
theorem framed_of_takenWhole_shortReplica : ∃ s, (shortSends 0 0).ReachVia (TakenWhole 0 0) s ∧
    (s.sends (.replica 0)).map Write.taken = [[0, 1, 7], [0]] ∧
    (s.sends (.client 5)).length = 2 ∧ s.Framed ∧
    ∀ e t, ¬ s.TakenWhole 0 0 e → s.step 0 0 e = some t →
      ∃ e' u, t.step 0 0 e' = some u ∧ t.SentBehind u ∧ ¬ u.Framed := by
  obtain ⟨s, hs, hp⟩ := @Lts.exists_reachVia_of_run _ _ (shortSends 0 0) (TakenWhole 0 0)
    (fun s e => decide (s.TakenWhole 0 0 e)) (fun _ _ => of_decide_eq_true)
    [.replicate 0 [0, 1, 7] 3, .respond 5 true 30, .addSubscriber ⟨"127.0.0.1", 60000⟩,
      .broadcast 0 [0, 1, 7] 2, .replicate 0 [0, 1, 8] 1, .respond 5 false 30]
    (fun s => decide ((s.sends (.replica 0)).map Write.taken = [[0, 1, 7], [0]] ∧
      (s.sends (.client 5)).length = 2)) (by decide +kernel)
  obtain ⟨hreplica, hclient⟩ := of_decide_eq_true hp
  exact ⟨s, hs, hreplica, hclient, framed_of_takenWhole hs⟩

/-- A response behind one of which only the first byte was taken. -/
theorem not_framed : ¬ ∀ (shard proxyId : UInt32) (s : ShortSends),
    (shortSends shard proxyId).Reach s → s.Framed := by
  intro h
  obtain ⟨s, hs, hp⟩ := @Lts.exists_reach_of_run _ _ (shortSends 0 0)
    [.respond 5 true 1, .respond 5 true 30]
    (fun s => decide ((s.sends (.client 5)).map Write.accepted = [1, 30] ∧
      ¬ ∀ w ∈ (s.sends (.client 5)).dropLast, w.Whole)) (by decide +kernel)
  obtain ⟨-, hnot⟩ := of_decide_eq_true hp
  exact hnot ((h 0 0 s hs).intact (.client 5))

end ShortSends

end Ziplog
