import Ziplog.Shard.Durability
import Ziplog.Shard.ServiceLogs

/-!
# What an answer means to a client

A client is told SUCCESS or FAILURE by the timer thread of its proxy, long after the workers have
counted the replies of the servers and with other clients coming and going on the same numbers. A
SUCCESS that a connection has received is that of a batch with a command of this connection, whose
bytes `f + 1` servers have stored, or were about to store when they replied. A FAILURE says that no
worker of the proxy is left, and none will come back (`answers_backed`).
-/

namespace Ziplog

open Cells ClientBufferManager CommandBatch

/-! ## What later states keep -/

namespace ShardState

variable {c : ShardConfig} {s t : ShardState c}

/-- Acks are only added. -/
theorem acks_step {e : ShardEvent c} (hs : s.step e = some t) {p : Fin c.proxies} {i : ℕ}
    {b : Batch c.servers} (hb : (s.proxy p).batches[i]? = some b) :
    ∃ b', (t.proxy p).batches[i]? = some b' ∧ b.acks.length ≤ b'.acks.length := by
  have hset : ∀ (q : Fin c.proxies) (ps : ReplicatorState c.servers),
      (∀ b, (s.proxy q).batches[i]? = some b →
        ∃ b', ps.batches[i]? = some b' ∧ b.acks.length ≤ b'.acks.length) →
      ∃ b', (Function.update s.proxy q ps p).batches[i]? = some b' ∧
        b.acks.length ≤ b'.acks.length := by
    intro q ps hps
    by_cases hp : p = q
    · subst hp
      rw [Function.update_self]
      exact hps b hb
    · rw [Function.update_of_ne hp]
      exact ⟨b, hb, le_rfl⟩
  cases effect_of_step hs with
  | @replicate q seq payload clients idle =>
    refine hset q _ fun b hb => ⟨b, ?_, le_rfl⟩
    have hlt := (List.getElem?_eq_some_iff.mp hb).1
    exact (List.getElem?_append_left hlt).trans hb
  | @pollAcks q ps hp =>
    unfold ReplicatorState.pollAcks at hp
    split at hp <;> cases hp
    exact hset q _ fun b hb => ⟨b, hb, le_rfl⟩
  | @pollLive q ps hp =>
    unfold ReplicatorState.pollLive at hp
    split at hp <;> cases hp
    exact hset q _ fun b hb => ⟨b, hb, le_rfl⟩
  | @respond q ps hp =>
    unfold ReplicatorState.respond at hp
    split at hp <;> cases hp
    exact hset q _ fun b hb => ⟨b, hb, le_rfl⟩
  | @count q j item l hl =>
    refine hset q _ fun b hb => ?_
    show ∃ b', (addAck (s.proxy q).batches item.state j)[i]? = some b' ∧ _
    rw [addAck, List.getElem?_modify, hb]
    refine ⟨_, rfl, ?_⟩
    split_ifs
    · exact (List.sublist_append_left _ _).length_le
    · exact le_rfl
  | deliver running hd =>
    unfold ShardState.observe
    split <;> exact ⟨b, hb, le_rfl⟩
  | _ => exact ⟨b, hb, le_rfl⟩

/-- A worker that has terminated does not come back. -/
theorem terminated_step {e : ShardEvent c} (hs : s.step e = some t)
    {k : Fin c.proxies × Fin c.servers} (h : (s.link k).worker = .terminated) :
    (t.link k).worker = .terminated := by
  have hset : ∀ (p : Fin c.proxies) (j : Fin c.servers) (l : Link),
      ((s.link (p, j)).worker = .terminated → l.worker = .terminated) →
        (Function.update s.link (p, j) l k).worker = .terminated := by
    intro p j l hl
    by_cases hk : k = (p, j)
    · subst hk
      rw [Function.update_self]
      exact hl h
    · rwa [Function.update_of_ne hk]
  cases effect_of_step hs with
  | replicate idle =>
    show (if k.1 = _ then (s.link k).push _ else s.link k).worker = .terminated
    split_ifs <;> exact h
  | connect up hl =>
    obtain ⟨hw, rfl⟩ := Link.connect_eq_some hl
    exact hset _ _ _ fun hterm => nomatch hw.symm.trans hterm
  | send hl =>
    obtain ⟨item, queue, hw, -, rfl⟩ := Link.send_eq_some hl
    exact hset _ _ _ fun hterm => nomatch hw.symm.trans hterm
  | fail hl =>
    obtain ⟨queue, -, rfl⟩ := Link.fail_eq_some hl
    exact hset _ _ _ fun _ => rfl
  | count hl =>
    obtain ⟨reply, acks, hw, -, rfl⟩ := Link.count_eq_some hl
    exact hset _ _ _ fun hterm => nomatch hw.symm.trans hterm
  | ack up hl =>
    obtain ⟨frame, wire, -, -, rfl⟩ := Link.ack_eq_some hl
    exact hset _ _ _ id
  | check up hl =>
    obtain ⟨frame, -, rfl⟩ := Link.check_eq_some hl
    exact hset _ _ _ id
  | store up hl =>
    obtain ⟨-, rfl⟩ := Link.store_eq_some hl
    exact hset _ _ _ id
  | broadcast up hl =>
    obtain ⟨-, rfl⟩ := Link.broadcast_eq_some hl
    exact hset _ _ _ id
  | deliver running hd =>
    unfold ShardState.observe
    split <;> exact h
  | _ => exact h

/-- A call fails when no worker is left. -/
def FailsDead (s : ShardState c) : Prop :=
  ∀ p, (s.proxy p).call = .returned false → ∀ j, (s.link (p, j)).worker = .terminated

/-- **One step.** -/
theorem failsDead_step {e : ShardEvent c} (h : FailsDead s) (hs : s.step e = some t) :
    FailsDead t := by
  have hset : ∀ (q : Fin c.proxies) (ps : ReplicatorState c.servers),
      t.proxy = Function.update s.proxy q ps →
      (ps.call = .returned false → ∀ j, (s.link (q, j)).worker = .terminated) →
        FailsDead t := by
    intro q ps htp hps p hcall j
    apply terminated_step hs
    rw [htp] at hcall
    by_cases hp : p = q
    · subst hp
      rw [Function.update_self] at hcall
      exact hps hcall j
    · rw [Function.update_of_ne hp] at hcall
      exact h p hcall j
  have hkeep : t.proxy = s.proxy → FailsDead t := by
    intro htp p hcall j
    rw [htp] at hcall
    exact terminated_step hs (h p hcall j)
  cases effect_of_step hs with
  | replicate idle => exact hset _ _ rfl (by rintro ⟨⟩)
  | pollAcks hp =>
    unfold ReplicatorState.pollAcks at hp
    split at hp <;> cases hp
    refine hset _ _ rfl fun hcall => ?_
    simp only at hcall
    split_ifs at hcall
    cases hcall
  | @pollLive q ps hp =>
    unfold ReplicatorState.pollLive at hp
    split at hp <;> cases hp
    refine hset _ _ rfl fun hcall j => ?_
    simp only at hcall
    split_ifs at hcall with hlive
    by_contra hw
    have hmem : j ∈ Finset.univ.filter fun j => (s.link (q, j)).worker ≠ .terminated :=
      Finset.mem_filter.mpr ⟨Finset.mem_univ j, hw⟩
    rw [Finset.card_eq_zero.mp hlive] at hmem
    cases hmem
  | respond hp =>
    unfold ReplicatorState.respond at hp
    split at hp <;> cases hp
    exact hset _ _ rfl (by rintro ⟨⟩)
  | count hl => exact hset _ _ rfl (h _)
  | deliver running hd =>
    apply hkeep
    unfold ShardState.observe
    split <;> rfl
  | _ => exact hkeep rfl

theorem failsDead_of_reach (h : (replication c).Reach s) : FailsDead s :=
  h.invariant FailsDead (by rintro p ⟨⟩) fun _ _ _ _ hf _ hs => failsDead_step hf hs

end ShardState

namespace ByteShard

variable {c : ShardConfig} {shardId : UInt32} {s s' : ByteShard c} {t : ShardState c}

/-- What is counted and what is terminated stays so. -/
structure Later (s s' : ByteShard c) : Prop where
  acks : ∀ (p : Fin c.proxies) (i : ℕ) (b : Batch c.servers), (s.proxy p).batches[i]? = some b →
    ∃ b', (s'.proxy p).batches[i]? = some b' ∧ b.acks.length ≤ b'.acks.length
  terminated : ∀ k, (s.link k).worker = .terminated → (s'.link k).worker = .terminated

theorem Later.refl (s : ByteShard c) : Later s s := ⟨fun _ _ b hb => ⟨b, hb, le_rfl⟩, fun _ => id⟩

theorem Represents.terminated_iff (h : s.Represents shardId t) (k : Fin c.proxies × Fin c.servers) :
    (s.link k).worker = .terminated ↔ (t.link k).worker = .terminated := by
  rw [(h.link k).worker]
  cases (t.link k).worker <;> simp [WorkerPhase.bytes]

/-- **One step.** -/
theorem Represents.later (h : s.Represents shardId t) (hproxies : c.proxies ≤ 2 ^ 32)
    (hservers : c.servers ≤ 2 ^ 32) {e : ByteEvent c} (hs : s.step shardId e = some s')
    (hfits : s.Fits e) : Later s s' := by
  rcases h.step hproxies hservers hfits hs with ⟨-, hrep⟩ | ⟨d, t', -, ht', hrep⟩
  · refine ⟨fun p i b hb => ?_, fun k hk => ?_⟩
    · rw [h.proxy, ← hrep.proxy] at hb
      exact ⟨b, hb, le_rfl⟩
    · exact (hrep.terminated_iff k).mpr ((h.terminated_iff k).mp hk)
  · refine ⟨fun p i b hb => ?_, fun k hk => ?_⟩
    · rw [h.proxy] at hb
      rw [hrep.proxy]
      exact ShardState.acks_step ht' hb
    · apply (hrep.terminated_iff k).mpr
      exact ShardState.terminated_step ht' ((h.terminated_iff k).mp hk)

end ByteShard

/-- The handler is between its reply to these bytes and their store. -/
def ByteLink.Holding (l : ByteLink) (wire : List UInt8) : Prop :=
  ∃ msgLen header, (l.handler = .acked msgLen header ∨ l.handler = .checked msgLen header) ∧
    slice l.server.rb.buf l.server.rb.head (msgLen + 2) = wire

/-- The bytes that the handler holds are those of its frame. -/
theorem ByteLink.Represents.holding {shardId serverId : UInt32} {b : ByteLink} {l : Link}
    (h : b.Represents shardId serverId l) {f : Frame}
    (hf : l.handler = .acked f ∨ l.handler = .checked f) :
    b.Holding (withPrefix (f.body shardId)) := by
  have hhand : l.handler.inHand = [f] := by
    rcases hf with hf | hf <;> rw [hf] <;> rfl
  obtain ⟨-, hserver, hav⟩ := h.inHand hhand
  have hopen : b.handler = l.handler.bytes shardId := by
    rcases h.handler with hopen | ⟨-, hready⟩
    · exact hopen
    · rw [hready] at hf
      rcases hf with hf | hf <;> cases hf
  refine ⟨(f.body shardId).length, f.header shardId, ?_, hserver.slice_front hav⟩
  rw [hopen]
  exact hf.imp (fun hf => by rw [hf]; rfl) fun hf => by rw [hf]; rfl

/-- A payload with commands in it is not a SKIP. -/
theorem Payload.eq_append_of_data {payload : Payload} {commands : List Command}
    (h : payload.data = encode commands) (hne : commands ≠ []) :
    payload = .append (encode commands) := by
  cases payload with
  | append batch => rw [← h]; rfl
  | skip =>
    cases commands with
    | nil => exact absurd rfl hne
    | cons cmd commands =>
      have hlength := congrArg List.length h
      rw [encode_cons, List.length_append, length_encodeCommand] at hlength
      have hnone : Payload.skip.data.length = 0 := rfl
      omega

namespace Service

variable {c : ShardConfig} {shardId : UInt32} {epochDuration : ℕ} {registered : Bool}
  {rb : ReadBuffer} {s t : Service c}

/-- What the results that a proxy has say about the shard. -/
structure Counted (s : Service c) (p : Fin c.proxies) : Prop where
  succeeded : ∀ n : ℕ, (s.proxy p).results[n]? = some true →
    ∃ b : Batch c.servers, (s.shard.proxy p).batches[n]? = some b ∧ c.quorum ≤ b.acks.length
  failed : ∀ n : ℕ, (s.proxy p).results[n]? = some false →
    ∀ j, (s.shard.link (p, j)).worker = .terminated

theorem counted_init (p : Fin c.proxies) : (init registered rb : Service c).Counted p :=
  ⟨(fun _ hn => nomatch hn), fun _ hn => nomatch hn⟩

/-- The results stay what they were. -/
theorem Counted.later {p : Fin c.proxies} (h : s.Counted p)
    (hresults : (t.proxy p).results = (s.proxy p).results) (hlater : s.shard.Later t.shard) :
    t.Counted p := by
  constructor
  · intro n hn
    rw [hresults] at hn
    obtain ⟨b, hb, hquorum⟩ := h.succeeded n hn
    obtain ⟨b', hb', hle⟩ := hlater.acks p n b hb
    exact ⟨b', hb', hquorum.trans hle⟩
  · intro n hn j
    rw [hresults] at hn
    exact hlater.terminated _ (h.failed n hn j)

/-- The result of the next batch. -/
theorem Counted.result {p : Fin c.proxies} {ok : Bool} (h : s.Counted p)
    (hresults : (t.proxy p).results = (s.proxy p).results ++ [ok])
    (hlater : s.shard.Later t.shard)
    (hquorum : ok = true → ∃ b : Batch c.servers,
      (s.shard.proxy p).batches[(s.proxy p).results.length]? = some b ∧ c.quorum ≤ b.acks.length)
    (hdead : ok = false → ∀ j, (s.shard.link (p, j)).worker = .terminated) : t.Counted p := by
  have hnew : ∀ (n : ℕ) (b : Bool), (t.proxy p).results[n]? = some b →
      (s.proxy p).results[n]? = some b ∨ n = (s.proxy p).results.length ∧ b = ok := by
    intro n b hn
    rw [hresults, List.getElem?_append] at hn
    split_ifs at hn with hlt
    · exact Or.inl hn
    · rw [List.getElem?_singleton] at hn
      split_ifs at hn
      cases hn
      exact Or.inr ⟨by omega, rfl⟩
  constructor
  · intro n hn
    obtain ⟨b, hb, hle⟩ : ∃ b : Batch c.servers, (s.shard.proxy p).batches[n]? = some b ∧
        c.quorum ≤ b.acks.length := by
      rcases hnew n true hn with hold | ⟨rfl, hok⟩
      · exact h.succeeded n hold
      · exact hquorum hok.symm
    obtain ⟨b', hb', hle'⟩ := hlater.acks p n b hb
    exact ⟨b', hb', hle.trans hle'⟩
  · intro n hn j
    apply hlater.terminated
    rcases hnew n false hn with hold | ⟨-, hok⟩
    · exact h.failed n hold j
    · exact hdead hok.symm j

/-- While `replicate_bytes` runs, its batch is the last one of the proxy. -/
theorem Represents.length_batches {y : SystemState c} (h : s.Represents shardId y)
    (hy : (system c epochDuration).Reach y) {p : Fin c.proxies}
    (hp : (Ziplog.proxy registered).Reach (s.proxy p)) {r : DrainResult} {payload : Payload}
    (hphase : (s.timer p).phase = .replicating)
    (hreleased : (s.proxy p).source.phase = .released r payload) :
    (s.shard.proxy p).batches.length = (s.proxy p).results.length + 1 := by
  have hnone : (s.proxy p).responding = none := by
    by_contra hsome
    cases hreleased.symm.trans ((h.wired p).responding hsome).2
  have hsource : y.source p = { (s.proxy p).source with phase := .idle } :=
    (h.source p).trans (if_pos ⟨hphase, hnone⟩)
  have hhanded : (y.source p).handed = (s.proxy p).source.sent := by
    rw [hsource]
    rfl
  have hframes := congrArg List.length (SystemState.handed_of_reach hy p)
  rw [List.length_map, List.length_map, hhanded, Proxy.sent_eq hp, List.length_map,
    ((Proxy.stageInv hp).released r payload hreleased).1] at hframes
  rw [h.shard.proxy]
  exact (List.length_map _).symm.trans hframes

/-- `replicate_bytes` returns with a quorum of acks, or without workers. -/
theorem Represents.returned {y : SystemState c} (h : s.Represents shardId y)
    (hy : (system c epochDuration).Reach y) {p : Fin c.proxies} {ok : Bool}
    (hcall : (s.shard.proxy p).call = .returned ok) :
    (ok = true → ∃ b : Batch c.servers, (s.shard.proxy p).batches.getLast? = some b ∧
      c.quorum ≤ b.acks.length) ∧
    (ok = false → ∀ j, (s.shard.link (p, j)).worker = .terminated) := by
  have hshard := NumberedState.reach_shard (SystemState.reach_numbered hy)
  rw [h.shard.proxy] at hcall ⊢
  constructor
  · rintro rfl
    exact (ShardState.settledFlow_of_reach hshard).flow.called p hcall
  · rintro rfl j
    exact (h.shard.terminated_iff (p, j)).mpr (ShardState.failsDead_of_reach hshard p hcall j)

/-- **What a step keeps** of the results. -/
theorem counted_step (hproxies : c.proxies ≤ 2 ^ 32) (hservers : c.servers ≤ 2 ^ 32)
    {y : SystemState c} (h : s.Represents shardId y) (hy : (system c epochDuration).Reach y)
    (hp : ∀ p, (Ziplog.proxy registered).Reach (s.proxy p)) {e : ServiceEvent c}
    (hfits : s.Fits e) (hcounted : ∀ p, s.Counted p)
    (hs : s.step shardId epochDuration e = some t) (p : Fin c.proxies) : t.Counted p := by
  have hkeep : ∀ (q : Fin c.proxies) (x : Proxy), x.results = (s.proxy q).results →
      (Function.update s.proxy q x p).results = (s.proxy p).results := by
    intro q x hx
    by_cases hpq : p = q
    · subst hpq
      rw [Function.update_self, hx]
    · rw [Function.update_of_ne hpq]
  cases effect_of_step hs with
  | @proxy q e x henabled hfinish hx =>
    have hreplicate : ∀ ok, e ≠ .replicate ok := by
      rintro ok rfl
      cases henabled
    exact (hcounted p).later (hkeep q x (Proxy.results_step hreplicate hx)) (.refl _)
  | @finish q x hx =>
    exact (hcounted p).later (hkeep q x (Proxy.results_step (by rintro ok ⟨⟩) hx)) (.refl _)
  | timer hth => exact (hcounted p).later rfl (.refl _)
  | replicate hsending hreleased hsh =>
    simp only [Fits, FrameFits, hsending, hreleased] at hfits
    exact (hcounted p).later rfl (h.shard.later hproxies hservers hsh hfits.2)
  | @result q ok x sh hreplicating hcall hx hsh =>
    have hlater := h.shard.later hproxies hservers hsh trivial
    by_cases hpq : p = q
    · subst hpq
      cases Proxy.effect_of_step hx with
      | replicated hreleased =>
        obtain ⟨hquorum, hdead⟩ := h.returned hy hcall
        have hlength := h.length_batches hy (hp p) hreplicating hreleased
        refine @Counted.result _ _ _ _ ok (hcounted p) ?_ hlater (fun hok => ?_) hdead
        · simp only [setProxy, Function.update_self]
        obtain ⟨b, hb, hle⟩ := hquorum hok
        rw [List.getLast?_eq_getElem?, hlength, Nat.add_sub_cancel] at hb
        exact ⟨b, hb, hle⟩
    · exact (hcounted p).later
        (congrArg Proxy.results (Function.update_of_ne hpq _ _)) hlater
  | shard hfree hsh =>
    exact (hcounted p).later rfl (h.shard.later hproxies hservers hsh (fits_of_ofTimer hfree _))

/-- **Every run.** -/
theorem counted (hproxies : c.proxies ≤ 2 ^ 32) (hservers : c.servers ≤ 2 ^ 32) (hrb : rb.Fresh)
    (h : (service c shardId epochDuration registered rb).ReachVia Fits s) (p : Fin c.proxies) :
    s.Counted p := by
  have hall : ∀ p, s.Counted p := by
    refine h.invariant (fun s => ∀ p, s.Counted p) counted_init ?_
    intro s e t hr hcounted hfits hs
    obtain ⟨y, hy, hrep⟩ := exists_system hproxies hservers hrb hr
    exact counted_step hproxies hservers hrep hy (reach_clients hr) hfits hcounted hs
  exact hall p

/-! ## Answers -/

/-- The bytes of the batch that a proxy sends under the number `n + 1`. -/
def wireOf (shardId : UInt32) (p : Fin c.proxies) (n : ℕ) (batch : List (ℕ × Command)) :
    List UInt8 :=
  batchWire shardId (UInt32.ofNat p) (UInt64.ofNat (n + 1)) (.append (encode (batch.map Prod.snd)))

/-- The server has stored the bytes for the proxy, or its handler is about to. -/
def Backs (s : Service c) (p : Fin c.proxies) (wire : List UInt8) (j : Fin c.servers) : Prop :=
  wire ∈ (s.shard.server j).store.stored p ∨ (s.shard.link (p, j)).Holding wire

/-- A counted server backs the bytes of the batch. -/
theorem Represents.backs {y : SystemState c} (h : s.Represents shardId y)
    (hy : (system c epochDuration).Reach y) {p : Fin c.proxies}
    (hp : (Ziplog.proxy registered).Reach (s.proxy p)) {n : ℕ} {b : Batch c.servers}
    (hb : (s.shard.proxy p).batches[n]? = some b) {batch : List (ℕ × Command)}
    (hbatch : (s.proxy p).batches[n]? = some batch) (hne : batch ≠ []) {j : Fin c.servers}
    (hj : j ∈ b.acks) : s.Backs p (wireOf shardId p n batch) j := by
  have hshard := NumberedState.reach_shard (SystemState.reach_numbered hy)
  rw [h.shard.proxy] at hb
  have hframe : (y.numbered.frames p)[n]? = some b.frame := by
    rw [NumberedState.frames, List.getElem?_map, hb]
    rfl
  obtain ⟨hid, hseq, batch', hbatch', hdata⟩ := h.batch_of_frame hy hp hframe
  cases hbatch.symm.trans hbatch'
  have hpayload := Payload.eq_append_of_data hdata (by simpa using hne)
  have hwire : withPrefix (b.frame.body shardId) = wireOf shardId p n batch := by
    rw [Frame.withPrefix_body, hid, hseq, hpayload]
    rfl
  have hsettled := ((ShardState.settledFlow_of_reach hshard).flow.link (p, j)).counted b
    (List.mem_of_getElem? hb) hj
  rcases hsettled with hholds | hhand
  · left
    rw [(h.shard.server j).stored, ← hwire]
    rw [ServerState.Holds, hid] at hholds
    exact List.mem_map_of_mem hholds
  · right
    rw [← hwire]
    exact (h.shard.link (p, j)).holding hhand

/-- **What an answer means.** In every run in which the frames of the batches fit, what clients push
stays in memory, and no number is given out while something refers to it: a SUCCESS that a
connection has received is that of a batch with a command of this connection, which at least `f + 1`
servers back, whichever have crashed; and a FAILURE is that of such a batch too, and says that all
workers of the proxy have terminated. -/
theorem answers_backed (c : ShardConfig) (hproxies : c.proxies ≤ 2 ^ 32)
    (hservers : c.servers ≤ 2 ^ 32) (shardId : UInt32) (epochDuration : ℕ) (registered : Bool)
    {rb : ReadBuffer} (hrb : rb.Fresh) {x : Except MemFault (Service c)}
    (h : (serviceWithFaults c shardId epochDuration registered rb).ReachVia
      (Lts.BeforeFault fun s e => s.Fits e ∧ s.NumberFree e) x) :
    ∃ s, x = .ok s ∧ ∀ (p : Fin c.proxies) (i n : ℕ) (conn : ClientConnection) (success : Bool),
      (s.proxy p).connections[i]? = some conn → (n, success) ∈ conn.answers →
        ∃ batch cmd, (s.proxy p).batches[n]? = some batch ∧ (i, cmd) ∈ batch ∧
          if success then
            ∃ S : Finset (Fin c.servers), c.f + 1 ≤ S.card ∧
              ∀ j ∈ S, s.Backs p (wireOf shardId p n batch) j
          else ∀ j, (s.shard.link (p, j)).worker = .terminated := by
  obtain ⟨s, rfl, hs⟩ := exists_ok (fun _ _ hguard => hguard.1) h
  refine ⟨s, rfl, fun p i n conn success hconn hn => ?_⟩
  have hfits : (service c shardId epochDuration registered rb).ReachVia Fits s :=
    hs.mono fun _ _ hguard => hguard.1
  have hfree : ∀ p, (Ziplog.proxy registered).ReachVia Proxy.NumberFree (s.proxy p) :=
    reach_proxy (fun _ _ => trivial) (fun _ _ _ hguard => hguard.2) hs
  obtain ⟨y, hy, hrep⟩ := exists_system hproxies hservers hrb hfits
  obtain ⟨-, -, hledger⟩ := Proxy.ledger (hfree p)
  obtain ⟨hresult, batch, cmd, hbatch, hcmd⟩ := hledger.own i conn n success hconn hn
  have hcounted := counted hproxies hservers hrb hfits p
  refine ⟨batch, cmd, hbatch, hcmd, ?_⟩
  cases success with
  | true =>
    obtain ⟨b, hb, hquorum⟩ := hcounted.succeeded n hresult
    have hshard := NumberedState.reach_shard (SystemState.reach_numbered hy)
    have hnodup : b.acks.Nodup := by
      apply (ShardState.settledFlow_of_reach hshard).flow.nodup p b
      rw [← hrep.shard.proxy]
      exact List.mem_of_getElem? hb
    rw [if_pos rfl]
    refine ⟨b.acks.toFinset, ?_, fun j hj => ?_⟩
    · rw [List.toFinset_card_of_nodup hnodup]
      exact hquorum
    · exact hrep.backs hy (hfree p).reach hb hbatch (List.ne_nil_of_mem hcmd)
        (List.mem_toFinset.mp hj)
  | false =>
    rw [if_neg Bool.false_ne_true]
    exact hcounted.failed n hresult

/-- The server backs the command that was answered with SUCCESS. -/
theorem answers_backed_answered : ∃ (s : Service ⟨0, 1, 1, 1, by decide⟩)
    (batch : List (ℕ × Command)) (S : Finset (Fin 1)), (s.proxy 0).batches[0]? = some batch ∧
      0 + 1 ≤ S.card ∧
        ∀ j ∈ S, s.Backs 0 (@wireOf ⟨0, 1, 1, 1, by decide⟩ 5 0 0 batch) j := by
  obtain ⟨s, hreach, hconnections, -⟩ := exists_answered
  obtain ⟨t, ht, hanswers⟩ := answers_backed _ (by decide) (by decide) 5 10 true
    ReadBuffer.zeroed_fresh (reach_withFaults hreach)
  cases ht
  obtain ⟨batch, cmd, hbatch, -, S, hcard, hS⟩ := hanswers 0 0 0 _ true
    (by rw [hconnections]; rfl) (List.mem_singleton_self _)
  exact ⟨s, batch, S, hbatch, hcard, hS⟩

end Service

end Ziplog
