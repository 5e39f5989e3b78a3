import Ziplog.Shard.ByteShard
import Ziplog.Shard.Origin

/-!
# From the bytes of a batch to the stores and the logs

What `refines` carries over to the bytes about the data: whatever pieces they travelled in and
whatever was written over them on the way, the stores hold the bytes of batches and nothing else,
each under the proxy that sent it, and the logs hold the data of batches that a quorum of servers
has stored (`authentic`).
-/

namespace Ziplog

variable {c : ShardConfig}

namespace ShardState

variable {s t : ShardState c}

/-- Frames name the proxy they come from, and are stored under it. -/
structure Labelled (s : ShardState c) : Prop where
  sent : ∀ p f, s.Sent p f → f.senderId = p
  stored : ∀ j proxyId, ∀ f ∈ (s.server j).store.stored proxyId, f.senderId = proxyId

theorem labelled_init : Labelled (init : ShardState c) where
  sent := by
    rintro p f ⟨b, hb, -⟩
    cases hb
  stored := fun _ _ _ hf => nomatch hf

/-- Only `store` changes what a server has stored. -/
theorem stored_step {e : ShardEvent c} (hs : s.step e = some t) {j : Fin c.servers} {proxyId : ℕ}
    {f : Frame} (hf : f ∈ (t.server j).store.stored proxyId) :
    f ∈ (s.server j).store.stored proxyId ∨ f.senderId = proxyId := by
  have hset : ∀ (i : Fin c.servers) (sv : ServerState),
      (∀ g ∈ sv.store.stored proxyId,
        g ∈ (s.server i).store.stored proxyId ∨ g.senderId = proxyId) →
      f ∈ (Function.update s.server i sv j).store.stored proxyId →
        f ∈ (s.server j).store.stored proxyId ∨ f.senderId = proxyId := by
    intro i sv hsv hmem
    by_cases hj : j = i
    · subst hj
      rw [Function.update_self] at hmem
      exact hsv f hmem
    · rw [Function.update_of_ne hj] at hmem
      exact Or.inl hmem
  cases effect_of_step hs with
  | @store p i frame l up hl =>
    refine hset i _ (fun g hg => ?_) hf
    rw [ServerState.store_storeFrame, MessageStore.mem_stored_store] at hg
    rcases hg with hold | ⟨hid, rfl⟩
    · exact Or.inl hold
    · exact Or.inr hid.symm
  | @zipResponse i proxyId' values up =>
    exact hset i ((s.server i).updateTimeouts proxyId' values) (fun g hg => Or.inl hg) hf
  | @crash i => exact hset i (s.server i).crash (fun g hg => Or.inl hg) hf
  | deliver running hd =>
    rw [server_observe] at hf
    exact Or.inl hf
  | _ => exact Or.inl hf

theorem labelled_step {e : ShardEvent c} (h : Labelled s) (hs : s.step e = some t) :
    Labelled t where
  sent := by
    rintro p f ⟨b, hb, rfl⟩
    have hmem : b.frame ∈ (t.proxy p).batches.map Batch.frame := List.mem_map_of_mem hb
    rw [map_frame_step hs] at hmem
    rcases List.mem_append.mp hmem with hold | hnew
    · obtain ⟨b', hb', hframe⟩ := List.mem_map.mp hold
      exact h.sent p _ ⟨b', hb', hframe⟩
    · unfold newFrames at hnew
      split at hnew
      · split_ifs at hnew with hp
        · rw [List.mem_singleton.mp hnew, hp]
        · cases hnew
      · cases hnew
  stored := by
    intro j proxyId f hf
    rcases stored_step hs hf with hold | hid
    · exact h.stored j proxyId f hold
    · exact hid

/-- **Every run.** -/
theorem labelled_of_reach (h : (replication c).Reach s) : Labelled s :=
  h.invariant Labelled labelled_init fun _ _ _ _ hl _ hs => labelled_step hl hs

end ShardState

namespace ByteShard

variable {shardId : UInt32} {s : ByteShard c} {t : ShardState c}

/-- A batch of proxy `p` with this number. -/
def SentAs (s : ByteShard c) (p : Fin c.proxies) (seq : ℕ) (payload : Payload) : Prop :=
  ∃ b ∈ (s.proxy p).batches, b.frame = ⟨p, seq, payload⟩

/-- Server `j` has stored the frame of such a batch, byte for byte. -/
def StoredAt (s : ByteShard c) (shardId : UInt32) (j : Fin c.servers) (p : Fin c.proxies) (seq : ℕ)
    (payload : Payload) : Prop :=
  s.SentAs p seq payload ∧ batchWire shardId (UInt32.ofNat p) (UInt64.ofNat seq) payload ∈
    (s.server j).store.stored p

theorem Represents.sentAs (h : s.Represents shardId t) (hlabelled : t.Labelled)
    {p : Fin c.proxies} {f : Frame} (hf : t.Sent p f) : s.SentAs p f.seq f.payload := by
  have hid := hlabelled.sent p f hf
  obtain ⟨b, hb, rfl⟩ := hf
  rw [← h.proxy] at hb
  refine ⟨b, hb, ?_⟩
  rw [← hid]

/-- A frame that the server holds is stored as it came from its proxy. -/
theorem Represents.storedAt (h : s.Represents shardId t) (hreach : (replication c).Reach t)
    {j : Fin c.servers} {f : Frame} (hf : (t.server j).Holds f) :
    ∃ p : Fin c.proxies, f.senderId = p ∧ s.StoredAt shardId j p f.seq f.payload := by
  have hlabelled := ShardState.labelled_of_reach hreach
  obtain ⟨p, hp⟩ := (ShardState.origin_of_reach hreach).store j f hf
  have hsender := hlabelled.sent p f hp
  refine ⟨p, hsender, h.sentAs hlabelled hp, ?_⟩
  rw [(h.server j).stored, ← hsender, ← Frame.withPrefix_body]
  exact List.mem_map_of_mem hf

/-- **The data of a shard are those of its batches, byte for byte.** Each string in a store is the
frame of a batch of the proxy that it is stored under, with the number of the batch, as the proxy
has built it. The entry of a log under a number from 1 on is the data of a batch with this number
that a server has stored. At least `f + 1` servers have each stored a batch with this number, and
where there is only one, the entry is its data and all of them have stored it. -/
theorem authentic (c : ShardConfig) (hproxies : c.proxies ≤ 2 ^ 32) (hservers : c.servers ≤ 2 ^ 32)
    (shardId : UInt32) {rb : ReadBuffer} (hrb : rb.Fresh) {s : ByteShard c}
    (h : (byteShard c shardId rb).ReachVia ByteShard.Fits s) :
    (∀ j proxyId, ∀ wire ∈ (s.server j).store.stored proxyId,
      ∃ (p : Fin c.proxies) (seq : ℕ) (payload : Payload), (p : ℕ) = proxyId ∧
        s.SentAs p seq payload ∧
        wire = batchWire shardId (UInt32.ofNat p) (UInt64.ofNat seq) payload) ∧
    ∀ x i data, 1 ≤ i → (s.subscriber x).tracker.log[i]? = some data →
      (∃ j p payload, s.StoredAt shardId j p i payload ∧ payload.data = data) ∧
      ∃ S : Finset (Fin c.servers), c.f + 1 ≤ S.card ∧
        (∀ j ∈ S, ∃ p payload, s.StoredAt shardId j p i payload) ∧
        ∀ p payload, (∀ q payload', s.SentAs q i payload' → q = p ∧ payload' = payload) →
          payload.data = data ∧ ∀ j ∈ S, s.StoredAt shardId j p i payload := by
  obtain ⟨t, ht, hrep⟩ := refines c hproxies hservers shardId hrb h
  constructor
  · intro j proxyId wire hwire
    rw [(hrep.server j).stored] at hwire
    obtain ⟨f, hf, rfl⟩ := List.mem_map.mp hwire
    have hid := (ShardState.labelled_of_reach ht).stored j proxyId f hf
    have hholds : (t.server j).Holds f := by
      rw [ServerState.Holds, hid]
      exact hf
    obtain ⟨p, hsender, hsent, -⟩ := hrep.storedAt ht hholds
    refine ⟨p, f.seq, f.payload, hsender.symm.trans hid, hsent, ?_⟩
    rw [Frame.withPrefix_body, hsender]
  · intro x i data hi hlog
    rw [hrep.subscriber] at hlog
    obtain ⟨⟨sender, j, -, g, hg, rfl, rfl⟩, T, hcard, hT⟩ :=
      ((ShardState.visible_of_reach ht).tracker x).log i data hi hlog
    obtain ⟨p, -, hown⟩ := hrep.storedAt ht hg
    obtain ⟨S, hS, hstored⟩ := ShardState.exists_servers
      (P := fun j => ∃ p payload, s.StoredAt shardId j p g.seq payload) hcard fun n hn => by
        obtain ⟨d, j', hj', f, hf, hseq, -⟩ := hT n hn
        obtain ⟨p', -, hp'⟩ := hrep.storedAt ht hf
        exact ⟨j', hj', p', f.payload, hseq ▸ hp'⟩
    refine ⟨⟨j, p, g.payload, hown, rfl⟩, S, hS, hstored, fun q payload honly => ⟨?_, ?_⟩⟩
    · rw [(honly p g.payload hown.1).2]
    · intro j' hj'
      obtain ⟨q', payload', hstoredAt⟩ := hstored j' hj'
      obtain ⟨rfl, rfl⟩ := honly q' payload' hstoredAt.1
      exact hstoredAt

/-- The batch is the only one of its number, and the server has stored it. -/
theorem authentic_relayed : ∃ s : ByteShard ⟨0, 1, 1, 1, by decide⟩,
    (s.subscriber 0).tracker.log = [[], [0, 0, 0, 1, 65]] ∧
      ∃ j p payload, s.StoredAt 5 j p 1 payload ∧ payload.data = [0, 0, 0, 1, 65] := by
  obtain ⟨s, hreach, hlog⟩ := exists_relayed
  have hauthentic := authentic _ (by decide) (by decide) 5 ReadBuffer.zeroed_fresh hreach
  exact ⟨s, hlog, (hauthentic.2 0 1 _ le_rfl (by rw [hlog]; rfl)).1⟩

end ByteShard

end Ziplog
