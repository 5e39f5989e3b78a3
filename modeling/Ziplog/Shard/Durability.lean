import Ziplog.Shard.Flow

/-!
# What SUCCESS says about the stores

A counted frame has been answered by the server's handler. So it is in the store, or the handler is
still between its reply and the store: the handler replies first (`Settled`).

A batch answered with SUCCESS is in the stores of a quorum unless one of the counted servers was
between its reply and its store at that moment. The server may have crashed there, and then it never
stores the frame.
-/

namespace Ziplog

/-- The frame is stored, or the handler has replied to it and not stored it yet. -/
def Settled (sv : ServerState) (l : Link) (f : Frame) : Prop :=
  sv.Holds f ∨ l.handler = .acked f ∨ l.handler = .checked f

namespace ShardState

variable {c : ShardConfig} {s t : ShardState c}

/-! ## Settled frames stay settled -/

/-- The frame is settled at the server's end of the connection. -/
def SettledAt (s : ShardState c) (k : Fin c.proxies × Fin c.servers) (f : Frame) : Prop :=
  Settled (s.server k.2) (s.link k) f

/-- Freezing is not part of the system, so no server blocks a proxy. -/
def Unblocked (s : ShardState c) : Prop := ∀ j q, (s.server j).liveness.isBlocked q = false

theorem isBlocked_storeFrame (sv : ServerState) (frame : Frame) (q : ℕ) :
    (sv.storeFrame frame).liveness.isBlocked q = sv.liveness.isBlocked q := by
  unfold ServerState.storeFrame
  split
  · rename_i t ht
    exact ProxyLivenessTracker.isBlocked_removeTimeout ht q
  · rfl

theorem unblocked_step {e : ShardEvent c} (h : Unblocked s) (hs : s.step e = some t) :
    Unblocked t := by
  have hset : ∀ (j : Fin c.servers) (sv : ServerState),
      (∀ q, sv.liveness.isBlocked q = false) → Unblocked (s.setServer j sv) := fun j sv hsv =>
    (Function.forall_update_iff s.server fun _ sv' =>
      ∀ q, sv'.liveness.isBlocked q = false).mpr ⟨hsv, fun i _ => h i⟩
  cases effect_of_step hs with
  | @store p j frame l up hl =>
    refine hset j _ fun q => ?_
    rw [isBlocked_storeFrame, h j]
  | @zipResponse j proxyId orderingValues up => exact hset j _ (h j)
  | @crash j => exact hset j _ (h j)
  | deliver running hd =>
    unfold Unblocked
    rw [server_observe]
    exact h
  | _ => exact h

/-- **One step.** A settled frame stays settled. -/
theorem settledAt_step {e : ShardEvent c} (hopen : Unblocked s) (hs : s.step e = some t)
    {k : Fin c.proxies × Fin c.servers} {f : Frame} (h : s.SettledAt k f) : t.SettledAt k f := by
  rcases h with hheld | hacked
  · exact Or.inl (holds_step hs hheld)
  -- the handler of `k` is between its reply and the store
  have hset : ∀ (p : Fin c.proxies) (j : Fin c.servers) (l : Link),
      t.link = Function.update s.link (p, j) l →
      ((s.link (p, j)).handler = .acked f ∨ (s.link (p, j)).handler = .checked f →
        Settled (t.server j) l f) → t.SettledAt k f := by
    intro p j l htl hl
    unfold SettledAt
    rw [htl]
    by_cases hk : k = (p, j)
    · subst hk
      rw [Function.update_self]
      exact hl hacked
    · rw [Function.update_of_ne hk]
      exact Or.inr hacked
  cases effect_of_step hs with
  | @replicate p seq payload clients idle =>
    right
    have hhandler : ∀ item, (if k.1 = p then (s.link k).push item else s.link k).handler =
        (s.link k).handler := by
      intro item
      split_ifs <;> rfl
    rwa [← hhandler ⟨⟨p, seq, payload⟩, (s.proxy p).batches.length⟩] at hacked
  | @connect p j l up hl =>
    obtain ⟨hw, rfl⟩ := Link.connect_eq_some hl
    apply hset p j _ rfl
    exact fun hacked => Or.inr hacked
  | @send p j l hl =>
    obtain ⟨item, queue, hw, hq, rfl⟩ := Link.send_eq_some hl
    apply hset p j _ rfl
    exact fun hacked => Or.inr hacked
  | @fail p j l hl =>
    obtain ⟨queue, hq, rfl⟩ := Link.fail_eq_some hl
    apply hset p j _ rfl
    exact fun hacked => Or.inr hacked
  | @count p j item l hl =>
    obtain ⟨reply, acks, hw, ha, rfl⟩ := Link.count_eq_some hl
    apply hset p j _ rfl
    exact fun hacked => Or.inr hacked
  | @ack p j l up hl =>
    obtain ⟨frame, wire, hready, hwire, rfl⟩ := Link.ack_eq_some hl
    refine hset p j _ rfl fun hacked => ?_
    rw [hready] at hacked
    rcases hacked with hacked | hacked <;> cases hacked
  | @check p j l up hl =>
    obtain ⟨frame, hframe, rfl⟩ := Link.check_eq_some hl
    refine hset p j _ rfl fun hacked => ?_
    rw [hframe] at hacked
    simp only [hopen _ _, Bool.false_eq_true, if_false]
    rcases hacked with hacked | hacked <;> cases hacked
    exact Or.inr (Or.inr rfl)
  | @store p j frame l up hl =>
    obtain ⟨hframe, rfl⟩ := Link.store_eq_some hl
    refine hset p j _ rfl fun hacked => ?_
    rw [hframe] at hacked
    rcases hacked with hacked | hacked <;> cases hacked
    left
    rw [server_setServer_self]
    exact ServerState.holds_storeFrame.mpr (Or.inr rfl)
  | @broadcast p j frame l up hl =>
    obtain ⟨hframe, rfl⟩ := Link.broadcast_eq_some hl
    refine hset p j _ rfl fun hacked => ?_
    rw [hframe] at hacked
    rcases hacked with hacked | hacked <;> cases hacked
  | deliver running hd =>
    right
    unfold ShardState.observe
    split <;> exact hacked
  | _ => exact Or.inr hacked

/-- A frame that is answered is settled. -/
theorem settledAt_ack {p : Fin c.proxies} {j : Fin c.servers} (hs : s.step (.ack p j) = some t)
    {frame : Frame} (hframe : (s.link (p, j)).wire.head? = some frame) :
    t.SettledAt (p, j) frame := by
  cases effect_of_step hs with
  | ack up hl =>
    obtain ⟨frame', wire, -, hwire, rfl⟩ := Link.ack_eq_some hl
    rw [hwire] at hframe
    cases hframe
    refine Or.inr (Or.inl ?_)
    simp only [setLink, Function.update_self]

/-- What is counted is settled. -/
structure SettledFlow (s : ShardState c) : Prop where
  unblocked : Unblocked s
  flow : Flow s.SettledAt s

/-- **Every run.** -/
theorem settledFlow_of_reach (h : (replication c).Reach s) : SettledFlow s := by
  refine h.invariant SettledFlow ⟨fun _ _ => rfl, flow_init⟩ ?_
  intro s e t _ hflow _ hs
  refine ⟨unblocked_step hflow.unblocked hs, flow_step hflow.flow ?_ ?_ hs⟩
  · exact fun k f => settledAt_step hflow.unblocked hs
  · rintro p j frame rfl hframe
    exact settledAt_ack hs hframe

/-! ## SUCCESS -/

/-- The step does not answer SUCCESS while the handler of a counted server is between its reply to
the frame and the store. -/
def answersSettled (s : ShardState c) : ShardEvent c → Bool
  | .respond p =>
    match (s.proxy p).call, (s.proxy p).batches.getLast? with
    | .returned true, some b =>
      b.clients = ∅ || b.acks.all fun j =>
        decide ((s.link (p, j)).handler ≠ .acked b.frame ∧
          (s.link (p, j)).handler ≠ .checked b.frame)
    | _, _ => true
  | _ => true

/-- The frame of every batch answered with SUCCESS is in the stores of `f + 1` servers. -/
def Durable (s : ShardState c) : Prop :=
  ∀ p, ∀ r ∈ (s.proxy p).responses, r.ok = true →
    ∃ b, (s.proxy p).batches[r.batch]? = some b ∧
      ∃ S : Finset (Fin c.servers), c.f + 1 ≤ S.card ∧ ∀ j ∈ S, (s.server j).Holds b.frame

/-- The responses of a step: those before, and one more when a call is answered. -/
theorem mem_responses_step {e : ShardEvent c} (hs : s.step e = some t) {p : Fin c.proxies}
    {r : Response} (hr : r ∈ (t.proxy p).responses) :
    r ∈ (s.proxy p).responses ∨
      ∃ b, e = .respond p ∧ (s.proxy p).call = .returned r.ok ∧
        (s.proxy p).batches.getLast? = some b ∧ b.clients ≠ ∅ ∧
        r.batch = (s.proxy p).batches.length - 1 := by
  have hset : ∀ (q : Fin c.proxies) (ps : ReplicatorState c.servers),
      ps.responses = (s.proxy q).responses →
      r ∈ (Function.update s.proxy q ps p).responses → r ∈ (s.proxy p).responses := by
    intro q ps hps hr
    by_cases hp : p = q
    · subst hp
      rwa [Function.update_self, hps] at hr
    · rwa [Function.update_of_ne hp] at hr
  cases effect_of_step hs with
  | @replicate q seq payload clients idle =>
    refine Or.inl (hset q _ ?_ hr)
    rfl
  | @pollAcks q ps hp =>
    unfold ReplicatorState.pollAcks at hp
    split at hp <;> cases hp
    refine Or.inl (hset q _ ?_ hr)
    rfl
  | @pollLive q ps hp =>
    unfold ReplicatorState.pollLive at hp
    split at hp <;> cases hp
    refine Or.inl (hset q _ ?_ hr)
    rfl
  | @respond q ps hp =>
    unfold ReplicatorState.respond at hp
    split at hp <;> cases hp
    rename_i ok b hcall hlast
    by_cases hnone : b.clients = ∅
    · rw [if_pos hnone] at hr
      refine Or.inl (hset q _ ?_ hr)
      rfl
    · rw [if_neg hnone] at hr
      by_cases hpq : p = q
      · subst hpq
        simp only [setProxy, Function.update_self, List.mem_append, List.mem_singleton] at hr
        rcases hr with hr | rfl
        · exact Or.inl hr
        · exact Or.inr ⟨b, rfl, hcall, hlast, hnone, rfl⟩
      · simp only [setProxy, Function.update_of_ne hpq] at hr
        exact Or.inl hr
  | @count q j item l hl =>
    refine Or.inl (hset q _ ?_ hr)
    rfl
  | deliver running hd =>
    left
    unfold ShardState.observe at hr
    split at hr <;> exact hr
  | _ => exact Or.inl hr

/-- **One step** that answers SUCCESS only for settled batches. -/
theorem durable_step {e : ShardEvent c} (hflow : Flow s.SettledAt s) (h : Durable s)
    (hguard : answersSettled s e = true) (hs : s.step e = some t) : Durable t := by
  intro p r hr hok
  have hkeep : ∀ b, (s.proxy p).batches[r.batch]? = some b →
      (∃ S : Finset (Fin c.servers), c.f + 1 ≤ S.card ∧ ∀ j ∈ S, (s.server j).Holds b.frame) →
      ∃ b', (t.proxy p).batches[r.batch]? = some b' ∧
        ∃ S : Finset (Fin c.servers), c.f + 1 ≤ S.card ∧
          ∀ j ∈ S, (t.server j).Holds b'.frame := by
    rintro b hb ⟨S, hcard, hS⟩
    obtain ⟨b', hb', hframe⟩ := frame_step hs hb
    exact ⟨b', hb', S, hcard, fun j hj => by rw [hframe]; exact holds_step hs (hS j hj)⟩
  rcases mem_responses_step hs hr with hr | ⟨b, rfl, hcall, hlast, hclients, hbatch⟩
  · obtain ⟨b, hb, hstored⟩ := h p r hr hok
    exact hkeep b hb hstored
  · -- the counted servers are past the store
    rw [hok] at hcall
    obtain ⟨b', hb', hquorum⟩ := hflow.called p hcall
    rw [hlast] at hb'
    cases hb'
    have hmem : b ∈ (s.proxy p).batches := List.mem_of_getLast? hlast
    simp only [answersSettled, hcall, hlast, Bool.or_eq_true, decide_eq_true_eq, hclients,
      false_or, List.all_eq_true] at hguard
    refine hkeep b (by rw [hbatch, ← List.getLast?_eq_getElem?, hlast]) ⟨b.acks.toFinset, ?_, ?_⟩
    · rw [List.toFinset_card_of_nodup (hflow.nodup p b hmem)]
      exact hquorum
    · intro j hj
      rw [List.mem_toFinset] at hj
      obtain ⟨hacked, hchecked⟩ := hguard j hj
      rcases (hflow.link (p, j)).counted b hmem hj with hstored | hacked' | hchecked'
      · exact hstored
      · exact absurd hacked' hacked
      · exact absurd hchecked' hchecked

/-- **SUCCESS implies quorum storage, where no counted server is caught between reply and store.**
In every run that answers SUCCESS only when the handlers of the counted servers are not between
their reply to the frame and its store, every batch answered with SUCCESS is in the stores of at
least `f + 1` servers, from then on and whichever servers crash. -/
theorem success_durable (c : ShardConfig) (s : ShardState c)
    (h : (replication c).ReachVia (fun s e => answersSettled s e = true) s) : Durable s := by
  refine h.invariant Durable (fun p r hr => (by cases hr)) ?_
  intro s e t hs hdurable hguard hstep
  exact durable_step (settledFlow_of_reach hs.reach).flow hdurable hguard hstep

/-- One server, which stores the batch before the proxy answers. -/
theorem success_durable_stored : ∃ s : ShardState ⟨0, 1, 1, 0, by decide⟩,
    ((s.proxy 0).responses.map Response.ok = [true]) ∧ Durable s := by
  obtain ⟨s, hs, hp⟩ := @Lts.exists_reachVia_of_run _ _ (replication ⟨0, 1, 1, 0, by decide⟩)
    (fun s e => answersSettled s e = true) answersSettled (fun _ _ h => h)
    [.replicate 0 1 (.append [0, 0, 0, 1, 65]) {7}, .connect 0 0, .send 0 0, .ack 0 0, .count 0 0,
      .check 0 0, .store 0 0, .pollAcks 0, .respond 0, .crash 0]
    (fun s => decide ((s.proxy 0).responses.map Response.ok = [true])) (by decide)
  exact ⟨s, of_decide_eq_true hp, success_durable _ s hs⟩

/-- The server replies and crashes before it stores the frame; the proxy counts the reply and
answers SUCCESS, and no server holds the batch. -/
theorem not_durable : ¬ ∀ (c : ShardConfig) (s : ShardState c), (replication c).Reach s →
    Durable s := by
  intro hall
  obtain ⟨s, hs, hp⟩ := @Lts.exists_reach_of_run _ _ (replication ⟨0, 1, 1, 0, by decide⟩)
    [.replicate 0 1 (.append [0, 0, 0, 1, 65]) {7}, .connect 0 0, .send 0 0, .ack 0 0, .crash 0,
      .count 0 0, .pollAcks 0, .respond 0]
    (fun s => decide ((∃ r ∈ (s.proxy 0).responses, r.ok = true) ∧
      ∀ b ∈ (s.proxy 0).batches, ¬ (s.server 0).Holds b.frame)) (by decide)
  obtain ⟨⟨r, hr, hok⟩, hlost⟩ := of_decide_eq_true hp
  obtain ⟨b, hb, S, hcard, hS⟩ := hall _ s hs 0 r hr hok
  obtain ⟨j, hj⟩ := Finset.card_pos.mp (show 0 < S.card from hcard)
  rw [Subsingleton.elim j (0 : Fin 1)] at hj
  exact hlost b (List.mem_of_getElem? hb) (hS 0 hj)

end ShardState

end Ziplog
