import Mathlib.Data.Fintype.Card
import Ziplog.Shard.Recovery
import Ziplog.Shard.Visibility
import Ziplog.Zipper.Completions

/-!
# Acknowledged numbers and skips

A number for which `replicate_bytes` has returned true was answered by a quorum of servers, and a
skipped number is one that a call of `send_freeze_complete` has copied, above the last one on which
a quorum of servers agreed. With `2 f + 1` servers the two quorums share a server; with more they
may not, so there it is a condition (`QuorumsMeet`). If the servers counted in the agreement answer
no frame with a number that its call skips, neither before the call copies the numbers nor after it
(`Quiet`), no number is both acknowledged and skipped. What a proxy is allocated after it rejoins is
not in the copies of before.

The servers do not keep to this: they answer a frame before they store it, and after they have
answered a FREEZE (`not_neverSkipped`).
-/

namespace Ziplog

open ReconfigState

/-- Two quorums of `2 f + 1` servers share a server. -/
theorem exists_mem_quorums {n f : ℕ} (hn : n ≤ 2 * f + 1) {A B : Finset (Fin n)}
    (hA : f + 1 ≤ A.card) (hB : f + 1 ≤ B.card) : ∃ j ∈ A, j ∈ B := by
  have hlt : (Finset.univ : Finset (Fin n)).card < A.card + B.card := by
    rw [Finset.card_univ, Fintype.card_fin]
    omega
  obtain ⟨j, hj⟩ := Finset.inter_nonempty_of_card_lt_card_add_card (Finset.subset_univ A)
    (Finset.subset_univ B) hlt
  exact ⟨j, (Finset.mem_inter.mp hj).1, (Finset.mem_inter.mp hj).2⟩

/-- The numbers that a call skips. -/
def SkipCopy.Skips (copy : SkipCopy) (seq : ℕ) : Prop :=
  copy.call.lastSeq < seq ∧ seq ∈ copy.allocated

instance (copy : SkipCopy) (seq : ℕ) : Decidable (copy.Skips seq) :=
  inferInstanceAs (Decidable (_ ∧ _))

namespace RecoveryState

variable {c : ShardConfig} {s t : RecoveryState c}

/-- The servers counted in a call have answered no frame with a number that it skips. -/
def Bounded (acked : Fin c.proxies × Fin c.servers → List Frame) (copy : SkipCopy) : Prop :=
  ∀ p : Fin c.proxies, (p : ℕ) = copy.call.failedProxy → ∀ j : Fin c.servers,
    (j : ℕ) ∈ copy.call.responders → ∀ f ∈ acked (p, j), ¬ copy.Skips f.seq

/-- A server counted in a call has answered the frame of an acknowledged number. -/
def Meets (acked : Fin c.proxies × Fin c.servers → List Frame) (call : Completion)
    (r : Fin c.proxies × ℕ) : Prop :=
  ∃ j : Fin c.servers, (j : ℕ) ∈ call.responders ∧ ∃ f ∈ acked (r.1, j), f.seq = r.2

instance (acked : Fin c.proxies × Fin c.servers → List Frame) (copy : SkipCopy) :
    Decidable (Bounded acked copy) :=
  inferInstanceAs (Decidable (∀ _ : Fin c.proxies, _ → ∀ _ : Fin c.servers, _ → _))

instance (acked : Fin c.proxies × Fin c.servers → List Frame) (call : Completion)
    (r : Fin c.proxies × ℕ) : Decidable (Meets acked call r) :=
  inferInstanceAs (Decidable (∃ _ : Fin c.servers, _ ∧ _))

/-! ## The conditions on a step -/

/-- No server counted in a call of `send_freeze_complete` answers a frame of the proxy with a number
that the call skips. -/
def QuietAck (s : RecoveryState c) (p : Fin c.proxies) (j : Fin c.servers) : Prop :=
  ∀ copy ∈ s.copies, copy.call.failedProxy = p → (j : ℕ) ∈ copy.call.responders →
    ∀ f ∈ (s.shard.link (p, j)).wire.head?, ¬ copy.Skips f.seq

/-- When the call copies the numbers allocated, no server counted has answered a frame with one that
it skips. -/
def QuietCopy (s : RecoveryState c) (call : Completion) : Prop :=
  ∀ st ∈ s.zipper.registry.lookup call.failedProxy,
    Bounded s.acked ⟨call, st.allocatedSequences⟩

/-- For every acknowledged number of the proxy among those that the call copies, a server counted is
one that answered it. -/
def MeetsCopy (s : RecoveryState c) (call : Completion) : Prop :=
  ∀ st ∈ s.zipper.registry.lookup call.failedProxy, ∀ r ∈ s.returned,
    call.failedProxy = r.1 → r.2 ∈ st.allocatedSequences → Meets s.acked call r

/-- If `replicate_bytes` returns true, in every call that has copied the number a server counted is
one that answered the batch. -/
def MeetsReturn (s : RecoveryState c) (p : Fin c.proxies) : Prop :=
  ∀ b ∈ (s.shard.proxy p).batches.getLast?, c.quorum ≤ b.ackCount →
    ∀ copy ∈ s.copies, copy.call.failedProxy = p → b.frame.seq ∈ copy.allocated →
      Meets s.acked copy.call (p, b.frame.seq)

def Quiet (s : RecoveryState c) : RecoveryEvent c → Prop
  | .shard (.ack p j) => QuietAck s p j
  | .copy call => QuietCopy s call
  | _ => True

def QuorumsMeet (s : RecoveryState c) : RecoveryEvent c → Prop
  | .shard (.pollAcks p) => MeetsReturn s p
  | .copy call => MeetsCopy s call
  | _ => True

/-- The servers counted in an agreement are quiet, and the quorums meet: by their size, or as it
happens. -/
def Guarded (s : RecoveryState c) (e : RecoveryEvent c) : Prop :=
  Quiet s e ∧ (c.servers ≤ 2 * c.f + 1 ∨ QuorumsMeet s e)

instance (s : RecoveryState c) (p : Fin c.proxies) (j : Fin c.servers) :
    Decidable (QuietAck s p j) :=
  inferInstanceAs (Decidable (∀ copy ∈ s.copies, _ → _ → _))

instance (s : RecoveryState c) (call : Completion) : Decidable (QuietCopy s call) :=
  inferInstanceAs (Decidable (∀ st ∈ s.zipper.registry.lookup call.failedProxy, _))

instance (s : RecoveryState c) (call : Completion) : Decidable (MeetsCopy s call) :=
  inferInstanceAs (Decidable (∀ st ∈ s.zipper.registry.lookup call.failedProxy,
    ∀ r ∈ s.returned, _ → _ → _))

instance (s : RecoveryState c) (p : Fin c.proxies) : Decidable (MeetsReturn s p) :=
  inferInstanceAs (Decidable (∀ b ∈ (s.shard.proxy p).batches.getLast?, _ →
    ∀ copy ∈ s.copies, _ → _ → _))

instance (s : RecoveryState c) (e : RecoveryEvent c) : Decidable (Guarded s e) :=
  match e with
  | .shard (.ack p j) => inferInstanceAs (Decidable (QuietAck s p j ∧ (_ ∨ True)))
  | .shard (.pollAcks p) => inferInstanceAs (Decidable (True ∧ (_ ∨ MeetsReturn s p)))
  | .copy call => inferInstanceAs (Decidable (QuietCopy s call ∧ (_ ∨ MeetsCopy s call)))
  | .shard (.replicate ..) | .shard (.pollLive ..) | .shard (.respond ..) | .shard (.connect ..)
  | .shard (.send ..) | .shard (.fail ..) | .shard (.count ..) | .shard (.check ..)
  | .shard (.store ..) | .shard (.broadcast ..) | .shard (.zipResponse ..) | .shard (.crash ..)
  | .shard (.feedSend ..) | .shard (.feedFail ..) | .shard (.feedAck ..) | .shard (.deliver ..)
  | .zipper .. | .freeze .. | .transferRequest .. | .transfer .. | .respond .. | .deliver ..
  | .skip .. => .isTrue ⟨trivial, Or.inr trivial⟩

/-! ## The invariant -/

/-- What is skipped, or is to be, has been copied. -/
structure Copied (copies : List SkipCopy) (z : ReconfigState) : Prop where
  tasks : ∀ p lastSeq allocated, .sendSkips p lastSeq allocated ∈ z.tasks → ∃ copy ∈ copies,
    copy.call.failedProxy = p ∧ copy.call.lastSeq = lastSeq ∧ allocated ⊆ copy.allocated
  sent : ∀ p seq, .skip p seq ∈ z.sent → ∃ copy ∈ copies, copy.call.failedProxy = p ∧
    copy.Skips seq

/-- The batches a quorum has answered, and the calls with a quorum of quiet servers behind them. -/
structure Recovers (s : RecoveryState c) : Prop where
  flow : ShardState.Flow (fun k f => f ∈ s.acked k) s.shard
  returned : ∀ r ∈ s.returned, ∃ J : Finset (Fin c.servers), c.quorum ≤ J.card ∧
    ∀ j ∈ J, ∃ f ∈ s.acked (r.1, j), f.seq = r.2
  responders : ∀ p st, s.zipper.registry.lookup p = some st →
    ∀ n ∈ st.freezeResponders, n < c.servers
  completions : ∀ call ∈ s.zipper.completions, c.quorum ≤ call.responders.card ∧
    ∀ n ∈ call.responders, n < c.servers
  pending : ∀ call ∈ s.pendingCalls, call ∈ s.zipper.completions
  copies : ∀ copy ∈ s.copies, copy.call ∈ s.zipper.completions ∧ Bounded s.acked copy
  copied : Copied s.copies s.zipper

/-- Every acknowledged number meets every call for its proxy that has copied it. -/
def AllMeet (s : RecoveryState c) : Prop :=
  ∀ r ∈ s.returned, ∀ copy ∈ s.copies, copy.call.failedProxy = r.1 → r.2 ∈ copy.allocated →
    Meets s.acked copy.call r

theorem recovers_init (addresses : Fin c.proxies → Address) :
    Recovers (init addresses : RecoveryState c) where
  flow := ShardState.flow_init
  returned := by
    intro r hr
    cases hr
  responders := by
    intro p st hst n hn
    obtain ⟨address, rfl⟩ := ProxyRegistry.lookup_ofConfig hst
    exact absurd hn (Finset.notMem_empty n)
  completions := by
    intro call hcall
    cases hcall
  pending := by
    intro call hcall
    cases hcall
  copies := by
    intro copy hcopy
    cases hcopy
  copied := by
    constructor
    · intro p lastSeq allocated htask
      cases htask
    · intro p seq hsent
      cases hsent

/-! ## A step of the shard -/

/-- A frame answered by the step is one just read from the connection. -/
theorem mem_newAcked {sh : ShardState c} {k : Fin c.proxies × Fin c.servers} {e : ShardEvent c}
    {f : Frame} (hf : f ∈ sh.newAcked k e) :
    e = .ack k.1 k.2 ∧ f ∈ (sh.link k).wire.head? := by
  cases e with
  | ack p j =>
    simp only [ShardState.newAcked] at hf
    split_ifs at hf with hk
    · subst hk
      exact ⟨rfl, Option.mem_toList.mp hf⟩
    · cases hf
  | _ => cases hf

/-- A number acknowledged by the step is that of the last batch, which a quorum of workers has
counted. -/
theorem mem_newReturned {sh sh' : ShardState c} {e : ShardEvent c} {r : Fin c.proxies × ℕ}
    (hsh : sh.step e = some sh') (hr : r ∈ sh'.newReturned e) :
    e = .pollAcks r.1 ∧ ∃ b, (sh.proxy r.1).batches.getLast? = some b ∧ c.quorum ≤ b.ackCount ∧
      b.frame.seq = r.2 := by
  cases ShardState.effect_of_step hsh with
  | @pollAcks p ps hp =>
    unfold ReplicatorState.pollAcks at hp
    simp only [ShardState.newReturned, ShardState.setProxy, Function.update_self] at hr
    split at hp
    · rename_i b hcall hlast
      cases hp
      simp only [hlast] at hr
      split_ifs at hr with hlt
      · cases hr
      · obtain rfl := List.mem_singleton.mp hr
        exact ⟨rfl, b, hlast, Nat.le_of_not_lt hlt, rfl⟩
    · cases hp
  | _ => cases hr

/-- Such a number has been answered by a quorum. -/
theorem quorum_of_newReturned {S : Fin c.proxies × Fin c.servers → Frame → Prop}
    {sh sh' : ShardState c} (hflow : ShardState.Flow S sh) {e : ShardEvent c}
    (hsh : sh.step e = some sh') {r : Fin c.proxies × ℕ} (hr : r ∈ sh'.newReturned e) :
    ∃ J : Finset (Fin c.servers), c.quorum ≤ J.card ∧ ∀ j ∈ J, ∃ f, S (r.1, j) f ∧ f.seq = r.2 := by
  obtain ⟨-, b, hlast, hquorum, hseq⟩ := mem_newReturned hsh hr
  have hmem : b ∈ (sh.proxy r.1).batches := List.mem_of_getLast? hlast
  refine ⟨b.acks.toFinset, ?_, fun j hj => ?_⟩
  · rwa [List.toFinset_card_of_nodup (hflow.nodup r.1 b hmem)]
  · exact ⟨b.frame, (hflow.link (r.1, j)).counted b hmem (List.mem_toFinset.mp hj), hseq⟩

theorem Recovers.runShard (h : Recovers s) {e : ShardEvent c} {sh : ShardState c}
    (hquiet : Quiet s (.shard e)) (hsh : s.shard.step e = some sh) :
    Recovers (s.runShard e sh) := by
  refine ⟨?_, ?_, h.responders, h.completions, h.pending, ?_, h.copied⟩
  · refine ShardState.flow_step h.flow (fun k f hf => List.mem_append_left _ hf) ?_ hsh
    rintro p j frame rfl hframe
    apply List.mem_append_right _
    rw [ShardState.newAcked, if_pos rfl, hframe]
    exact List.mem_singleton_self frame
  · intro r hr
    have hold : ∃ J : Finset (Fin c.servers), c.quorum ≤ J.card ∧
        ∀ j ∈ J, ∃ f ∈ s.acked (r.1, j), f.seq = r.2 := by
      rcases List.mem_append.mp hr with hr | hr
      · exact h.returned r hr
      · exact quorum_of_newReturned h.flow hsh hr
    obtain ⟨J, hcard, hJ⟩ := hold
    refine ⟨J, hcard, fun j hj => ?_⟩
    obtain ⟨f, hf, hseq⟩ := hJ j hj
    exact ⟨f, List.mem_append_left _ hf, hseq⟩
  · intro copy hcopy
    obtain ⟨hcall, hbound⟩ := h.copies copy hcopy
    refine ⟨hcall, fun p hp j hj f hf => ?_⟩
    rcases List.mem_append.mp hf with hf | hf
    · exact hbound p hp j hj f hf
    · obtain ⟨rfl, hwire⟩ := mem_newAcked hf
      exact hquiet copy hcopy hp.symm hj f hwire

/-- What meets a call meets it when more is answered. -/
theorem Meets.mono {acked acked' : Fin c.proxies × Fin c.servers → List Frame} {call : Completion}
    {r : Fin c.proxies × ℕ} (h : Meets acked call r) (hsub : ∀ k, acked k ⊆ acked' k) :
    Meets acked' call r := by
  obtain ⟨j, hj, f, hf, hseq⟩ := h
  exact ⟨j, hj, f, hsub _ hf, hseq⟩

theorem AllMeet.runShard (h : AllMeet s) {e : ShardEvent c} {sh : ShardState c}
    (hmeet : QuorumsMeet s (.shard e)) (hsh : s.shard.step e = some sh) :
    AllMeet (s.runShard e sh) := by
  intro r hr copy hcopy hproxy hin
  have hold : Meets s.acked copy.call r := by
    rcases List.mem_append.mp hr with hr | hr
    · exact h r hr copy hcopy hproxy hin
    · obtain ⟨rfl, b, hlast, hquorum, hseq⟩ := mem_newReturned hsh hr
      have hnow := hmeet b hlast hquorum copy hcopy hproxy (hseq.symm ▸ hin)
      rwa [hseq] at hnow
  exact hold.mono fun k => List.subset_append_left _ _

/-! ## A step of the zipper -/

/-- Calls are only added. -/
theorem subset_completions_step {quorum : ℕ} {e : ReconfigEvent} {z z' : ReconfigState}
    (hz : z.step quorum e = some z') : z.completions ⊆ z'.completions := by
  cases ReconfigState.effect_of_step hz with
  | consensus => exact List.subset_append_left _ _
  | _ => exact List.Subset.refl _

/-- A step that copies nothing skips what was copied before. -/
theorem Copied.step {quorum : ℕ} {copies : List SkipCopy} {e : ReconfigEvent}
    {z z' : ReconfigState} (h : Copied copies z)
    (he : ∀ p lastSeq, e ≠ .proceed (.sendFreezeComplete p lastSeq))
    (hz : z.step quorum e = some z') : Copied copies z' where
  tasks := by
    intro p lastSeq allocated htask
    rcases mem_sendSkips_step hz htask with ⟨before, hbefore, hsub⟩ | ⟨rfl, -⟩
    · obtain ⟨copy, hcopy, hp, hlast, hall⟩ := h.tasks p lastSeq before hbefore
      exact ⟨copy, hcopy, hp, hlast, List.Subset.trans hsub hall⟩
    · exact absurd rfl (he p lastSeq)
  sent := by
    intro p seq hsent
    rcases mem_skip_step hz hsent with hold | ⟨lastSeq, hlt, allocated, htask⟩
    · exact h.sent p seq hold
    · obtain ⟨copy, hcopy, hp, rfl, hall⟩ := h.tasks p lastSeq _ htask
      exact ⟨copy, hcopy, hp, hlt, hall List.mem_cons_self⟩

/-- A call copies the numbers allocated. -/
theorem Copied.copy {quorum : ℕ} {copies : List SkipCopy} {call : Completion} {st : ProxyState}
    {z z' : ReconfigState} (h : Copied copies z)
    (hst : z.registry.lookup call.failedProxy = some st)
    (hz : z.step quorum (.proceed (.sendFreezeComplete call.failedProxy call.lastSeq)) = some z') :
    Copied (copies ++ [⟨call, st.allocatedSequences⟩]) z' where
  tasks := by
    intro p lastSeq allocated htask
    rcases mem_sendSkips_step hz htask with ⟨before, hbefore, hsub⟩ | ⟨heq, st', hst', rfl⟩
    · obtain ⟨copy, hcopy, hp, hlast, hall⟩ := h.tasks p lastSeq before hbefore
      exact ⟨copy, List.mem_append_left _ hcopy, hp, hlast, List.Subset.trans hsub hall⟩
    · cases heq
      cases hst.symm.trans hst'
      exact ⟨_, List.mem_append_right _ (List.mem_singleton_self _), rfl, rfl,
        List.Subset.refl _⟩
  sent := by
    intro p seq hsent
    rcases mem_skip_step hz hsent with hold | ⟨lastSeq, hlt, allocated, htask⟩
    · obtain ⟨copy, hcopy, hskips⟩ := h.sent p seq hold
      exact ⟨copy, List.mem_append_left _ hcopy, hskips⟩
    · obtain ⟨copy, hcopy, hp, rfl, hall⟩ := h.tasks p lastSeq _ htask
      exact ⟨copy, List.mem_append_left _ hcopy, hp, hlt, hall List.mem_cons_self⟩

/-- The servers counted are known ones, if the one that answers is. -/
theorem Recovers.responders_step (h : Recovers s) {e : ReconfigEvent} {z : ReconfigState}
    (hz : s.zipper.step c.quorum e = some z)
    (hsender : ∀ n p round seq, e = .freezeResponse n p round seq → n < c.servers) (p : ℕ)
    (st : ProxyState) (hst : z.registry.lookup p = some st) :
    ∀ n ∈ st.freezeResponders, n < c.servers := by
  intro n hn
  rcases mem_responders_step hz hst hn with ⟨st', hst', hn'⟩ | ⟨round, seq, he⟩
  · exact h.responders p st' hst' n hn'
  · exact hsender n p round seq he

/-- A call has a quorum of known servers behind it. -/
theorem Recovers.completions_step (h : Recovers s) {e : ReconfigEvent} {z : ReconfigState}
    (hz : s.zipper.step c.quorum e = some z)
    (hsender : ∀ n p round seq, e = .freezeResponse n p round seq → n < c.servers)
    (call : Completion) (hcall : call ∈ z.completions) :
    c.quorum ≤ call.responders.card ∧ ∀ n ∈ call.responders, n < c.servers := by
  rcases mem_completions_step hz hcall with hold | ⟨sender, seq, st, he, hst, hv, hresponders⟩
  · exact h.completions call hold
  · rw [hresponders]
    refine ⟨(ProxyState.verdict_consensus hv).1, fun n hn => ?_⟩
    rcases Finset.mem_insert.mp hn with rfl | hn
    · exact hsender _ _ _ _ he
    · exact h.responders _ st hst n hn

/-- **One step.** -/
theorem recovers_step {e : RecoveryEvent c} (h : Recovers s) (hquiet : Quiet s e)
    (hs : s.step e = some t) : Recovers t := by
  cases effect_of_step hs with
  | shard hsh => exact h.runShard hquiet hsh
  | @zipper e z he hz =>
    have hsender : ∀ n p round seq, e = .freezeResponse n p round seq → n < c.servers := by
      rintro n p round seq rfl
      cases he
    have hcopies : ∀ p lastSeq, e ≠ .proceed (.sendFreezeComplete p lastSeq) := by
      rintro p lastSeq rfl
      cases he
    have hsub := subset_completions_step hz
    exact ⟨h.flow, h.returned, h.responders_step hz hsender, h.completions_step hz hsender,
      fun call hcall => hsub (h.pending call hcall),
      fun copy hcopy => ⟨hsub (h.copies copy hcopy).1, (h.copies copy hcopy).2⟩,
      h.copied.step hcopies hz⟩
  | @deliver r z hr hz =>
    have hsender : ∀ n p round seq, ReconfigEvent.freezeResponse r.sender r.failedProxy r.round
        r.seq = .freezeResponse n p round seq → n < c.servers := by
      rintro n p round seq heq
      cases heq
      exact r.sender.isLt
    have hsub := subset_completions_step hz
    refine ⟨h.flow, h.returned, h.responders_step hz hsender, h.completions_step hz hsender,
      fun call hcall => ?_,
      fun copy hcopy => ⟨hsub (h.copies copy hcopy).1, (h.copies copy hcopy).2⟩,
      h.copied.step (by rintro p lastSeq ⟨⟩) hz⟩
    rcases List.mem_append.mp hcall with hold | hnew
    · exact hsub (h.pending call hold)
    · exact List.mem_of_mem_drop hnew
  | @copy call st z hcall hst hz =>
    have hsub := subset_completions_step hz
    refine ⟨h.flow, h.returned, h.responders_step hz (by rintro n p round seq ⟨⟩),
      h.completions_step hz (by rintro n p round seq ⟨⟩),
      fun call' hcall' => hsub (h.pending call' (List.mem_of_mem_erase hcall')),
      fun copy hcopy => ?_, h.copied.copy hst hz⟩
    rcases List.mem_append.mp hcopy with hold | hnew
    · exact ⟨hsub (h.copies copy hold).1, (h.copies copy hold).2⟩
    · rw [List.mem_singleton.mp hnew]
      exact ⟨hsub (h.pending call hcall), hquiet st hst⟩
  | freezer hproxy hlink hzipper hacked hreturned hpending hcopies =>
    refine ⟨?_, ?_, ?_, ?_, ?_, ?_, ?_⟩
    · rw [hacked]
      exact h.flow.congr hproxy hlink
    · rw [hreturned, hacked]
      exact h.returned
    · rw [hzipper]
      exact h.responders
    · rw [hzipper]
      exact h.completions
    · rw [hpending, hzipper]
      exact h.pending
    · rw [hcopies, hzipper, hacked]
      exact h.copies
    · rw [hcopies, hzipper]
      exact h.copied

/-- **One step.** -/
theorem allMeet_step {e : RecoveryEvent c} (h : AllMeet s) (hmeet : QuorumsMeet s e)
    (hs : s.step e = some t) : AllMeet t := by
  cases effect_of_step hs with
  | shard hsh => exact h.runShard hmeet hsh
  | zipper | deliver => exact h
  | @copy call st z hcall hst hz =>
    intro r hr copy hcopy hproxy hin
    rcases List.mem_append.mp hcopy with hold | hnew
    · exact h r hr copy hold hproxy hin
    · rw [List.mem_singleton.mp hnew] at hproxy hin ⊢
      exact hmeet st hst r hr hproxy hin
  | freezer hproxy hlink hzipper hacked hreturned hpending hcopies =>
    unfold AllMeet
    rw [hcopies, hacked, hreturned]
    exact h

/-! ## Every run -/

theorem recovers_of_reach {addresses : Fin c.proxies → Address}
    (h : (recovery c addresses).ReachVia Guarded s) : Recovers s :=
  h.invariant Recovers (recovers_init addresses) fun _ _ _ _ hr hguard hs =>
    recovers_step hr hguard.1 hs

/-- With `2 f + 1` servers, since a quorum has answered and a quorum is counted. -/
theorem Recovers.allMeet (h : Recovers s) (hservers : c.servers ≤ 2 * c.f + 1) : AllMeet s := by
  intro r hr copy hcopy hproxy hin
  obtain ⟨J, hJ, hacked⟩ := h.returned r hr
  obtain ⟨hcard, hids⟩ := h.completions copy.call (h.copies copy hcopy).1
  obtain ⟨R, hR, hcounted⟩ := ShardState.exists_servers
    (P := fun j => (j : ℕ) ∈ copy.call.responders) hcard fun n hn => ⟨⟨n, hids n hn⟩, rfl, hn⟩
  obtain ⟨j, hjJ, hjR⟩ := exists_mem_quorums hservers hJ hR
  exact ⟨j, hcounted j hjR, hacked j hjJ⟩

theorem allMeet_of_reach {addresses : Fin c.proxies → Address}
    (h : (recovery c addresses).ReachVia Guarded s) : AllMeet s := by
  by_cases hservers : c.servers ≤ 2 * c.f + 1
  · exact (recovers_of_reach h).allMeet hservers
  · refine h.invariant AllMeet ?_ fun _ _ _ _ hr hguard hs =>
      allMeet_step hr (hguard.2.resolve_left hservers) hs
    intro r hr
    cases hr

/-! ## No number is both acknowledged and skipped -/

/-- No number for which `replicate_bytes` has returned true has been skipped. -/
def NeverSkipped (s : RecoveryState c) : Prop :=
  ∀ r ∈ s.returned, .skip r.1 r.2 ∉ s.zipper.sent

/-- **Acknowledged numbers are not skipped**, in every run in which the servers counted in an
agreement answer no frame of the proxy with a number that its call skips, and the quorums meet, as
they do with `2 f + 1` servers. -/
theorem neverSkipped (c : ShardConfig) (addresses : Fin c.proxies → Address) (s : RecoveryState c)
    (h : (recovery c addresses).ReachVia Guarded s) : NeverSkipped s := by
  have hrecovers := recovers_of_reach h
  intro r hr hsent
  obtain ⟨copy, hcopy, hproxy, hskips⟩ := hrecovers.copied.sent _ _ hsent
  obtain ⟨j, hj, f, hf, hseq⟩ := allMeet_of_reach h r hr copy hcopy hproxy hskips.2
  refine (hrecovers.copies copy hcopy).2 r.1 hproxy.symm j hj f hf ?_
  rwa [hseq]

/-- Four servers: a batch on two of them is passed on to a third during the freeze, and the skip of
the next number is sent. The proxy rejoins, and two of the servers counted answer the batch with its
fresh number. -/
theorem neverSkipped_rejoined : ∃ s : RecoveryState ⟨1, 1, 4, 0, by decide⟩,
    (0, 1) ∈ s.returned ∧ (0, 3) ∈ s.returned ∧ .skip 0 2 ∈ s.zipper.sent ∧ NeverSkipped s := by
  obtain ⟨s, hs, hp⟩ := @Lts.exists_reachVia_of_run _ _
    (recovery ⟨1, 1, 4, 0, by decide⟩ fun _ => ⟨"127.0.0.1", 5000⟩)
    Guarded (fun s e => decide (Guarded s e)) (fun _ _ => of_decide_eq_true)
    [.zipper (.allocate 0 1), .zipper (.allocate 0 2),
      .shard (.replicate 0 1 (.append [0, 0, 0, 1, 65]) {7}),
      .shard (.connect 0 0), .shard (.send 0 0), .shard (.ack 0 0), .shard (.check 0 0),
      .shard (.store 0 0), .shard (.count 0 0),
      .shard (.connect 0 1), .shard (.send 0 1), .shard (.ack 0 1), .shard (.check 0 1),
      .shard (.store 0 1), .shard (.count 0 1), .shard (.pollAcks 0), .shard (.respond 0),
      .zipper (.report 0 0), .zipper (.report 1 0), .zipper (.proceed (.sendFreeze 0 true)),
      .zipper (.proceed (.readRound 0)), .zipper (.proceed (.broadcastFreeze 0 1)),
      .freeze 2 0 1, .transferRequest 1 2 0 1, .transfer 1 2 0 1 ⟨0, 1, .append [0, 0, 0, 1, 65]⟩,
      .respond 1 0 1, .respond 2 0 1, .deliver ⟨1, 0, 1, 1⟩, .deliver ⟨2, 0, 1, 1⟩,
      .copy ⟨0, 1, {2, 1}⟩, .zipper (.proceed (.sendSkips 0 1 [1, 2])),
      .zipper (.proceed (.sendSkips 0 1 [2])), .zipper (.rejoin 0), .zipper (.allocate 0 3),
      .shard (.replicate 0 3 (.append [0, 0, 0, 1, 66]) {7}),
      .shard (.broadcast 0 1), .shard (.send 0 1), .shard (.ack 0 1), .shard (.count 0 1),
      .shard (.connect 0 2), .shard (.send 0 2), .shard (.ack 0 2), .shard (.check 0 2),
      .shard (.store 0 2), .shard (.broadcast 0 2), .shard (.count 0 2), .shard (.send 0 2),
      .shard (.ack 0 2), .shard (.count 0 2), .shard (.pollAcks 0)]
    (fun s => decide ((0, 1) ∈ s.returned ∧ (0, 3) ∈ s.returned ∧ .skip 0 2 ∈ s.zipper.sent))
    (by decide)
  obtain ⟨hreturned, hfresh, hsent⟩ := of_decide_eq_true hp
  exact ⟨s, hreturned, hfresh, hsent, neverSkipped _ _ s hs⟩

/-- The server answers the FREEZE with its empty store and the frame after that; the proxy counts
the reply, and the zipper skips the number. -/
theorem not_neverSkipped :
    ¬ ∀ (c : ShardConfig) (addresses : Fin c.proxies → Address) (s : RecoveryState c),
      (recovery c addresses).Reach s → NeverSkipped s := by
  intro h
  obtain ⟨s, hs, hp⟩ := @Lts.exists_reach_of_run _ _
    (recovery ⟨0, 1, 1, 0, by decide⟩ fun _ => ⟨"127.0.0.1", 5000⟩)
    [.zipper (.allocate 0 1), .zipper (.report 0 0), .zipper (.proceed (.sendFreeze 0 true)),
      .zipper (.proceed (.readRound 0)), .zipper (.proceed (.broadcastFreeze 0 1)),
      .freeze 0 0 1, .respond 0 0 1,
      .shard (.replicate 0 1 (.append [0, 0, 0, 1, 65]) {7}), .shard (.connect 0 0),
      .shard (.send 0 0), .shard (.ack 0 0), .shard (.count 0 0), .shard (.pollAcks 0),
      .deliver ⟨0, 0, 1, 0⟩, .copy ⟨0, 0, {0}⟩, .zipper (.proceed (.sendSkips 0 0 [1]))]
    (fun s => decide ((0, 1) ∈ s.returned ∧ .skip 0 1 ∈ s.zipper.sent)) (by decide)
  obtain ⟨hreturned, hsent⟩ := of_decide_eq_true hp
  exact h _ _ s hs (0, 1) hreturned hsent

end RecoveryState

end Ziplog
