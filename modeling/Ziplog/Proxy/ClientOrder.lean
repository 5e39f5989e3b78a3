import Mathlib.Data.List.ReduceOption
import Ziplog.Proxy.Responses

/-!
# What becomes of the commands of a client

The commands of all clients lie in one buffer, in the order in which the threads of the connections
came by its lock. Drains and releases take them out by the number of bytes, a SKIP leaves what was
drained where it is, and clients come and leave in between.

For each connection, the commands that were pushed for its frames are those in the batches sent and
then those in the buffer, in the order of the frames (`commands_in_order`): none is lost, sent
twice, overtaken by a later one, or taken for that of another connection. A frame that is too short,
that a full buffer refuses or that comes to an unregistered proxy pushes nothing.
-/

namespace Ziplog

open ClientBufferManager

/-- The commands that were pushed for the frames of the connection. -/
def ClientConnection.pushed (c : ClientConnection) : List Command := c.consumed.reduceOption

namespace ClientConnection

theorem pushed_receive (c : ClientConnection) (socket : ℕ) (response : ClientResponse) :
    (c.receive socket response).pushed = c.pushed := by
  unfold receive
  split_ifs <;> rfl

theorem pushed_drop {c c' : ClientConnection} (h : c'.consumed = c.consumed ++ [none]) :
    c'.pushed = c.pushed := by
  rw [pushed, h, List.reduceOption_append]
  exact List.append_nil _

theorem pushed_push {c c' : ClientConnection} {data : Command}
    (h : c'.consumed = c.consumed ++ [some data]) : c'.pushed = c.pushed ++ [data] := by
  rw [pushed, h, List.reduceOption_append]
  rfl

end ClientConnection

namespace Proxy

variable {registered : Bool} {s t : Proxy}

/-- All commands, those taken out of the buffer first. -/
def commands (s : Proxy) : List (ℕ × Command) := s.batches.flatten ++ s.unreleased

/-- The commands of one connection. -/
def commandsOf (s : Proxy) (i : ℕ) : List Command :=
  (s.commands.filter fun e => e.1 = i).map Prod.snd

/-- The commands of each connection are those that were pushed for it. -/
structure Accounted (s : Proxy) : Prop where
  known : ∀ e ∈ s.commands, e.1 < s.connections.length
  own : ∀ (i : ℕ) (c : ClientConnection), s.connections[i]? = some c → s.commandsOf i = c.pushed

theorem accounted_init (registered : Bool) : Accounted (init registered) where
  known := fun _ he => nomatch he
  own := fun _ _ hc => nomatch hc

/-- Steps that push nothing. -/
theorem Accounted.congr (h : Accounted s) (hcommands : t.commands = s.commands)
    (hlength : t.connections.length = s.connections.length)
    (hpushed : ∀ (i : ℕ) (c' : ClientConnection), t.connections[i]? = some c' →
      ∃ c, s.connections[i]? = some c ∧ c'.pushed = c.pushed) : Accounted t := by
  refine ⟨?_, fun i c' hc' => ?_⟩
  · rw [hcommands, hlength]
    exact h.known
  · obtain ⟨c, hc, heq⟩ := hpushed i c' hc'
    rw [heq, ← h.own i c hc, commandsOf, commandsOf, hcommands]

/-- Steps of one connection that push nothing. -/
theorem Accounted.set (h : Accounted s) (hcommands : t.commands = s.commands) {i : ℕ}
    {c c' : ClientConnection} (hc : s.connections[i]? = some c)
    (ht : t.connections = s.connections.set i c') (hpushed : c'.pushed = c.pushed) :
    Accounted t := by
  refine h.congr hcommands (by rw [ht, List.length_set]) fun j d' hd' => ?_
  rw [ht, List.getElem?_set] at hd'
  split_ifs at hd' with hij hlt
  · cases hd'
    exact ⟨c, hij ▸ hc, hpushed⟩
  · exact ⟨d', hd', rfl⟩

/-- A new connection has no commands. -/
theorem Accounted.accept (h : Accounted s) (socket : ℕ) :
    Accounted { s with connections := s.connections ++ [.init socket] } := by
  refine ⟨fun e he => ?_, fun i c hc => ?_⟩
  · rw [List.length_append]
    exact Nat.lt_add_right _ (h.known e he)
  · rcases eq_of_getElem?_concat hc with hold | ⟨rfl, rfl⟩
    · exact h.own i c hold
    · have hnone : s.commands.filter (fun e => e.1 = s.connections.length) = [] := by
        rw [List.filter_eq_nil_iff]
        intro e he
        have hlt := h.known e he
        rw [decide_eq_true_eq]
        omega
      show ((s.commands.filter _).map Prod.snd) = _
      rw [hnone]
      rfl

/-- A push puts a command behind all others. -/
theorem Accounted.push (h : Accounted s) {i : ℕ} {c c' : ClientConnection} {data : Command}
    (hc : s.connections[i]? = some c) (ht : t.connections = s.connections.set i c')
    (hpushed : c'.pushed = c.pushed ++ [data])
    (hcommands : t.commands = s.commands ++ [(i, data)]) : Accounted t := by
  obtain ⟨hlt, -⟩ := List.getElem?_eq_some_iff.mp hc
  refine ⟨fun e he => ?_, fun j d hd => ?_⟩
  · rw [ht, List.length_set]
    rw [hcommands] at he
    rcases List.mem_append.mp he with he | he
    · exact h.known e he
    · rw [List.mem_singleton.mp he]
      exact hlt
  · rw [commandsOf, hcommands, List.filter_append, List.map_append]
    rw [ht, List.getElem?_set] at hd
    split_ifs at hd with hij
    · cases hd
      subst hij
      rw [hpushed, ← h.own i c hc, List.filter_cons_of_pos (by simp)]
      rfl
    · rw [List.filter_cons_of_neg (by simpa using hij), List.filter_nil, List.map_nil,
        List.append_nil]
      exact h.own j d hd

/-- **What a step keeps** of the commands. -/
theorem accounted_step {e : ProxyEvent} (h : Accounted s) (hstage : StageInv s)
    (he : Effect s e t) : Accounted t := by
  cases he with
  | accepted => exact h.accept _
  | refused hc | dropped hc => exact h.set rfl hc rfl (ClientConnection.pushed_drop rfl)
  | ended hc | hungUp hc | removed hc => exact h.set rfl hc rfl rfl
  | pushed hc hreading happend hfits hdataLen hdata hpush =>
    refine h.push hc rfl (ClientConnection.pushed_push rfl) ?_
    unfold commands unreleased
    cases s.source.phase <;> simp only [List.append_assoc] <;> rfl
  | flagged => exact h.congr rfl rfl fun i c hc => ⟨c, hc, rfl⟩
  | drained hresponding hphase =>
    refine h.congr ?_ rfl fun i c hc => ⟨c, hc, rfl⟩
    unfold commands unreleased
    simp only [hphase, List.append_nil]
  | copied hphase =>
    refine h.congr ?_ rfl fun i c hc => ⟨c, hc, rfl⟩
    unfold commands unreleased
    simp only [hphase]
  | skipped hphase =>
    -- what was drained is again in front of what waits
    refine h.congr ?_ rfl fun i c hc => ⟨c, hc, rfl⟩
    unfold commands unreleased
    simp only [hphase, List.flatten_concat, List.append_nil]
  | released hphase =>
    refine h.congr ?_ rfl fun i c hc => ⟨c, hc, rfl⟩
    unfold commands unreleased
    simp only [hphase, List.flatten_concat, List.append_assoc]
  | replicated hphase =>
    refine h.congr ?_ rfl fun i c hc => ⟨c, hc, rfl⟩
    unfold commands unreleased
    simp only [hphase]
  | responded hresponding hsocket =>
    refine h.congr rfl (List.length_map _) fun i c' hc' => ?_
    obtain ⟨c, hc, rfl⟩ := getElem?_deliver.mp hc'
    exact ⟨c, hc, c.pushed_receive _ _⟩
  | finished hresponding hclients =>
    obtain ⟨success, hsome⟩ := Option.ne_none_iff_exists'.mp hresponding
    obtain ⟨hphase, -, -⟩ := hstage.responding success hsome
    refine h.congr ?_ rfl fun i c hc => ⟨c, hc, rfl⟩
    unfold commands unreleased
    simp only [hphase]

/-- **Every run.** -/
theorem accounted (h : (proxy registered).Reach s) : Recorded s ∧ Accounted s := by
  refine (h.invariant (fun s => StageInv s ∧ Recorded s ∧ Accounted s)
    ⟨stageInv_init registered, recorded_init registered, accounted_init registered⟩ ?_).2
  intro s e t _ ⟨hstage, hrecorded, haccounted⟩ _ hs
  have he := effect_of_step hs
  exact ⟨stageInv_step hstage he, recorded_step hrecorded hstage he,
    accounted_step haccounted hstage he⟩

/-- What is in the buffer are the commands that are not sent. -/
theorem holds_unreleased (h : (proxy registered).Reach s) :
    Holds s.source.manager (s.unreleased.map Prod.snd) := by
  obtain ⟨queued, hholds, haccepted, -⟩ := source_of_reach (reach_source h)
  have hqueued : queued = s.unreleased.map Prod.snd := by
    apply List.append_cancel_left
    rw [← haccepted]
    exact (accounted h).1.accepted
  rwa [← hqueued]

/-- **Every command in its place.** In every interleaving of clients that come, push and leave with
the timer thread in which what is pushed stays in memory, nothing goes wrong, the batches sent are
those recorded, the block of the buffer holds the bytes of the commands not sent, and the two
together are, for each connection, the commands that were pushed for its frames, in their order. -/
theorem commands_in_order {x : Except MemFault Proxy}
    (h : (proxyWithFaults registered).ReachVia (Lts.BeforeFault InMemory) x) :
    ∃ s, x = .ok s ∧ s.source.sent = s.batches.map (List.map Prod.snd) ∧
      Holds s.source.manager (s.unreleased.map Prod.snd) ∧
        ∀ (i : ℕ) (c : ClientConnection), s.connections[i]? = some c →
          ((s.batches.flatten ++ s.unreleased).filter fun e => e.1 = i).map Prod.snd =
            c.consumed.reduceOption := by
  obtain ⟨s, rfl, hs⟩ := exists_ok (fun _ _ => id) h
  exact ⟨s, rfl, sent_eq hs.reach, holds_unreleased hs.reach, (accounted hs.reach).2.own⟩

/-- Two clients, of which the first sends a second command while the first two are replicated. -/
theorem commands_in_order_two : ∃ s,
    (proxyWithFaults true).ReachVia (Lts.BeforeFault InMemory) (.ok s) ∧
      s.batches = [[(0, [65]), (1, [66])]] ∧ s.unreleased = [(0, [67])] ∧
        ∃ t, Except.ok s = (.ok t : Except MemFault Proxy) ∧
          t.source.sent = t.batches.map (List.map Prod.snd) ∧
            Holds t.source.manager (t.unreleased.map Prod.snd) ∧
              ∀ (i : ℕ) (c : ClientConnection), t.connections[i]? = some c →
                ((t.batches.flatten ++ t.unreleased).filter fun e => e.1 = i).map Prod.snd =
                  c.consumed.reduceOption := by
  have hrun : ((proxy true).runVia (fun s e => decide (s.InMemory e))
      [.accept 5, .accept 6, .frame 0 ((buildWireBytes 0 0 0 0 [65]).drop 2) 29,
        .frame 1 ((buildWireBytes 0 0 0 0 [66]).drop 2) 29, .drain, .copy, .release,
        .frame 0 ((buildWireBytes 0 0 0 0 [67]).drop 2) 29] (init true)).any (fun s =>
      decide (s.batches = [[(0, [65]), (1, [66])]] ∧ s.unreleased = [(0, [67])])) = true := by
    decide
  obtain ⟨s, hs, hp⟩ := Lts.exists_reachVia_of_run _ (fun _ _ => of_decide_eq_true) hrun
  obtain ⟨hbatches, hunreleased⟩ := of_decide_eq_true hp
  have hreach := reach_withFaults hs
  exact ⟨s, hreach, hbatches, hunreleased, commands_in_order hreach⟩

end Proxy

end Ziplog
