import Ziplog.Api.NetworkUtils
import Ziplog.Server.Server

/-!
# The frames of a server

What a server stores and what it passes on to subscribers should be frames, and the latter should
carry its own id. A frame from a proxy is stored as it came and broadcast with another sender, and
that is fine. A frame that a peer transfers is serialized again without its length, and a replay
sends the stored frames with the ids of the proxies; `properAndExact` says that nothing else goes
wrong.
-/

namespace Ziplog

open ByteImage Cells

/-- The bytes of a message are not a frame: its type, which is small, stands where the length of
a frame is. -/
theorem parseFrame_serialize {m : Message} (htype : m.type.toNat < 2 ^ 16) :
    parseFrame m.serialize = none := by
  cases hparse : parseFrame m.serialize with
  | none => rfl
  | some m' =>
    obtain ⟨body, heq, hsize, hdecode⟩ := parseFrame_eq_some.mp hparse
    have haccept := Message.le_length_of_deserialize hdecode
    have hlen := congrArg List.length heq
    rw [List.length_append, length_be] at hlen
    rw [Message.serialize_eq_ite] at heq hlen
    split_ifs at heq hlen with hlarge
    · rw [List.length_nil] at hlen
      omega
    · have hfirst := Message.take_encoding htype
      rw [heq, List.take_left' (length_be _ _)] at hfirst
      have hofBe := congrArg ofBe hfirst
      unfold maxMessageSize at hsize
      rw [ofBe_be_of_lt (by omega), ofBe_be_of_lt (by decide)] at hofBe
      omega

namespace Server

variable {serverId : UInt32} {liveness : ProxyLivenessTracker} {subscribers : List Address}
  {s t : Server}

/-- Everything stored is a frame, and everything passed on is the frame of a proxy with the id of
the server. -/
structure ProperFrames (serverId : UInt32) (s : Server) : Prop where
  stored : ∀ proxyId, ∀ wire ∈ s.store.stored proxyId, ∃ m, parseFrame wire = some m
  sent : ∀ subscriber wire, (subscriber, wire) ∈ s.outbox →
    ∃ m ∈ s.frames, parseFrame wire = some { m with senderId := serverId }

/-- The proxy whose frames are replayed next. -/
def nextReplay (s : Server) : Option (Sigma fun _ : ℕ => List (List UInt8)) :=
  match s.introduction with
  | some (.replaying _ _ (e :: _)) => some e
  | _ => none

/-- No peer transfers a frame, and a replay sends frames of a proxy with the id of the server
only. -/
def Clean (serverId : UInt32) (s : Server) : ServerEvent → Prop
  | .transfer .. => False
  | .replay => ∀ e ∈ s.nextReplay, s.liveness.isBlocked e.1 = true ∨
      ∀ wire ∈ e.2, ∀ m ∈ parseFrame wire, m.senderId = serverId
  | _ => True

instance (serverId : UInt32) (s : Server) (e : ServerEvent) : Decidable (s.Clean serverId e) :=
  match e with
  | .transfer .. => .isFalse id
  | .replay => inferInstanceAs (Decidable (∀ e ∈ s.nextReplay, _ ∨ _))
  | .append _ | .broadcast _ | .zipResponse .. | .freeze .. | .transferRequest ..
  | .freezeResponse .. | .introduce _ | .snapshot | .connect _ | .addSubscriber => .isTrue trivial

/-! ## The invariant -/

/-- The frames of proxies, as they came. -/
def FromProxy (s : Server) (wire : List UInt8) : Prop := ∃ m ∈ s.frames, parseFrame wire = some m

/-- The snapshot that a running introduction holds, and what is left of it. -/
def held (s : Server) : List (Sigma fun _ : ℕ => List (List UInt8)) :=
  match s.introduction with
  | some (.connecting _ snap) => snap
  | some (.replaying _ _ rest) => rest
  | _ => []

structure FramesInv (serverId : UInt32) (s : Server) : Prop where
  stored : ∀ proxyId, ∀ wire ∈ s.store.stored proxyId, s.FromProxy wire
  pending : ∀ wire ∈ s.pending, s.FromProxy wire
  held : ∀ e ∈ s.held, ∀ wire ∈ e.2, s.FromProxy wire
  sent : ∀ subscriber wire, (subscriber, wire) ∈ s.outbox →
    ∃ m ∈ s.frames, parseFrame wire = some { m with senderId := serverId }

theorem FramesInv.proper (h : FramesInv serverId s) : s.ProperFrames serverId where
  stored := by
    intro proxyId wire hwire
    obtain ⟨m, -, hm⟩ := h.stored proxyId wire hwire
    exact ⟨m, hm⟩
  sent := h.sent

theorem framesInv_init (serverId : UInt32) (liveness : ProxyLivenessTracker)
    (subscribers : List Address) : FramesInv serverId (init liveness subscribers) := by
  refine ⟨fun proxyId wire hwire => ?_, fun wire hwire => ?_, fun e he => ?_, fun a wire h => ?_⟩
  · cases hwire
  · cases hwire
  · cases he
  · cases h

/-- A frame that came from a proxy stays one. -/
theorem FromProxy.mono {wire : List UInt8} (h : s.FromProxy wire) (hframes : s.frames ⊆ t.frames) :
    t.FromProxy wire := by
  obtain ⟨m, hm, heq⟩ := h
  exact ⟨m, hframes hm, heq⟩

/-- The steps that store and pass on nothing. -/
theorem FramesInv.congr (h : FramesInv serverId s) (hstore : t.store = s.store)
    (hpending : t.pending = s.pending) (hframes : t.frames = s.frames)
    (houtbox : t.outbox = s.outbox) (hheld : ∀ e ∈ t.held, e ∈ s.held) :
    FramesInv serverId t := by
  have hfrom : ∀ wire, s.FromProxy wire → t.FromProxy wire := fun wire hwire =>
    hwire.mono (hframes ▸ List.Subset.refl _)
  refine ⟨fun proxyId wire hwire => ?_, fun wire hwire => ?_, fun e he wire hwire => ?_, ?_⟩
  · rw [hstore] at hwire
    exact hfrom wire (h.stored proxyId wire hwire)
  · rw [hpending] at hwire
    exact hfrom wire (h.pending wire hwire)
  · exact hfrom wire (h.held e (hheld e he) wire hwire)
  · rw [houtbox, hframes]
    exact h.sent

theorem FramesInv.append {wire : List UInt8} (h : FramesInv serverId s)
    (hs : s.step serverId (.append wire) = some t) : FramesInv serverId t := by
  obtain ⟨m, hm, ht⟩ := eq_of_append hs
  have hframes : t.frames = s.frames ++ [m] := by
    rcases ht with rfl | ⟨proxyId, liveness, -, -, rfl⟩ <;> rfl
  have hsub : s.frames ⊆ t.frames := hframes ▸ List.subset_append_left _ _
  have hwire : t.FromProxy wire :=
    ⟨m, hframes ▸ List.mem_append_right _ (List.mem_singleton_self m), hm⟩
  have hsent : ∀ a w, (a, w) ∈ s.outbox →
      ∃ m ∈ t.frames, parseFrame w = some { m with senderId := serverId } := by
    intro a w hw
    obtain ⟨m', hm', heq⟩ := h.sent a w hw
    exact ⟨m', hsub hm', heq⟩
  rcases ht with rfl | ⟨proxyId, liveness, -, -, rfl⟩
  · exact ⟨fun q w hw => (h.stored q w hw).mono hsub, fun w hw => (h.pending w hw).mono hsub,
      fun e he w hw => (h.held e he w hw).mono hsub, hsent⟩
  · refine ⟨fun q w hw => ?_, fun w hw => ?_, fun e he w hw => (h.held e he w hw).mono hsub, hsent⟩
    · rcases MessageStore.mem_stored_store.mp hw with hold | ⟨-, rfl⟩
      · exact (h.stored q w hold).mono hsub
      · exact hwire
    · rcases List.mem_append.mp hw with hold | hnew
      · exact (h.pending w hold).mono hsub
      · rw [List.mem_singleton.mp hnew]
        exact hwire

/-- Broadcast, a frame carries the id of the server. -/
theorem FramesInv.broadcast {wire : List UInt8} (h : FramesInv serverId s)
    (hs : s.step serverId (.broadcast wire) = some t) : FramesInv serverId t := by
  obtain ⟨hpending, rfl⟩ := eq_of_broadcast hs
  refine ⟨h.stored, fun w hw => h.pending w (List.mem_of_mem_erase hw), h.held, fun a w hw => ?_⟩
  rcases List.mem_append.mp hw with hold | hnew
  · exact h.sent a w hold
  · obtain ⟨m, hm, heq⟩ := h.pending wire hpending
    obtain ⟨e, -, he⟩ := List.mem_map.mp hnew
    cases he
    exact ⟨m, hm, parseFrame_patchSender serverId heq⟩

/-- A replay of frames with the id of the server. -/
theorem FramesInv.replay (h : FramesInv serverId s) (hclean : s.Clean serverId .replay)
    (hs : s.step serverId .replay = some t) : FramesInv serverId t := by
  obtain ⟨subscriber, snap, e, rest, hintroduction, rfl⟩ := eq_of_replay hs
  have hheld : ∀ e' ∈ e :: rest, ∀ wire ∈ e'.2, s.FromProxy wire := by
    have hall := h.held
    unfold Server.held at hall
    rwa [hintroduction] at hall
  have hnext : s.nextReplay = some e := by
    unfold nextReplay
    rw [hintroduction]
  unfold replayProxy
  split_ifs with hblocked
  · exact ⟨h.stored, h.pending, fun e' he' => hheld e' (List.mem_cons_of_mem _ he'), h.sent⟩
  · refine ⟨h.stored, h.pending, fun e' he' => hheld e' (List.mem_cons_of_mem _ he'), ?_⟩
    intro a w hw
    rcases List.mem_append.mp hw with hold | hnew
    · exact h.sent a w hold
    · obtain ⟨wire, hwire, heq⟩ := List.mem_map.mp hnew
      cases heq
      obtain ⟨m, hm, hparse⟩ := hheld e List.mem_cons_self w hwire
      have hown := ((hclean e hnext).resolve_left hblocked) w hwire m hparse
      refine ⟨m, hm, ?_⟩
      rw [hparse, ← hown]

/-- **What a step keeps.** -/
theorem framesInv_step {e : ServerEvent} (h : FramesInv serverId s) (hclean : s.Clean serverId e)
    (hs : s.step serverId e = some t) : FramesInv serverId t := by
  cases e with
  | append wire => exact h.append hs
  | broadcast wire => exact h.broadcast hs
  | replay => exact h.replay hclean hs
  | transfer => exact hclean.elim
  | zipResponse =>
    cases hs
    exact h.congr rfl rfl rfl rfl fun _ he => he
  | freeze =>
    obtain ⟨freezeHandler, -, rfl⟩ := Option.map_eq_some_iff.mp hs
    exact h.congr rfl rfl rfl rfl fun _ he => he
  | transferRequest =>
    obtain ⟨freezeHandler, -, rfl⟩ := Option.map_eq_some_iff.mp hs
    exact h.congr rfl rfl rfl rfl fun _ he => he
  | freezeResponse =>
    cases hs
    exact h.congr rfl rfl rfl rfl fun _ he => he
  | introduce =>
    obtain ⟨hidle, rfl⟩ := eq_of_introduce hs
    exact h.congr rfl rfl rfl rfl fun _ he => by cases he
  | snapshot =>
    obtain ⟨subscriber, hintroduction, rfl⟩ := eq_of_snapshot hs
    refine ⟨h.stored, h.pending, fun e he wire hwire => ?_, h.sent⟩
    exact h.stored e.1 wire (MessageStore.mem_stored_iff.mpr ⟨e, he, rfl, hwire⟩)
  | connect connected =>
    obtain ⟨subscriber, snap, hintroduction, rfl⟩ := eq_of_connect hs
    have hheld := h.held
    unfold Server.held at hheld
    rw [hintroduction] at hheld
    cases connected with
    | true => exact ⟨h.stored, h.pending, hheld, h.sent⟩
    | false => exact ⟨h.stored, h.pending, fun _ he => (by cases he), h.sent⟩
  | addSubscriber =>
    obtain ⟨subscriber, snap, hintroduction, rfl⟩ := eq_of_addSubscriber hs
    exact h.congr rfl rfl rfl rfl fun _ he => by cases he

/-! ## Runs -/

theorem framesInv (h : (server serverId liveness subscribers).ReachVia (Clean serverId) s) :
    FramesInv serverId s :=
  h.invariant _ (framesInv_init serverId liveness subscribers)
    fun _ _ _ _ hinv hclean hs => framesInv_step hinv hclean hs

/-- After a step that is not clean something is stored or passed on that should not be. -/
theorem clean_of_proper {e : ServerEvent} (hs : s.step serverId e = some t)
    (hproper : t.ProperFrames serverId) : s.Clean serverId e := by
  cases e with
  | transfer failedProxy round resp =>
    simp only [step] at hs
    split_ifs at hs with hresp
    cases hs
    have hmem : resp.serialize ∈ (s.store.store failedProxy resp.serialize).stored failedProxy :=
      MessageStore.mem_stored_store.mpr (Or.inr ⟨rfl, rfl⟩)
    obtain ⟨m, hm⟩ := hproper.stored failedProxy _ hmem
    have htype : resp.type.toNat < 2 ^ 16 := by
      rcases hresp.2 with htype | htype <;> rw [htype] <;> decide
    rw [parseFrame_serialize htype] at hm
    cases hm
  | replay =>
    intro e he
    obtain ⟨subscriber, snap, e, rest, hintroduction, rfl⟩ := eq_of_replay hs
    unfold nextReplay at he
    rw [hintroduction] at he
    cases he
    by_cases hblocked : s.liveness.isBlocked e.1 = true
    · exact Or.inl hblocked
    · refine Or.inr fun wire hwire m hm => ?_
      have hmem : (subscriber, wire) ∈ (s.replayProxy subscriber e.1 e.2).outbox := by
        unfold replayProxy
        rw [if_neg hblocked]
        exact List.mem_append_right _ (List.mem_map_of_mem hwire)
      obtain ⟨m', -, hm'⟩ := hproper.sent subscriber wire hmem
      cases hm.symm.trans hm'
      rfl
  | _ => trivial

/-- **All frames are proper** in a run whose steps are clean, and after the next step of one they
are exactly when it is. -/
theorem properAndExact (h : (server serverId liveness subscribers).ReachVia (Clean serverId) s) :
    s.ProperFrames serverId ∧
      ∀ e t, s.step serverId e = some t → (t.ProperFrames serverId ↔ s.Clean serverId e) :=
  ⟨(framesInv h).proper, fun _ _ hs => ⟨clean_of_proper hs,
    fun hclean => (framesInv_step (framesInv h) hclean hs).proper⟩⟩

/-- Server 1 passes the SKIP of a proxy on. -/
theorem properAndExact_skip : ∃ s,
    (server 1 .init [⟨"127.0.0.1", 6000⟩]).ReachVia (Clean 1) s ∧
      s.outbox = [(⟨"127.0.0.1", 6000⟩, buildWireBytes 1 0 1 7 [])] ∧ s.ProperFrames 1 ∧
      ∀ e t, s.step 1 e = some t → (t.ProperFrames 1 ↔ s.Clean 1 e) := by
  obtain ⟨s, hs, hp⟩ := @Lts.exists_reachVia_of_run _ _ (server 1 .init [⟨"127.0.0.1", 6000⟩])
    (Clean 1) (fun s e => decide (s.Clean 1 e)) (fun _ _ => of_decide_eq_true)
    [.append (buildWireBytes 1 0 0 7 []), .broadcast (buildWireBytes 1 0 0 7 [])]
    (fun s => decide (s.outbox = [(⟨"127.0.0.1", 6000⟩, buildWireBytes 1 0 1 7 [])])) (by decide)
  exact ⟨s, hs, of_decide_eq_true hp, properAndExact hs⟩

/-- A new subscriber gets the SKIP with the id of the proxy. -/
theorem not_properFrames : ¬ ∀ (serverId : UInt32) (liveness : ProxyLivenessTracker)
    (subscribers : List Address) (s : Server), (server serverId liveness subscribers).Reach s →
      s.ProperFrames serverId := by
  intro h
  obtain ⟨s, hs, hp⟩ := @Lts.exists_reach_of_run _ _ (server 1 .init [])
    [.append (buildWireBytes 1 0 0 7 []), .introduce ⟨"127.0.0.1", 6001⟩, .snapshot,
      .connect true, .replay]
    (fun s => decide ((⟨"127.0.0.1", 6001⟩, buildWireBytes 1 0 0 7 []) ∈ s.outbox)) (by decide)
  obtain ⟨m, -, hm⟩ := (h 1 .init [] s hs).sent _ _ (of_decide_eq_true hp)
  have hsender : (parseFrame (buildWireBytes 1 0 0 7 [])).map Message.senderId = some 0 := by
    decide
  rw [hm] at hsender
  cases hsender

end Server

end Ziplog
