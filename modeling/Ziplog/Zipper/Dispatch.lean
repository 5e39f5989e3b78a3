import Ziplog.Api.Numerals
import Ziplog.Api.Message
import Ziplog.Zipper.FreezeAgreement
import Ziplog.Zipper.SlotAllocator

/-!
# The messages of the zipper

`Zipper::handle_connection` hands each message to the handler of its type. The handlers read fields
through accessors with assertions, take the front of `ordering_values` and convert text to a number,
and nothing catches what goes wrong there: it ends the process. `survives_iff` says for which
messages, in which states of the registry, the handlers get through, with the registry and the queue
of joining proxies untouched when the message is malformed.

The replies of the servers are an argument: how many of them came.
-/

namespace Ziplog

/-- What ends the process: an access outside a vector, a failed assertion, or an exception that
escapes the thread. -/
inductive ZipperFault
  | outOfRange
  | assertion
  | exception
  deriving DecidableEq, Repr

/-! ## Accessors -/

namespace Message

def hasType (m : Message) (types : List MessageTypes) : Bool :=
  types.any fun type => m.type = type.value

def getSequenceNumber (m : Message) : Except ZipperFault ℕ :=
  if m.hasType [.append, .skip, .ack, .transferRequest, .freezeResponse, .freezeComplete] then
    if m.hasType [.transferRequest, .freezeResponse] then
      match m.orderingValues with
      | _ :: seq :: _ => .ok seq.toNat
      | _ => .error .assertion
    else .ok m.seqOrCount.toNat
  else .error .assertion

/-- The cast to `NodeId` keeps 32 bits. -/
def getFailedProxy (m : Message) : Except ZipperFault ℕ :=
  if m.hasType [.report] then .ok m.seqOrCount.toUInt32.toNat
  else if m.hasType [.freeze, .freezeResponse, .transferRequest, .freezeComplete] then
    match m.orderingValues with
    | id :: _ => .ok id.toUInt32.toNat
    | [] => .error .outOfRange
  else .error .assertion

/-- The conversion to `int` keeps 32 bits, with a sign. -/
def getRound (m : Message) : Except ZipperFault ℤ :=
  if m.hasType [.freeze, .freezeResponse, .transferRequest] then
    .ok m.seqOrCount.toUInt32.toInt32.toInt
  else .error .assertion

def getNumRequests (m : Message) : Except ZipperFault ℕ :=
  if m.hasType [.zipRequest, .zipResponse] then .ok m.seqOrCount.toNat else .error .assertion

end Message

/-! ## Addresses -/

/-- What stands in front of the first colon. -/
def ipText (addrInfo : List UInt8) : List UInt8 := addrInfo.takeWhile (· ≠ 58)

/-- What stands behind the first colon; the whole text when there is none. -/
def portText (addrInfo : List UInt8) : List UInt8 :=
  if 58 ∈ addrInfo then (addrInfo.dropWhile (· ≠ 58)).tail else addrInfo

/-- The address has a port from 1 to 65535. -/
def ValidPort (addrInfo : List UInt8) : Prop :=
  58 ∈ addrInfo ∧ ∃ port ∈ stoi (portText addrInfo), 1 ≤ port ∧ port ≤ 65535

/-! ## The handlers -/

structure Zipper where
  shard : ℕ
  quorum : ℕ
  numProxies : ℕ
  reconfig : ReconfigState
  slotAllocator : SlotAllocator
  joiningProxies : List (List UInt8 × ℤ)
  subscribers : List (List UInt8 × ℤ)

namespace Zipper

abbrev registry (s : Zipper) : ProxyRegistry := s.reconfig.registry

def updateSlotEstimate (s : Zipper) (req : Message) : Except ZipperFault Zipper :=
  if req.shardId.toNat ≠ s.shard ∨ s.numProxies ≤ req.senderId.toNat then .ok s
  else do
    let numRequests ← req.getNumRequests
    return { s with slotAllocator := s.slotAllocator.updateEstimate req.senderId.toNat numRequests }

def handleReport (s : Zipper) (msg : Message) : Except ZipperFault Zipper := do
  let failedProxy ← msg.getFailedProxy
  return { s with reconfig := s.reconfig.handleReport s.quorum msg.senderId.toNat failedProxy }

/-- The number is read after the sender has been entered. -/
def handleFreezeResponse (s : Zipper) (msg : Message) : Except ZipperFault Zipper := do
  let failedProxy ← msg.getFailedProxy
  match s.registry.lookup failedProxy with
  | none => return s
  | some st =>
    let round ← msg.getRound
    if round ≠ st.freezeRound then return s
    else
      let seq ← msg.getSequenceNumber
      return { s with
        reconfig := s.reconfig.handleFreezeResponse s.quorum msg.senderId.toNat failedProxy
          st.freezeRound seq }

def addProxy (s : Zipper) (msg : Message) (isNew : Bool) (acks : ℕ) : Except ZipperFault Zipper :=
  match stoi (portText msg.data) with
  | none => .error .exception
  | some port =>
    let registry := if isNew then s.registry else s.registry.rejoinProxy msg.senderId.toNat
    .ok { s with
      reconfig := { s.reconfig with registry := registry }
      joiningProxies :=
        if s.quorum ≤ acks then s.joiningProxies ++ [(ipText msg.data, port)]
        else s.joiningProxies }

def introduceSubscriber (s : Zipper) (msg : Message) (acks : ℕ) : Except ZipperFault Zipper :=
  match stoi (portText msg.data) with
  | none => .error .exception
  | some port =>
    .ok { s with
      subscribers :=
        if s.quorum ≤ acks then s.subscribers ++ [(ipText msg.data, port)] else s.subscribers }

/-- One round of `handle_connection`. -/
def handle (s : Zipper) (req : Message) (acks : ℕ) : Except ZipperFault Zipper :=
  if req.hasType [.zipRequest] then s.updateSlotEstimate req
  else if req.hasType [.report] then s.handleReport req
  else if req.hasType [.freezeResponse] then s.handleFreezeResponse req
  else if req.hasType [.registerProxy] then s.addProxy req true acks
  else if req.hasType [.rejoinProxy] then s.addProxy req false acks
  else if req.hasType [.registerSubscriber] then s.introduceSubscriber req acks
  else .ok s

end Zipper

/-! ## Which messages are handled -/

namespace Message

/-- The tests on a message of a known type. -/
theorem hasType_eq {m : Message} {type : MessageTypes} (h : m.type = type.value)
    (types : List MessageTypes) :
    m.hasType types = types.any fun other => type.value = other.value := by
  unfold hasType
  rw [h]

/-- The data or the values of the message are not what its type calls for. -/
def Malformed (m : Message) : Prop :=
  m.hasType [.registerProxy, .rejoinProxy, .registerSubscriber] = true ∧ ¬ ValidPort m.data ∨
    m.hasType [.freezeResponse] = true ∧ m.orderingValues.length < 2

end Message

namespace Zipper

/-- What a handler leaves behind: what its thread does next is about a proxy in the registry, and
a malformed message changes nothing. -/
structure Kept (s : Zipper) (malformed : Prop) (t : Zipper) : Prop where
  tasks : ∀ task ∈ t.reconfig.tasks,
    task ∈ s.reconfig.tasks ∨ ∃ st, t.registry.lookup task.failedProxy = some st
  unchanged : malformed → t.registry = s.registry ∧ t.joiningProxies = s.joiningProxies

/-- Whatever the servers reply, the handler of the message gets through. -/
def Survives (s : Zipper) (msg : Message) : Prop :=
  ∀ acks, ∃ t, s.handle msg acks = .ok t ∧ s.Kept msg.Malformed t

/-- A FREEZE_RESPONSE has both of its values, or only the first and is not looked at further. -/
def Answers (s : Zipper) (msg : Message) : Prop :=
  2 ≤ msg.orderingValues.length ∨ ∃ id, msg.orderingValues = [id] ∧
    ∀ st, s.registry.lookup id.toUInt32.toNat = some st →
      msg.seqOrCount.toUInt32.toInt32.toInt ≠ st.freezeRound

/-- The message is what its handler takes it for. -/
structure Sound (s : Zipper) (msg : Message) : Prop where
  freezeResponse : msg.hasType [.freezeResponse] = true → s.Answers msg
  proxy : msg.hasType [.registerProxy, .rejoinProxy] = true → ValidPort msg.data
  subscriber : msg.hasType [.registerSubscriber] = true → (stoi (portText msg.data)).isSome

theorem kept_self {s : Zipper} {malformed : Prop} : s.Kept malformed s :=
  ⟨fun _ => Or.inl, fun _ => ⟨rfl, rfl⟩⟩

variable {s : Zipper} {msg : Message}

theorem addProxy_iff (isNew : Bool) :
    (∀ acks, ∃ t, s.addProxy msg isNew acks = .ok t ∧ s.Kept (¬ ValidPort msg.data) t) ↔
      ValidPort msg.data := by
  unfold addProxy
  constructor
  · intro h
    by_contra hport
    -- every server replies
    obtain ⟨t, ht, hkept⟩ := h s.quorum
    cases hstoi : stoi (portText msg.data) with
    | none =>
      rw [hstoi] at ht
      cases ht
    | some port =>
      rw [hstoi] at ht
      cases ht
      have hjoining := (hkept.unchanged hport).2
      simp only [if_pos (Nat.le_refl _)] at hjoining
      exact absurd (List.append_right_eq_self.mp hjoining) (List.cons_ne_nil _ _)
  · intro hport acks
    obtain ⟨-, port, hstoi, -⟩ := id hport
    rw [Option.mem_def.mp hstoi]
    exact ⟨_, rfl, fun _ => Or.inl, fun hbad => absurd hport hbad⟩

theorem introduceSubscriber_iff {malformed : Prop} :
    (∀ acks, ∃ t, s.introduceSubscriber msg acks = .ok t ∧ s.Kept malformed t) ↔
      (stoi (portText msg.data)).isSome := by
  unfold introduceSubscriber
  cases stoi (portText msg.data) with
  | none =>
    refine iff_of_false (fun h => ?_) Bool.false_ne_true
    obtain ⟨t, ht, -⟩ := h 0
    cases ht
  | some port => exact iff_of_true (fun acks => ⟨_, rfl, fun _ => Or.inl, fun _ => ⟨rfl, rfl⟩⟩) rfl

/-- A task about a registered proxy joins the others. -/
theorem known_of_mem_concat {tasks : List ReconfigTask} {task new : ReconfigTask}
    {registry : ProxyRegistry} {st : ProxyState} (htask : task ∈ tasks ++ [new])
    (hnew : registry.lookup new.failedProxy = some st) :
    task ∈ tasks ∨ ∃ st, registry.lookup task.failedProxy = some st := by
  rcases List.mem_append.mp htask with hold | hlast
  · exact Or.inl hold
  · rw [List.mem_singleton.mp hlast]
    exact Or.inr ⟨st, hnew⟩

/-- The thread of a report goes on about a registered proxy. -/
theorem kept_report (sender p : ℕ) {malformed : Prop} (hgood : ¬ malformed) :
    s.Kept malformed { s with reconfig := s.reconfig.handleReport s.quorum sender p } := by
  refine ⟨fun task htask => ?_, fun hbad => absurd hbad hgood⟩
  unfold ReconfigState.handleReport at htask ⊢
  cases hst : s.reconfig.registry.lookup p with
  | none =>
    simp only [hst] at htask
    exact Or.inl htask
  | some st =>
    simp only [hst] at htask ⊢
    split_ifs at htask ⊢
    · exact Or.inl htask
    · exact Or.inl htask
    · exact known_of_mem_concat htask (ReconfigState.lookup_setProxy _ _ _)

/-- So does that of an answer that is counted. -/
theorem kept_freezeResponse {p sender seq : ℕ} {st : ProxyState}
    (hst : s.registry.lookup p = some st) {malformed : Prop} (hgood : ¬ malformed) :
    s.Kept malformed { s with
      reconfig := s.reconfig.handleFreezeResponse s.quorum sender p st.freezeRound seq } := by
  refine ⟨fun task htask => ?_, fun hbad => absurd hbad hgood⟩
  unfold ReconfigState.handleFreezeResponse at htask ⊢
  simp only [hst, ne_eq, not_true_eq_false, if_false] at htask ⊢
  cases hv : (st.addResponse sender seq).verdict s.quorum with
  | waiting =>
    simp only [hv] at htask
    exact Or.inl htask
  | noConsensus =>
    simp only [hv] at htask ⊢
    exact known_of_mem_concat htask (ReconfigState.lookup_setProxy _ _ _)
  | consensus lastSeq =>
    simp only [hv] at htask ⊢
    exact known_of_mem_concat htask (ReconfigState.lookup_setProxy _ _ _)

theorem handleFreezeResponse_iff (htype : msg.type = MessageTypes.freezeResponse.value) :
    (∃ t, s.handleFreezeResponse msg = .ok t ∧ s.Kept (msg.orderingValues.length < 2) t) ↔
      s.Answers msg := by
  have hreport : msg.hasType [.report] = false := Message.hasType_eq htype _
  have hfreeze : msg.hasType [.freeze, .freezeResponse, .transferRequest] = true :=
    Message.hasType_eq htype _
  have hproxy : msg.hasType [.freeze, .freezeResponse, .transferRequest, .freezeComplete] = true :=
    Message.hasType_eq htype _
  have hsecond : msg.hasType [.transferRequest, .freezeResponse] = true :=
    Message.hasType_eq htype _
  have hseq : msg.hasType [.append, .skip, .ack, .transferRequest, .freezeResponse,
      .freezeComplete] = true := Message.hasType_eq htype _
  unfold handleFreezeResponse Message.getFailedProxy Message.getRound Message.getSequenceNumber
  simp only [hreport, hfreeze, hproxy, hsecond, hseq, if_true, Bool.false_eq_true, if_false]
  unfold Answers
  rcases msg.orderingValues with _ | ⟨id, _ | ⟨seq, values⟩⟩
  · refine iff_of_false ?_ ?_
    · rintro ⟨t, ht, -⟩
      cases ht
    · rintro (hlen | ⟨id, hid, -⟩)
      · exact absurd hlen (by decide)
      · cases hid
  · simp only [bind, Except.bind, pure, Except.pure]
    cases hst : s.registry.lookup id.toUInt32.toNat with
    | none =>
      refine iff_of_true ⟨s, rfl, kept_self⟩ (Or.inr ⟨id, rfl, fun st hst' => ?_⟩)
      cases hst.symm.trans hst'
    | some st =>
      simp only
      by_cases hstale : msg.seqOrCount.toUInt32.toInt32.toInt ≠ st.freezeRound
      · rw [if_pos hstale]
        refine iff_of_true ⟨s, rfl, kept_self⟩ (Or.inr ⟨id, rfl, fun st' hst' => ?_⟩)
        cases hst.symm.trans hst'
        exact hstale
      · rw [if_neg hstale]
        refine iff_of_false ?_ ?_
        · rintro ⟨t, ht, -⟩
          cases ht
        · rintro (hlen | ⟨id', hid, hround⟩)
          · exact absurd hlen (Nat.not_le.mpr (Nat.lt_succ_self 1))
          · cases hid
            exact hstale (hround st hst)
  · have hlen : 2 ≤ (id :: seq :: values).length := by
      rw [List.length_cons, List.length_cons]
      omega
    have hgood : ¬ (id :: seq :: values).length < 2 := Nat.not_lt.mpr hlen
    refine iff_of_true ?_ (Or.inl hlen)
    simp only [bind, Except.bind, pure, Except.pure]
    cases hst : s.registry.lookup id.toUInt32.toNat with
    | none => exact ⟨s, rfl, kept_self⟩
    | some st =>
      simp only
      split_ifs
      · exact ⟨s, rfl, kept_self⟩
      · exact ⟨_, rfl, kept_freezeResponse hst hgood⟩

/-! ## Every message -/

/-- Only two kinds of messages can be malformed. -/
theorem malformed_iff_address {type : MessageTypes} (htype : msg.type = type.value)
    (hin : ([.registerProxy, .rejoinProxy, .registerSubscriber] : List MessageTypes).any
      (fun other => type.value = other.value) = true)
    (hout : ([.freezeResponse] : List MessageTypes).any
      (fun other => type.value = other.value) = false) :
    msg.Malformed ↔ ¬ ValidPort msg.data := by
  unfold Message.Malformed
  rw [Message.hasType_eq htype, Message.hasType_eq htype, hin, hout]
  simp

theorem survives_zipRequest (htype : msg.type = MessageTypes.zipRequest.value) :
    s.Survives msg := by
  intro acks
  have hhandle : s.handle msg acks = s.updateSlotEstimate msg :=
    if_pos (Message.hasType_eq htype _)
  have hrequests : msg.getNumRequests = .ok msg.seqOrCount.toNat :=
    if_pos (Message.hasType_eq htype _)
  rw [hhandle]
  unfold updateSlotEstimate
  split_ifs
  · exact ⟨s, rfl, kept_self⟩
  · rw [hrequests]
    exact ⟨_, rfl, fun _ => Or.inl, fun _ => ⟨rfl, rfl⟩⟩

theorem survives_report (htype : msg.type = MessageTypes.report.value) : s.Survives msg := by
  intro acks
  have hhandle : s.handle msg acks = s.handleReport msg := by
    unfold handle
    simp only [Message.hasType_eq htype]
    rfl
  have hproxy : msg.getFailedProxy = .ok msg.seqOrCount.toUInt32.toNat :=
    if_pos (Message.hasType_eq htype _)
  have hgood : ¬ msg.Malformed := by
    rintro (⟨hkind, -⟩ | ⟨hkind, -⟩) <;>
    · rw [Message.hasType_eq htype] at hkind
      cases hkind
  rw [hhandle]
  unfold handleReport
  rw [hproxy]
  exact ⟨_, rfl, kept_report _ _ hgood⟩

theorem survives_freezeResponse (htype : msg.type = MessageTypes.freezeResponse.value) :
    s.Survives msg ↔ s.Answers msg := by
  have hhandle : ∀ acks, s.handle msg acks = s.handleFreezeResponse msg := by
    intro acks
    unfold handle
    simp only [Message.hasType_eq htype]
    rfl
  have hmalformed : msg.Malformed ↔ msg.orderingValues.length < 2 := by
    unfold Message.Malformed
    rw [Message.hasType_eq htype, Message.hasType_eq htype]
    simp [MessageTypes.value]
  rw [← handleFreezeResponse_iff htype]
  unfold Survives
  simp only [hhandle, hmalformed]
  exact ⟨fun h => h 0, fun h _ => h⟩

/-- A request to add a proxy. -/
theorem survives_proxy (isNew : Bool)
    (hhandle : ∀ acks, s.handle msg acks = s.addProxy msg isNew acks)
    (hmalformed : msg.Malformed ↔ ¬ ValidPort msg.data) : s.Survives msg ↔ ValidPort msg.data := by
  unfold Survives
  simp only [hhandle, hmalformed]
  exact addProxy_iff isNew

theorem survives_subscriber (htype : msg.type = MessageTypes.registerSubscriber.value) :
    s.Survives msg ↔ (stoi (portText msg.data)).isSome := by
  have hhandle : ∀ acks, s.handle msg acks = s.introduceSubscriber msg acks := by
    intro acks
    unfold handle
    simp only [Message.hasType_eq htype]
    rfl
  unfold Survives
  simp only [hhandle]
  exact introduceSubscriber_iff

/-- What is required of a message, type by type. -/
theorem sound_iff {type : MessageTypes} (htype : msg.type = type.value) : s.Sound msg ↔
    (type = .freezeResponse → s.Answers msg) ∧
      (type = .registerProxy ∨ type = .rejoinProxy → ValidPort msg.data) ∧
        (type = .registerSubscriber → (stoi (portText msg.data)).isSome) := by
  have hfreeze : msg.hasType [.freezeResponse] = true ↔ type = .freezeResponse := by
    rw [Message.hasType_eq htype]
    cases type <;> decide
  have hproxy : msg.hasType [.registerProxy, .rejoinProxy] = true ↔
      type = .registerProxy ∨ type = .rejoinProxy := by
    rw [Message.hasType_eq htype]
    cases type <;> decide
  have hsubscriber : msg.hasType [.registerSubscriber] = true ↔ type = .registerSubscriber := by
    rw [Message.hasType_eq htype]
    cases type <;> decide
  constructor
  · intro h
    exact ⟨fun ht => h.freezeResponse (hfreeze.mpr ht), fun ht => h.proxy (hproxy.mpr ht),
      fun ht => h.subscriber (hsubscriber.mpr ht)⟩
  · rintro ⟨h₁, h₂, h₃⟩
    exact ⟨fun ht => h₁ (hfreeze.mp ht), fun ht => h₂ (hproxy.mp ht),
      fun ht => h₃ (hsubscriber.mp ht)⟩

/-- The messages for the zipper. -/
def handled : List MessageTypes :=
  [.zipRequest, .report, .freezeResponse, .registerProxy, .rejoinProxy, .registerSubscriber]

/-- A message of another type passes. -/
theorem survives_other (h : ∀ type ∈ handled, msg.type ≠ type.value) :
    s.Survives msg ∧ s.Sound msg := by
  have hnone : ∀ types : List MessageTypes, (∀ type ∈ types, type ∈ handled) →
      msg.hasType types = false := by
    intro types htypes
    refine List.any_eq_false.mpr fun type htype => ?_
    rw [decide_eq_true_eq]
    exact h type (htypes type htype)
  have hfalse : ∀ types : List MessageTypes, (∀ type ∈ types, type ∈ handled) →
      ¬ msg.hasType types = true := fun types htypes htrue =>
    Bool.false_ne_true ((hnone types htypes).symm.trans htrue)
  refine ⟨fun acks => ⟨s, ?_, kept_self⟩, ?_, ?_, ?_⟩
  · unfold handle
    rw [hnone _ (by decide), hnone _ (by decide), hnone _ (by decide), hnone _ (by decide),
      hnone _ (by decide), hnone _ (by decide)]
    rfl
  · exact fun htrue => absurd htrue (hfalse _ (by decide))
  · exact fun htrue => absurd htrue (hfalse _ (by decide))
  · exact fun htrue => absurd htrue (hfalse _ (by decide))

/-- **The zipper survives** a message in a state of the registry exactly when the message is what
its handler takes it for. -/
theorem survives_iff (s : Zipper) (msg : Message) : s.Survives msg ↔ s.Sound msg := by
  by_cases hknown : ∃ type ∈ handled, msg.type = type.value
  · obtain ⟨type, hmem, htype⟩ := hknown
    rw [sound_iff htype]
    simp only [handled, List.mem_cons, List.not_mem_nil, or_false] at hmem
    rcases hmem with rfl | rfl | rfl | rfl | rfl | rfl
    · simpa using survives_zipRequest htype
    · simpa using survives_report htype
    · simpa using survives_freezeResponse htype
    · have hhandle : ∀ acks, s.handle msg acks = s.addProxy msg true acks := by
        intro acks
        unfold handle
        simp only [Message.hasType_eq htype]
        rfl
      simpa using survives_proxy true hhandle (malformed_iff_address htype (by decide) (by decide))
    · have hhandle : ∀ acks, s.handle msg acks = s.addProxy msg false acks := by
        intro acks
        unfold handle
        simp only [Message.hasType_eq htype]
        rfl
      simpa using survives_proxy false hhandle (malformed_iff_address htype (by decide) (by decide))
    · simpa using survives_subscriber htype
  · push Not at hknown
    exact iff_of_true (survives_other hknown).1 (survives_other hknown).2

/-- A zipper of one proxy. -/
def oneProxy : Zipper := ⟨0, 1, 1, .init [⟨"127.0.0.1", 50000⟩], .init 1, [], []⟩

/-- A FREEZE_RESPONSE without values ends the process. -/
theorem not_survives : ¬ ∀ (s : Zipper) (msg : Message), s.Survives msg := by
  intro h
  obtain ⟨t, ht, -⟩ := h oneProxy ⟨MessageTypes.freezeResponse.value, 0, 0, 0, [], []⟩ 0
  cases ht

end Zipper

/-! ## What follows a message -/

namespace ReconfigState

variable {quorum : ℕ} {s t : ReconfigState}

/-- Each waiting section is about a registered proxy. -/
def Grounds (s : ReconfigState) : Prop :=
  ∀ task ∈ s.tasks, ∃ st, s.registry.lookup task.failedProxy = some st

/-- A registered proxy stays registered. -/
theorem lookup_step {e : ReconfigEvent} (hs : s.step quorum e = some t) {p : ℕ}
    (hp : ∃ st, s.registry.lookup p = some st) : ∃ st, t.registry.lookup p = some st := by
  have hset (q : ℕ) (st : ProxyState) : ∃ st', (s.setProxy q st).registry.lookup p = some st' := by
    by_cases hpq : p = q
    · subst hpq
      exact ⟨_, lookup_setProxy s p st⟩
    · obtain ⟨st', hst'⟩ := hp
      exact ⟨st', (AList.lookup_insert_ne hpq).trans hst'⟩
  cases effect_of_step hs with
  | reported | reconfiguring | waiting | noConsensus | consensus | startRound | block | allocate =>
    exact hset _ _
  | @rejoin id =>
    show ∃ st, (s.registry.rejoinProxy id).lookup p = some st
    unfold ProxyRegistry.rejoinProxy
    cases s.registry.lookup id with
    | none => exact hp
    | some st => exact hset id _
  | _ => exact hp

/-- A new section is about a registered proxy. -/
theorem task_step {e : ReconfigEvent} (hs : s.step quorum e = some t) {task : ReconfigTask}
    (htask : task ∈ t.tasks) : task ∈ s.tasks ∨
      (∃ st, t.registry.lookup task.failedProxy = some st) ∨
        ∃ before ∈ s.tasks, before.failedProxy = task.failedProxy := by
  have herase {other : ReconfigTask} (h : task ∈ (s.finish other).tasks) : task ∈ s.tasks :=
    List.mem_of_mem_erase h
  cases effect_of_step hs with
  | reconfiguring | noConsensus | consensus =>
    rcases List.mem_append.mp htask with htask | htask
    · exact Or.inl htask
    · rw [List.mem_singleton.mp htask]
      exact Or.inr (Or.inl ⟨_, lookup_setProxy _ _ _⟩)
  | startRound hbefore | readRound hbefore | block hbefore | skip hbefore | used hbefore =>
    rcases List.mem_append.mp htask with htask | htask
    · exact Or.inl (herase htask)
    · rw [List.mem_singleton.mp htask]
      exact Or.inr (Or.inr ⟨_, hbefore, rfl⟩)
  | broadcastFreeze | completed => exact Or.inl (herase htask)
  | _ => exact Or.inl htask

theorem grounds_step {e : ReconfigEvent} (h : s.Grounds) (hs : s.step quorum e = some t) :
    t.Grounds := by
  intro task htask
  rcases task_step hs htask with hbefore | hlookup | ⟨before, hbefore, hsame⟩
  · exact lookup_step hs (h task hbefore)
  · exact hlookup
  · rw [← hsame]
    exact lookup_step hs (h before hbefore)

/-- **No section fails**: in every run, each section that waits finds its proxy in the registry. -/
theorem proceed_of_reach {proxies : List Address} (h : (reconfig quorum proxies).Reach s)
    {task : ReconfigTask} (htask : task ∈ s.tasks) : (s.step quorum (.proceed task)).isSome := by
  have hgrounds : s.Grounds := h.invariant Grounds (fun _ hnone => absurd hnone List.not_mem_nil)
    fun _ _ _ _ hs _ hstep => grounds_step hs hstep
  obtain ⟨st, hst⟩ := hgrounds task htask
  unfold step
  simp only [if_pos htask]
  cases task with
  | sendFreeze p firstRound | readRound p | sendFreezeComplete p lastSeq =>
    have hlookup : s.registry.lookup p = some st := hst
    simp only [proceed, finish, hlookup, Option.map_some, Option.isSome_some]
  | broadcastFreeze p round => rfl
  | sendSkips p lastSeq allocated => cases allocated <;> rfl

end ReconfigState

end Ziplog
