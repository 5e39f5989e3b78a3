import Ziplog.Library.Lts
import Ziplog.Zipper.ProxyRegistry

/-!
# Who is a member

`add_proxy` serves REGISTER_PROXY and REJOIN_PROXY: after a quorum of replies it queues the address
for admission, whether the proxy is new or not. `introduce_proxies` takes the queue at the end of an
epoch and gives each address the next id, in tasks of their own: the id and the entry in
`config_.proxies` under the lock of the registry, the entry in the registry after it. As long as no
REJOIN_PROXY gets its quorum, addresses and ids are one to one (`oneToOne_of_rejoinUnqueued`); a
member whose REJOIN_PROXY gets it has two ids after the next epoch.

The addresses are taken as parsed, and how many servers replied is an argument.
-/

namespace Ziplog

namespace ProxyRegistry

variable {registry : ProxyRegistry}

/-- The address that the registry has for an id. -/
def addressOf (registry : ProxyRegistry) (id : ℕ) : Option Address :=
  (registry.lookup id).map (·.address)

theorem addressOf_insert (registry : ProxyRegistry) (id : ℕ) (st : ProxyState) (id' : ℕ) :
    addressOf (registry.insert id st) id' =
      if id' = id then some st.address else registry.addressOf id' := by
  unfold addressOf
  split_ifs with heq
  · rw [heq, AList.lookup_insert]
    rfl
  · rw [AList.lookup_insert_ne heq]

theorem addressOf_addProxy (registry : ProxyRegistry) (id : ℕ) (address : Address) (id' : ℕ) :
    (registry.addProxy id address).addressOf id' =
      if id' = id then some address else registry.addressOf id' :=
  addressOf_insert registry id _ id'

/-- Other fields may change. -/
theorem addressOf_insert_self {id : ℕ} {old st : ProxyState} (hold : registry.lookup id = some old)
    (haddress : st.address = old.address) (id' : ℕ) :
    addressOf (registry.insert id st) id' = registry.addressOf id' := by
  rw [addressOf_insert]
  split_ifs with heq
  · unfold addressOf
    rw [heq, hold, haddress]
    rfl
  · rfl

theorem addressOf_rejoinProxy (registry : ProxyRegistry) (id id' : ℕ) :
    (registry.rejoinProxy id).addressOf id' = registry.addressOf id' := by
  unfold rejoinProxy
  cases hlookup : registry.lookup id with
  | none => rfl
  | some st =>
    exact @addressOf_insert_self registry id st { address := st.address } hlookup rfl id'

theorem addressOf_ofConfig (proxies : List Address) (id : ℕ) :
    (ofConfig proxies).addressOf id = proxies[id]? := by
  unfold addressOf
  rw [lookup_ofConfig_eq, Option.map_map]
  exact Option.map_id'

end ProxyRegistry

/-! ## Joining and rejoining -/

/-- A call of `add_proxy` that waits for the servers. -/
structure JoinCall where
  address : Address
  isNew : Bool
  deriving DecidableEq

/-- A task of `introduce_proxies`, before and between its two locks. -/
inductive IntroTask
  | assign (address : Address)
  | register (id : ℕ) (address : Address)
  deriving DecidableEq

/-- The members and those who are about to be. `newcomers`, the addresses of REGISTER_PROXY, and
`rejoined`, those of REJOIN_PROXY with the id they had, are recorded only. -/
structure Membership where
  proxies : List Address
  registry : ProxyRegistry
  calls : List JoinCall
  joiningProxies : List Address
  tasks : List IntroTask
  newcomers : List Address
  rejoined : List (ℕ × Address)

inductive MembershipEvent
  | registerProxy (proxyId : ℕ) (address : Address)
  | rejoinProxy (proxyId : ℕ) (address : Address)
  | finish (call : JoinCall) (acks : ℕ)
  | introduceProxies
  | proceed (task : IntroTask)
  | update (proxyId : ℕ) (st : ProxyState)

/-- The events at the end of an epoch. -/
def MembershipEvent.isEpochEnd : MembershipEvent → Bool
  | .introduceProxies | .proceed _ => true
  | .registerProxy .. | .rejoinProxy .. | .finish .. | .update .. => false

namespace Membership

def init (proxies : List Address) : Membership := ⟨proxies, .ofConfig proxies, [], [], [], [], []⟩

/-- `add_proxy` up to the replies of the servers. -/
def addProxy (s : Membership) (proxyId : ℕ) (address : Address) (isNew : Bool) : Membership :=
  { s with
    registry := if isNew then s.registry else s.registry.rejoinProxy proxyId
    calls := s.calls ++ [⟨address, isNew⟩] }

/-- `add_proxy` after them. -/
def finish (quorum : ℕ) (s : Membership) (call : JoinCall) (acks : ℕ) : Membership :=
  { s with
    calls := s.calls.erase call
    joiningProxies :=
      if quorum ≤ acks then s.joiningProxies ++ [call.address] else s.joiningProxies }

def proceed (s : Membership) : IntroTask → Membership
  | .assign address =>
    { s with
      proxies := s.proxies ++ [address]
      tasks := s.tasks.erase (.assign address) ++ [.register s.proxies.length address] }
  | .register id address =>
    { s with
      registry := s.registry.addProxy id address
      tasks := s.tasks.erase (.register id address) }

/-- Slots, reports and answers change entries of the registry, but not their addresses. -/
def step (quorum : ℕ) (s : Membership) : MembershipEvent → Option Membership
  | .registerProxy proxyId address =>
    some { s.addProxy proxyId address true with newcomers := s.newcomers ++ [address] }
  | .rejoinProxy proxyId address =>
    some { s.addProxy proxyId address false with
      rejoined :=
        if s.proxies[proxyId]? = some address then s.rejoined ++ [(proxyId, address)]
        else s.rejoined }
  | .finish call acks => if call ∈ s.calls then some (s.finish quorum call acks) else none
  | .introduceProxies =>
    if s.tasks = [] then
      some { s with joiningProxies := [], tasks := s.joiningProxies.map .assign }
    else none
  | .proceed task => if task ∈ s.tasks then some (s.proceed task) else none
  | .update proxyId st =>
    (s.registry.lookup proxyId).map fun old =>
      { s with registry := s.registry.insert proxyId { st with address := old.address } }

/-- Addresses and ids are one to one. -/
structure OneToOne (s : Membership) : Prop where
  proxies : s.proxies.Nodup
  registry : ∀ i j address, s.registry.addressOf i = some address →
    s.registry.addressOf j = some address → i = j
  introduced : s.tasks = [] → ∀ i address, s.proxies[i]? = some address →
    s.registry.addressOf i = some address
  rejoined : ∀ e ∈ s.rejoined, ∀ i, s.proxies[i]? = some e.2 ↔ i = e.1

/-- A new proxy registers, and does so once. -/
def Once (s : Membership) : MembershipEvent → Prop
  | .registerProxy _ address => address ∉ s.proxies ∧ address ∉ s.newcomers
  | _ => True

/-- In addition, too few servers reply to a REJOIN_PROXY. -/
def RejoinUnqueued (quorum : ℕ) (s : Membership) : MembershipEvent → Prop
  | .registerProxy _ address => address ∉ s.proxies ∧ address ∉ s.newcomers
  | .finish call acks => call.isNew = true ∨ acks < quorum
  | _ => True

end Membership

def membership (quorum : ℕ) (proxies : List Address) : Lts Membership MembershipEvent :=
  ⟨.init proxies, Membership.step quorum⟩

/-! ## Runs -/

namespace Membership

variable {quorum : ℕ} {proxies : List Address} {s t : Membership}

private theorem count_concat {α : Type} [DecidableEq α] (l : List α) (a b : α) :
    (l ++ [b]).count a = l.count a + if b = a then 1 else 0 := by
  rw [List.count_append, List.count_singleton]
  simp only [beq_iff_eq]

private theorem count_erase_add {α : Type} [DecidableEq α] {l : List α} {b : α} (h : b ∈ l)
    (a : α) : (l.erase b).count a + (if b = a then 1 else 0) = l.count a := by
  have hpos := List.count_pos_iff.mpr h
  rw [List.count_erase]
  simp only [beq_iff_eq]
  split_ifs with heq
  · subst heq
    omega
  · rfl

/-- Each address is in one place: a member, about to get an id, queued, or waiting for replies. -/
structure Settled (s : Membership) : Prop where
  once : ∀ a, s.proxies.count a + s.tasks.count (.assign a) + s.joiningProxies.count a +
    s.calls.count ⟨a, true⟩ ≤ 1
  newcomers : ∀ a, a ∉ s.newcomers → s.tasks.count (.assign a) + s.joiningProxies.count a +
    s.calls.count ⟨a, true⟩ = 0
  entry : ∀ i a, s.registry.addressOf i = some a → s.proxies[i]? = some a
  indexed : ∀ i a, s.proxies[i]? = some a →
    s.registry.addressOf i = some a ∨ .register i a ∈ s.tasks
  registering : ∀ i a, .register i a ∈ s.tasks → s.proxies[i]? = some a
  rejoined : ∀ e ∈ s.rejoined, s.proxies[e.1]? = some e.2

theorem settled_init (h : proxies.Nodup) : (init proxies).Settled where
  once := fun a => List.nodup_iff_count_le_one.mp h a
  newcomers := fun _ _ => rfl
  entry := by
    intro i a hi
    rwa [init, ProxyRegistry.addressOf_ofConfig] at hi
  indexed := by
    intro i a hi
    refine Or.inl ?_
    rwa [init, ProxyRegistry.addressOf_ofConfig]
  registering := fun _ _ h => nomatch h
  rejoined := fun _ h => nomatch h

/-- What is in one place is one to one. -/
theorem Settled.oneToOne (h : s.Settled) : s.OneToOne := by
  have hnodup : s.proxies.Nodup := by
    refine List.nodup_iff_count_le_one.mpr fun a => ?_
    have := h.once a
    omega
  have hindex : ∀ {i j : ℕ} {a}, s.proxies[i]? = some a → s.proxies[j]? = some a → i = j := by
    intro i j a hi hj
    have hlt := (List.getElem?_eq_some_iff.mp hi).1
    exact (List.getElem?_inj hlt hnodup).mp (hi.trans hj.symm)
  refine ⟨hnodup, fun i j a hi hj => hindex (h.entry i a hi) (h.entry j a hj), ?_, ?_⟩
  · intro htasks i a hi
    rcases h.indexed i a hi with hentry | htask
    · exact hentry
    · rw [htasks] at htask
      cases htask
  · intro e he i
    constructor
    · intro hi
      exact hindex hi (h.rejoined e he)
    · rintro rfl
      exact h.rejoined e he

/-- The entries of the registry change, but not their addresses. -/
theorem Settled.setRegistry (h : s.Settled) {registry : ProxyRegistry}
    (hsame : ∀ i, registry.addressOf i = s.registry.addressOf i) :
    ({ s with registry := registry } : Membership).Settled := by
  refine ⟨h.once, h.newcomers, fun i a hi => ?_, fun i a hi => ?_, h.registering, h.rejoined⟩
  · rw [hsame] at hi
    exact h.entry i a hi
  · rw [hsame]
    exact h.indexed i a hi

/-- REGISTER_PROXY of a new proxy. -/
theorem Settled.registerProxy (h : s.Settled) {address : Address} (hmember : address ∉ s.proxies)
    (hnew : address ∉ s.newcomers) (proxyId : ℕ) :
    ({ s.addProxy proxyId address true with
      newcomers := s.newcomers ++ [address] } : Membership).Settled := by
  refine ⟨fun a => ?_, fun a ha => ?_, h.entry, h.indexed, h.registering, h.rejoined⟩
  · have honce := h.once a
    simp only [addProxy, count_concat, JoinCall.mk.injEq, and_true]
    split_ifs with heq
    · subst heq
      have hzero := List.count_eq_zero.mpr hmember
      have hnone := h.newcomers address hnew
      omega
    · exact honce
  · have hne : address ≠ a := by
      rintro rfl
      exact ha (List.mem_append_right _ (List.mem_singleton_self _))
    simp only [addProxy, count_concat, JoinCall.mk.injEq, and_true, if_neg hne]
    exact h.newcomers a fun hmem => ha (List.mem_append_left _ hmem)

/-- REJOIN_PROXY resets an entry. -/
theorem Settled.rejoinProxy (h : s.Settled) (proxyId : ℕ) (address : Address) :
    ({ s.addProxy proxyId address false with
      rejoined :=
        if s.proxies[proxyId]? = some address then s.rejoined ++ [(proxyId, address)]
        else s.rejoined } : Membership).Settled := by
  have hcalls (a : Address) :
      (s.addProxy proxyId address false).calls.count ⟨a, true⟩ = s.calls.count ⟨a, true⟩ := by
    simp only [addProxy, count_concat, JoinCall.mk.injEq, Bool.false_eq_true, and_false, if_false,
      Nat.add_zero]
  have hregistry := h.setRegistry (s.registry.addressOf_rejoinProxy proxyId)
  refine ⟨fun a => ?_, fun a ha => ?_, hregistry.entry, hregistry.indexed, h.registering, ?_⟩
  · simp only [hcalls]
    exact h.once a
  · simp only [hcalls]
    exact h.newcomers a ha
  · intro e he
    simp only at he
    split_ifs at he with hmember
    · rcases List.mem_append.mp he with hold | hlast
      · exact h.rejoined e hold
      · rw [List.mem_singleton.mp hlast]
        exact hmember
    · exact h.rejoined e he

/-- `add_proxy` comes back. -/
theorem Settled.finish (h : s.Settled) {call : JoinCall} {acks : ℕ} (hmem : call ∈ s.calls)
    (hguard : call.isNew = true ∨ acks < quorum) : (s.finish quorum call acks).Settled := by
  have hcount (a : Address) : (s.finish quorum call acks).joiningProxies.count a +
      (s.finish quorum call acks).calls.count ⟨a, true⟩ ≤
        s.joiningProxies.count a + s.calls.count ⟨a, true⟩ := by
    have herase := count_erase_add hmem ⟨a, true⟩
    unfold Membership.finish
    by_cases hquorum : quorum ≤ acks
    · have hnew : call.isNew = true := hguard.resolve_right (Nat.not_lt.mpr hquorum)
      have hcall : call = ⟨a, true⟩ ↔ call.address = a := by
        obtain ⟨address, isNew⟩ := call
        simp only at hnew
        rw [hnew, JoinCall.mk.injEq, and_iff_left rfl]
      simp only [if_pos hquorum, count_concat, hcall] at herase ⊢
      omega
    · simp only [if_neg hquorum]
      omega
  refine ⟨fun a => ?_, fun a ha => ?_, h.entry, h.indexed, h.registering, h.rejoined⟩
  · have honce := h.once a
    have hle := hcount a
    show s.proxies.count a + s.tasks.count (.assign a) + _ + _ ≤ 1
    omega
  · have hnone := h.newcomers a ha
    have hle := hcount a
    show s.tasks.count (.assign a) + _ + _ = 0
    omega

/-- `introduce_proxies` starts a task for each address. -/
theorem Settled.introduceProxies (h : s.Settled) (htasks : s.tasks = []) :
    ({ s with
      joiningProxies := []
      tasks := s.joiningProxies.map .assign } : Membership).Settled := by
  have hcount (a : Address) : (s.joiningProxies.map IntroTask.assign).count (.assign a) =
      s.joiningProxies.count a :=
    List.count_map_of_injective _ _ (fun _ _ heq => IntroTask.assign.inj heq) _
  refine ⟨fun a => ?_, fun a ha => ?_, h.entry, fun i a hi => ?_, fun i a hi => ?_, h.rejoined⟩
  · have honce := h.once a
    simp only [hcount, List.count_nil]
    omega
  · have hnone := h.newcomers a ha
    simp only [hcount, List.count_nil]
    omega
  · rcases h.indexed i a hi with hentry | htask
    · exact Or.inl hentry
    · rw [htasks] at htask
      cases htask
  · obtain ⟨a', -, heq⟩ := List.mem_map.mp hi
    cases heq

/-- A task gives its address an id. -/
theorem Settled.assign (h : s.Settled) {address : Address} (hmem : .assign address ∈ s.tasks) :
    (s.proceed (.assign address)).Settled := by
  have hcount (a : Address) : (s.proceed (.assign address)).proxies.count a +
      (s.proceed (.assign address)).tasks.count (.assign a) =
        s.proxies.count a + s.tasks.count (.assign a) := by
    have herase := count_erase_add hmem (.assign a)
    simp only [Membership.proceed, count_concat, IntroTask.assign.injEq, reduceCtorEq, if_false]
      at herase ⊢
    omega
  have hkeep {i : ℕ} {a : Address} (hi : s.proxies[i]? = some a) :
      (s.proxies ++ [address])[i]? = some a :=
    (List.getElem?_append_left (List.getElem?_eq_some_iff.mp hi).1).trans hi
  refine ⟨fun a => ?_, fun a ha => ?_, fun i a hi => hkeep (h.entry i a hi), fun i a hi => ?_,
    fun i a hi => ?_, fun e he => hkeep (h.rejoined e he)⟩
  · have honce := h.once a
    have heq := hcount a
    show _ + s.joiningProxies.count a + s.calls.count ⟨a, true⟩ ≤ 1
    omega
  · have hnone := h.newcomers a ha
    have herase := count_erase_add hmem (.assign a)
    simp only [Membership.proceed, count_concat, reduceCtorEq, if_false]
    omega
  · rw [Membership.proceed, List.getElem?_append] at hi
    split_ifs at hi with hlt
    · rcases h.indexed i a hi with hentry | htask
      · exact Or.inl hentry
      · refine Or.inr (List.mem_append_left _ ?_)
        exact (List.mem_erase_of_ne IntroTask.noConfusion).mpr htask
    · rw [List.getElem?_singleton] at hi
      split_ifs at hi with hzero
      cases hi
      have hi' : i = s.proxies.length := by omega
      rw [hi']
      exact Or.inr (List.mem_append_right _ (List.mem_singleton_self _))
  · rcases List.mem_append.mp hi with hold | hlast
    · exact hkeep (h.registering i a (List.mem_of_mem_erase hold))
    · cases List.mem_singleton.mp hlast
      exact List.getElem?_concat_length

/-- A task enters its address in the registry. -/
theorem Settled.register (h : s.Settled) {id : ℕ} {address : Address}
    (hmem : .register id address ∈ s.tasks) : (s.proceed (.register id address)).Settled := by
  have hcount (a : Address) :
      (s.tasks.erase (.register id address)).count (.assign a) = s.tasks.count (.assign a) := by
    have herase := count_erase_add hmem (.assign a)
    simpa only [reduceCtorEq, if_false, Nat.add_zero] using herase
  have haddress (i : ℕ) : (s.proceed (.register id address)).registry.addressOf i =
      if i = id then some address else s.registry.addressOf i :=
    ProxyRegistry.addressOf_addProxy _ _ _ _
  have hmember := h.registering id address hmem
  refine ⟨fun a => ?_, fun a ha => ?_, fun i a hi => ?_, fun i a hi => ?_, fun i a hi => ?_,
    h.rejoined⟩
  · simp only [Membership.proceed, hcount]
    exact h.once a
  · simp only [Membership.proceed, hcount]
    exact h.newcomers a ha
  · rw [haddress] at hi
    split_ifs at hi with heq
    · cases hi
      rw [heq]
      exact hmember
    · exact h.entry i a hi
  · rw [haddress]
    replace hi : s.proxies[i]? = some a := hi
    split_ifs with heq
    · rw [heq] at hi
      exact Or.inl (hmember.symm.trans hi)
    · rcases h.indexed i a hi with hentry | htask
      · exact Or.inl hentry
      · refine Or.inr ((List.mem_erase_of_ne ?_).mpr htask)
        rintro ⟨⟩
        exact heq rfl
  · exact h.registering i a (List.mem_of_mem_erase hi)

/-- **One step** leaves each address in one place. -/
theorem settled_step (h : s.Settled) {e : MembershipEvent} (hguard : s.RejoinUnqueued quorum e)
    (hs : s.step quorum e = some t) : t.Settled := by
  cases e with
  | registerProxy proxyId address =>
    cases hs
    exact h.registerProxy hguard.1 hguard.2 proxyId
  | rejoinProxy proxyId address =>
    cases hs
    exact h.rejoinProxy proxyId address
  | finish call acks =>
    simp only [step] at hs
    split_ifs at hs with hmem
    cases hs
    exact h.finish hmem hguard
  | introduceProxies =>
    simp only [step] at hs
    split_ifs at hs with htasks
    cases hs
    exact h.introduceProxies htasks
  | proceed task =>
    simp only [step] at hs
    split_ifs at hs with hmem
    cases hs
    cases task with
    | assign address => exact h.assign hmem
    | register id address => exact h.register hmem
  | update proxyId st =>
    obtain ⟨old, hold, rfl⟩ := Option.map_eq_some_iff.mp hs
    exact h.setRegistry (ProxyRegistry.addressOf_insert_self hold rfl)

/-- **Every run** in which no REJOIN_PROXY gets its quorum. -/
theorem settled (hdistinct : proxies.Nodup)
    (h : (membership quorum proxies).ReachVia (RejoinUnqueued quorum) s) : s.Settled :=
  h.invariant Settled (settled_init hdistinct)
    fun _ _ _ _ hsettled hguard hs => settled_step hsettled hguard hs

/-! ## A member that rejoins -/

/-- The locks that the tasks still take. -/
def taskSteps (tasks : List IntroTask) : ℕ :=
  (tasks.map fun task => match task with | .assign _ => 2 | .register .. => 1).sum

/-- The tasks of `introduce_proxies` come to an end. -/
theorem exists_introduced (quorum : ℕ) (proxies : List Address) (s : Membership) : ∃ es t,
    (membership quorum proxies).runVia (fun _ e => e.isEpochEnd) es s = some t ∧ t.tasks = [] ∧
      t.joiningProxies = s.joiningProxies ∧ ∀ a ∈ s.proxies, a ∈ t.proxies := by
  induction hn : taskSteps s.tasks using Nat.strong_induction_on generalizing s with
  | _ n ih =>
    have hgo : ∀ task ∈ s.tasks, taskSteps (s.proceed task).tasks < n →
        (s.proceed task).joiningProxies = s.joiningProxies →
        (∀ a ∈ s.proxies, a ∈ (s.proceed task).proxies) → ∃ es t,
          (membership quorum proxies).runVia (fun _ e => e.isEpochEnd) es s = some t ∧
            t.tasks = [] ∧ t.joiningProxies = s.joiningProxies ∧
              ∀ a ∈ s.proxies, a ∈ t.proxies := by
      intro task htask hlt hjoining hproxies
      have hstep : (membership quorum proxies).step s (.proceed task) = some (s.proceed task) :=
        if_pos htask
      apply Lts.exists_runVia_cons rfl hstep
      obtain ⟨es, t, hrun, htasks, hsame, hmem⟩ := ih _ hlt (s.proceed task) rfl
      exact ⟨es, t, hrun, htasks, hsame.trans hjoining, fun a ha => hmem a (hproxies a ha)⟩
    cases htasks : s.tasks with
    | nil => exact ⟨[], s, rfl, htasks, rfl, fun _ ha => ha⟩
    | cons task rest =>
      rw [htasks] at hn hgo
      have hmem : task ∈ task :: rest := List.mem_cons_self
      cases task with
      | assign address =>
        refine hgo _ hmem ?_ rfl fun a ha => List.mem_append_left _ ha
        rw [proceed, htasks, List.erase_cons_head]
        simp only [taskSteps, List.map_cons, List.map_append, List.sum_cons, List.sum_append,
          List.map_nil, List.sum_nil] at hn ⊢
        omega
      | register id address =>
        refine hgo _ hmem ?_ rfl fun a ha => ha
        rw [proceed, htasks, List.erase_cons_head]
        simp only [taskSteps, List.map_cons, List.sum_cons] at hn ⊢
        omega

/-- A queued member has two entries after the epoch. -/
theorem exists_twice (quorum : ℕ) (proxies : List Address) {address : Address}
    (hmember : address ∈ s.proxies) (hqueued : address ∈ s.joiningProxies) : ∃ es t,
      (membership quorum proxies).runVia (fun _ e => e.isEpochEnd) es s = some t ∧
        ¬ t.OneToOne := by
  obtain ⟨es, t, hrun, htasks, hsame, hkeep⟩ := exists_introduced quorum proxies s
  have htask : IntroTask.assign address ∈ t.joiningProxies.map IntroTask.assign := by
    rw [hsame]
    exact List.mem_map_of_mem hqueued
  let u : Membership := { t with
    joiningProxies := []
    tasks := t.joiningProxies.map .assign }
  have hintroduce : t.step quorum .introduceProxies = some u := if_pos htasks
  have hassign : u.step quorum (.proceed (.assign address)) = some (u.proceed (.assign address)) :=
    if_pos htask
  refine ⟨es ++ [.introduceProxies, .proceed (.assign address)], u.proceed (.assign address), ?_,
    ?_⟩
  · rw [Lts.runVia_append, hrun]
    show ((t.step quorum .introduceProxies).bind fun u =>
      (u.step quorum (.proceed (.assign address))).bind some) = _
    rw [hintroduce, Option.bind_some, hassign, Option.bind_some]
  · intro h
    have hnodup : (t.proxies ++ [address]).Nodup := h.proxies
    exact (List.nodup_append.mp hnodup).2.2 address (hkeep address hmember) address
      (List.mem_singleton_self _) rfl

/-- **Membership stays one to one** in a run in which no REJOIN_PROXY gets a quorum of replies. Once
the REJOIN_PROXY of a member gets it, the end of the epoch can break it. -/
theorem oneToOne_of_rejoinUnqueued (hdistinct : proxies.Nodup)
    (h : (membership quorum proxies).ReachVia (RejoinUnqueued quorum) s) :
    s.OneToOne ∧ ∀ address acks t, address ∈ s.proxies → quorum ≤ acks →
      s.step quorum (.finish ⟨address, false⟩ acks) = some t → ∃ es u,
        (membership quorum proxies).runVia (fun _ e => e.isEpochEnd) es t = some u ∧
          ¬ u.OneToOne := by
  refine ⟨(settled hdistinct h).oneToOne, fun address acks t hmember hquorum hs => ?_⟩
  simp only [step] at hs
  split_ifs at hs
  cases hs
  refine exists_twice quorum proxies hmember ?_
  rw [finish, if_pos hquorum]
  exact List.mem_append_right _ (List.mem_singleton_self _)

instance (s : Membership) (e : MembershipEvent) : Decidable (s.RejoinUnqueued quorum e) :=
  match e with
  | .registerProxy _ _ => inferInstanceAs (Decidable (_ ∧ _))
  | .finish _ _ => inferInstanceAs (Decidable (_ ∨ _))
  | .rejoinProxy _ _ | .introduceProxies | .proceed _ | .update _ _ => .isTrue trivial

instance (s : Membership) (e : MembershipEvent) : Decidable (s.Once e) :=
  match e with
  | .registerProxy _ _ => inferInstanceAs (Decidable (_ ∧ _))
  | .finish _ _ | .rejoinProxy _ _ | .introduceProxies | .proceed _ | .update _ _ => .isTrue trivial

/-- A second proxy joins, and the first rejoins without a quorum. -/
theorem oneToOne_of_rejoinUnqueued_twoProxies :
    ∃ s, (membership 2 [⟨"127.0.0.1", 50000⟩]).ReachVia (RejoinUnqueued 2) s ∧
      s.proxies.length = 2 ∧ s.tasks = [] ∧ s.OneToOne ∧
      ∀ address acks t, address ∈ s.proxies → 2 ≤ acks →
        s.step 2 (.finish ⟨address, false⟩ acks) = some t → ∃ es u,
          (membership 2 [⟨"127.0.0.1", 50000⟩]).runVia (fun _ e => e.isEpochEnd) es t = some u ∧
            ¬ u.OneToOne := by
  obtain ⟨s, hs, hp⟩ := @Lts.exists_reachVia_of_run _ _ (membership 2 [⟨"127.0.0.1", 50000⟩])
    (RejoinUnqueued 2) (fun s e => decide (s.RejoinUnqueued 2 e)) (fun _ _ => of_decide_eq_true)
    [.registerProxy 1 ⟨"127.0.0.1", 50001⟩, .finish ⟨⟨"127.0.0.1", 50001⟩, true⟩ 2,
      .rejoinProxy 0 ⟨"127.0.0.1", 50000⟩, .introduceProxies,
      .proceed (.assign ⟨"127.0.0.1", 50001⟩),
      .finish ⟨⟨"127.0.0.1", 50000⟩, false⟩ 1, .proceed (.register 1 ⟨"127.0.0.1", 50001⟩)]
    (fun s => decide (s.proxies.length = 2 ∧ s.tasks = [])) (by decide +kernel)
  obtain ⟨hlen, htasks⟩ := of_decide_eq_true hp
  exact ⟨s, hs, hlen, htasks, oneToOne_of_rejoinUnqueued (by decide) hs⟩

/-- A member that rejoins has two ids. -/
theorem not_oneToOne : ¬ ∀ (quorum : ℕ) (proxies : List Address) (s : Membership), proxies.Nodup →
    (membership quorum proxies).ReachVia Once s → s.OneToOne := by
  intro h
  obtain ⟨s, hs, hp⟩ := @Lts.exists_reachVia_of_run _ _ (membership 1 [⟨"127.0.0.1", 50000⟩]) Once
    (fun s e => decide (s.Once e)) (fun _ _ => of_decide_eq_true)
    [.rejoinProxy 0 ⟨"127.0.0.1", 50000⟩, .finish ⟨⟨"127.0.0.1", 50000⟩, false⟩ 1,
      .introduceProxies, .proceed (.assign ⟨"127.0.0.1", 50000⟩),
      .proceed (.register 1 ⟨"127.0.0.1", 50000⟩)]
    (fun s => decide (s.proxies = [⟨"127.0.0.1", 50000⟩, ⟨"127.0.0.1", 50000⟩])) (by decide +kernel)
  have hproxies := of_decide_eq_true hp
  have hnodup := (h 1 _ s (by decide) hs).proxies
  rw [hproxies] at hnodup
  exact absurd hnodup (by decide)

end Membership

end Ziplog
