import Ziplog.Proxy.ClientConnections

/-!
# Responses to clients

The result of a batch is sent to the socket numbers drained with it. These are the connections that
the commands came on as long as no number is given to a new connection while the buffer, the batch
or the thread of an old connection still refers to it, and as long as every push stays in the block
of the buffer. Then `rightResponses` holds; a number that is given out earlier may get a SUCCESS for
nothing (`not_rightResponses`).
-/

namespace Ziplog

open ClientBufferManager

namespace Proxy

variable {registered : Bool} {s t : Proxy}

structure RightResponses (s : Proxy) : Prop where
  /-- A SUCCESS is that of a batch with a command of the connection. -/
  own : ∀ (i : ℕ) (c : ClientConnection) (n : ℕ), s.connections[i]? = some c →
    (n, true) ∈ c.answers → s.results[n]? = some true ∧
      ∃ batch cmd, s.batches[n]? = some batch ∧ (i, cmd) ∈ batch
  once : ∀ (i : ℕ) (c : ClientConnection), s.connections[i]? = some c →
    (c.answers.map Prod.fst).Nodup
  /-- Once the loop over the clients of a batch is through, all have the result. -/
  answered : ∀ (n : ℕ) (batch : List (ℕ × Command)) (success : Bool),
    s.batches[n]? = some batch → s.results[n]? = some success →
    s.responding = none ∨ n + 1 < s.results.length → ∀ (i : ℕ) (cmd : Command)
      (c : ClientConnection), (i, cmd) ∈ batch → s.connections[i]? = some c →
      c.phase = .reading → (n, success) ∈ c.answers

/-- A number is given out when it is not in the batch that is being sent and the threads of all
connections that had it have removed it. -/
def NumberFree (s : Proxy) : ProxyEvent → Prop
  | .accept socket =>
    socket ∉ s.clients ∧ ∀ c ∈ s.connections, c.socket = socket → c.phase = .finished
  | _ => True

instance (s : Proxy) (e : ProxyEvent) : Decidable (s.NumberFree e) :=
  match e with
  | .accept socket => inferInstanceAs (Decidable (socket ∉ s.clients ∧
      ∀ c ∈ s.connections, c.socket = socket → c.phase = .finished))
  | .frame .. | .hangUp _ | .remove _ | .drain | .copy | .release | .replicate _ | .respond _
  | .finish => .isTrue trivial

/-! ## Connections -/

/-- The thread of the connection may still remove its number. -/
def Unfinished (s : Proxy) (i : ℕ) (c : ClientConnection) : Prop :=
  s.connections[i]? = some c ∧ c.phase ≠ .finished

theorem eq_of_getElem?_concat {l : List ClientConnection} {c d : ClientConnection} {i : ℕ}
    (h : (l ++ [c])[i]? = some d) : l[i]? = some d ∨ i = l.length ∧ d = c := by
  rw [List.getElem?_append] at h
  split_ifs at h with hlt
  · exact Or.inl h
  · rw [List.getElem?_singleton] at h
    split_ifs at h with hzero
    cases h
    exact Or.inr ⟨by omega, rfl⟩

theorem ne_finished_of_reading {c : ClientConnection} (h : c.phase = .reading) :
    c.phase ≠ .finished := by
  rw [h]
  exact ConnectionPhase.noConfusion

/-- What a step may do to a connection, its frames and responses apart. -/
structure Continues (c c' : ClientConnection) : Prop where
  socket : c'.socket = c.socket
  reading : c'.phase = .reading → c.phase = .reading
  unfinished : c'.phase ≠ .finished → c.phase ≠ .finished

theorem Continues.refl (c : ClientConnection) : Continues c c := ⟨rfl, id, id⟩

/-- Each connection comes from one of before. -/
def Continuing (s t : Proxy) : Prop :=
  t.connections.length = s.connections.length ∧
    ∀ (j : ℕ) (d' : ClientConnection), t.connections[j]? = some d' →
      ∃ d, s.connections[j]? = some d ∧ Continues d d'

theorem continuing_set {i : ℕ} {c c' : ClientConnection} (hc : s.connections[i]? = some c)
    (hcontinues : Continues c c') (ht : t.connections = s.connections.set i c') :
    Continuing s t := by
  refine ⟨by rw [ht, List.length_set], fun j d' hd' => ?_⟩
  rw [ht, List.getElem?_set] at hd'
  split_ifs at hd' with hij hlt
  · cases hd'
    exact ⟨c, hij ▸ hc, hcontinues⟩
  · exact ⟨d', hd', .refl d'⟩

/-- A connection that is set stays unfinished, like the others. -/
theorem unfinished_set {i j : ℕ} {c c' d : ClientConnection} (hc : s.connections[i]? = some c)
    (hsocket : c'.socket = c.socket) (hc' : c'.phase ≠ .finished)
    (ht : t.connections = s.connections.set i c') (hd : s.Unfinished j d) :
    ∃ d', t.Unfinished j d' ∧ d'.socket = d.socket := by
  obtain ⟨hlt, -⟩ := List.getElem?_eq_some_iff.mp hc
  unfold Unfinished
  rw [ht]
  by_cases hij : i = j
  · subst hij
    cases hc.symm.trans hd.1
    exact ⟨c', ⟨by rw [List.getElem?_set_self hlt], hc'⟩, hsocket⟩
  · exact ⟨d, ⟨by rw [List.getElem?_set_ne hij]; exact hd.1, hd.2⟩, rfl⟩

/-! ## Numbers and connections -/

/-- The commands in the buffer and in the batch are those of the connections whose numbers are
there. -/
structure Routing (s : Proxy) : Prop where
  known : ∀ e ∈ s.waiting ++ s.batch, e.1 < s.connections.length
  distinct : ∀ i j c d, s.Unfinished i c → s.Unfinished j d → c.socket = d.socket → i = j
  pushed : ∀ socket ∈ s.participating, ∃ i c cmd, s.Unfinished i c ∧ c.socket = socket ∧
    (i, cmd) ∈ s.waiting
  waits : ∀ (i : ℕ) (c : ClientConnection) (cmd : Command), (i, cmd) ∈ s.waiting →
    s.connections[i]? = some c → c.phase = .reading → c.socket ∈ s.participating
  flown : ∀ i c, s.Unfinished i c → c.socket ∈ s.clients → ∃ cmd, (i, cmd) ∈ s.batch
  flies : s.responding = none → ∀ (i : ℕ) (c : ClientConnection) (cmd : Command),
    (i, cmd) ∈ s.batch → s.connections[i]? = some c → c.phase = .reading → c.socket ∈ s.clients

theorem routing_init (registered : Bool) : Routing (init registered) where
  known := fun _ he => nomatch he
  distinct := fun _ _ _ _ hi => nomatch hi.1
  pushed := fun _ h => nomatch h
  waits := fun _ _ _ h => nomatch h
  flown := fun _ _ hi => nomatch hi.1
  flies := fun _ _ _ _ h => nomatch h

/-- The numbers of unfinished connections stay distinct. -/
theorem Routing.distinct_of (h : Routing s) (hcontinuing : Continuing s t) {i j : ℕ}
    {c d : ClientConnection} (hi : t.Unfinished i c) (hj : t.Unfinished j d)
    (hsocket : c.socket = d.socket) : i = j := by
  obtain ⟨c', hc', hcc'⟩ := hcontinuing.2 i c hi.1
  obtain ⟨d', hd', hdd'⟩ := hcontinuing.2 j d hj.1
  exact h.distinct i j c' d' ⟨hc', hcc'.unfinished hi.2⟩ ⟨hd', hdd'.unfinished hj.2⟩
    (hcc'.socket.symm.trans (hsocket.trans hdd'.socket))

/-- Steps that leave the commands alone. -/
theorem Routing.congr (h : Routing s) (hcontinuing : Continuing s t)
    (hparticipating : t.participating ⊆ s.participating)
    (hforth : ∀ j d, s.Unfinished j d → d.socket ∈ t.participating →
      ∃ d', t.Unfinished j d' ∧ d'.socket = d.socket)
    (hkeep : ∀ (j : ℕ) (d : ClientConnection), s.connections[j]? = some d → d.phase = .reading →
      d.socket ∈ s.participating → d.socket ∈ t.participating)
    (hwaiting : t.waiting = s.waiting) (hbatch : t.batch = s.batch)
    (hclients : t.clients = s.clients) (hresponding : t.responding = s.responding) :
    Routing t := by
  refine ⟨?_, fun i j c d => h.distinct_of hcontinuing, fun socket hsocket => ?_,
    fun i c cmd hcmd hc hreading => ?_, fun i c hc hsocket => ?_,
    fun hnone i c cmd hcmd hc hreading => ?_⟩
  · rw [hwaiting, hbatch, hcontinuing.1]
    exact h.known
  · obtain ⟨i, c, cmd, hc, rfl, hcmd⟩ := h.pushed socket (hparticipating hsocket)
    obtain ⟨c', hc', hsame⟩ := hforth i c hc hsocket
    exact ⟨i, c', cmd, hc', hsame, hwaiting ▸ hcmd⟩
  · obtain ⟨d, hd, hdc⟩ := hcontinuing.2 i c hc
    rw [hwaiting] at hcmd
    rw [hdc.socket]
    exact hkeep i d hd (hdc.reading hreading) (h.waits i d cmd hcmd hd (hdc.reading hreading))
  · obtain ⟨d, hd, hdc⟩ := hcontinuing.2 i c hc.1
    rw [hdc.socket, hclients] at hsocket
    rw [hbatch]
    exact h.flown i d ⟨hd, hdc.unfinished hc.2⟩ hsocket
  · obtain ⟨d, hd, hdc⟩ := hcontinuing.2 i c hc
    rw [hbatch] at hcmd
    rw [hresponding] at hnone
    rw [hdc.socket, hclients]
    exact h.flies hnone i d cmd hcmd hd (hdc.reading hreading)

/-- A step of a connection that stays unfinished. -/
theorem Routing.set {i : ℕ} {c c' : ClientConnection} (h : Routing s)
    (hc : s.connections[i]? = some c) (hcontinues : Continues c c') (hc' : c'.phase ≠ .finished) :
    Routing (s.setConnection i c') :=
  h.congr (continuing_set hc hcontinues rfl) (Finset.Subset.refl _)
    (fun _ _ hd _ => unfinished_set hc hcontinues.socket hc' rfl hd) (fun _ _ _ _ => id)
    rfl rfl rfl rfl

/-- The new connection has a number that nothing refers to. -/
theorem Routing.accept {socket : ℕ} (h : Routing s) (hfree : s.NumberFree (.accept socket)) :
    Routing { s with connections := s.connections ++ [.init socket] } := by
  have hnew : ∀ i c, s.Unfinished i c → c.socket ≠ socket := fun i c hc hsocket =>
    hc.2 (hfree.2 c (List.mem_of_getElem? hc.1) hsocket)
  have hfresh : ∀ e ∈ s.waiting ++ s.batch, e.1 ≠ s.connections.length := fun e he =>
    (h.known e he).ne
  refine ⟨fun e he => ?_, fun i j c d hi hj hsocket => ?_, fun k hk => ?_,
    fun i c cmd hcmd hc hreading => ?_, fun i c hc hsocket => ?_,
    fun hnone i c cmd hcmd hc hreading => ?_⟩
  · rw [List.length_append]
    exact Nat.lt_add_right _ (h.known e he)
  · rcases eq_of_getElem?_concat hi.1 with hi' | ⟨rfl, rfl⟩ <;>
      rcases eq_of_getElem?_concat hj.1 with hj' | ⟨rfl, rfl⟩
    · exact h.distinct i j c d ⟨hi', hi.2⟩ ⟨hj', hj.2⟩ hsocket
    · exact (hnew i c ⟨hi', hi.2⟩ hsocket).elim
    · exact (hnew j d ⟨hj', hj.2⟩ hsocket.symm).elim
    · rfl
  · obtain ⟨i, c, cmd, hc, hsocket, hcmd⟩ := h.pushed k hk
    have hlt := (List.getElem?_eq_some_iff.mp hc.1).1
    exact ⟨i, c, cmd, ⟨(List.getElem?_append_left hlt).trans hc.1, hc.2⟩, hsocket, hcmd⟩
  · rcases eq_of_getElem?_concat hc with hc | ⟨rfl, -⟩
    · exact h.waits i c cmd hcmd hc hreading
    · exact (hfresh _ (List.mem_append_left _ hcmd) rfl).elim
  · rcases eq_of_getElem?_concat hc.1 with hold | ⟨-, rfl⟩
    · exact h.flown i c ⟨hold, hc.2⟩ hsocket
    · exact (hfree.1 hsocket).elim
  · rcases eq_of_getElem?_concat hc with hc | ⟨rfl, -⟩
    · exact h.flies hnone i c cmd hcmd hc hreading
    · exact (hfresh _ (List.mem_append_right _ hcmd) rfl).elim

/-- A push puts the command and the number into the buffer. -/
theorem Routing.push {i : ℕ} {c c' : ClientConnection} {data : Command} {source : BatchSource}
    (h : Routing s) (hc : s.connections[i]? = some c) (hcontinues : Continues c c')
    (hc' : c'.phase = .reading)
    (hsource : source.manager.participating = insert c.socket s.participating) :
    Routing { s.setConnection i c' with
      source := source
      waiting := s.waiting ++ [(i, data)] } := by
  have hset := h.set hc hcontinues (ne_finished_of_reading hc')
  obtain ⟨hlt, -⟩ := List.getElem?_eq_some_iff.mp hc
  have hnew : (s.setConnection i c').connections[i]? = some c' := List.getElem?_set_self hlt
  have hin : ∀ socket ∈ s.participating, socket ∈ source.manager.participating := fun _ hsocket =>
    hsource ▸ Finset.mem_insert_of_mem hsocket
  refine ⟨fun e he => ?_, hset.distinct, fun socket hsocket => ?_,
    fun j d cmd hcmd hd hreading => ?_, hset.flown, hset.flies⟩
  · rcases List.mem_append.mp he with he | he
    · rcases List.mem_append.mp he with he | he
      · exact hset.known e (List.mem_append_left _ he)
      · rw [List.mem_singleton.mp he]
        show i < (s.connections.set i c').length
        rwa [List.length_set]
    · exact hset.known e (List.mem_append_right _ he)
  · rw [Proxy.participating, hsource] at hsocket
    rcases Finset.mem_insert.mp hsocket with rfl | hold
    · exact ⟨i, c', data, ⟨hnew, ne_finished_of_reading hc'⟩, hcontinues.socket,
        List.mem_append_right _ (List.mem_singleton_self _)⟩
    · obtain ⟨j, d, cmd, hd, heq, hcmd⟩ := hset.pushed socket hold
      exact ⟨j, d, cmd, hd, heq, List.mem_append_left _ hcmd⟩
  · rcases List.mem_append.mp hcmd with hcmd | hcmd
    · exact hin _ (hset.waits j d cmd hcmd hd hreading)
    · cases List.mem_singleton.mp hcmd
      cases hnew.symm.trans hd
      show c'.socket ∈ source.manager.participating
      rw [hsource, hcontinues.socket]
      exact Finset.mem_insert_self _ _

/-- The number that a thread removes is that of no other connection. -/
theorem Routing.remove {i : ℕ} {c : ClientConnection} (h : Routing s)
    (hc : s.connections[i]? = some c) (hclosed : c.phase = .closed) :
    Routing { s.setConnection i { c with phase := .finished } with
      source := { s.source with manager := s.source.manager.remove c.socket } } := by
  have hunfinished : s.Unfinished i c := ⟨hc, by simp [hclosed]⟩
  have hcontinues : Continues c { c with phase := .finished } :=
    ⟨rfl, (fun hreading => nomatch hreading), fun hfinished => absurd rfl hfinished⟩
  refine h.congr (continuing_set hc hcontinues rfl) (Finset.erase_subset _ _)
    (fun j d hd hsocket => ?_) (fun j d hd hreading hsocket => ?_) rfl rfl rfl rfl
  · have hij : i ≠ j := by
      rintro rfl
      cases hc.symm.trans hd.1
      exact Finset.notMem_erase _ _ hsocket
    exact ⟨d, ⟨(List.getElem?_set_ne hij).trans hd.1, hd.2⟩, rfl⟩
  · refine Finset.mem_erase.mpr ⟨fun heq => ?_, hsocket⟩
    cases h.distinct j i d c ⟨hd, ne_finished_of_reading hreading⟩ hunfinished heq
    cases hc.symm.trans hd
    cases hclosed.symm.trans hreading

/-- What is drained has the numbers drained. -/
theorem Routing.drain {source : BatchSource} (h : Routing s)
    (hsource : source.manager.participating = ∅) :
    Routing { s with
      source := source
      clients := s.participating
      batch := s.waiting
      waiting := [] } := by
  refine ⟨fun e he => h.known e (List.mem_append_left _ he), h.distinct, fun socket hsocket => ?_,
    (fun _ _ _ hcmd => nomatch hcmd), fun i c hc hsocket => ?_, fun _ => h.waits⟩
  · rw [Proxy.participating, hsource] at hsocket
    cases hsocket
  · obtain ⟨j, d, cmd, hd, heq, hcmd⟩ := h.pushed c.socket hsocket
    cases h.distinct i j c d hc hd heq.symm
    exact ⟨cmd, hcmd⟩

theorem Routing.release {source : BatchSource} {batches : List (List (ℕ × Command))}
    (h : Routing s) (hsource : source.manager.participating = s.participating) :
    Routing { s with source := source, batches := batches } := by
  refine ⟨h.known, h.distinct, fun socket hsocket => ?_, fun i c cmd hcmd hc hreading => ?_,
    h.flown, h.flies⟩
  · rw [Proxy.participating, hsource] at hsocket
    exact h.pushed socket hsocket
  · show c.socket ∈ source.manager.participating
    rw [hsource]
    exact h.waits i c cmd hcmd hc hreading

/-- No open connection has a command in a batch without numbers. -/
theorem Routing.skip {source : BatchSource} {batches : List (List (ℕ × Command))} (h : Routing s)
    (hresponding : s.responding = none) (hnone : s.clients = ∅)
    (hsource : source.manager.participating = s.participating) :
    Routing { s with
      source := source
      batch := []
      waiting := s.batch ++ s.waiting
      batches := batches } := by
  refine ⟨fun e he => ?_, h.distinct, fun socket hsocket => ?_, fun i c cmd hcmd hc hreading => ?_,
    fun i c hc hsocket => ?_, fun _ _ _ _ hcmd => nomatch hcmd⟩
  · rw [List.append_nil] at he
    apply h.known e
    rwa [List.mem_append, or_comm, ← List.mem_append]
  · rw [Proxy.participating, hsource] at hsocket
    obtain ⟨i, c, cmd, hc, heq, hcmd⟩ := h.pushed socket hsocket
    exact ⟨i, c, cmd, hc, heq, List.mem_append_right _ hcmd⟩
  · show c.socket ∈ source.manager.participating
    rw [hsource]
    rcases List.mem_append.mp hcmd with hcmd | hcmd
    · have hin := h.flies hresponding i c cmd hcmd hc hreading
      rw [hnone] at hin
      cases hin
    · exact h.waits i c cmd hcmd hc hreading
  · have hin : c.socket ∈ s.clients := hsocket
    rw [hnone] at hin
    cases hin

theorem Routing.deliver {socket : ℕ} {response : ClientResponse} (h : Routing s) :
    Routing (s.deliver socket response) := by
  refine h.congr ⟨List.length_map _, fun j d' hd' => ?_⟩ (Finset.Subset.refl _)
    (fun j d hd _ => ⟨d.receive socket response, ⟨getElem?_deliver.mpr ⟨d, hd.1, rfl⟩, ?_⟩, ?_⟩)
    (fun _ _ _ _ => id) rfl rfl rfl rfl
  · obtain ⟨d, hd, rfl⟩ := getElem?_deliver.mp hd'
    exact ⟨d, hd, d.socket_receive _ _, fun h => d.phase_receive _ _ ▸ h,
      fun h => d.phase_receive _ _ ▸ h⟩
  · rw [d.phase_receive]
    exact hd.2
  · exact d.socket_receive _ _

/-- The loop over the clients leaves one out after the other. -/
theorem Routing.erase {socket : ℕ} (h : Routing s) (hresponding : s.responding ≠ none) :
    Routing { s with clients := s.clients.erase socket } :=
  ⟨h.known, h.distinct, h.pushed, h.waits,
    fun i c hc hsocket => h.flown i c hc (Finset.mem_of_mem_erase hsocket),
    fun hnone => absurd hnone hresponding⟩

/-- **What a step keeps** of the numbers. -/
theorem routing_step {e : ProxyEvent} (h : Routing s) (hstage : StageInv s)
    (hfree : s.NumberFree e) (he : Effect s e t) : Routing t := by
  cases he with
  | accepted => exact h.accept hfree
  | refused hc hreading => exact h.set hc ⟨rfl, id, id⟩ (ne_finished_of_reading hreading)
  | dropped hc hreading => exact h.set hc ⟨rfl, id, id⟩ (ne_finished_of_reading hreading)
  | ended hc hreading | hungUp hc hreading =>
    exact h.set hc ⟨rfl, (fun h => nomatch h), fun _ => ne_finished_of_reading hreading⟩
      ConnectionPhase.noConfusion
  | pushed hc hreading happend hfits hdataLen hdata hpush =>
    exact h.push hc ⟨rfl, id, id⟩ hreading (participating_pushRaw hpush)
  | removed hc hclosed => exact h.remove hc hclosed
  | drained => exact h.drain rfl
  | skipped hphase hm hnone =>
    have hresponding := hstage.responding_eq_none (by simp [hphase])
    exact h.skip hresponding hnone hm
  | released hphase hm => exact h.release hm
  | replicated =>
    exact ⟨h.known, h.distinct, h.pushed, h.waits, h.flown, fun hnone => nomatch hnone⟩
  | responded hresponding =>
    apply h.deliver.erase
    show s.responding ≠ none
    rw [hresponding]
    exact Option.some_ne_none _
  | finished hresponding hclients =>
    refine ⟨fun e he => ?_, h.distinct, h.pushed, h.waits, fun i c _ hsocket => ?_,
      fun _ _ _ _ hcmd => nomatch hcmd⟩
    · rw [List.append_nil] at he
      exact h.known e (List.mem_append_left _ he)
    · have hin : c.socket ∈ s.clients := hsocket
      rw [hclients] at hin
      cases hin
  | _ => exact ⟨h.known, h.distinct, h.pushed, h.waits, h.flown, h.flies⟩

/-! ## Responses and batches -/

/-- What was answered, and what is still to be. -/
structure Ledger (s : Proxy) : Prop where
  known : ∀ batch ∈ s.batches, ∀ e ∈ batch, e.1 < s.connections.length
  own : ∀ (i : ℕ) (c : ClientConnection) (n : ℕ) (success : Bool), s.connections[i]? = some c →
    (n, success) ∈ c.answers → s.results[n]? = some success ∧
      ∃ batch cmd, s.batches[n]? = some batch ∧ (i, cmd) ∈ batch
  once : ∀ (i : ℕ) (c : ClientConnection), s.connections[i]? = some c →
    (c.answers.map Prod.fst).Nodup
  fresh : s.responding ≠ none → ∀ (i : ℕ) (c : ClientConnection), s.connections[i]? = some c →
    c.phase = .reading → c.socket ∈ s.clients → s.results.length - 1 ∉ c.answers.map Prod.fst
  answered : ∀ (n : ℕ) (batch : List (ℕ × Command)) (success : Bool),
    s.batches[n]? = some batch → s.results[n]? = some success → ∀ (i : ℕ) (cmd : Command)
      (c : ClientConnection), (i, cmd) ∈ batch → s.connections[i]? = some c →
      c.phase = .reading → (n, success) ∈ c.answers ∨
        (s.responding ≠ none ∧ n + 1 = s.results.length ∧ c.socket ∈ s.clients)

theorem ledger_init (registered : Bool) : Ledger (init registered) where
  known := fun _ h => nomatch h
  own := fun _ _ _ _ h => nomatch h
  once := fun _ _ h => nomatch h
  fresh := fun h => absurd rfl h
  answered := fun _ _ _ h => nomatch h

theorem Ledger.right (h : Ledger s) : RightResponses s where
  own := fun i c n hc hn => h.own i c n true hc hn
  once := h.once
  answered := by
    intro n batch success hbatch hsuccess hthrough i cmd c hcmd hc hreading
    apply (h.answered n batch success hbatch hsuccess i cmd c hcmd hc hreading).resolve_right
    rintro ⟨hresponding, hlast, -⟩
    rcases hthrough with hnone | hlt
    · exact hresponding hnone
    · omega

/-- Steps that answer nothing. -/
theorem Ledger.congr (h : Ledger s) (hcontinuing : Continuing s t)
    (hanswers : ∀ (j : ℕ) (d d' : ClientConnection), s.connections[j]? = some d →
      t.connections[j]? = some d' → d'.answers = d.answers)
    (hbatches : t.batches = s.batches) (hresults : t.results = s.results)
    (hresponding : t.responding = s.responding) (hclients : t.clients = s.clients) :
    Ledger t := by
  refine ⟨?_, fun i c n success hc hn => ?_, fun i c hc => ?_, fun hsome i c hc hreading hin => ?_,
    fun n batch success hbatch hsuccess i cmd c hcmd hc hreading => ?_⟩
  · rw [hbatches, hcontinuing.1]
    exact h.known
  · obtain ⟨d, hd, hdc⟩ := hcontinuing.2 i c hc
    rw [hanswers i d c hd hc] at hn
    rw [hresults, hbatches]
    exact h.own i d n success hd hn
  · obtain ⟨d, hd, hdc⟩ := hcontinuing.2 i c hc
    rw [hanswers i d c hd hc]
    exact h.once i d hd
  · obtain ⟨d, hd, hdc⟩ := hcontinuing.2 i c hc
    rw [hresponding] at hsome
    rw [hdc.socket, hclients] at hin
    rw [hanswers i d c hd hc, hresults]
    exact h.fresh hsome i d hd (hdc.reading hreading) hin
  · obtain ⟨d, hd, hdc⟩ := hcontinuing.2 i c hc
    rw [hbatches] at hbatch
    rw [hresults] at hsuccess
    rw [hanswers i d c hd hc, hresponding, hresults, hclients, hdc.socket]
    exact h.answered n batch success hbatch hsuccess i cmd d hcmd hd (hdc.reading hreading)

theorem Ledger.set {i : ℕ} {c c' : ClientConnection} (h : Ledger s)
    (hc : s.connections[i]? = some c) (ht : t.connections = s.connections.set i c')
    (hbatches : t.batches = s.batches) (hresults : t.results = s.results)
    (hresponding : t.responding = s.responding) (hclients : t.clients = s.clients)
    (hcontinues : Continues c c') (hanswers : c'.answers = c.answers) : Ledger t := by
  refine h.congr (continuing_set hc hcontinues ht) (fun j d d' hd hd' => ?_) hbatches hresults
    hresponding hclients
  obtain ⟨hlt, -⟩ := List.getElem?_eq_some_iff.mp hc
  rw [ht] at hd'
  by_cases hij : i = j
  · subst hij
    cases hc.symm.trans hd
    cases (List.getElem?_set_self hlt).symm.trans hd'
    exact hanswers
  · cases hd.symm.trans ((List.getElem?_set_ne hij).symm.trans hd')
    rfl

/-- A new connection has no response, and no command in a batch. -/
theorem Ledger.accept {socket : ℕ} (h : Ledger s) (hfree : s.NumberFree (.accept socket)) :
    Ledger { s with connections := s.connections ++ [.init socket] } := by
  refine ⟨fun batch hbatch e he => ?_, fun i c n success hc hn => ?_, fun i c hc => ?_,
    fun hsome i c hc hreading hin => ?_,
    fun n batch success hbatch hsuccess i cmd c hcmd hc hreading => ?_⟩
  · rw [List.length_append]
    exact Nat.lt_add_right _ (h.known batch hbatch e he)
  · rcases eq_of_getElem?_concat hc with hc | ⟨-, rfl⟩
    · exact h.own i c n success hc hn
    · cases hn
  · rcases eq_of_getElem?_concat hc with hc | ⟨-, rfl⟩
    · exact h.once i c hc
    · exact List.nodup_nil
  · rcases eq_of_getElem?_concat hc with hc | ⟨-, rfl⟩
    · exact h.fresh hsome i c hc hreading hin
    · exact (hfree.1 hin).elim
  · rcases eq_of_getElem?_concat hc with hc | ⟨rfl, -⟩
    · exact h.answered n batch success hbatch hsuccess i cmd c hcmd hc hreading
    · exact absurd (h.known batch (List.mem_of_getElem? hbatch) _ hcmd) (Nat.lt_irrefl _)

/-- A batch that is taken out of the buffer has no result yet. -/
theorem Ledger.release {batch : List (ℕ × Command)} (h : Ledger s)
    (hlength : s.batches.length = s.results.length)
    (hknown : ∀ e ∈ batch, e.1 < s.connections.length) :
    Ledger { s with batches := s.batches ++ [batch] } := by
  refine ⟨fun b hb e he => ?_, fun i c n success hc hn => ?_, h.once, h.fresh,
    fun n b success hb hsuccess i cmd c hcmd hc hreading => ?_⟩
  · rcases List.mem_append.mp hb with hb | hb
    · exact h.known b hb e he
    · rw [List.mem_singleton.mp hb] at he
      exact hknown e he
  · obtain ⟨hsuccess, b, cmd, hb, hcmd⟩ := h.own i c n success hc hn
    have hlt := (List.getElem?_eq_some_iff.mp hb).1
    exact ⟨hsuccess, b, cmd, (List.getElem?_append_left hlt).trans hb, hcmd⟩
  · have hlt : n < s.batches.length := hlength ▸ (List.getElem?_eq_some_iff.mp hsuccess).1
    have hb : s.batches[n]? = some b := (List.getElem?_append_left hlt).symm.trans hb
    exact h.answered n b success hb hsuccess i cmd c hcmd hc hreading

/-- When `replicate_bytes` returns, the clients of the batch are to be answered. -/
theorem Ledger.replicate {success : Bool} {source : BatchSource} (h : Ledger s)
    (hrouting : Routing s) (hresponding : s.responding = none)
    (hlength : s.batches.length = s.results.length + 1)
    (hlast : s.batches.getLast? = some s.batch) :
    Ledger { s with
      source := source
      results := s.results ++ [success]
      responding := some success } := by
  have hnew : (s.results ++ [success]).length = s.results.length + 1 := by
    rw [List.length_append, List.length_singleton]
  refine ⟨h.known, fun i c n b hc hn => ?_, h.once, fun _ i c hc hreading hin => ?_,
    fun n batch b hbatch hsuccess i cmd c hcmd hc hreading => ?_⟩
  · obtain ⟨hb, batch, cmd, hbatch, hcmd⟩ := h.own i c n b hc hn
    have hlt := (List.getElem?_eq_some_iff.mp hb).1
    exact ⟨(List.getElem?_append_left hlt).trans hb, batch, cmd, hbatch, hcmd⟩
  · show (s.results ++ [success]).length - 1 ∉ _
    rw [hnew, Nat.add_sub_cancel]
    intro hmem
    obtain ⟨⟨n, b⟩, hn, rfl⟩ := List.mem_map.mp hmem
    have hlt := (List.getElem?_eq_some_iff.mp (h.own i c _ b hc hn).1).1
    exact absurd hlt (Nat.lt_irrefl _)
  · by_cases hlt : n < s.results.length
    · have hold : s.results[n]? = some b := (List.getElem?_append_left hlt).symm.trans hsuccess
      rcases h.answered n batch b hbatch hold i cmd c hcmd hc hreading with hin | ⟨hsome, -⟩
      · exact Or.inl hin
      · exact absurd hresponding hsome
    · have hn := (List.getElem?_eq_some_iff.mp hsuccess).1
      rw [hnew] at hn
      have hn : n = s.batches.length - 1 := by omega
      rw [List.getLast?_eq_getElem?, ← hn, hbatch] at hlast
      cases hlast
      refine Or.inr ⟨Option.some_ne_none _, ?_, hrouting.flies hresponding i c cmd hcmd hc hreading⟩
      show n + 1 = (s.results ++ [success]).length
      omega

/-- The result goes to a connection that waits for it. -/
theorem Ledger.respond {socket : ℕ} {success : Bool} (h : Ledger s) (hrouting : Routing s)
    (hresponding : s.responding = some success) (hlength : s.batches.length = s.results.length)
    (hresult : s.results.getLast? = some success) (hlast : s.batches.getLast? = some s.batch)
    (hsocket : socket ∈ s.clients) :
    Ledger { s.deliver socket (.batch (s.results.length - 1) success) with
      clients := s.clients.erase socket } := by
  have hsome : s.responding ≠ none := by
    rw [hresponding]
    exact Option.some_ne_none _
  rw [List.getLast?_eq_getElem?] at hresult hlast
  rw [hlength] at hlast
  refine ⟨fun batch hbatch e he => ?_, fun i c n b hc hn => ?_, fun i c hc => ?_,
    fun _ i c hc hreading hin => ?_,
    fun n batch b hbatch hb i cmd c hcmd hc hreading => ?_⟩
  · show e.1 < (s.connections.map _).length
    rw [List.length_map]
    exact h.known batch hbatch e he
  · obtain ⟨d, hd, rfl⟩ := getElem?_deliver.mp hc
    rw [d.answers_receive] at hn
    split_ifs at hn with hreached
    · rcases List.mem_append.mp hn with hn | hn
      · exact h.own i d n b hd hn
      · cases List.mem_singleton.mp hn
        obtain ⟨cmd, hcmd⟩ := hrouting.flown i d ⟨hd, ne_finished_of_reading hreached.1⟩
          (hreached.2 ▸ hsocket)
        exact ⟨hresult, s.batch, cmd, hlast, hcmd⟩
    · exact h.own i d n b hd hn
  · obtain ⟨d, hd, rfl⟩ := getElem?_deliver.mp hc
    rw [d.answers_receive]
    split_ifs with hreached
    · rw [List.map_append, List.nodup_append]
      refine ⟨h.once i d hd, List.nodup_singleton _, fun n hn m hm => ?_⟩
      rw [List.mem_singleton.mp hm]
      rintro rfl
      exact h.fresh hsome i d hd hreached.1 (hreached.2 ▸ hsocket) hn
    · exact h.once i d hd
  · obtain ⟨d, hd, rfl⟩ := getElem?_deliver.mp hc
    rw [d.socket_receive] at hin
    rw [d.phase_receive] at hreading
    obtain ⟨hne, hin⟩ := Finset.mem_erase.mp hin
    rw [d.answers_receive, if_neg fun hreached => hne hreached.2]
    exact h.fresh hsome i d hd hreading hin
  · obtain ⟨d, hd, rfl⟩ := getElem?_deliver.mp hc
    rw [d.phase_receive] at hreading
    rw [d.answers_receive, d.socket_receive]
    rcases h.answered n batch b hbatch hb i cmd d hcmd hd hreading with hin | ⟨-, hn, hin⟩
    · left
      split_ifs
      · exact List.mem_append_left _ hin
      · exact hin
    · by_cases heq : d.socket = socket
      · left
        obtain rfl : n = s.results.length - 1 := by omega
        cases hresult.symm.trans hb
        rw [if_pos ⟨hreading, heq⟩]
        exact List.mem_append_right _ (List.mem_singleton_self _)
      · exact Or.inr ⟨hsome, hn, Finset.mem_erase.mpr ⟨heq, hin⟩⟩

/-- **What a step keeps** of the responses. -/
theorem ledger_step {e : ProxyEvent} (h : Ledger s) (hrouting : Routing s) (hstage : StageInv s)
    (hfree : s.NumberFree e) (he : Effect s e t) : Ledger t := by
  cases he with
  | accepted => exact h.accept hfree
  | refused hc =>
    refine h.set hc rfl rfl rfl rfl rfl ⟨rfl, id, id⟩ ?_
    unfold ClientConnection.answers
    rw [List.filterMap_append]
    exact List.append_nil _
  | dropped hc | pushed hc => exact h.set hc rfl rfl rfl rfl rfl ⟨rfl, id, id⟩ rfl
  | ended hc hreading | hungUp hc hreading =>
    exact h.set hc rfl rfl rfl rfl rfl
      ⟨rfl, (fun h => nomatch h), fun _ => ne_finished_of_reading hreading⟩ rfl
  | removed hc hclosed =>
    exact h.set hc rfl rfl rfl rfl rfl
      ⟨rfl, (fun h => nomatch h), fun hfinished => absurd rfl hfinished⟩ rfl
  | drained hresponding =>
    refine ⟨h.known, h.own, h.once, fun hsome => absurd hresponding hsome,
      fun n batch b hbatch hb i cmd c hcmd hc hreading => ?_⟩
    refine Or.inl ((h.answered n batch b hbatch hb i cmd c hcmd hc hreading).resolve_right ?_)
    exact fun hsome => hsome.1 hresponding
  | skipped hphase =>
    have hlength := hstage.unreleased (by simp [hphase])
    have hrelease := @Ledger.release s [] h hlength fun e he => nomatch he
    exact ⟨hrelease.known, hrelease.own, hrelease.once, hrelease.fresh, hrelease.answered⟩
  | released hphase =>
    have hlength := hstage.unreleased (by simp [hphase])
    have hrelease := h.release hlength fun e he => hrouting.known e (List.mem_append_right _ he)
    exact ⟨hrelease.known, hrelease.own, hrelease.once, hrelease.fresh, hrelease.answered⟩
  | replicated hphase =>
    obtain ⟨hlength, hlast⟩ := hstage.released _ _ hphase
    exact h.replicate hrouting (hstage.responding_eq_none (by simp [hphase])) hlength hlast
  | responded hresponding hsocket =>
    obtain ⟨hphase, hresult, hlast⟩ := hstage.responding _ hresponding
    have hlength := hstage.unreleased (by simp [hphase])
    exact h.respond hrouting hresponding hlength hresult hlast hsocket
  | finished hresponding hclients =>
    refine ⟨h.known, h.own, h.once, fun hsome => absurd rfl hsome,
      fun n batch b hbatch hb i cmd c hcmd hc hreading => ?_⟩
    refine Or.inl ((h.answered n batch b hbatch hb i cmd c hcmd hc hreading).resolve_right ?_)
    rintro ⟨-, -, hin⟩
    rw [hclients] at hin
    cases hin
  | _ => exact ⟨h.known, h.own, h.once, h.fresh, h.answered⟩

/-! ## Runs -/

theorem ledger (h : (proxy registered).ReachVia NumberFree s) :
    StageInv s ∧ Routing s ∧ Ledger s := by
  refine h.invariant (fun s => StageInv s ∧ Routing s ∧ Ledger s)
    ⟨stageInv_init registered, routing_init registered, ledger_init registered⟩ ?_
  intro s e t _ ⟨hstage, hrouting, hledger⟩ hfree hs
  have he := effect_of_step hs
  exact ⟨stageInv_step hstage he, routing_step hrouting hstage hfree he,
    ledger_step hledger hrouting hstage hfree he⟩

/-- **Responses go to the right clients** in a run in which no number is given out while something
refers to it, and what is pushed stays in memory. -/
theorem rightResponses {x : Except MemFault Proxy}
    (h : (proxyWithFaults registered).ReachVia
      (Lts.BeforeFault fun s e => s.NumberFree e ∧ s.InMemory e) x) :
    ∃ s, x = .ok s ∧ RightResponses s := by
  obtain ⟨s, rfl, hs⟩ := exists_ok (fun _ _ hg => hg.2) h
  exact ⟨s, rfl, (ledger (hs.mono fun _ _ hg => hg.1)).2.2.right⟩

/-- A number is used again when its first connection has its SUCCESS and is removed. -/
theorem rightResponses_reuse : ∃ s, (proxyWithFaults true).ReachVia
    (Lts.BeforeFault fun s e => s.NumberFree e ∧ s.InMemory e) (.ok s) ∧
    s.connections.map ClientConnection.answers = [[(0, true)], [(1, false)]] ∧
      ∃ t, Except.ok s = (.ok t : Except MemFault Proxy) ∧ RightResponses t := by
  obtain ⟨s, hs, hp⟩ := @Lts.exists_reachVia_of_run _ _ (proxy true)
    (fun s e => s.NumberFree e ∧ s.InMemory e) (fun s e => decide (s.NumberFree e ∧ s.InMemory e))
    (fun _ _ => of_decide_eq_true)
    [.accept 5, .frame 0 ((buildWireBytes 0 0 0 0 [65]).drop 2) 29, .drain, .copy, .release,
      .replicate true, .respond 5, .finish, .hangUp 0, .remove 0, .accept 5,
      .frame 1 ((buildWireBytes 0 0 0 0 [66]).drop 2) 29, .drain, .copy, .release,
      .replicate false, .respond 5, .finish]
    (fun s => decide (s.connections.map ClientConnection.answers = [[(0, true)], [(1, false)]]))
    (by decide)
  exact ⟨s, reach_withFaults hs, of_decide_eq_true hp, rightResponses (reach_withFaults hs)⟩

/-- The number of a connection that has left is given to a new one while its batch is replicated;
the new one gets the SUCCESS. -/
theorem not_rightResponses : ¬ ∀ (registered : Bool) (s : Proxy),
    (proxyWithFaults registered).Reach (.ok s) → RightResponses s := by
  intro h
  obtain ⟨s, hs, hp⟩ := @Lts.exists_reach_of_run _ _ (proxy true)
    [.accept 5, .frame 0 ((buildWireBytes 0 0 0 0 [65]).drop 2) 29, .drain, .copy, .release,
      .hangUp 0, .remove 0, .accept 5, .replicate true, .respond 5]
    (fun s => decide (s.connections.map ClientConnection.answers = [[], [(0, true)]] ∧
      s.batches = [[(0, [65])]])) (by decide)
  obtain ⟨hanswers, hbatches⟩ := of_decide_eq_true hp
  have hone : (s.connections.map ClientConnection.answers)[1]? = some [(0, true)] := by
    rw [hanswers]
    rfl
  obtain ⟨c, hc, heq⟩ := Option.map_eq_some_iff.mp ((List.getElem?_map ..).symm.trans hone)
  obtain ⟨-, batch, cmd, hbatch, hcmd⟩ :=
    (h true s (reach_withFaults hs).reach).own 1 c 0 hc (heq ▸ List.mem_singleton_self _)
  rw [hbatches] at hbatch
  cases hbatch
  cases List.mem_singleton.mp hcmd

end Proxy

end Ziplog
