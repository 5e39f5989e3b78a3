import Mathlib.Data.List.AList
import Mathlib.Logic.Function.Basic
import Ziplog.Library.Lts

/-!
# The rounds of a server

`handle_freeze` and `handle_transfer_request` run on the threads of the connections, and `rounds_`
is locked in three short sections with network traffic between them. Each step below is one section,
or what a call does up to its next one. `writes` and `bodies` record the values put into `rounds_`
and the rounds whose freeze was carried out.

A transfer request takes a round in its second section, and the freeze that it starts after its
answer writes the round again without a check. Where `rounds_` has moved on by then, that write sets
it back. As long as it has not (`Current`), the rounds of a proxy never decrease and each is carried
out at most once, and a step that breaks the condition breaks the property (`rounds_monotone_iff`).
-/

namespace Ziplog

/-- Where a call is. In `answering` it sends what it has stored; `freezing` is `handle_freeze` as
started by a transfer request, before its section. -/
inductive FreezeCall
  | idle
  | freeze (proxy : ℕ) (round : ℤ)
  | transferRequest (proxy : ℕ) (round : ℤ)
  | checked (proxy : ℕ) (round : ℤ)
  | answering (proxy : ℕ) (round : ℤ) (newRound : Bool)
  | freezing (proxy : ℕ) (round : ℤ)
  | body (proxy : ℕ) (round : ℤ)
  deriving DecidableEq

/-- A round taken by a transfer request that `handle_freeze` has still to carry out. -/
def FreezeCall.taken : FreezeCall → Option (ℕ × ℤ)
  | answering proxy round true => some (proxy, round)
  | freezing proxy round => some (proxy, round)
  | _ => none

/-- A freeze started by a transfer request comes while the round it took still is the last one. -/
def FreezeCall.CurrentIn (rounds : AList fun _ : ℕ => ℤ) : FreezeCall → Prop
  | freezing proxy round => rounds.lookup proxy = some round
  | _ => True

instance (rounds : AList fun _ : ℕ => ℤ) : DecidablePred (FreezeCall.CurrentIn rounds)
  | .freezing .. => inferInstanceAs (Decidable (_ = _))
  | .idle | .freeze .. | .transferRequest .. | .checked .. | .answering .. | .body .. =>
    inferInstanceAs (Decidable True)

structure FreezeRounds where
  rounds : AList fun _ : ℕ => ℤ
  calls : ℕ → FreezeCall
  writes : List (ℕ × ℤ)
  bodies : List (ℕ × ℤ)

/-- A message arrives on a connection, or the call of a connection goes on. -/
inductive FreezeEvent
  | freeze (i proxy : ℕ) (round : ℤ)
  | transferRequest (i shardId proxy : ℕ) (round : ℤ)
  | advance (i : ℕ)
  deriving DecidableEq

namespace FreezeRounds

def init : FreezeRounds := ⟨∅, fun _ => .idle, [], []⟩

def setCall (s : FreezeRounds) (i : ℕ) (c : FreezeCall) : FreezeRounds :=
  { s with calls := Function.update s.calls i c }

/-- `rounds_[proxy] = round`. -/
def write (s : FreezeRounds) (proxy : ℕ) (round : ℤ) : FreezeRounds :=
  { s with rounds := s.rounds.insert proxy round, writes := s.writes ++ [(proxy, round)] }

/-- The rest of `handle_freeze` begins. -/
def carryOut (s : FreezeRounds) (i proxy : ℕ) (round : ℤ) : FreezeRounds :=
  { s with bodies := s.bodies ++ [(proxy, round)] }.setCall i (.body proxy round)

def advance (s : FreezeRounds) (i : ℕ) : Option FreezeRounds :=
  match s.calls i with
  | .idle => none
  | .freeze proxy round =>
    -- an outdated round is ignored
    if ∃ last ∈ s.rounds.lookup proxy, round ≤ last then some (s.setCall i .idle)
    else some ((s.write proxy round).carryOut i proxy round)
  | .transferRequest proxy round =>
    if ∃ last ∈ s.rounds.lookup proxy, round < last then some (s.setCall i .idle)
    else some (s.setCall i (.checked proxy round))
  | .checked proxy round =>
    if ∃ last ∈ s.rounds.lookup proxy, round ≤ last then
      some (s.setCall i (.answering proxy round false))
    else some ((s.write proxy round).setCall i (.answering proxy round true))
  | .answering proxy round newRound =>
    some (s.setCall i (if newRound then .freezing proxy round else .idle))
  | .freezing proxy round => some ((s.write proxy round).carryOut i proxy round)
  | .body _ _ => some (s.setCall i .idle)

/-- A transfer request of another shard is dropped. -/
def step (shard : ℕ) (s : FreezeRounds) : FreezeEvent → Option FreezeRounds
  | .freeze i proxy round =>
    if s.calls i = .idle then some (s.setCall i (.freeze proxy round)) else none
  | .transferRequest i shardId proxy round =>
    if s.calls i = .idle then
      some (if shardId = shard then s.setCall i (.transferRequest proxy round) else s)
    else none
  | .advance i => s.advance i

/-- The values of `rounds_[proxy]`, the first one first. -/
def writesTo (s : FreezeRounds) (proxy : ℕ) : List ℤ :=
  (s.writes.filter fun w => w.1 = proxy).map Prod.snd

/-- The rounds of a proxy never decrease, and each is carried out at most once. -/
structure Monotone (s : FreezeRounds) : Prop where
  ascending : ∀ proxy, (s.writesTo proxy).Pairwise (· ≤ ·)
  once : s.bodies.Nodup

/-- When a freeze started by a transfer request writes its round, that round still is the last. -/
def Current (s : FreezeRounds) : FreezeEvent → Prop
  | .advance i => (s.calls i).CurrentIn s.rounds
  | _ => True

instance (s : FreezeRounds) : DecidablePred s.Current
  | .freeze .. | .transferRequest .. => inferInstanceAs (Decidable True)
  | .advance i => inferInstanceAs (Decidable ((s.calls i).CurrentIn s.rounds))

/-! ## What the steps keep -/

variable {s t : FreezeRounds} {i proxy : ℕ} {round : ℤ}

/-- The round is not newer than the last one of its proxy. -/
def Seen (s : FreezeRounds) (x : ℕ × ℤ) : Prop :=
  ∃ last, s.rounds.lookup x.1 = some last ∧ x.2 ≤ last

/-- `rounds_` holds the largest value written, and a round that was taken and is still to be carried
out belongs to one call. -/
structure Kept (s : FreezeRounds) : Prop where
  monotone : s.Monotone
  last : ∀ proxy round, s.rounds.lookup proxy = some round → round ∈ s.writesTo proxy
  written : ∀ proxy, ∀ round ∈ s.writesTo proxy, s.Seen (proxy, round)
  carriedOut : ∀ x ∈ s.bodies, s.Seen x
  taken : ∀ i x, (s.calls i).taken = some x →
    s.Seen x ∧ x ∉ s.bodies ∧ ∀ j, (s.calls j).taken = some x → j = i

theorem kept_init : init.Kept :=
  ⟨⟨fun _ => List.Pairwise.nil, List.nodup_nil⟩, nofun, nofun, nofun, nofun⟩

theorem calls_setCall_self (s : FreezeRounds) (i : ℕ) (c : FreezeCall) :
    (s.setCall i c).calls i = c := Function.update_self ..

theorem calls_setCall_of_ne (s : FreezeRounds) {i j : ℕ} (c : FreezeCall) (h : j ≠ i) :
    (s.setCall i c).calls j = s.calls j := Function.update_of_ne h ..

/-- A call that holds no new round. -/
theorem taken_setCall {c : FreezeCall} (hc : ∀ x, c.taken = some x → (s.calls i).taken = some x)
    {j : ℕ} {x : ℕ × ℤ} (hj : ((s.setCall i c).calls j).taken = some x) :
    (s.calls j).taken = some x := by
  by_cases hji : j = i
  · rw [hji, calls_setCall_self] at hj
    rw [hji]
    exact hc x hj
  · rwa [calls_setCall_of_ne s c hji] at hj

theorem Kept.setCall (h : s.Kept) {c : FreezeCall}
    (hc : ∀ x, c.taken = some x → (s.calls i).taken = some x) : (s.setCall i c).Kept := by
  refine ⟨⟨h.monotone.ascending, h.monotone.once⟩, h.last, h.written, h.carriedOut,
    fun j x hj => ?_⟩
  obtain ⟨hseen, hnot, hone⟩ := h.taken j x (taken_setCall hc hj)
  exact ⟨hseen, hnot, fun k hk => hone k (taken_setCall hc hk)⟩

/-! ## Writing a round -/

theorem lookup_write (s : FreezeRounds) (proxy : ℕ) (round : ℤ) (q : ℕ) :
    (s.write proxy round).rounds.lookup q =
      if q = proxy then some round else s.rounds.lookup q := by
  unfold write
  split_ifs with h
  · rw [h, AList.lookup_insert]
  · rw [AList.lookup_insert_ne h]

theorem writesTo_write (s : FreezeRounds) (proxy : ℕ) (round : ℤ) (q : ℕ) :
    (s.write proxy round).writesTo q =
      if q = proxy then s.writesTo proxy ++ [round] else s.writesTo q := by
  unfold writesTo write
  rw [List.filter_append, List.map_append]
  split_ifs with h
  · rw [h, List.filter_cons_of_pos (by simp)]
    rfl
  · rw [List.filter_cons_of_neg (by simpa using Ne.symm h)]
    exact List.append_nil _

theorem seen_write (hnext : ∀ last ∈ s.rounds.lookup proxy, last ≤ round) {x : ℕ × ℤ}
    (hx : s.Seen x) : (s.write proxy round).Seen x := by
  obtain ⟨last, hlast, hle⟩ := hx
  unfold Seen
  rw [lookup_write]
  split_ifs with hq
  · exact ⟨round, rfl, Int.le_trans hle (hnext last (hq ▸ hlast))⟩
  · exact ⟨last, hlast, hle⟩

/-- The round written is the last one. -/
theorem seen_write_self (s : FreezeRounds) (proxy : ℕ) (round : ℤ) :
    (s.write proxy round).Seen (proxy, round) := by
  unfold Seen
  rw [lookup_write, if_pos rfl]
  exact ⟨round, rfl, Int.le_refl _⟩

/-- A write that does not go back. -/
theorem Kept.write (h : s.Kept) (hnext : ∀ last ∈ s.rounds.lookup proxy, last ≤ round) :
    (s.write proxy round).Kept := by
  refine ⟨⟨fun q => ?_, h.monotone.once⟩, fun q r hr => ?_, fun q r hr => ?_,
    fun x hx => seen_write hnext (h.carriedOut x hx), fun j x hj => ?_⟩
  · rw [writesTo_write]
    split_ifs
    · refine List.pairwise_append.mpr ⟨h.monotone.ascending proxy, List.pairwise_singleton _ _, ?_⟩
      intro x hx y hy
      obtain ⟨last, hlast, hle⟩ := h.written proxy x hx
      rw [List.mem_singleton.mp hy]
      exact Int.le_trans hle (hnext last hlast)
    · exact h.monotone.ascending q
  · rw [lookup_write] at hr
    rw [writesTo_write]
    split_ifs at hr ⊢
    · cases hr
      exact List.mem_append_right _ (List.mem_singleton_self _)
    · exact h.last q r hr
  · rw [writesTo_write] at hr
    split_ifs at hr with hq
    · subst hq
      rcases List.mem_append.mp hr with hold | hnew
      · exact seen_write hnext (h.written q r hold)
      · rw [List.mem_singleton.mp hnew]
        exact seen_write_self s q round
    · exact seen_write hnext (h.written q r hr)
  · obtain ⟨hseen, hnot, hone⟩ := h.taken j x hj
    exact ⟨seen_write hnext hseen, hnot, hone⟩

/-- A round newer than the last one has not been carried out, and no call holds it. -/
theorem Kept.fresh (h : s.Kept) (hnew : ¬ s.Seen (proxy, round)) :
    (proxy, round) ∉ s.bodies ∧ ∀ j, (s.calls j).taken ≠ some (proxy, round) :=
  ⟨fun hmem => hnew (h.carriedOut _ hmem), fun j hj => hnew (h.taken j _ hj).1⟩

theorem le_of_not_seen (hnew : ¬ s.Seen (proxy, round)) :
    ∀ last ∈ s.rounds.lookup proxy, last ≤ round := by
  intro last hlast
  by_contra hlt
  exact hnew ⟨last, hlast, Int.le_of_lt (Int.not_le.mp hlt)⟩

/-! ## The sections -/

/-- A transfer request takes a round. -/
theorem Kept.take (h : s.Kept) (hnew : ¬ s.Seen (proxy, round)) :
    ((s.write proxy round).setCall i (.answering proxy round true)).Kept := by
  have hw := h.write (le_of_not_seen hnew)
  obtain ⟨hbodies, hcalls⟩ := h.fresh hnew
  refine ⟨⟨hw.monotone.ascending, hw.monotone.once⟩, hw.last, hw.written, hw.carriedOut,
    fun j x hj => ?_⟩
  by_cases hji : j = i
  · subst hji
    rw [calls_setCall_self] at hj
    cases hj
    refine ⟨seen_write_self s proxy round, hbodies, fun k hk => ?_⟩
    by_contra hkj
    rw [calls_setCall_of_ne _ _ hkj] at hk
    exact hcalls k hk
  · rw [calls_setCall_of_ne _ _ hji] at hj
    obtain ⟨hseen, hnot, hone⟩ := hw.taken j x hj
    refine ⟨hseen, hnot, fun k hk => ?_⟩
    by_cases hki : k = i
    · rw [hki, calls_setCall_self] at hk
      cases hk
      exact absurd hj (hcalls j)
    · rw [calls_setCall_of_ne _ _ hki] at hk
      exact hone k hk

/-- A round that no other call holds and that was not carried out is carried out. -/
theorem Kept.carryOut (h : s.Kept) (hseen : s.Seen (proxy, round))
    (hbodies : (proxy, round) ∉ s.bodies)
    (hcalls : ∀ j, (s.calls j).taken = some (proxy, round) → j = i) :
    (s.carryOut i proxy round).Kept := by
  have hold : ∀ j x, ((s.carryOut i proxy round).calls j).taken = some x →
      j ≠ i ∧ (s.calls j).taken = some x := by
    intro j x hj
    by_cases hji : j = i
    · rw [hji, FreezeRounds.carryOut, calls_setCall_self] at hj
      cases hj
    · rw [FreezeRounds.carryOut, calls_setCall_of_ne _ _ hji] at hj
      exact ⟨hji, hj⟩
  refine ⟨⟨h.monotone.ascending, ?_⟩, h.last, h.written, fun x hx => ?_, fun j x hj => ?_⟩
  · show (s.bodies ++ [(proxy, round)]).Nodup
    exact List.nodup_append.mpr ⟨h.monotone.once, List.nodup_singleton _, fun x hx y hy heq =>
      hbodies (List.mem_singleton.mp hy ▸ heq ▸ hx)⟩
  · rcases List.mem_append.mp hx with hx | hx
    · exact h.carriedOut x hx
    · rw [List.mem_singleton.mp hx]
      exact hseen
  · obtain ⟨hji, hj⟩ := hold j x hj
    obtain ⟨hx, hnot, hone⟩ := h.taken j x hj
    refine ⟨hx, fun hmem => ?_, fun k hk => hone k (hold k x hk).2⟩
    rcases List.mem_append.mp hmem with hmem | hmem
    · exact hnot hmem
    · rw [List.mem_singleton.mp hmem] at hj
      exact hji (hcalls j hj)

/-- A freeze of the zipper with a new round. -/
theorem Kept.freeze (h : s.Kept) (hnew : ¬ s.Seen (proxy, round)) :
    ((s.write proxy round).carryOut i proxy round).Kept := by
  obtain ⟨hbodies, hcalls⟩ := h.fresh hnew
  exact (h.write (le_of_not_seen hnew)).carryOut (seen_write_self s proxy round) hbodies
    fun j hj => absurd hj (hcalls j)

/-- A freeze started by a transfer request whose round still is the last one. -/
theorem Kept.freezing (h : s.Kept) (hcall : s.calls i = .freezing proxy round)
    (hcurrent : s.rounds.lookup proxy = some round) :
    ((s.write proxy round).carryOut i proxy round).Kept := by
  have htaken : (s.calls i).taken = some (proxy, round) := by rw [hcall]; rfl
  obtain ⟨-, hnot, hone⟩ := h.taken i _ htaken
  have hw : (s.write proxy round).Kept := h.write fun last hlast => by
    cases hcurrent.symm.trans hlast
    exact Int.le_refl _
  exact hw.carryOut (seen_write_self s proxy round) hnot hone

/-- A freeze started by a transfer request whose round is outdated sets the round back. -/
theorem Kept.not_monotone (h : s.Kept) (hcall : s.calls i = .freezing proxy round)
    (hcurrent : s.rounds.lookup proxy ≠ some round) :
    ¬ ((s.write proxy round).carryOut i proxy round).Monotone := by
  intro hm
  have htaken : (s.calls i).taken = some (proxy, round) := by rw [hcall]; rfl
  obtain ⟨⟨last, hlast, hle⟩, -, -⟩ := h.taken i _ htaken
  have hsorted : ((s.write proxy round).writesTo proxy).Pairwise (· ≤ ·) := hm.ascending proxy
  rw [writesTo_write, if_pos rfl] at hsorted
  have hback := (List.pairwise_append.mp hsorted).2.2 last (h.last proxy last hlast) round
    (List.mem_singleton_self _)
  have heq : round = last := Int.le_antisymm hle hback
  exact hcurrent (heq ▸ hlast)

/-- **One step** keeps the rounds in order unless a freeze is outdated when it writes its round. -/
theorem Kept.advance (h : s.Kept) (hs : s.advance i = some t) :
    ((s.calls i).CurrentIn s.rounds → t.Kept) ∧
      (t.Monotone → (s.calls i).CurrentIn s.rounds) := by
  unfold FreezeRounds.advance at hs
  split at hs
  · cases hs
  · rename_i proxy round hcall
    rw [hcall]
    split_ifs at hs with hnew <;> cases hs
    · exact ⟨fun _ => h.setCall nofun, fun _ => trivial⟩
    · exact ⟨fun _ => h.freeze hnew, fun _ => trivial⟩
  · rename_i proxy round hcall
    rw [hcall]
    split_ifs at hs <;> cases hs
    · exact ⟨fun _ => h.setCall nofun, fun _ => trivial⟩
    · exact ⟨fun _ => h.setCall nofun, fun _ => trivial⟩
  · rename_i proxy round hcall
    rw [hcall]
    split_ifs at hs with hnew <;> cases hs
    · exact ⟨fun _ => h.setCall nofun, fun _ => trivial⟩
    · exact ⟨fun _ => h.take hnew, fun _ => trivial⟩
  · rename_i proxy round newRound hcall
    rw [hcall]
    cases hs
    refine ⟨fun _ => h.setCall fun x hx => ?_, fun _ => trivial⟩
    rw [hcall]
    cases newRound
    · cases hx
    · exact hx
  · rename_i proxy round hcall
    rw [hcall]
    cases hs
    refine ⟨fun hcurrent => h.freezing hcall hcurrent, fun hm => ?_⟩
    by_contra hcurrent
    exact h.not_monotone hcall hcurrent hm
  · rename_i hcall
    rw [hcall]
    cases hs
    exact ⟨fun _ => h.setCall nofun, fun _ => trivial⟩

theorem Kept.step {shard : ℕ} {e : FreezeEvent} (h : s.Kept) (hs : s.step shard e = some t) :
    (s.Current e → t.Kept) ∧ (t.Monotone → s.Current e) := by
  cases e with
  | freeze i proxy round =>
    simp only [FreezeRounds.step] at hs
    split_ifs at hs
    cases hs
    exact ⟨fun _ => h.setCall nofun, fun _ => trivial⟩
  | transferRequest i shardId proxy round =>
    simp only [FreezeRounds.step] at hs
    split_ifs at hs <;> cases hs
    · exact ⟨fun _ => h.setCall nofun, fun _ => trivial⟩
    · exact ⟨fun _ => h, fun _ => trivial⟩
  | advance i => exact h.advance hs

end FreezeRounds

/-- The freeze handler of a server under all interleavings. -/
def freezeRounds (shard : ℕ) : Lts FreezeRounds FreezeEvent := ⟨.init, FreezeRounds.step shard⟩

namespace FreezeRounds

variable {s : FreezeRounds} {shard : ℕ}

theorem reach_kept (h : (freezeRounds shard).ReachVia Current s) : s.Kept :=
  h.invariant Kept kept_init fun _ _ _ _ hk hcurrent hs => (hk.step hs).1 hcurrent

/-- **When rounds are monotone and handled once.** In every run in which each freeze started by a
transfer request finds its round still the last one when it writes it, no round decreases and none
is carried out twice; the first step that breaks the condition breaks the property. -/
theorem rounds_monotone_iff (h : (freezeRounds shard).ReachVia Current s) :
    s.Monotone ∧ ∀ e t, (freezeRounds shard).step s e = some t → (t.Monotone ↔ s.Current e) := by
  have hk := reach_kept h
  refine ⟨hk.monotone, fun e t hs => ⟨(hk.step hs).2, fun hcurrent => ?_⟩⟩
  exact ((hk.step hs).1 hcurrent).monotone

/-- A peer starts round 1 and the zipper round 2, each carried out once. -/
def twoRounds : List FreezeEvent :=
  [.transferRequest 0 7 0 1, .advance 0, .advance 0, .advance 0, .advance 0, .freeze 1 0 2,
    .advance 1]

theorem rounds_monotone_iff_two : ∃ s, (freezeRounds 7).ReachVia Current s ∧
    s.bodies = [(0, 1), (0, 2)] ∧ s.Monotone := by
  have hrun : ((freezeRounds 7).runVia (fun s e => decide (s.Current e)) twoRounds .init).any
      (fun s => decide (s.bodies = [(0, 1), (0, 2)])) = true := by
    decide +kernel
  obtain ⟨s, hreach, hs⟩ := (freezeRounds 7).exists_reachVia_of_run
    (fun s e => of_decide_eq_true) hrun
  exact ⟨s, hreach, of_decide_eq_true hs, (rounds_monotone_iff hreach).1⟩

/-- Round 1 is taken for a peer; the zipper freezes round 2 before the peer has its answer; the
freeze of round 1 then sets the round back, and round 2 is carried out again. -/
def setBack : List FreezeEvent :=
  [.transferRequest 0 7 0 1, .advance 0, .advance 0, .freeze 1 0 2, .advance 1, .advance 0,
    .advance 0, .freeze 2 0 2, .advance 2]

theorem not_rounds_monotone : ¬ ∀ (shard : ℕ) (s : FreezeRounds), (freezeRounds shard).Reach s →
    s.Monotone := by
  intro hall
  have hrun : ((freezeRounds 7).run setBack .init).any (fun s => decide
      (s.writesTo 0 = [1, 2, 1, 2] ∧ s.bodies = [(0, 2), (0, 1), (0, 2)])) = true := by
    decide +kernel
  obtain ⟨s, hreach, hs⟩ := (freezeRounds 7).exists_reach_of_run hrun
  obtain ⟨hwrites, -⟩ := of_decide_eq_true hs
  have hsorted := (hall 7 s hreach).ascending 0
  rw [hwrites] at hsorted
  revert hsorted
  decide

end FreezeRounds

end Ziplog
