import Mathlib.Data.List.Sort
import Ziplog.Library.Largest
import Ziplog.Server.ProxyLivenessTracker
import Ziplog.Zipper.SlotAllocator

/-!
# The slots a server waits for

A server learns of a proxy's slots from the responses of the zipper and of its messages from the
proxy, on two connections. `Waiting` is what the tracker does for one proxy: it takes the first slot
off at each message, whatever the number of the message, and ignores the message when there is no
slot. So the slots still waited for are those not received exactly when the messages come in turn
(`waits_iff`): each carries the number that follows those received before, and its slot has been
learnt of by then.
-/

namespace Ziplog

open Largest

/-- What a server learns about one proxy. -/
inductive SlotNews
  | allocated (slots : List (ℕ × ℕ))
  | received (seq : ℕ)
  deriving DecidableEq

namespace SlotNews

def slots : SlotNews → List (ℕ × ℕ)
  | allocated slots => slots
  | received _ => []

def number : SlotNews → Option ℕ
  | allocated _ => none
  | received seq => some seq

end SlotNews

def allocatedSlots (news : List SlotNews) : List (ℕ × ℕ) := news.flatMap SlotNews.slots

def receivedNumbers (news : List SlotNews) : List ℕ := news.filterMap SlotNews.number

/-- `P` holds of what was learnt before each message and of its number. -/
def AtEachReceipt (P : List SlotNews → ℕ → Prop) (news : List SlotNews) : Prop :=
  ∀ pre seq post, news = pre ++ .received seq :: post → P pre seq

/-- Each message carries the number of the slot that is next, and the slot is known. -/
def InTurn : List SlotNews → Prop :=
  AtEachReceipt fun pre seq =>
    ((allocatedSlots pre).map Prod.snd)[(receivedNumbers pre).length]? = some seq

/-- At each message more slots are known than messages have come. -/
def Supplied : List SlotNews → Prop :=
  AtEachReceipt fun pre _ => (receivedNumbers pre).length < (allocatedSlots pre).length

/-- The slots waited for and the last number. -/
structure Waiting where
  pending : List (ℕ × ℕ)
  last : ℕ
  deriving DecidableEq

namespace Waiting

/-- The first slot goes, whatever the number received. -/
def observe (w : Waiting) : SlotNews → Waiting
  | .allocated slots => { w with pending := w.pending ++ slots }
  | .received _ =>
    match w.pending with
    | [] => w
    | slot :: pending => ⟨pending, slot.2⟩

def after (news : List SlotNews) : Waiting := news.foldl observe ⟨[], 0⟩

theorem after_append_singleton (news : List SlotNews) (x : SlotNews) :
    after (news ++ [x]) = (after news).observe x := by
  rw [after, List.foldl_append]
  rfl

end Waiting

/-! ## Lists of news -/

variable {news : List SlotNews}

theorem allocatedSlots_append (news more : List SlotNews) :
    allocatedSlots (news ++ more) = allocatedSlots news ++ allocatedSlots more :=
  List.flatMap_append

theorem receivedNumbers_append (news more : List SlotNews) :
    receivedNumbers (news ++ more) = receivedNumbers news ++ receivedNumbers more :=
  List.filterMap_append

theorem allocatedSlots_append_allocated (slots : List (ℕ × ℕ)) :
    allocatedSlots (news ++ [.allocated slots]) = allocatedSlots news ++ slots := by
  rw [allocatedSlots_append]
  exact congrArg _ (List.append_nil _)

theorem allocatedSlots_append_received (seq : ℕ) :
    allocatedSlots (news ++ [.received seq]) = allocatedSlots news := by
  rw [allocatedSlots_append]
  exact List.append_nil _

theorem receivedNumbers_append_allocated (slots : List (ℕ × ℕ)) :
    receivedNumbers (news ++ [.allocated slots]) = receivedNumbers news := by
  rw [receivedNumbers_append]
  exact List.append_nil _

theorem receivedNumbers_append_received (seq : ℕ) :
    receivedNumbers (news ++ [.received seq]) = receivedNumbers news ++ [seq] :=
  receivedNumbers_append _ _

/-- The last piece of news is a message or not. -/
theorem atEachReceipt_append_singleton {P : List SlotNews → ℕ → Prop} {x : SlotNews} :
    AtEachReceipt P (news ++ [x]) ↔
      AtEachReceipt P news ∧ ∀ seq, x = .received seq → P news seq := by
  constructor
  · intro h
    refine ⟨fun pre seq post heq => h pre seq (post ++ [x]) ?_, fun seq hx => h news seq [] ?_⟩
    · rw [heq, List.append_assoc, List.cons_append]
    · rw [hx]
  · rintro ⟨hold, hlast⟩ pre seq post heq
    rcases List.eq_nil_or_concat post with rfl | ⟨post, y, rfl⟩
    · obtain ⟨rfl, hx⟩ := List.append_inj' heq rfl
      exact hlast seq (List.cons.inj hx).1
    · rw [List.concat_eq_append, ← List.cons_append, ← List.append_assoc] at heq
      obtain ⟨rfl, -⟩ := List.append_inj' heq rfl
      exact hold pre seq post rfl

theorem InTurn.supplied (h : InTurn news) : Supplied news := by
  intro pre seq post heq
  obtain ⟨hlt, -⟩ := List.getElem?_eq_some_iff.mp (h pre seq post heq)
  rwa [List.length_map] at hlt

/-- Messages that come in turn carry the first numbers. -/
theorem InTurn.take_eq (h : InTurn news) :
    ((allocatedSlots news).map Prod.snd).take (receivedNumbers news).length =
      receivedNumbers news := by
  induction news using List.reverseRecOn with
  | nil => rfl
  | append_singleton news x ih =>
    obtain ⟨hold, hlast⟩ := atEachReceipt_append_singleton.mp h
    have htake := ih hold
    cases x with
    | allocated slots =>
      have hle : (receivedNumbers news).length ≤ ((allocatedSlots news).map Prod.snd).length := by
        rw [← htake, List.length_take]
        exact min_le_right _ _
      rw [allocatedSlots_append_allocated, receivedNumbers_append_allocated, List.map_append,
        List.take_append_of_le_length hle, htake]
    | received seq =>
      have hseq := hlast seq rfl
      rw [allocatedSlots_append_received, receivedNumbers_append_received, List.length_append,
        List.length_singleton, List.take_add_one, htake, hseq]
      rfl

/-! ## What is waited for -/

/-- **The tracker by position.** Of the slots known, the first `k` are gone, the number of the last
one is kept, and `k` is the number of messages exactly when there was a slot for each of them. -/
theorem Waiting.after_spec (news : List SlotNews) :
    ∃ k ≤ (allocatedSlots news).length,
      (after news).pending = (allocatedSlots news).drop k ∧
      (after news).last = (((allocatedSlots news).take k).map Prod.snd).getLastD 0 ∧
      k ≤ (receivedNumbers news).length ∧
      (k = (receivedNumbers news).length ↔ Supplied news) := by
  induction news using List.reverseRecOn with
  | nil => exact ⟨0, le_rfl, rfl, rfl, le_rfl, fun _ pre _ _ h => by simp at h, fun _ => rfl⟩
  | append_singleton news x ih =>
    obtain ⟨k, hk, hpending, hlast, hle, hiff⟩ := ih
    rw [after_append_singleton, Supplied, atEachReceipt_append_singleton]
    cases x with
    | allocated slots =>
      rw [allocatedSlots_append_allocated, receivedNumbers_append_allocated]
      refine ⟨k, ?_, ?_, ?_, hle, ?_⟩
      · rw [List.length_append]
        omega
      · show (after news).pending ++ slots = _
        rw [hpending, List.drop_append_of_le_length hk]
      · rw [List.take_append_of_le_length hk]
        exact hlast
      · exact hiff.trans ⟨fun h => ⟨h, nofun⟩, And.left⟩
    | received seq =>
      rw [allocatedSlots_append_received, receivedNumbers_append_received, List.length_append,
        List.length_singleton]
      rcases Nat.lt_or_ge k (allocatedSlots news).length with hlt | hge
      · rw [List.drop_eq_getElem_cons hlt] at hpending
        refine ⟨k + 1, hlt, ?_, ?_, by omega, ?_⟩
        · simp only [observe, hpending]
        · simp only [observe, hpending]
          rw [List.take_add_one, List.getElem?_eq_getElem hlt, List.map_append]
          simp
        · constructor
          · intro heq
            have hlen : k = (receivedNumbers news).length := by omega
            exact ⟨hiff.mp hlen, fun _ _ => hlen ▸ hlt⟩
          · rintro ⟨hsupplied, -⟩
            rw [hiff.mpr hsupplied]
      · have hnil : (after news).pending = [] := by
          rw [hpending, List.drop_eq_nil_iff]
          exact hge
        refine ⟨k, hk, ?_, ?_, by omega, ?_⟩
        · simp only [observe, hnil]
          rw [← hpending, hnil]
        · simp only [observe, hnil]
          exact hlast
        · constructor
          · intro heq
            omega
          · rintro ⟨hsupplied, hroom⟩
            have hlen := hiff.mpr hsupplied
            have hlt := hroom seq rfl
            omega

/-- What is waited for is what was not received. -/
def WaitsForMissing (w : Waiting) (slots : List (ℕ × ℕ)) (received : List ℕ) : Prop :=
  w.pending = slots.filter (fun slot => slot.2 ∉ received) ∧ w.last = received.foldr max 0

/-- The slots after the first ones are those whose number is not among the first numbers. -/
theorem drop_eq_filter {slots : List (ℕ × ℕ)} (h : (slots.map Prod.snd).Nodup) (k : ℕ) :
    slots.drop k = slots.filter fun slot => slot.2 ∉ (slots.take k).map Prod.snd := by
  have hdisjoint : ∀ x ∈ slots.drop k, x.2 ∉ (slots.take k).map Prod.snd := by
    rw [← List.take_append_drop k slots, List.map_append] at h
    intro x hx hmem
    exact (List.nodup_append'.mp h).2.2 hmem (List.mem_map_of_mem hx)
  conv_rhs => rw [← List.take_append_drop k slots, List.filter_append]
  rw [List.filter_eq_nil_iff.mpr, List.nil_append, List.filter_eq_self.mpr]
  · intro x hx
    rw [List.take_append_drop]
    exact decide_eq_true (hdisjoint x hx)
  · intro x hx hnot
    rw [List.take_append_drop] at hnot
    exact of_decide_eq_true hnot (List.mem_map_of_mem hx)

/-- When the slots after the first `k` are those not received, the first `k` numbers were. -/
theorem received_eq_take {slots : List (ℕ × ℕ)} {received : List ℕ} {k : ℕ}
    (hslots : (slots.map Prod.snd).Pairwise (· < ·)) (hreceived : received.Pairwise (· < ·))
    (hsub : ∀ seq ∈ received, seq ∈ slots.map Prod.snd)
    (hdrop : slots.drop k = slots.filter fun slot => slot.2 ∉ received) :
    received = (slots.map Prod.snd).take k := by
  have htake : ((slots.map Prod.snd).take k).Pairwise (· < ·) :=
    hslots.sublist (List.take_sublist _ _)
  have hmem : ∀ seq, seq ∈ received ↔ seq ∈ (slots.map Prod.snd).take k := by
    intro seq
    constructor
    · intro hseq
      have hall := hsub seq hseq
      rw [← List.take_append_drop k (slots.map Prod.snd), List.mem_append] at hall
      refine hall.resolve_right fun hlate => ?_
      rw [← List.map_drop, hdrop] at hlate
      obtain ⟨x, hx, rfl⟩ := List.mem_map.mp hlate
      exact of_decide_eq_true (List.mem_filter.mp hx).2 hseq
    · intro hseq
      rw [← List.map_take] at hseq
      obtain ⟨x, hx, rfl⟩ := List.mem_map.mp hseq
      by_contra hnot
      -- a slot not received is among the later ones, and its number occurs once
      have hlate : x ∈ slots.drop k := by
        rw [hdrop]
        exact List.mem_filter.mpr ⟨List.mem_of_mem_take hx, decide_eq_true hnot⟩
      have hnodup := hslots.nodup
      rw [← List.take_append_drop k slots, List.map_append] at hnodup
      exact (List.nodup_append'.mp hnodup).2.2 (List.mem_map_of_mem hx) (List.mem_map_of_mem hlate)
  have hperm : received.Perm ((slots.map Prod.snd).take k) :=
    (List.perm_ext_iff_of_nodup hreceived.nodup htake.nodup).mpr hmem
  exact hperm.eq_of_pairwise (fun x y _ _ hxy hyx => absurd hyx (Nat.lt_asymm hxy)) hreceived htake

/-- **The tracker waits for what is missing exactly when the messages come in turn.** -/
theorem waits_iff (hslots : ((allocatedSlots news).map Prod.snd).Pairwise (· < ·))
    (hreceived : (receivedNumbers news).Pairwise (· < ·))
    (hsub : ∀ seq ∈ receivedNumbers news, seq ∈ (allocatedSlots news).map Prod.snd) :
    WaitsForMissing (.after news) (allocatedSlots news) (receivedNumbers news) ↔ InTurn news := by
  obtain ⟨k, hk, hpending, hlast, -, hiff⟩ := Waiting.after_spec news
  constructor
  · rintro ⟨hfilter, -⟩ pre seq post heq
    have hreceived' := received_eq_take hslots hreceived hsub (hpending.symm.trans hfilter)
    have hlen : k = (receivedNumbers news).length := by
      rw [hreceived', List.length_take, List.length_map, min_eq_left hk]
    have hroom := hiff.mp hlen pre seq post heq
    have hindex : (receivedNumbers news)[(receivedNumbers pre).length]? = some seq := by
      rw [heq, receivedNumbers_append, List.getElem?_append_right le_rfl, Nat.sub_self]
      rfl
    rw [hreceived'] at hindex
    obtain ⟨hlt, -⟩ := List.getElem?_eq_some_iff.mp hindex
    rw [List.length_take] at hlt
    rw [List.getElem?_take_of_lt (by omega), heq, allocatedSlots_append, List.map_append,
      List.getElem?_append_left (by rwa [List.length_map])] at hindex
    exact hindex
  · intro hturn
    have hlen := hiff.mpr hturn.supplied
    have htake := hturn.take_eq
    rw [← hlen, ← List.map_take] at htake
    refine ⟨?_, ?_⟩
    · rw [hpending, drop_eq_filter hslots.nodup, htake]
    · rw [hlast, htake, foldr_max_eq_getLastD hreceived]

/-! ## The tracker -/

/-- A call of the tracker, each under its lock. -/
inductive LivenessCall
  | updateTimeouts (proxyId : ℕ) (orderingValues : List ℕ)
  | removeTimeout (proxyId seq : ℕ)
  | setReconfiguring (proxyId : ℕ)
  deriving DecidableEq

namespace LivenessCall

/-- The lists hold pairs. -/
def Paired : LivenessCall → Prop
  | updateTimeouts _ orderingValues => orderingValues.length % 2 = 0
  | _ => True

instance : DecidablePred Paired
  | updateTimeouts _ _ => inferInstanceAs (Decidable (_ = _))
  | removeTimeout _ _ | setReconfiguring _ => inferInstanceAs (Decidable True)

/-- What a call tells about the proxy `p`. -/
def newsFor (p : ℕ) : LivenessCall → Option SlotNews
  | updateTimeouts proxyId orderingValues =>
    if proxyId = p then some (.allocated (slotPairs orderingValues)) else none
  | removeTimeout proxyId seq => if proxyId = p then some (.received seq) else none
  | setReconfiguring _ => none

end LivenessCall

namespace ProxyLivenessTracker

def call (t : ProxyLivenessTracker) : LivenessCall → Option ProxyLivenessTracker
  | .updateTimeouts proxyId orderingValues => some (t.updateTimeouts proxyId orderingValues)
  | .removeTimeout proxyId seq => t.removeTimeout proxyId seq
  | .setReconfiguring proxyId => some (t.setReconfiguring proxyId)

/-- What the tracker holds of one proxy. -/
def waiting (t : ProxyLivenessTracker) (p : ℕ) : Waiting := ⟨slotPairs (t.timeouts p), t.lastSeq p⟩

/-- The deques hold pairs, and the proxy `p` is not being reconfigured. -/
structure Steady (t : ProxyLivenessTracker) (p : ℕ) : Prop where
  paired : ∀ q, (t.timeouts q).length % 2 = 0
  active : t.isReconfiguring p = false

variable {t t' : ProxyLivenessTracker} {p : ℕ}

theorem timeouts_updateTimeouts (t : ProxyLivenessTracker) (proxyId : ℕ) (values : List ℕ)
    (q : ℕ) : (t.updateTimeouts proxyId values).timeouts q =
      if q = proxyId then t.timeouts proxyId ++ values else t.timeouts q := by
  unfold updateTimeouts
  split_ifs with h
  · rw [h]
    unfold timeouts
    rw [AList.lookup_insert]
    rfl
  · unfold timeouts
    rw [AList.lookup_insert_ne h]

/-- A message takes the first pair of its proxy and keeps its number. -/
theorem removeTimeout_spec {proxyId seq : ℕ} (hactive : t.isReconfiguring proxyId = false)
    (hpaired : (t.timeouts proxyId).length % 2 = 0) :
    ∃ t', t.removeTimeout proxyId seq = some t' ∧
      t'.waiting proxyId = (t.waiting proxyId).observe (.received seq) ∧
      (t'.timeouts proxyId).length % 2 = 0 ∧
      ∀ q, q ≠ proxyId → t'.timeouts q = t.timeouts q ∧ t'.lastSeq q = t.lastSeq q := by
  unfold removeTimeout
  rw [hactive]
  simp only [Bool.false_eq_true, if_false]
  rcases heq : t.timeouts proxyId with _ | ⟨timeout, _ | ⟨front, tq⟩⟩
  · refine ⟨t, rfl, ?_, by rw [heq]; rfl, fun _ _ => ⟨rfl, rfl⟩⟩
    simp only [waiting, heq, slotPairs, Waiting.observe]
  · rw [heq] at hpaired
    simp at hpaired
  · rw [heq, List.length_cons, List.length_cons] at hpaired
    have hrest : tq.length % 2 = 0 := by omega
    simp only [if_pos hrest]
    refine ⟨_, rfl, ?_, ?_, fun q hq => ⟨?_, ?_⟩⟩
    · simp only [waiting, heq, slotPairs, Waiting.observe]
      simp only [timeouts, lastSeq, AList.lookup_insert, Option.getD_some]
    · simp only [timeouts, AList.lookup_insert, Option.getD_some]
      exact hrest
    · simp only [timeouts, AList.lookup_insert_ne hq]
    · simp only [lastSeq, AList.lookup_insert_ne hq]

/-- A message touches the entries of its proxy only. -/
theorem exists_removeTimeout {proxyId seq : ℕ} (hpaired : (t.timeouts proxyId).length % 2 = 0) :
    ∃ t', t.removeTimeout proxyId seq = some t' ∧ (t'.timeouts proxyId).length % 2 = 0 ∧
      ∀ q, q ≠ proxyId → t'.timeouts q = t.timeouts q ∧ t'.lastSeq q = t.lastSeq q := by
  cases hactive : t.isReconfiguring proxyId with
  | false =>
    obtain ⟨t', ht', -, hrest⟩ := removeTimeout_spec hactive hpaired
    exact ⟨t', ht', hrest⟩
  | true =>
    unfold removeTimeout
    rw [hactive, if_pos rfl]
    split_ifs
    · refine ⟨_, rfl, hpaired, fun q hq => ⟨rfl, ?_⟩⟩
      simp only [lastSeq, AList.lookup_insert_ne hq]
    · exact ⟨t, rfl, hpaired, fun _ _ => ⟨rfl, rfl⟩⟩

theorem Steady.removeTimeout (h : t.Steady p) (proxyId seq : ℕ) :
    ∃ t', t.removeTimeout proxyId seq = some t' ∧ t'.Steady p ∧
      t'.waiting p =
        if proxyId = p then (t.waiting p).observe (.received seq) else t.waiting p := by
  obtain ⟨t', ht', hpaired, hframe⟩ := exists_removeTimeout (h.paired proxyId)
  refine ⟨t', ht', ⟨fun q => ?_, ?_⟩, ?_⟩
  · by_cases hq : q = proxyId
    · rw [hq]
      exact hpaired
    · rw [(hframe q hq).1]
      exact h.paired q
  · rw [isReconfiguring, blocked_removeTimeout ht']
    exact h.active
  · split_ifs with hp
    · subst hp
      obtain ⟨t'', ht'', hwaiting, -⟩ :=
        removeTimeout_spec h.active (h.paired proxyId)
      cases ht'.symm.trans ht''
      exact hwaiting
    · obtain ⟨htimeouts, hlast⟩ := hframe p (Ne.symm hp)
      rw [waiting, htimeouts, hlast]
      rfl

theorem Steady.updateTimeouts (h : t.Steady p) (proxyId : ℕ) {values : List ℕ}
    (hvalues : values.length % 2 = 0) :
    (t.updateTimeouts proxyId values).Steady p ∧
      (t.updateTimeouts proxyId values).waiting p =
        if proxyId = p then (t.waiting p).observe (.allocated (slotPairs values))
        else t.waiting p := by
  refine ⟨⟨fun q => ?_, h.active⟩, ?_⟩
  · rw [timeouts_updateTimeouts]
    split_ifs
    · have hold := h.paired proxyId
      rw [List.length_append]
      omega
    · exact h.paired q
  · rw [waiting, timeouts_updateTimeouts]
    split_ifs with hp hp' hp'
    · rw [slotPairs_append (h.paired proxyId), hp]
      rfl
    · exact absurd hp.symm hp'
    · exact absurd hp'.symm hp
    · rfl

theorem Steady.setReconfiguring (h : t.Steady p) {proxyId : ℕ} (hp : p ≠ proxyId) :
    (t.setReconfiguring proxyId).Steady p ∧
      (t.setReconfiguring proxyId).waiting p = t.waiting p := by
  refine ⟨⟨h.paired, ?_⟩, rfl⟩
  unfold ProxyLivenessTracker.setReconfiguring
  rw [isReconfiguring, AList.lookup_insert_ne hp]
  exact h.active

/-- **One call.** For one proxy the tracker does what `Waiting` does with the news of the call. -/
theorem Steady.call (h : t.Steady p) {c : LivenessCall} (hpaired : c.Paired)
    (hactive : c ≠ .setReconfiguring p) :
    ∃ t', t.call c = some t' ∧ t'.Steady p ∧
      t'.waiting p = (c.newsFor p).toList.foldl Waiting.observe (t.waiting p) := by
  cases c with
  | updateTimeouts proxyId values =>
    obtain ⟨hsteady, hwaiting⟩ := h.updateTimeouts proxyId hpaired
    refine ⟨_, rfl, hsteady, ?_⟩
    rw [hwaiting, LivenessCall.newsFor]
    split_ifs <;> rfl
  | removeTimeout proxyId seq =>
    obtain ⟨t', ht', hsteady, hwaiting⟩ := h.removeTimeout proxyId seq
    refine ⟨t', ht', hsteady, ?_⟩
    rw [hwaiting, LivenessCall.newsFor]
    split_ifs <;> rfl
  | setReconfiguring proxyId =>
    obtain ⟨hsteady, hwaiting⟩ := h.setReconfiguring fun heq => hactive (by rw [heq])
    exact ⟨_, rfl, hsteady, hwaiting⟩

/-- What the calls tell about the proxy `p`. -/
def newsOf (p : ℕ) (cs : List LivenessCall) : List SlotNews :=
  cs.filterMap (LivenessCall.newsFor p)

/-- **All calls.** -/
theorem Steady.calls {cs : List LivenessCall} (h : t.Steady p) (hpaired : ∀ c ∈ cs, c.Paired)
    (hactive : .setReconfiguring p ∉ cs) :
    ∃ t', cs.foldlM ProxyLivenessTracker.call t = some t' ∧ t'.Steady p ∧
      t'.waiting p = (newsOf p cs).foldl Waiting.observe (t.waiting p) := by
  induction cs generalizing t with
  | nil => exact ⟨t, rfl, h, rfl⟩
  | cons c cs ih =>
    obtain ⟨t₁, ht₁, hsteady₁, hwaiting₁⟩ := h.call (hpaired c List.mem_cons_self)
      fun heq => hactive (heq ▸ List.mem_cons_self)
    obtain ⟨t', ht', hsteady, hwaiting⟩ := ih hsteady₁
      (fun d hd => hpaired d (List.mem_cons_of_mem _ hd))
      (fun hmem => hactive (List.mem_cons_of_mem _ hmem))
    refine ⟨t', ?_, hsteady, ?_⟩
    · rw [List.foldlM_cons, ht₁]
      exact ht'
    · rw [hwaiting, hwaiting₁, newsOf, newsOf, List.filterMap_cons]
      cases c.newsFor p <;> rfl

theorem steady_init (p : ℕ) : init.Steady p := ⟨fun _ => rfl, rfl⟩

/-- The calls for the proxy `p`: lists of pairs whose numbers increase, and messages that carry
some of these numbers, in increasing order. The proxy is not being reconfigured. -/
structure CallsFor (p : ℕ) (cs : List LivenessCall) : Prop where
  paired : ∀ c ∈ cs, c.Paired
  active : .setReconfiguring p ∉ cs
  allocated : ((allocatedSlots (newsOf p cs)).map Prod.snd).Pairwise (· < ·)
  received : (receivedNumbers (newsOf p cs)).Pairwise (· < ·)
  expected : ∀ seq ∈ receivedNumbers (newsOf p cs),
    seq ∈ (allocatedSlots (newsOf p cs)).map Prod.snd

/-- **When the tracker waits for exactly the outstanding slots.** No call fails, and after all of
them the deque of a proxy holds the pairs allocated and not received, and the last number is the
largest one received, if and only if the messages of the proxy came in turn. -/
theorem waits_for_outstanding_iff {cs : List LivenessCall} (h : CallsFor p cs) :
    ∃ t, cs.foldlM call init = some t ∧ (t.timeouts p).length % 2 = 0 ∧
      ((slotPairs (t.timeouts p) = (allocatedSlots (newsOf p cs)).filter
            (fun slot => slot.2 ∉ receivedNumbers (newsOf p cs)) ∧
          t.lastSeq p = (receivedNumbers (newsOf p cs)).foldr max 0) ↔
        InTurn (newsOf p cs)) := by
  obtain ⟨t, ht, hsteady, hwaiting⟩ := (steady_init p).calls h.paired h.active
  refine ⟨t, ht, hsteady.paired p, ?_⟩
  have hafter : Waiting.after (newsOf p cs) = t.waiting p := hwaiting.symm
  rw [← waits_iff h.allocated h.received h.expected, hafter]
  rfl

/-- Two slots, the first message between the two responses. -/
def oneOutstanding : List LivenessCall :=
  [.updateTimeouts 0 [5, 1], .removeTimeout 0 1, .updateTimeouts 0 [9, 2]]

theorem waits_for_outstanding_iff_one :
    InTurn (newsOf 0 oneOutstanding) ∧ ∃ t, oneOutstanding.foldlM call init = some t ∧
      slotPairs (t.timeouts 0) = [(9, 2)] ∧ t.lastSeq 0 = 1 := by
  obtain ⟨t, ht, -, hiff⟩ := @waits_for_outstanding_iff 0 oneOutstanding
    ⟨by decide, by decide, by decide, by decide, by decide⟩
  have hwaiting : slotPairs (t.timeouts 0) = [(9, 2)] ∧ t.lastSeq 0 = 1 := by
    cases ht
    exact ⟨by decide, by decide⟩
  exact ⟨hiff.mp hwaiting, t, ht, hwaiting⟩

/-- A message that overtakes the response with its slot is ignored, and the slot is waited for. -/
theorem not_waits_for_outstanding : ¬ ∀ (p : ℕ) (cs : List LivenessCall), CallsFor p cs →
    ∀ t, cs.foldlM call init = some t →
      slotPairs (t.timeouts p) = (allocatedSlots (newsOf p cs)).filter
          (fun slot => slot.2 ∉ receivedNumbers (newsOf p cs)) ∧
        t.lastSeq p = (receivedNumbers (newsOf p cs)).foldr max 0 := by
  intro hall
  have h := hall 0 [.removeTimeout 0 1, .updateTimeouts 0 [5, 1]]
    ⟨by decide, by decide, by decide, by decide, by decide⟩ _ rfl
  exact absurd h.2 (by decide)

end ProxyLivenessTracker

end Ziplog
