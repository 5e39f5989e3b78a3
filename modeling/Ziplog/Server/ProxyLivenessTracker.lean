import Mathlib.Data.List.AList

/-!
# The liveness tracker of a server

The slots a server waits for, the last number it has seen from each proxy, and the proxies blocked
for reconfiguration: a proxy with the value `false` is being reconfigured, one with `true` is
blocked. `removeTimeout` is `none` when its assertion fails.
-/

namespace Ziplog

structure ProxyLivenessTracker where
  proxyTimeouts : AList fun _ : ℕ => List ℕ
  lastUsedSequenceNumber : AList fun _ : ℕ => ℕ
  blockedForReconfiguration : AList fun _ : ℕ => Bool

namespace ProxyLivenessTracker

def init : ProxyLivenessTracker := ⟨∅, ∅, ∅⟩

def timeouts (t : ProxyLivenessTracker) (proxyId : ℕ) : List ℕ :=
  (t.proxyTimeouts.lookup proxyId).getD []

def lastSeq (t : ProxyLivenessTracker) (proxyId : ℕ) : ℕ :=
  (t.lastUsedSequenceNumber.lookup proxyId).getD 0

def updateTimeouts (t : ProxyLivenessTracker) (proxyId : ℕ) (orderingValues : List ℕ) :
    ProxyLivenessTracker :=
  { t with proxyTimeouts := t.proxyTimeouts.insert proxyId (t.timeouts proxyId ++ orderingValues) }

def isBlocked (t : ProxyLivenessTracker) (proxyId : ℕ) : Bool :=
  t.blockedForReconfiguration.lookup proxyId = some true

def isReconfiguring (t : ProxyLivenessTracker) (proxyId : ℕ) : Bool :=
  (t.blockedForReconfiguration.lookup proxyId).isSome

/-- `false` stands for a reconfiguration in process. -/
def setReconfiguring (t : ProxyLivenessTracker) (proxyId : ℕ) : ProxyLivenessTracker :=
  { t with blockedForReconfiguration := t.blockedForReconfiguration.insert proxyId false }

/-- A message of the proxy arrived: its first slot is done, or, during a reconfiguration, only the
last number is kept. -/
def removeTimeout (t : ProxyLivenessTracker) (proxyId : ℕ) (seq : ℕ) :
    Option ProxyLivenessTracker :=
  if t.isReconfiguring proxyId then
    if t.lastSeq proxyId < seq then
      some { t with lastUsedSequenceNumber := t.lastUsedSequenceNumber.insert proxyId seq }
    else some t
  else
    match t.timeouts proxyId with
    | [] => some t
    | [_] => some t
    | _ :: front :: tq =>
      if tq.length % 2 = 0 then
        some { t with
          proxyTimeouts := t.proxyTimeouts.insert proxyId tq
          lastUsedSequenceNumber := t.lastUsedSequenceNumber.insert proxyId front }
      else none

/-! ## Blocking -/

/-- Only freezing and rejoining change who is blocked. -/
theorem blocked_removeTimeout {t t' : ProxyLivenessTracker} {proxyId seq : ℕ}
    (h : t.removeTimeout proxyId seq = some t') :
    t'.blockedForReconfiguration = t.blockedForReconfiguration := by
  unfold removeTimeout at h
  split_ifs at h
  · cases h
    rfl
  · cases h
    rfl
  · split at h
    · cases h
      rfl
    · cases h
      rfl
    · split_ifs at h
      cases h
      rfl

theorem isBlocked_removeTimeout {t t' : ProxyLivenessTracker} {proxyId seq : ℕ}
    (h : t.removeTimeout proxyId seq = some t') (q : ℕ) : t'.isBlocked q = t.isBlocked q := by
  unfold isBlocked
  rw [blocked_removeTimeout h]

end ProxyLivenessTracker

end Ziplog
