import Mathlib.Data.List.AList

/-!
# The freeze handler of a server

`handle_freeze` takes a round of a proxy once when the zipper asks, and `handle_transfer_request`
takes it also when a peer that is freezing asks first. What follows the locked section, the
transfers from the peers and the answer to the zipper, is left to the system; `handling` lists the
rounds in which the server is between the two.
-/

namespace Ziplog

structure FreezeHandler where
  rounds : AList fun _ : ℕ => ℤ
  handling : List (ℕ × ℤ)

namespace FreezeHandler

def init : FreezeHandler := ⟨∅, []⟩

/-- A round not older than this one has been seen. -/
def outdated (h : FreezeHandler) (failedProxy : ℕ) (round : ℤ) : Bool :=
  (h.rounds.lookup failedProxy).any fun last => round ≤ last

/-- The start of `handle_freeze`; an outdated round is ignored. -/
def handleFreeze (h : FreezeHandler) (failedProxy : ℕ) (round : ℤ) (fromZipper : Bool) :
    Option FreezeHandler :=
  if fromZipper && h.outdated failedProxy round then none
  else some ⟨h.rounds.insert failedProxy round, h.handling ++ [(failedProxy, round)]⟩

/-- `handle_transfer_request`, as far as it starts a freeze: for a round not seen yet. -/
def handleTransferRequest (h : FreezeHandler) (failedProxy : ℕ) (round : ℤ) :
    Option FreezeHandler :=
  if h.outdated failedProxy round then none
  else
    handleFreeze { h with rounds := h.rounds.insert failedProxy round } failedProxy round false

/-- The answer has been sent. -/
def finish (h : FreezeHandler) (failedProxy : ℕ) (round : ℤ) : FreezeHandler :=
  { h with handling := h.handling.erase (failedProxy, round) }

end FreezeHandler

end Ziplog
