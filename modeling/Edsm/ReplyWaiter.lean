import Mathlib.Data.List.Basic

/-!
# Reply waiters

`edsm_reply_waiter` holds the ids whose reply is still missing.  Its lock makes
each operation one step; the condition variable only wakes the waiting thread,
which tests the list again, so it carries no state.
-/

namespace Edsm

/-- The `wait_on` list of an `edsm_reply_waiter`. -/
abbrev ReplyWaiter := List UInt32

namespace ReplyWaiter

/-- `edsm_reply_waiter_set_wait_on`: the previous list is dropped. -/
def setWaitOn (_ : ReplyWaiter) (peers : List UInt32) : ReplyWaiter := peers

/-- `edsm_reply_waiter_add_reply`: the first entry of the peer is deleted. -/
def addReply (waiter : ReplyWaiter) (peerId : UInt32) : ReplyWaiter := waiter.erase peerId

/-- The loop of `edsm_reply_waiter_wait` leaves when the list is `NULL`. -/
def Ready (waiter : ReplyWaiter) : Prop := waiter = []

instance (waiter : ReplyWaiter) : Decidable waiter.Ready := inferInstanceAs (Decidable (_ = _))

theorem mem_addReply_of_ne {waiter : ReplyWaiter} {p q : UInt32} (h : q ≠ p) :
    q ∈ waiter.addReply p ↔ q ∈ waiter :=
  List.mem_erase_of_ne h

theorem mem_of_mem_addReply {waiter : ReplyWaiter} {p q : UInt32} (h : q ∈ waiter.addReply p) :
    q ∈ waiter :=
  List.mem_of_mem_erase h

theorem notMem_addReply {waiter : ReplyWaiter} (hn : waiter.Nodup) (p : UInt32) :
    p ∉ waiter.addReply p :=
  hn.not_mem_erase

theorem nodup_addReply {waiter : ReplyWaiter} (hn : waiter.Nodup) (p : UInt32) :
    (waiter.addReply p).Nodup :=
  hn.erase p

end ReplyWaiter

end Edsm
