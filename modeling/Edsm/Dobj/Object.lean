import Edsm.ReplyWaiter
import Mathlib.Data.List.Nodup

/-!
# Distributed objects

What a node keeps in its table for one object id, and what the listener does
with it.  An object is created zeroed; the caller of `edsm_mutex_get`,
`edsm_barrier_get` or `edsm_memory_region_get` initialises the fields of its own
type after `edsm_dobj_get` has returned.
-/

namespace Edsm.Dobj

inductive Kind
  | mutex
  | barrier
  | region
  deriving DecidableEq, Repr

/-- The fields that the three functions initialise. -/
inductive Field
  | lock
  | localMutex
  | waiter
  | twins
  | head
  | size
  | regionLock
  | lamportLock
  deriving DecidableEq, Repr

/-- In the order of the assignments. -/
def Kind.initOrder : Kind → List Field
  | .mutex => [.lock, .localMutex, .waiter]
  | .barrier => [.waiter]
  | .region => [.twins, .head, .size, .regionLock, .lamportLock]

/-- The fields that the message handler of the type cannot do without. -/
def Kind.required : Kind → List Field
  | .mutex => [.waiter, .lock]
  | .barrier => [.waiter]
  | .region => [.head, .size, .regionLock]

/-- `_add_peer_reference`: a peer that is already listed is not added again. -/
def addPeerReference (peerId : UInt32) (peers : List UInt32) : List UInt32 :=
  if peerId ∈ peers then peers else peers ++ [peerId]

end Dobj

/-- `edsm_dobj`, less the constant id and handler. -/
structure Dobj where
  refCount : UInt32
  inited : Bool
  peers : List UInt32
  waiter : ReplyWaiter
  /-- The fields of the type that hold their first value. -/
  initialised : List Dobj.Field

namespace Dobj

/-- The object that `edsm_dobj_get` allocates. -/
def create : Dobj :=
  { refCount := 0, inited := false, peers := [], waiter := [], initialised := [] }

/-- `edsm_dobj_handle_get_reply`, on what the table holds for the id. -/
def handleGetReply (dobj : Option Dobj) (peerId : UInt32) (haveReference : Bool) : Option Dobj :=
  dobj.map fun dobj ↦ { dobj with
    peers := if haveReference then addPeerReference peerId dobj.peers else dobj.peers
    waiter := dobj.waiter.addReply peerId }

/-- A call of the handler finds all that it needs. -/
def Ready (kind : Kind) (dobj : Dobj) : Prop :=
  dobj.inited = true ∧ ∀ field ∈ kind.required, field ∈ dobj.initialised

instance (kind : Kind) (dobj : Dobj) : Decidable (dobj.Ready kind) :=
  inferInstanceAs (Decidable (_ ∧ _))

theorem Ready.mono {kind : Kind} {dobj dobj' : Dobj} (h : dobj.Ready kind)
    (hinited : dobj.inited = true → dobj'.inited = true)
    (hfields : ∀ field ∈ dobj.initialised, field ∈ dobj'.initialised) : dobj'.Ready kind :=
  ⟨hinited h.1, fun field hf ↦ hfields field (h.2 field hf)⟩

variable {p q : UInt32} {peers : List UInt32}

theorem mem_addPeerReference : q ∈ addPeerReference p peers ↔ q ∈ peers ∨ q = p := by
  unfold addPeerReference
  split
  · next hp =>
      refine ⟨.inl, Or.rec id ?_⟩
      rintro rfl
      exact hp
  · simp

theorem nodup_addPeerReference (h : peers.Nodup) : (addPeerReference p peers).Nodup := by
  unfold addPeerReference
  split
  · exact h
  · next hp =>
      refine List.nodup_append.mpr ⟨h, by simp, ?_⟩
      rintro a ha b hb rfl
      exact hp (List.mem_singleton.mp hb ▸ ha)

end Dobj

end Edsm
