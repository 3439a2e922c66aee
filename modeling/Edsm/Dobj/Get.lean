import Edsm.Dobj.Object
import Edsm.Group
import Edsm.Library.Channels
import Edsm.Library.Reachability

/-!
# Getting an object

The threads of a fully connected group call `edsm_mutex_get`, `edsm_barrier_get`
or `edsm_memory_region_get` for one id.  The first call on a node creates the
object and asks the other nodes for theirs; the listener of each node answers,
and passes the messages of the object to its handler.
-/

namespace Edsm.Dobj.Get

/-- The `DOBJ` messages about the id, `CREATE` apart. -/
inductive Msg (D : Type*)
  | get
  | getReply (haveReference : Bool)
  | objMsg (d : D)
  deriving DecidableEq

/-- How far the call that allocated the object has come. -/
inductive Creation
  | absent
  /-- It is in the table; `wait_on` has not been set. -/
  | inserted
  /-- The `GET` has still to be sent to the peers of the list. -/
  | sending (rest : List UInt32)
  /-- `edsm_dobj_get` has returned. -/
  | returned
  deriving DecidableEq, Repr

/-- Where a thread stands in the call. -/
inductive Pc
  | outside
  /-- It allocated the object and is inside `edsm_dobj_get`. -/
  | creating
  /-- `edsm_dobj_get` has returned and `inited` has not been tested. -/
  | gotten
  /-- It has set `inited` and has these fields still to initialise. -/
  | initialising (rest : List Field)
  | returned
  deriving DecidableEq, Repr

inductive Listener (D : Type*)
  | idle
  /-- In `edsm_dobj_handle_get`, between the lookup and `local_lock`. -/
  | answering (peerId : UInt32) (found : Bool)
  /-- `inited` was set; the handler is about to be called. -/
  | calling (peerId : UInt32) (d : D)

structure Node (T D : Type*) where
  /-- The entry of the `objects` table. -/
  dobj : Option Dobj
  creation : Creation
  pc : T → Pc
  listener : Listener D

/-- The last three fields record the past; no function reads them. -/
structure State (T D : Type*) where
  node : UInt32 → Node T D
  net : Channels UInt32 (Msg D)
  /-- `denied p q`: `q` looked for the object on behalf of `p` and did not find it. -/
  denied : UInt32 → UInt32 → Bool
  sent : UInt32 → UInt32 → List D
  /-- The handler calls at `p` for messages of `q`, and whether all was initialised. -/
  handled : UInt32 → UInt32 → List (D × Bool)

inductive Action (T D : Type*)
  /-- `edsm_dobj_get` up to the release of `local_lock`. -/
  | get (p : UInt32) (t : T)
  | setWaitOn (p : UInt32)
  | sendGet (p : UInt32)
  /-- The creating call finds `wait_on` empty and returns. -/
  | wake (p : UInt32) (t : T)
  | testAndInit (p : UInt32) (t : T)
  | initField (p : UInt32) (t : T)
  /-- `edsm_dobj_send`. -/
  | sendObj (p : UInt32) (d : D)
  /-- The listener of `p` takes the oldest message of `q`. -/
  | deliver (q p : UInt32)
  /-- The rest of `edsm_dobj_handle_get`, under `local_lock`. -/
  | answer (p : UInt32)
  | callHandler (p : UInt32)

variable {T D : Type*}

namespace State

def setNode (s : State T D) (p : UInt32) (nd : Node T D) : State T D :=
  { s with node := Function.update s.node p nd }

/-- Message `m` from `p` to each node of the list. -/
def post (s : State T D) (p : UInt32) (peers : List UInt32) (m : Msg D) : State T D :=
  { s with net := s.net.multicast p peers [m] }

/-- Entry `p, q` of a record is replaced. -/
def record {α : Type*} (f : UInt32 → UInt32 → α) (p q : UInt32) (v : α) : UInt32 → UInt32 → α :=
  Function.update f p (Function.update (f p) q v)

end State

variable [DecidableEq T]

def Node.moveTo (nd : Node T D) (t : T) (pc : Pc) : Node T D :=
  { nd with pc := Function.update nd.pc t pc }

/-- What the listener makes of a message; an `OBJ_MSG` that finds no initialised
object is dropped. -/
def Node.take (nd : Node T D) (peerId : UInt32) : Msg D → Node T D
  | .get => { nd with listener := .answering peerId nd.dobj.isSome }
  | .getReply haveReference => { nd with dobj := handleGetReply nd.dobj peerId haveReference }
  | .objMsg d =>
      if nd.dobj.any (·.inited) then { nd with listener := .calling peerId d } else nd

/-- A lookup that fails is recorded for the node that asked. -/
def deniedAfter (s : State T D) (q p : UInt32) : Msg D → UInt32 → UInt32 → Bool
  | .get => if (s.node p).dobj.isNone then State.record s.denied q p true else s.denied
  | _ => s.denied

def step (G : Group) (kind : Kind) (s : State T D) : Action T D → Option (State T D)
  | .get p t =>
      if p ∈ G.ids ∧ (s.node p).pc t = .outside then
        match (s.node p).dobj with
        | none => some (s.setNode p { (s.node p).moveTo t .creating with
            dobj := some create
            creation := .inserted })
        | some dobj => some (s.setNode p { (s.node p).moveTo t .gotten with
            dobj := some { dobj with refCount := dobj.refCount + 1 } })
      else none
  | .setWaitOn p =>
      match (s.node p).creation, (s.node p).dobj with
      | .inserted, some dobj => some (s.setNode p { s.node p with
          dobj := some { dobj with waiter := dobj.waiter.setWaitOn (G.peers p) }
          creation := .sending (G.peers p) })
      | _, _ => none
  | .sendGet p =>
      match (s.node p).creation with
      | .sending (q :: rest) =>
          some ((s.setNode p { s.node p with creation := .sending rest }).post p [q] .get)
      | _ => none
  | .wake p t =>
      match (s.node p).dobj with
      | some dobj =>
          if (s.node p).pc t = .creating ∧ (s.node p).creation = .sending [] ∧
              dobj.waiter.Ready then
            some (s.setNode p { (s.node p).moveTo t .gotten with
              dobj := some { dobj with refCount := dobj.refCount + 1 }
              creation := .returned })
          else none
      | none => none
  | .testAndInit p t =>
      match (s.node p).dobj with
      | some dobj =>
          if (s.node p).pc t = .gotten then
            some (s.setNode p { (s.node p).moveTo t
                (if dobj.inited then .returned else .initialising kind.initOrder) with
              dobj := some { dobj with inited := true } })
          else none
      | none => none
  | .initField p t =>
      match (s.node p).pc t, (s.node p).dobj with
      | .initialising (field :: rest), some dobj =>
          some (s.setNode p { (s.node p).moveTo t
              (if rest = [] then .returned else .initialising rest) with
            dobj := some { dobj with initialised := field :: dobj.initialised } })
      | _, _ => none
  | .sendObj p d =>
      match (s.node p).dobj with
      | some dobj => some { s.post p dobj.peers (.objMsg d) with
          sent := Function.update s.sent p fun q ↦
            if q ∈ dobj.peers then s.sent p q ++ [d] else s.sent p q }
      | none => none
  | .deliver q p =>
      match s.net q p, (s.node p).listener with
      | m :: rest, .idle => some { s.setNode p ((s.node p).take q m) with
          net := s.net.set q p rest
          denied := deniedAfter s q p m }
      | _, _ => none
  | .answer p =>
      match (s.node p).listener with
      | .answering q found =>
          some ((s.setNode p { s.node p with
            listener := .idle
            dobj := if found then (s.node p).dobj.map fun dobj ↦
              { dobj with peers := addPeerReference q dobj.peers } else (s.node p).dobj }).post
            p [q] (.getReply found))
      | _ => none
  | .callHandler p =>
      match (s.node p).listener with
      | .calling q d => some { s.setNode p { s.node p with listener := .idle } with
          handled := State.record s.handled p q
            (s.handled p q ++ [(d, (s.node p).dobj.any (·.Ready kind))]) }
      | _ => none

def initialNode : Node T D where
  dobj := none
  creation := .absent
  pc _ := .outside
  listener := .idle

def system (T D : Type*) [DecidableEq T] (G : Group) (kind : Kind) :
    LabelledSystem (State T D) (Action T D) where
  init := {
    node := fun _ ↦ initialNode
    net := .empty
    denied := fun _ _ ↦ false
    sent := fun _ _ ↦ []
    handled := fun _ _ ↦ [] }
  step := step G kind

/-! ## What a step can do -/

section Step

variable {G : Group} {kind : Kind} {s s' : State T D} {q p : UInt32} {t : T} {d : D}

theorem step_get_cases (h : step G kind s (.get p t) = some s') :
    p ∈ G.ids ∧ (s.node p).pc t = .outside ∧
      (((s.node p).dobj = none ∧ s' = s.setNode p { (s.node p).moveTo t .creating with
        dobj := some create
        creation := .inserted }) ∨
      ∃ dobj, (s.node p).dobj = some dobj ∧ s' = s.setNode p { (s.node p).moveTo t .gotten with
        dobj := some { dobj with refCount := dobj.refCount + 1 } }) := by
  obtain ⟨⟨hp, hpc⟩, h⟩ := by simpa [step] using h
  refine ⟨hp, hpc, ?_⟩
  cases hdobj : (s.node p).dobj with
  | none =>
      obtain rfl := by simpa [hdobj] using h
      exact .inl ⟨rfl, rfl⟩
  | some dobj =>
      obtain rfl := by simpa [hdobj] using h
      exact .inr ⟨dobj, rfl, rfl⟩

theorem step_setWaitOn_eq_some (h : step G kind s (.setWaitOn p) = some s') :
    ∃ dobj, (s.node p).creation = .inserted ∧ (s.node p).dobj = some dobj ∧
      s' = s.setNode p { s.node p with
        dobj := some { dobj with waiter := dobj.waiter.setWaitOn (G.peers p) }
        creation := .sending (G.peers p) } := by
  simp only [step] at h
  split at h
  · next dobj hcreation hdobj => exact ⟨dobj, hcreation, hdobj, (Option.some.inj h).symm⟩
  · cases h

theorem step_sendGet_eq_some (h : step G kind s (.sendGet p) = some s') :
    ∃ q rest, (s.node p).creation = .sending (q :: rest) ∧
      s' = (s.setNode p { s.node p with creation := .sending rest }).post p [q] .get := by
  simp only [step] at h
  split at h
  · next q rest hcreation => exact ⟨q, rest, hcreation, (Option.some.inj h).symm⟩
  · cases h

theorem step_wake_eq_some (h : step G kind s (.wake p t) = some s') :
    ∃ dobj, (s.node p).dobj = some dobj ∧ (s.node p).pc t = .creating ∧
      (s.node p).creation = .sending [] ∧ dobj.waiter.Ready ∧
      s' = s.setNode p { (s.node p).moveTo t .gotten with
        dobj := some { dobj with refCount := dobj.refCount + 1 }
        creation := .returned } := by
  simp only [step] at h
  split at h
  · next dobj hdobj =>
      obtain ⟨⟨hpc, hcreation, hready⟩, rfl⟩ := by simpa using h
      exact ⟨dobj, hdobj, hpc, hcreation, hready, rfl⟩
  · cases h

theorem step_testAndInit_eq_some (h : step G kind s (.testAndInit p t) = some s') :
    ∃ dobj, (s.node p).dobj = some dobj ∧ (s.node p).pc t = .gotten ∧
      s' = s.setNode p { (s.node p).moveTo t
          (if dobj.inited then .returned else .initialising kind.initOrder) with
        dobj := some { dobj with inited := true } } := by
  simp only [step] at h
  split at h
  · next dobj hdobj =>
      obtain ⟨hpc, rfl⟩ := by simpa using h
      exact ⟨dobj, hdobj, hpc, rfl⟩
  · cases h

theorem step_initField_eq_some (h : step G kind s (.initField p t) = some s') :
    ∃ field rest dobj, (s.node p).pc t = .initialising (field :: rest) ∧
      (s.node p).dobj = some dobj ∧
      s' = s.setNode p { (s.node p).moveTo t
          (if rest = [] then .returned else .initialising rest) with
        dobj := some { dobj with initialised := field :: dobj.initialised } } := by
  simp only [step] at h
  split at h
  · next field rest dobj hpc hdobj =>
      exact ⟨field, rest, dobj, hpc, hdobj, (Option.some.inj h).symm⟩
  · cases h

theorem step_sendObj_eq_some (h : step G kind s (.sendObj p d) = some s') :
    ∃ dobj, (s.node p).dobj = some dobj ∧ s' = { s.post p dobj.peers (.objMsg d) with
      sent := Function.update s.sent p fun q ↦
        if q ∈ dobj.peers then s.sent p q ++ [d] else s.sent p q } := by
  simp only [step] at h
  split at h
  · next dobj hdobj => exact ⟨dobj, hdobj, (Option.some.inj h).symm⟩
  · cases h

theorem step_deliver_eq_some (h : step G kind s (.deliver q p) = some s') :
    ∃ m rest, s.net q p = m :: rest ∧ (s.node p).listener = .idle ∧
      s' = { s.setNode p ((s.node p).take q m) with
        net := s.net.set q p rest
        denied := deniedAfter s q p m } := by
  simp only [step] at h
  split at h
  · next m rest hhead hidle => exact ⟨m, rest, hhead, hidle, (Option.some.inj h).symm⟩
  · cases h

theorem step_answer_eq_some (h : step G kind s (.answer p) = some s') :
    ∃ q found, (s.node p).listener = .answering q found ∧
      s' = (s.setNode p { s.node p with
        listener := .idle
        dobj := if found then (s.node p).dobj.map fun dobj ↦
          { dobj with peers := addPeerReference q dobj.peers } else (s.node p).dobj }).post
        p [q] (.getReply found) := by
  simp only [step] at h
  split at h
  · next q found hlistener => exact ⟨q, found, hlistener, (Option.some.inj h).symm⟩
  · cases h

theorem step_callHandler_eq_some (h : step G kind s (.callHandler p) = some s') :
    ∃ q d, (s.node p).listener = .calling q d ∧
      s' = { s.setNode p { s.node p with listener := .idle } with
        handled := State.record s.handled p q
          (s.handled p q ++ [(d, (s.node p).dobj.any (·.Ready kind))]) } := by
  simp only [step] at h
  split at h
  · next q d hlistener => exact ⟨q, d, hlistener, (Option.some.inj h).symm⟩
  · cases h

end Step

end Edsm.Dobj.Get
