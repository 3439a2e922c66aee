import Edsm.Dobj.Membership
import Mathlib.Algebra.Group.Nat.Defs
import Mathlib.Data.Fintype.Basic

/-!
# The calls for one object

All calls for an id are to return the same object, joined and initialised.  Only the call that
allocates the object waits for the replies of the group, and only the one that sets `inited`
initialises it; the others find the entry, or `inited`, and do not wait for either.  `T` has an
element for each call, so a thread may call again.
-/

namespace Edsm.Dobj.Calls

open Get

/-- What a node knows of the calls besides its object.  `gotten` and `answered` record the past. -/
structure Record (T : Type*) where
  /-- The address of the next allocation. -/
  malloc : ℕ
  /-- The address in the `objects` table. -/
  table : Option ℕ
  /-- The local variable of `edsm_dobj_get`. -/
  output : T → Option ℕ
  /-- `edsm_memory_regions_lock`, which `edsm_memory_region_get` holds to its end. -/
  regionsLock : Option T
  /-- The calls of `edsm_dobj_get` that have returned. -/
  gotten : List T
  /-- The replies to the `GET`, as the listener has handled them. -/
  answered : List (UInt32 × Bool)

structure State (T D : Type*) where
  base : Get.State T D
  record : UInt32 → Record T

variable {T D : Type*} [DecidableEq T]

def Record.afterGet (kind : Kind) (r : Record T) (t : T) : Option Dobj → Record T
  | none => { r with
      malloc := r.malloc + 1
      table := some r.malloc
      output := Function.update r.output t (some r.malloc)
      regionsLock := if kind = .region then some t else none }
  | some _ => { r with
      output := Function.update r.output t r.table
      regionsLock := if kind = .region then some t else none
      gotten := r.gotten ++ [t] }

/-- The call of `t` stands at `pc`. -/
def Record.release (r : Record T) (pc : Pc) : Record T :=
  { r with regionsLock := if pc = .returned then none else r.regionsLock }

def Record.afterReply (r : Record T) (q : UInt32) : List (Msg D) → Record T
  | .getReply haveReference :: _ => { r with answered := r.answered ++ [(q, haveReference)] }
  | _ => r

/-- The node that takes the step. -/
def actor : Action T D → UInt32
  | .get p _ | .setWaitOn p | .sendGet p | .wake p _ | .testAndInit p _ | .initField p _
  | .sendObj p _ | .deliver _ p | .answer p | .callHandler p => p

/-- Its record afterwards. -/
def recordAfter (kind : Kind) (s : State T D) (base : Get.State T D) : Action T D → Record T
  | .get p t => (s.record p).afterGet kind t (s.base.node p).dobj
  | .wake p t => { s.record p with gotten := (s.record p).gotten ++ [t] }
  | .testAndInit p t | .initField p t => (s.record p).release ((base.node p).pc t)
  | .deliver q p => (s.record p).afterReply q (s.base.net q p)
  | .setWaitOn p | .sendGet p | .sendObj p _ | .answer p | .callHandler p => s.record p

/-- A call for a region waits for the lock. -/
def Waits (kind : Kind) (s : State T D) : Action T D → Prop
  | .get p _ => kind = .region ∧ (s.record p).regionsLock ≠ none
  | _ => False

instance (kind : Kind) (s : State T D) : (a : Action T D) → Decidable (Waits kind s a)
  | .get _ _ => inferInstanceAs (Decidable (_ ∧ _))
  | .setWaitOn _ | .sendGet _ | .wake _ _ | .testAndInit _ _ | .initField _ _ | .sendObj _ _
  | .deliver _ _ | .answer _ | .callHandler _ => inferInstanceAs (Decidable False)

def step (G : Group) (kind : Kind) (s : State T D) (a : Action T D) : Option (State T D) :=
  if Waits kind s a then none
  else (Get.step G kind s.base a).map fun base ↦
    { base, record := Function.update s.record (actor a) (recordAfter kind s base a) }

def initialRecord : Record T where
  malloc := 0
  table := none
  output _ := none
  regionsLock := none
  gotten := []
  answered := []

def system (T D : Type*) [DecidableEq T] (G : Group) (kind : Kind) :
    LabelledSystem (State T D) (Action T D) where
  init := { base := (Get.system T D G kind).init, record := fun _ ↦ initialRecord }
  step := step G kind

/-- What the calls at `p` are to find. -/
structure Joined (G : Group) (kind : Kind) (s : State T D) (p : UInt32) : Prop where
  /-- All that have returned from `edsm_dobj_get` have the same object. -/
  same : ∃ obj, ∀ t ∈ (s.record p).gotten, (s.record p).output t = some obj
  refCount : ∀ dobj ∈ (s.base.node p).dobj, dobj.refCount.toNat = (s.record p).gotten.length
  answered : (s.record p).gotten ≠ [] →
    ∀ q ∈ G.peers p, ∃ haveReference, (q, haveReference) ∈ (s.record p).answered
  listed : ∀ q, (q, true) ∈ (s.record p).answered → q ∈ peersOf s.base p
  initialised : ∀ t, (s.base.node p).pc t = .returned → ∃ dobj ∈ (s.base.node p).dobj,
    ∀ field ∈ kind.initOrder, dobj.initialised.count field = 1
  once : ∀ dobj ∈ (s.base.node p).dobj, dobj.initialised.Nodup

/-- The call has set `inited` and has not finished. -/
def Initialises : Pc → Prop
  | .initialising _ => True
  | _ => False

instance : (pc : Pc) → Decidable (Initialises pc)
  | .initialising _ => inferInstanceAs (Decidable True)
  | .outside | .creating | .gotten | .returned => inferInstanceAs (Decidable False)

/-- A call finds the object only if all peers have answered its `GET`, finds `inited` set only if
nobody is initialising the object, and is not the one at which `ref_count` wraps. -/
def NodeUndisturbed (G : Group) (p : UInt32) (nd : Node T D) : Action T D → Prop
  | .get .. => ∀ dobj ∈ nd.dobj, (nd.creation = .inserted → G.peers p = []) ∧
      dobj.waiter.Ready ∧ dobj.refCount.toNat + 1 < 2 ^ 32
  | .wake .. => ∀ dobj ∈ nd.dobj, dobj.refCount.toNat + 1 < 2 ^ 32
  | .testAndInit .. => ∀ dobj ∈ nd.dobj, dobj.inited = true → ∀ t, ¬ Initialises (nd.pc t)
  | _ => True

/-- The condition for the node that takes the step. -/
def Undisturbed (G : Group) (s : State T D) (a : Action T D) : Prop :=
  NodeUndisturbed G (actor a) (s.base.node (actor a)) a

instance [Fintype T] (G : Group) (s : State T D) : (a : Action T D) → Decidable (Undisturbed G s a)
  | .get _ _ | .wake _ _ | .testAndInit _ _ => inferInstanceAs (Decidable (∀ _ ∈ Node.dobj _, _))
  | .setWaitOn _ | .sendGet _ | .initField _ _ | .sendObj _ _ | .deliver _ _ | .answer _
  | .callHandler _ => inferInstanceAs (Decidable True)

/-! ## What a step does to the node that takes it -/

/-- No call takes part in the action. -/
def NoCall : Action T D → Prop
  | .sendObj .. | .deliver .. | .answer _ | .callHandler _ => True
  | _ => False

inductive NodeStep (G : Group) (kind : Kind) (p : UInt32) (nd : Node T D) (r : Record T) :
    Action T D → Node T D → Record T → Prop
  | create {t : T} (hlock : kind = .region → r.regionsLock = none) (hpc : nd.pc t = .outside)
      (hdobj : nd.dobj = none) :
      NodeStep G kind p nd r (.get p t)
        { nd.moveTo t .creating with dobj := some create, creation := .inserted }
        (r.afterGet kind t none)
  | find {t : T} {dobj : Dobj} (hlock : kind = .region → r.regionsLock = none)
      (hpc : nd.pc t = .outside) (hdobj : nd.dobj = some dobj) :
      NodeStep G kind p nd r (.get p t)
        { nd.moveTo t .gotten with dobj := some { dobj with refCount := dobj.refCount + 1 } }
        (r.afterGet kind t (some dobj))
  | setWaitOn {dobj : Dobj} (hcreation : nd.creation = .inserted) (hdobj : nd.dobj = some dobj) :
      NodeStep G kind p nd r (.setWaitOn p)
        { nd with dobj := some { dobj with waiter := G.peers p }, creation := .sending (G.peers p) }
        r
  | sendGet {q : UInt32} {rest : List UInt32} {dobj : Dobj}
      (hcreation : nd.creation = .sending (q :: rest)) (hdobj : nd.dobj = some dobj) :
      NodeStep G kind p nd r (.sendGet p) { nd with creation := .sending rest } r
  | wake {t : T} {dobj : Dobj} (hpc : nd.pc t = .creating) (hcreation : nd.creation = .sending [])
      (hready : dobj.waiter.Ready) (hdobj : nd.dobj = some dobj) :
      NodeStep G kind p nd r (.wake p t)
        { nd.moveTo t .gotten with
          dobj := some { dobj with refCount := dobj.refCount + 1 }, creation := .returned }
        { r with gotten := r.gotten ++ [t] }
  | testAndInit {t : T} {dobj : Dobj} {pc : Pc} (hpc : nd.pc t = .gotten)
      (hdobj : nd.dobj = some dobj)
      (hnext : pc = if dobj.inited then .returned else .initialising kind.initOrder) :
      NodeStep G kind p nd r (.testAndInit p t)
        { nd.moveTo t pc with dobj := some { dobj with inited := true } } (r.release pc)
  | initField {t : T} {field : Field} {rest : List Field} {dobj : Dobj} {pc : Pc}
      (hpc : nd.pc t = .initialising (field :: rest)) (hdobj : nd.dobj = some dobj)
      (hnext : pc = if rest = [] then .returned else .initialising rest) :
      NodeStep G kind p nd r (.initField p t)
        { nd.moveTo t pc with dobj := some { dobj with initialised := field :: dobj.initialised } }
        (r.release pc)
  | reply {q : UInt32} {haveReference : Bool} {dobj : Dobj} (hdobj : nd.dobj = some dobj) :
      NodeStep G kind p nd r (.deliver q p)
        { nd with dobj := handleGetReply nd.dobj q haveReference }
        { r with answered := r.answered ++ [(q, haveReference)] }
  /-- At most a peer is added. -/
  | other {a : Action T D} {nd' : Node T D} (hact : NoCall a) (hpc : nd'.pc = nd.pc)
      (hcreation : nd'.creation = nd.creation)
      (hdobj : nd'.dobj = nd.dobj ∨ ∃ dobj q, nd.dobj = some dobj ∧
        nd'.dobj = some { dobj with peers := addPeerReference q dobj.peers }) :
      NodeStep G kind p nd r a nd' r

section Step

variable {G : Group} {kind : Kind} {s s' : State T D} {a : Action T D}

omit [DecidableEq T] in
theorem has_of_getReply {s : Get.State T D} (hmem : MemberInv G s) {p q : UInt32}
    {haveReference : Bool} (h : .getReply haveReference ∈ s.net q p) : Has s p := by
  cases haveReference with
  | true => exact hmem.holds q p (hmem.getReply p q h).2
  | false => exact hmem.denied p q (hmem.noReply p q h)

/-- The steps of the group, as the record of the calls sees them. -/
theorem step_cases (hmem : MemberInv G s.base) (hst : step G kind s a = some s') :
    Get.step G kind s.base a = some s'.base ∧
    ∃ nd r, s'.base.node = Function.update s.base.node (actor a) nd ∧
      s'.record = Function.update s.record (actor a) r ∧
      NodeStep G kind (actor a) (s.base.node (actor a)) (s.record (actor a)) a nd r := by
  unfold step at hst
  split at hst
  · cases hst
  next hlock =>
  obtain ⟨base, hbase, rfl⟩ := Option.map_eq_some_iff.mp hst
  refine ⟨hbase, ?_⟩
  cases a with
  | get p t =>
      have hfree : kind = .region → (s.record p).regionsLock = none := by
        intro hkind
        by_contra hne
        exact hlock ⟨hkind, hne⟩
      obtain ⟨-, hpc, ⟨hdobj, rfl⟩ | ⟨dobj, hdobj, rfl⟩⟩ := step_get_cases hbase
      · exact ⟨_, _, rfl, by simp only [recordAfter, hdobj]; rfl, .create hfree hpc hdobj⟩
      · exact ⟨_, _, rfl, by simp only [recordAfter, hdobj]; rfl, .find hfree hpc hdobj⟩
  | setWaitOn p =>
      obtain ⟨dobj, hcreation, hdobj, rfl⟩ := step_setWaitOn_eq_some hbase
      exact ⟨_, _, rfl, rfl, .setWaitOn hcreation hdobj⟩
  | sendGet p =>
      obtain ⟨q, rest, hcreation, rfl⟩ := step_sendGet_eq_some hbase
      obtain ⟨dobj, hdobj⟩ := Option.isSome_iff_exists.mp
        (hmem.has_of_creation p (by simp [hcreation]))
      exact ⟨_, _, rfl, rfl, .sendGet hcreation hdobj⟩
  | wake p t =>
      obtain ⟨dobj, hdobj, hpc, hcreation, hready, rfl⟩ := step_wake_eq_some hbase
      exact ⟨_, _, rfl, rfl, .wake hpc hcreation hready hdobj⟩
  | testAndInit p t =>
      obtain ⟨dobj, hdobj, hpc, rfl⟩ := step_testAndInit_eq_some hbase
      refine ⟨_, _, rfl, ?_, .testAndInit hpc hdobj rfl⟩
      simp [recordAfter, Node.moveTo, actor]
  | initField p t =>
      obtain ⟨field, rest, dobj, hpc, hdobj, rfl⟩ := step_initField_eq_some hbase
      refine ⟨_, _, rfl, ?_, .initField hpc hdobj rfl⟩
      simp [recordAfter, Node.moveTo, actor]
  | sendObj p d =>
      obtain ⟨dobj, -, rfl⟩ := step_sendObj_eq_some hbase
      exact ⟨_, _, (Function.update_eq_self p _).symm, rfl, .other trivial rfl rfl (.inl rfl)⟩
  | deliver q p =>
      obtain ⟨m, rest, hhead, -, rfl⟩ := step_deliver_eq_some hbase
      refine ⟨_, _, rfl, rfl, ?_⟩
      simp only [recordAfter, hhead]
      cases m with
      | get => exact .other trivial rfl rfl (.inl rfl)
      | objMsg d =>
          simp only [Node.take]
          split <;> exact .other trivial rfl rfl (.inl rfl)
      | getReply haveReference =>
          obtain ⟨dobj, hdobj⟩ := Option.isSome_iff_exists.mp (has_of_getReply hmem
            (show Msg.getReply haveReference ∈ s.base.net q p from hhead ▸ List.mem_cons_self))
          exact .reply hdobj
  | answer p =>
      obtain ⟨q, found, -, rfl⟩ := step_answer_eq_some hbase
      refine ⟨_, _, rfl, rfl, .other trivial rfl rfl ?_⟩
      cases found with
      | false => exact .inl rfl
      | true =>
          cases hdobj : (s.base.node p).dobj with
          | none => exact .inl hdobj.symm
          | some dobj => exact .inr ⟨dobj, q, hdobj, rfl⟩
  | callHandler p =>
      obtain ⟨q, d, -, rfl⟩ := step_callHandler_eq_some hbase
      exact ⟨_, _, rfl, rfl, .other trivial rfl rfl (.inl rfl)⟩

end Step

/-! ## The initialisation -/

section Progress

/-- The call has not come to the initialisation. -/
def Early : Pc → Prop
  | .outside | .creating | .gotten => True
  | .initialising _ | .returned => False

/-- How far the initialisation is; the fields that are left are those of one call. -/
inductive Progress (kind : Kind) (pc : T → Pc) (dobj : Dobj) : Prop
  | before (hinited : dobj.inited = false) (hfields : dobj.initialised = [])
      (hpc : ∀ t, Early (pc t))
  | during {t : T} {rest : List Field} (hinited : dobj.inited = true)
      (hfields : dobj.initialised.reverse ++ rest = kind.initOrder)
      (hinit : pc t = .initialising rest) (hpc : ∀ t' ≠ t, Early (pc t'))
  | after (hinited : dobj.inited = true) (hfields : dobj.initialised.reverse = kind.initOrder)
      (hpc : ∀ t, Early (pc t) ∨ pc t = .returned)

variable {kind : Kind} {pc : T → Pc} {dobj dobj' : Dobj}

theorem nodup_initOrder (kind : Kind) : kind.initOrder.Nodup := by
  cases kind <;> decide

omit [DecidableEq T] in
theorem Progress.nodup (h : Progress kind pc dobj) : dobj.initialised.Nodup := by
  have horder := nodup_initOrder kind
  cases h with
  | before _ hfields _ =>
      rw [hfields]
      exact List.nodup_nil
  | during _ hfields _ _ =>
      rw [← hfields] at horder
      exact List.nodup_reverse.mp horder.of_append_left
  | after _ hfields _ =>
      rw [← hfields] at horder
      exact List.nodup_reverse.mp horder

omit [DecidableEq T] in
theorem Progress.count_of_returned (h : Progress kind pc dobj) {t : T} (ht : pc t = .returned) :
    ∀ field ∈ kind.initOrder, dobj.initialised.count field = 1 := by
  have hnodup := h.nodup
  cases h with
  | before _ _ hpc =>
      have hearly := hpc t
      rw [ht] at hearly
      cases hearly
  | during _ _ hinit hpc =>
      have hearly := hpc t fun heq ↦ by
        rw [← heq, ht] at hinit
        cases hinit
      rw [ht] at hearly
      cases hearly
  | after _ hfields _ =>
      intro field hfield
      rw [← hfields, List.mem_reverse] at hfield
      exact List.count_eq_one_of_mem hnodup hfield

/-- A step of a call that has not come to the initialisation, and stays before it. -/
theorem Progress.of_early (h : Progress kind pc dobj)
    (hinited : dobj'.inited = dobj.inited) (hfields : dobj'.initialised = dobj.initialised) {t : T}
    {next : Pc} (hpc : Early (pc t)) (hnext : Early next) :
    Progress kind (Function.update pc t next) dobj' := by
  have hearly : ∀ t', Early (pc t') → Early (Function.update pc t next t') := by
    intro t' ht'
    rw [Function.update_apply]
    split
    · exact hnext
    · exact ht'
  cases h with
  | before hnot hnil hall =>
      exact .before (hinited.trans hnot) (hfields.trans hnil) fun t' ↦ hearly t' (hall t')
  | during hset hrest hinit hall =>
      refine .during (hinited.trans hset) (hfields.symm ▸ hrest) ?_ fun t' ht' ↦
        hearly t' (hall t' ht')
      rw [Function.update_of_ne]
      · exact hinit
      · rintro rfl
        rw [hinit] at hpc
        cases hpc
  | after hset hdone hall =>
      refine .after (hinited.trans hset) (hfields.symm ▸ hdone) fun t' ↦ ?_
      rcases hall t' with ht' | ht'
      · exact .inl (hearly t' ht')
      · rw [Function.update_of_ne]
        · exact .inr ht'
        · rintro rfl
          rw [ht'] at hpc
          cases hpc

omit [DecidableEq T] in
theorem Progress.congr (h : Progress kind pc dobj) (hinited : dobj'.inited = dobj.inited)
    (hfields : dobj'.initialised = dobj.initialised) : Progress kind pc dobj' := by
  cases h with
  | before hnot hnil hall => exact .before (hinited.trans hnot) (hfields.trans hnil) hall
  | during hset hrest hinit hall =>
      exact .during (hinited.trans hset) (hfields.symm ▸ hrest) hinit hall
  | after hset hdone hall => exact .after (hinited.trans hset) (hfields.symm ▸ hdone) hall

/-- Only the call that sets `inited` goes on to the initialisation. -/
theorem Progress.testAndInit (h : Progress kind pc dobj) {t : T} {next : Pc}
    (hpc : pc t = .gotten)
    (hnext : next = if dobj.inited then .returned else .initialising kind.initOrder)
    (hnone : dobj.inited = true → ∀ t, ¬ Initialises (pc t)) :
    Progress kind (Function.update pc t next) { dobj with inited := true } := by
  cases h with
  | before hnot hnil hall =>
      rw [hnot] at hnext
      subst hnext
      refine .during rfl ?_ (Function.update_self t _ pc) fun t' ht' ↦ ?_
      · rw [hnil]
        rfl
      · rw [Function.update_of_ne ht']
        exact hall t'
  | @during t' _ hset _ hinit _ =>
      have hnot := hnone hset t'
      rw [hinit] at hnot
      exact absurd trivial hnot
  | after hset hdone hall =>
      rw [hset] at hnext
      subst hnext
      refine .after rfl hdone fun t' ↦ ?_
      by_cases ht' : t' = t
      · subst ht'
        exact .inr (Function.update_self _ _ pc)
      · rw [Function.update_of_ne ht']
        exact hall t'

theorem Progress.initField (h : Progress kind pc dobj) {t : T} {next : Pc}
    {field : Field} {rest : List Field} (hpc : pc t = .initialising (field :: rest))
    (hnext : next = if rest = [] then .returned else .initialising rest) :
    Progress kind (Function.update pc t next)
      { dobj with initialised := field :: dobj.initialised } := by
  cases h with
  | before _ _ hall =>
      have hearly := hall t
      rw [hpc] at hearly
      cases hearly
  | after _ _ hall =>
      have hor := hall t
      rw [hpc] at hor
      rcases hor with hearly | heq
      · cases hearly
      · cases heq
  | @during t' rest' hset hfields hinit hall =>
      have ht : t = t' := by
        by_contra hne
        have hearly := hall t hne
        rw [hpc] at hearly
        cases hearly
      subst ht
      obtain rfl := Pc.initialising.inj (hpc.symm.trans hinit)
      have hothers : ∀ t' ≠ t, Early (Function.update pc t next t') := by
        intro t' ht'
        rw [Function.update_of_ne ht']
        exact hall t' ht'
      split at hnext
      · next hnil =>
          subst hnext hnil
          refine .after hset ?_ fun t' ↦ ?_
          · rw [List.reverse_cons]
            exact hfields
          · by_cases ht' : t' = t
            · subst ht'
              exact .inr (Function.update_self _ _ pc)
            · exact .inl (hothers t' ht')
      · subst hnext
        refine .during hset ?_ (Function.update_self t _ pc) hothers
        rw [List.reverse_cons, List.append_assoc]
        exact hfields

end Progress

/-! ## Runs -/

/-- What holds of a node and its record. -/
structure NodeInv (G : Group) (kind : Kind) (p : UInt32) (nd : Node T D) (r : Record T) : Prop where
  table : nd.dobj.isSome → r.table.isSome
  called : ∀ t, nd.pc t ≠ .outside → nd.dobj.isSome ∧ r.output t = r.table
  gotten : ∀ t ∈ r.gotten, nd.pc t ≠ .outside
  refCount : ∀ dobj ∈ nd.dobj, dobj.refCount.toNat = r.gotten.length
  created : nd.dobj.isSome → nd.creation ≠ .absent
  /-- The `wait_on` list, once it is set, holds the peers that have not answered. -/
  waits : nd.creation ≠ .absent → nd.creation ≠ .inserted → ∀ dobj ∈ nd.dobj, ∀ q ∈ G.peers p,
    q ∈ dobj.waiter ∨ ∃ haveReference, (q, haveReference) ∈ r.answered
  answered : r.gotten ≠ [] → ∀ q ∈ G.peers p, ∃ haveReference, (q, haveReference) ∈ r.answered
  listed : ∀ q, (q, true) ∈ r.answered → ∃ dobj ∈ nd.dobj, q ∈ dobj.peers
  progress : ∀ dobj ∈ nd.dobj, Progress kind nd.pc dobj

omit [DecidableEq T] in
theorem nodeInv_init (G : Group) (kind : Kind) (p : UInt32) :
    NodeInv G kind p (initialNode : Node T D) initialRecord where
  table hsome := by cases hsome
  called t ht := absurd rfl ht
  gotten t ht := by cases ht
  refCount dobj hdobj := by cases hdobj
  created hsome := by cases hsome
  waits habsent := absurd rfl habsent
  answered hne := absurd rfl hne
  listed q hq := by cases hq
  progress dobj hdobj := by cases hdobj

section NodeInv

variable {G : Group} {kind : Kind} {p : UInt32} {nd nd' : Node T D} {r r' : Record T} {t : T}

theorem NodeInv.create (h : NodeInv G kind p nd r) (hdobj : nd.dobj = none) :
    NodeInv G kind p { nd.moveTo t .creating with dobj := some create, creation := .inserted }
      (r.afterGet kind t none) := by
  have houtside : ∀ t, nd.pc t = .outside := by
    intro t
    by_contra hne
    have hsome := (h.called t hne).1
    rw [hdobj] at hsome
    cases hsome
  have hgotten : r.gotten = [] :=
    List.eq_nil_iff_forall_not_mem.mpr fun t ht ↦ h.gotten t ht (houtside t)
  refine ⟨fun _ ↦ rfl, fun t' ht' ↦ ⟨rfl, ?_⟩, fun t' ht' ↦ ?_, fun dobj hd ↦ ?_, fun _ ↦ nofun,
    fun _ hne ↦ absurd rfl hne, fun hne ↦ absurd hgotten hne, fun q hq ↦ ?_, fun dobj hd ↦ ?_⟩
  · by_cases heq : t' = t
    · subst heq
      exact Function.update_self _ _ _
    · simp [Node.moveTo, heq, houtside] at ht'
  · have hmem : t' ∈ r.gotten := ht'
    rw [hgotten] at hmem
    cases hmem
  · obtain rfl := Option.some.inj hd
    change _ = r.gotten.length
    rw [hgotten]
    rfl
  · obtain ⟨dobj, hd, -⟩ := h.listed q hq
    rw [hdobj] at hd
    cases hd
  · obtain rfl := Option.some.inj hd
    refine .before rfl rfl fun t' ↦ ?_
    by_cases heq : t' = t
    · simp [Node.moveTo, heq, Early]
    · simp [Node.moveTo, heq, houtside, Early]

theorem NodeInv.move (h : NodeInv G kind p nd r) {dobj dobj' : Dobj} {next : Pc}
    (hdobj : nd.dobj = some dobj) (hpc : nd.pc t ≠ .outside) (hnext : next ≠ .outside)
    (hrefCount : dobj'.refCount = dobj.refCount) (hpeers : dobj'.peers = dobj.peers)
    (hwaiter : dobj'.waiter = dobj.waiter)
    (hprogress : Progress kind (Function.update nd.pc t next) dobj') :
    NodeInv G kind p { nd.moveTo t next with dobj := some dobj' } (r.release next) := by
  have hsome : nd.dobj.isSome := by simp [hdobj]
  have hne : ∀ t', (nd.moveTo t next).pc t' ≠ .outside ↔ nd.pc t' ≠ .outside := by
    intro t'
    by_cases heq : t' = t
    · simp [Node.moveTo, heq, hpc, hnext]
    · simp [Node.moveTo, heq]
  refine ⟨fun _ ↦ h.table hsome, fun t' ht' ↦ ⟨rfl, (h.called t' ((hne t').mp ht')).2⟩,
    fun t' ht' ↦ (hne t').mpr (h.gotten t' ht'), fun _ hd ↦ ?_, fun _ ↦ h.created hsome,
    fun habsent hinserted _ hd q hq ↦ ?_, h.answered, fun q hq ↦ ?_, fun _ hd ↦ ?_⟩
  · obtain rfl := Option.some.inj hd
    rw [hrefCount]
    exact h.refCount dobj hdobj
  · obtain rfl := Option.some.inj hd
    rw [hwaiter]
    exact h.waits habsent hinserted dobj hdobj q hq
  · obtain ⟨_, hd, hlisted⟩ := h.listed q hq
    obtain rfl := Option.some.inj (hdobj.symm.trans hd)
    exact ⟨dobj', rfl, hpeers ▸ hlisted⟩
  · obtain rfl := Option.some.inj hd
    exact hprogress

theorem NodeInv.return (h : NodeInv G kind p nd r) {dobj : Dobj} {creation : Creation}
    (hdobj : nd.dobj = some dobj) (hpc : Early (nd.pc t))
    (hoften : dobj.refCount.toNat + 1 < 2 ^ 32)
    (hr' : r'.table = r.table ∧ r'.answered = r.answered ∧ r'.gotten = r.gotten ++ [t])
    (houtput : r'.output t = r.table ∧ ∀ t' ≠ t, r'.output t' = r.output t')
    (hcreation : creation ≠ .absent)
    (hanswered : ∀ q ∈ G.peers p, ∃ haveReference, (q, haveReference) ∈ r.answered) :
    NodeInv G kind p { nd.moveTo t .gotten with
      dobj := some { dobj with refCount := dobj.refCount + 1 }, creation } r' := by
  obtain ⟨htable, hreplies, hgotten⟩ := hr'
  have hsome : nd.dobj.isSome := by simp [hdobj]
  have hpc' : ∀ t', (nd.moveTo t .gotten).pc t' ≠ .outside → t' = t ∨ nd.pc t' ≠ .outside := by
    intro t' ht'
    by_cases heq : t' = t
    · exact .inl heq
    · exact .inr (by simpa [Node.moveTo, heq] using ht')
  refine ⟨fun _ ↦ by rw [htable]; exact h.table hsome, fun t' ht' ↦ ⟨rfl, ?_⟩, fun t' ht' ↦ ?_,
    fun _ hd ↦ ?_, fun _ ↦ ?_, fun _ _ _ _ q hq ↦ ?_, fun _ ↦ ?_, fun q hq ↦ ?_, fun _ hd ↦ ?_⟩
  · rw [htable]
    by_cases heq : t' = t
    · rw [heq, houtput.1]
    · rw [houtput.2 t' heq]
      exact (h.called t' ((hpc' t' ht').resolve_left heq)).2
  · rw [hgotten, List.mem_append, List.mem_singleton] at ht'
    by_cases heq : t' = t
    · simp [Node.moveTo, heq]
    · simpa [Node.moveTo, heq] using h.gotten t' (ht'.resolve_right heq)
  · obtain rfl := Option.some.inj hd
    have hone : (1 : UInt32).toNat = 1 := rfl
    rw [hgotten, List.length_append, List.length_singleton, ← h.refCount dobj hdobj,
      UInt32.toNat_add, hone, Nat.mod_eq_of_lt hoften]
  · exact hcreation
  · rw [hreplies]
    exact .inr (hanswered q hq)
  · rw [hreplies]
    exact hanswered
  · rw [hreplies] at hq
    obtain ⟨_, hd, hlisted⟩ := h.listed q hq
    obtain rfl := Option.some.inj (hdobj.symm.trans hd)
    exact ⟨_, rfl, hlisted⟩
  · obtain rfl := Option.some.inj hd
    have hgotten' : Early .gotten := trivial
    have hprogress : Progress kind (Function.update nd.pc t .gotten)
        { dobj with refCount := dobj.refCount + 1 } := by
      refine (h.progress dobj hdobj).of_early ?_ ?_ hpc hgotten' <;> rfl
    exact hprogress

omit [DecidableEq T] in
/-- A step that changes at most the list of those who are waited for, and counts replies. -/
theorem NodeInv.listen (h : NodeInv G kind p nd r) {dobj dobj' : Dobj}
    {answered : List (UInt32 × Bool)} (hdobj : nd.dobj = some dobj) (hpc : nd'.pc = nd.pc)
    (hdobj' : nd'.dobj = some dobj') (hrefCount : dobj'.refCount = dobj.refCount)
    (hinited : dobj'.inited = dobj.inited) (hfields : dobj'.initialised = dobj.initialised)
    (hpeers : ∀ q ∈ dobj.peers, q ∈ dobj'.peers) (hcreation : nd'.creation ≠ .absent)
    (hwaits : nd'.creation ≠ .inserted → ∀ q ∈ G.peers p,
      q ∈ dobj'.waiter ∨ ∃ haveReference, (q, haveReference) ∈ answered)
    (hmono : ∀ reply ∈ r.answered, reply ∈ answered)
    (hlisted : ∀ q, (q, true) ∈ answered → (q, true) ∈ r.answered ∨ q ∈ dobj'.peers) :
    NodeInv G kind p nd' { r with answered } := by
  have hsome : nd.dobj.isSome := by simp [hdobj]
  refine ⟨fun _ ↦ h.table hsome, fun t ht ↦ ⟨by simp [hdobj'], (h.called t (hpc ▸ ht)).2⟩,
    fun t ht ↦ hpc ▸ h.gotten t ht, fun _ hd ↦ ?_, fun _ ↦ hcreation,
    fun _ hinserted _ hd q hq ↦ ?_, fun hne q hq ↦ ?_, fun q hq ↦ ⟨dobj', hdobj', ?_⟩,
    fun _ hd ↦ ?_⟩
  · obtain rfl := Option.some.inj (hdobj'.symm.trans hd)
    rw [hrefCount]
    exact h.refCount dobj hdobj
  · obtain rfl := Option.some.inj (hdobj'.symm.trans hd)
    exact hwaits hinserted q hq
  · obtain ⟨haveReference, hmem⟩ := h.answered hne q hq
    exact ⟨haveReference, hmono _ hmem⟩
  · rcases hlisted q hq with hold | hnew
    · obtain ⟨_, hd, hmem⟩ := h.listed q hold
      obtain rfl := Option.some.inj (hdobj.symm.trans hd)
      exact hpeers q hmem
    · exact hnew
  · obtain rfl := Option.some.inj (hdobj'.symm.trans hd)
    rw [hpc]
    exact (h.progress dobj hdobj).congr hinited hfields

omit [DecidableEq T] in
theorem NodeInv.congr (h : NodeInv G kind p nd r) (hpc : nd'.pc = nd.pc)
    (hcreation : nd'.creation = nd.creation) (hdobj : nd'.dobj = nd.dobj) :
    NodeInv G kind p nd' r := by
  obtain ⟨dobj, creation, pc, _⟩ := nd
  obtain ⟨dobj', creation', pc', _⟩ := nd'
  obtain rfl : pc' = pc := hpc
  obtain rfl : creation' = creation := hcreation
  obtain rfl : dobj' = dobj := hdobj
  exact ⟨h.table, h.called, h.gotten, h.refCount, h.created, h.waits, h.answered, h.listed,
    h.progress⟩

theorem NodeInv.step (h : NodeInv G kind p nd r) {a : Action T D}
    (ha : NodeUndisturbed G p nd a) (hst : NodeStep G kind p nd r a nd' r') :
    NodeInv G kind p nd' r' := by
  cases hst with
  | create _ _ hdobj => exact h.create hdobj
  | @find t dobj _ hpc hdobj =>
      obtain ⟨hinserted, hready, hoften⟩ := ha dobj hdobj
      have hcreated := h.created (by simp [hdobj])
      have hearly : Early (nd.pc t) := by
        rw [hpc]
        trivial
      refine h.return hdobj hearly hoften ⟨rfl, rfl, rfl⟩ ⟨Function.update_self _ _ _,
        fun t' ht' ↦ Function.update_of_ne ht' _ _⟩ hcreated fun q hq ↦ ?_
      by_cases heq : nd.creation = .inserted
      · rw [hinserted heq] at hq
        cases hq
      · exact (h.waits hcreated heq dobj hdobj q hq).resolve_left (hready ▸ List.not_mem_nil)
  | @setWaitOn dobj hcreation hdobj =>
      exact h.listen hdobj rfl rfl rfl rfl rfl (fun _ hq ↦ hq) nofun (fun _ q hq ↦ .inl hq)
        (fun _ hmem ↦ hmem) fun q hq ↦ .inl hq
  | @sendGet q rest dobj hcreation hdobj =>
      exact h.listen hdobj rfl hdobj rfl rfl rfl (fun _ hq ↦ hq) nofun
        (fun _ x hx ↦ h.waits (by simp [hcreation]) (by simp [hcreation]) dobj hdobj x hx)
        (fun _ hmem ↦ hmem) fun x hx ↦ .inl hx
  | @wake t dobj hpc hcreation hready hdobj =>
      have hearly : Early (nd.pc t) := by
        rw [hpc]
        trivial
      refine h.return hdobj hearly (ha dobj hdobj) ⟨rfl, rfl, rfl⟩ ⟨?_, fun t' _ ↦ rfl⟩ nofun
        fun q hq ↦ ?_
      · exact (h.called t (by simp [hpc])).2
      · exact (h.waits (by simp [hcreation]) (by simp [hcreation]) dobj hdobj q hq).resolve_left
          (hready ▸ List.not_mem_nil)
  | @testAndInit t dobj pc hpc hdobj hnext =>
      refine h.move hdobj (by simp [hpc]) ?_ rfl rfl rfl
        ((h.progress dobj hdobj).testAndInit hpc hnext (ha dobj hdobj))
      rw [hnext]
      split <;> nofun
  | @initField t field rest dobj pc hpc hdobj hnext =>
      refine h.move hdobj (by simp [hpc]) ?_ rfl rfl rfl
        ((h.progress dobj hdobj).initField hpc hnext)
      rw [hnext]
      split <;> nofun
  | @reply q haveReference dobj hdobj =>
      have hcreated := h.created (by simp [hdobj])
      have hdobj' : handleGetReply nd.dobj q haveReference = some { dobj with
          peers := if haveReference then addPeerReference q dobj.peers else dobj.peers
          waiter := dobj.waiter.addReply q } := by
        rw [hdobj]
        rfl
      refine h.listen hdobj rfl hdobj' rfl rfl rfl (fun x hx ↦ ?_) hcreated
        (fun hinserted x hx ↦ ?_) (fun _ hmem ↦ List.mem_append_left _ hmem) fun x hx ↦ ?_
      · cases haveReference with
        | false => exact hx
        | true => exact mem_addPeerReference.mpr (.inl hx)
      · by_cases heq : x = q
        · subst heq
          exact .inr ⟨haveReference, List.mem_append_right _ (List.mem_singleton_self _)⟩
        · refine (h.waits hcreated hinserted dobj hdobj x hx).imp
            (ReplyWaiter.mem_addReply_of_ne heq).mpr ?_
          rintro ⟨b, hb⟩
          exact ⟨b, List.mem_append_left _ hb⟩
      · rcases List.mem_append.mp hx with hx | hx
        · exact .inl hx
        · obtain ⟨rfl, rfl⟩ := Prod.mk.inj (List.mem_singleton.mp hx)
          exact .inr (mem_addPeerReference.mpr (.inr rfl))
  | other _ hpc hcreation hdobj =>
      rcases hdobj with hdobj | ⟨dobj, q, hdobj, hdobj'⟩
      · exact h.congr hpc hcreation hdobj
      · have hcreated := h.created (by simp [hdobj])
        refine h.listen hdobj hpc hdobj' rfl rfl rfl
          (fun x hx ↦ mem_addPeerReference.mpr (.inl hx)) (hcreation ▸ hcreated)
          (fun hinserted x hx ↦ ?_) (fun _ hmem ↦ hmem) fun x hx ↦ .inl hx
        exact h.waits hcreated (hcreation ▸ hinserted) dobj hdobj x hx

end NodeInv

section Reached

variable {G : Group} {kind : Kind} {s s' : State T D} {a : Action T D}

/-- An invariant of the nodes and their records is one of the group if each step keeps it at its
actor. -/
theorem forall_step {I : UInt32 → Node T D → Record T → Prop} (hmem : MemberInv G s.base)
    (h : ∀ p, I p (s.base.node p) (s.record p)) (hst : step G kind s a = some s')
    (hkeeps : ∀ nd r,
      NodeStep G kind (actor a) (s.base.node (actor a)) (s.record (actor a)) a nd r →
        I (actor a) nd r) (p : UInt32) : I p (s'.base.node p) (s'.record p) := by
  obtain ⟨-, nd, r, hnode, hrecord, hstep⟩ := step_cases hmem hst
  rw [hnode, hrecord]
  by_cases hp : p = actor a
  · subst hp
    rw [Function.update_self, Function.update_self]
    exact hkeeps nd r hstep
  · rw [Function.update_of_ne hp, Function.update_of_ne hp]
    exact h p

theorem nodeInv_step (hmem : MemberInv G s.base)
    (h : ∀ p, NodeInv G kind p (s.base.node p) (s.record p)) (ha : Undisturbed G s a)
    (hst : step G kind s a = some s') (p : UInt32) :
    NodeInv G kind p (s'.base.node p) (s'.record p) :=
  forall_step hmem h hst (fun _ _ hstep ↦ (h (actor a)).step ha hstep) p

theorem memberInv_base {ok : State T D → Action T D → Prop}
    (h : (system T D G kind).Reach ok s) : MemberInv G s.base := by
  have hinit : MemberInv G (Get.system T D G kind).init := memberInv_init
  refine h.invariant (fun s ↦ MemberInv G s.base) hinit fun _ ih _ hst ↦ ?_
  exact ih.step (step_cases ih hst).1

omit [DecidableEq T] in
theorem NodeInv.joined {p : UInt32} (h : NodeInv G kind p (s.base.node p) (s.record p)) :
    Joined G kind s p := by
  refine ⟨?_, h.refCount, h.answered, fun q hq ↦ ?_, fun t ht ↦ ?_, fun dobj hdobj ↦ ?_⟩
  · have hcalled : ∀ t ∈ (s.record p).gotten, (s.record p).table.isSome ∧
        (s.record p).output t = (s.record p).table := by
      intro t ht
      obtain ⟨hsome, houtput⟩ := h.called t (h.gotten t ht)
      exact ⟨h.table hsome, houtput⟩
    cases htable : (s.record p).table with
    | none =>
        refine ⟨0, fun t ht ↦ ?_⟩
        have hsome := (hcalled t ht).1
        rw [htable] at hsome
        cases hsome
    | some obj => exact ⟨obj, fun t ht ↦ (hcalled t ht).2.trans htable⟩
  · obtain ⟨dobj, hdobj, hlisted⟩ := h.listed q hq
    unfold peersOf
    rw [hdobj]
    exact hlisted
  · obtain ⟨dobj, hdobj⟩ := Option.isSome_iff_exists.mp (h.called t (by simp [ht])).1
    exact ⟨dobj, hdobj, (h.progress dobj hdobj).count_of_returned ht⟩
  · exact (h.progress dobj hdobj).nodup

theorem nodeInv_of_undisturbed (h : (system T D G kind).Reach (Undisturbed G) s) (p : UInt32) :
    NodeInv G kind p (s.base.node p) (s.record p) := by
  refine h.invariant (fun s ↦ ∀ p, NodeInv G kind p (s.base.node p) (s.record p))
    (nodeInv_init G kind) (fun hs ih ha hst ↦ ?_) p
  exact nodeInv_step (memberInv_base hs) ih ha hst

/-- In a run whose steps are all undisturbed, the calls return one joined object, initialised
once. -/
theorem joined_of_undisturbed (h : (system T D G kind).Reach (Undisturbed G) s) (p : UInt32) :
    Joined G kind s p :=
  (nodeInv_of_undisturbed h p).joined

end Reached

/-- Node 2 has the object; on node 1 the second call comes after the first. -/
theorem joined_of_undisturbed_two_calls :
    ∃ s : State Bool Empty, (s.record 1).gotten = [false, true] ∧
      (s.record 1).answered = [(2, true)] ∧
      Joined (.ofIds [1, 2] (by decide) (by decide)) .mutex s 1 := by
  obtain ⟨s, hs, hp⟩ := LabelledSystem.exists_reach_of_exec
    (system Bool Empty (.ofIds [1, 2] (by decide) (by decide)) .mutex)
    (Undisturbed (.ofIds [1, 2] (by decide) (by decide)))
    [.get 2 false, .setWaitOn 2, .sendGet 2, .deliver 2 1, .answer 1, .deliver 1 2,
      .wake 2 false, .get 1 false, .setWaitOn 1, .sendGet 1, .deliver 1 2, .answer 2,
      .deliver 2 1, .wake 1 false, .testAndInit 1 false, .initField 1 false, .initField 1 false,
      .initField 1 false, .get 1 true, .testAndInit 1 true]
    (fun s ↦ (s.record 1).gotten = [false, true] ∧ (s.record 1).answered = [(2, true)])
    (by decide +kernel)
  obtain ⟨hgotten, hanswered⟩ : (s.record 1).gotten = [false, true] ∧
    (s.record 1).answered = [(2, true)] := by simpa using hp
  exact ⟨s, hgotten, hanswered, joined_of_undisturbed hs 1⟩

/-- The second call of node 1 finds the entry of the first before node 2 has been asked; and
`inited`, before the first call has initialised a field. -/
theorem not_joined :
    (∃ s : State Bool Empty, (system Bool Empty (.ofIds [1, 2] (by decide) (by decide))
        .mutex).Reachable s ∧ (s.record 1).gotten = [true] ∧ (s.record 1).answered = [] ∧
      ¬ Joined (.ofIds [1, 2] (by decide) (by decide)) .mutex s 1) ∧
    ∃ s : State Bool Empty, (system Bool Empty (.ofIds [1, 2] (by decide) (by decide))
        .mutex).Reachable s ∧ (s.base.node 1).pc true = .returned ∧
      (s.base.node 1).dobj.map Dobj.initialised = some [] ∧
      ¬ Joined (.ofIds [1, 2] (by decide) (by decide)) .mutex s 1 := by
  constructor
  · obtain ⟨s, hs, hp⟩ := LabelledSystem.exists_reach_of_exec
      (system Bool Empty (.ofIds [1, 2] (by decide) (by decide)) .mutex)
      LabelledSystem.anyStep [.get 1 false, .get 1 true]
      (fun s ↦ (s.record 1).gotten = [true] ∧ (s.record 1).answered = []) (by decide +kernel)
    obtain ⟨hgotten, hanswered⟩ : (s.record 1).gotten = [true] ∧ (s.record 1).answered = [] := by
      simpa using hp
    refine ⟨s, hs, hgotten, hanswered, fun hjoined ↦ ?_⟩
    obtain ⟨b, hb⟩ := hjoined.answered (by simp [hgotten]) 2 (by decide)
    rw [hanswered] at hb
    cases hb
  · obtain ⟨s, hs, hp⟩ := LabelledSystem.exists_reach_of_exec
      (system Bool Empty (.ofIds [1, 2] (by decide) (by decide)) .mutex)
      LabelledSystem.anyStep
      [.get 1 false, .setWaitOn 1, .sendGet 1, .deliver 1 2, .answer 2, .deliver 2 1,
        .wake 1 false, .testAndInit 1 false, .get 1 true, .testAndInit 1 true]
      (fun s ↦ (s.base.node 1).pc true = .returned ∧
        (s.base.node 1).dobj.map Dobj.initialised = some []) (by decide +kernel)
    obtain ⟨hpc, hfields⟩ : (s.base.node 1).pc true = .returned ∧
      (s.base.node 1).dobj.map Dobj.initialised = some [] := by simpa using hp
    refine ⟨s, hs, hpc, hfields, fun hjoined ↦ ?_⟩
    obtain ⟨dobj, hdobj, hcount⟩ := hjoined.initialised true hpc
    rw [hdobj] at hfields
    have hone := hcount .lock (by decide)
    rw [Option.some.inj hfields] at hone
    cases hone

/-! ## Regions

The calls for a region hold `edsm_memory_regions_lock` to their end, so no step of theirs is
disturbed.
-/

/-- The call does not hold the lock. -/
def Apart (pc : Pc) : Prop := pc = .outside ∨ pc = .returned

structure LockInv (nd : Node T D) (r : Record T) : Prop where
  free : r.regionsLock = none → ∀ t, Apart (nd.pc t)
  held : ∀ t, r.regionsLock = some t → ∀ t' ≠ t, Apart (nd.pc t')
  created : nd.dobj.isSome → nd.creation ≠ .absent
  creating : nd.creation = .absent ∨ nd.creation = .returned ∨ ∃ t, nd.pc t = .creating

section LockInv

variable {nd nd' : Node T D} {r r' : Record T} {t : T}

omit [DecidableEq T] in
theorem LockInv.eq_some (h : LockInv nd r) (hpc : ¬ Apart (nd.pc t)) : r.regionsLock = some t := by
  cases hlock : r.regionsLock with
  | none => exact absurd (h.free hlock t) hpc
  | some t' =>
      by_contra hne
      exact hpc (h.held t' hlock t fun heq ↦ hne (congrArg some heq.symm))

omit [DecidableEq T] in
theorem LockInv.congr (h : LockInv nd r) (hpc : nd'.pc = nd.pc)
    (hlock : r'.regionsLock = r.regionsLock) (hcreated : nd'.dobj.isSome → nd'.creation ≠ .absent)
    (hcreation : nd'.creation = nd.creation ∨
      nd.creation ≠ .absent ∧ nd.creation ≠ .returned) : LockInv nd' r' := by
  refine ⟨fun hfree ↦ ?_, fun t ht ↦ ?_, hcreated, ?_⟩
  · rw [hpc]
    exact h.free (hlock.symm.trans hfree)
  · rw [hpc]
    exact h.held t (hlock.symm.trans ht)
  · rw [hpc]
    rcases hcreation with heq | ⟨habsent, hreturned⟩
    · rw [heq]
      exact h.creating
    · exact .inr (.inr ((h.creating.resolve_left habsent).resolve_left hreturned))

omit [DecidableEq T] in
theorem LockInv.not_creating (h : LockInv nd r) (hothers : ∀ t' ≠ t, Apart (nd.pc t'))
    (hpc : nd.pc t ≠ .creating) : nd.creation = .absent ∨ nd.creation = .returned := by
  rcases h.creating with habsent | hreturned | ⟨t', ht'⟩
  · exact .inl habsent
  · exact .inr hreturned
  · by_cases heq : t' = t
    · subst heq
      exact absurd ht' hpc
    · have hapart := hothers t' heq
      rw [ht'] at hapart
      rcases hapart with hapart | hapart <;> cases hapart

/-- A step of the call that holds the lock; it releases it when it returns. -/
theorem lockInv_of_call {next : Pc} (hothers : ∀ t' ≠ t, Apart (nd.pc t'))
    (hpc : nd'.pc = Function.update nd.pc t next)
    (hlock : r'.regionsLock = if next = .returned then none else some t)
    (hcreated : nd'.dobj.isSome → nd'.creation ≠ .absent)
    (hcreating : nd'.creation = .absent ∨ nd'.creation = .returned ∨ next = .creating) :
    LockInv nd' r' := by
  have hself : nd'.pc t = next := by
    rw [hpc]
    exact Function.update_self t next nd.pc
  have hrest : ∀ t' ≠ t, Apart (nd'.pc t') := by
    intro t' ht'
    rw [hpc, Function.update_of_ne ht']
    exact hothers t' ht'
  refine ⟨fun hfree t' ↦ ?_, fun t' ht' ↦ ?_, hcreated, ?_⟩
  · by_cases heq : t' = t
    · subst heq
      rw [hself]
      rw [hlock] at hfree
      split at hfree
      · next hnext => exact .inr hnext
      · cases hfree
    · exact hrest t' heq
  · rw [hlock] at ht'
    split at ht'
    · cases ht'
    · obtain rfl := Option.some.inj ht'
      exact hrest
  · refine hcreating.imp_right (Or.imp_right fun hnext ↦ ⟨t, ?_⟩)
    rw [hself, hnext]

/-- A step of the call between its lookup and its return. -/
theorem LockInv.initialise (h : LockInv nd r) {pc next : Pc} (hpc : nd.pc t = pc)
    (hin : ¬ Apart pc) (hnot : pc ≠ .creating) (hnext : nd'.pc = Function.update nd.pc t next)
    (hlock : r'.regionsLock = if next = .returned then none else r.regionsLock)
    (hcreation : nd'.creation = nd.creation) (hdobj : nd.dobj.isSome) : LockInv nd' r' := by
  have hcall : ¬ Apart (nd.pc t) := by rwa [hpc]
  have hothers := h.held t (h.eq_some hcall)
  refine lockInv_of_call hothers hnext (by rw [hlock, h.eq_some hcall]) (fun _ ↦ ?_) ?_
  · rw [hcreation]
    exact h.created hdobj
  · rw [hcreation]
    exact (h.not_creating hothers (hpc ▸ hnot)).imp_right .inl

theorem LockInv.step {G : Group} {p : UInt32} {a : Action T D} (h : LockInv nd r)
    (hst : NodeStep G .region p nd r a nd' r') : LockInv nd' r' := by
  have hothers : ∀ {t}, ¬ Apart (nd.pc t) → ∀ t' ≠ t, Apart (nd.pc t') := fun {t} hpc ↦
    h.held t (h.eq_some hpc)
  cases hst with
  | create hlock _ _ =>
      exact lockInv_of_call (fun t' _ ↦ h.free (hlock rfl) t') rfl rfl (fun _ ↦ nofun)
        (.inr (.inr rfl))
  | @find t dobj hlock hpc hdobj =>
      have hfree : ∀ t' ≠ t, Apart (nd.pc t') := fun t' _ ↦ h.free (hlock rfl) t'
      exact lockInv_of_call hfree rfl rfl (fun _ ↦ h.created (by simp [hdobj]))
        ((h.not_creating hfree (by simp [hpc])).imp_right .inl)
  | setWaitOn hcreation _ =>
      exact h.congr rfl rfl (fun _ ↦ nofun) (.inr (by simp [hcreation]))
  | sendGet hcreation _ =>
      exact h.congr rfl rfl (fun _ ↦ nofun) (.inr (by simp [hcreation]))
  | @wake t _ hpc _ _ _ =>
      have hin : ¬ Apart (nd.pc t) := by simp [Apart, hpc]
      exact lockInv_of_call (hothers hin) rfl (h.eq_some hin) (fun _ ↦ nofun) (.inr (.inl rfl))
  | @testAndInit t dobj next hpc hdobj hnext =>
      exact h.initialise hpc (by simp [Apart]) nofun rfl rfl rfl (by simp [hdobj])
  | @initField t _ _ dobj next hpc hdobj hnext =>
      exact h.initialise hpc (by simp [Apart]) nofun rfl rfl rfl (by simp [hdobj])
  | reply hdobj =>
      exact h.congr rfl rfl (fun _ ↦ h.created (by simp [hdobj])) (.inl rfl)
  | other _ hpc hcreation hdobj =>
      refine h.congr hpc rfl (fun hsome ↦ ?_) (.inl hcreation)
      rw [hcreation]
      rcases hdobj with hdobj | ⟨dobj, _, hdobj, -⟩
      · exact h.created (hdobj ▸ hsome)
      · exact h.created (by simp [hdobj])

end LockInv

/-- No call is the one at which `ref_count` wraps. -/
def NodeFewCalls (nd : Node T D) : Action T D → Prop
  | .get .. | .wake .. => ∀ dobj ∈ nd.dobj, dobj.refCount.toNat + 1 < 2 ^ 32
  | _ => True

def FewCalls (s : State T D) (a : Action T D) : Prop :=
  NodeFewCalls (s.base.node (actor a)) a

variable {G : Group} {s s' : State T D} {a : Action T D}

theorem LockInv.undisturbed {p : UInt32} {nd nd' : Node T D} {r r' : Record T}
    (h : LockInv nd r) (hreturned : nd.creation = .returned → nd.dobj.elim [] Dobj.waiter = [])
    (ha : NodeFewCalls nd a) (hst : NodeStep G .region p nd r a nd' r') :
    NodeUndisturbed G p nd a := by
  cases hst with
  | create _ _ hdobj =>
      intro dobj hd
      rw [hdobj] at hd
      cases hd
  | @find t dobj hlock hpc hdobj =>
      intro dobj' hd
      have hfree : ∀ t' ≠ t, Apart (nd.pc t') := fun t' _ ↦ h.free (hlock rfl) t'
      have hcreation := (h.not_creating hfree (by simp [hpc])).resolve_left
        (h.created (by simp [hdobj]))
      refine ⟨fun hinserted ↦ ?_, ?_, ha dobj' hd⟩
      · rw [hcreation] at hinserted
        cases hinserted
      · have hwaits := hreturned hcreation
        rw [hd] at hwaits
        exact hwaits
  | wake _ _ _ hdobj => exact ha
  | @testAndInit t _ _ hpc _ _ =>
      intro dobj _ _ t' ht'
      by_cases heq : t' = t
      · rw [heq, hpc] at ht'
        cases ht'
      · have hin : ¬ Apart (nd.pc t) := by simp [Apart, hpc]
        rcases h.held t (h.eq_some hin) t' heq with hapart | hapart
        · rw [hapart] at ht'
          cases ht'
        · rw [hapart] at ht'
          cases ht'
  | setWaitOn _ _ | sendGet _ _ | initField _ _ _ | reply _ => trivial
  | other hact _ _ _ =>
      cases a with
      | sendObj _ _ | deliver _ _ | answer _ | callHandler _ => trivial
      | get _ _ | setWaitOn _ | sendGet _ | wake _ _ | testAndInit _ _ | initField _ _ =>
          cases hact

theorem lockInv_step (hmem : MemberInv G s.base)
    (h : ∀ p, LockInv (s.base.node p) (s.record p)) (hst : step G .region s a = some s')
    (p : UInt32) : LockInv (s'.base.node p) (s'.record p) :=
  forall_step (I := fun _ ↦ LockInv) hmem h hst (fun _ _ hstep ↦ (h (actor a)).step hstep) p

omit [DecidableEq T] in
theorem lockInv_init : LockInv (initialNode : Node T D) initialRecord where
  free _ _ := .inl rfl
  held t ht := by cases ht
  created hsome := by cases hsome
  creating := .inl rfl

instance (s : State T D) : (a : Action T D) → Decidable (FewCalls s a)
  | .get _ _ | .wake _ _ => inferInstanceAs (Decidable (∀ _ ∈ Node.dobj _, _))
  | .testAndInit _ _ | .setWaitOn _ | .sendGet _ | .initField _ _ | .sendObj _ _ | .deliver _ _
  | .answer _ | .callHandler _ => inferInstanceAs (Decidable True)

end Edsm.Dobj.Calls
