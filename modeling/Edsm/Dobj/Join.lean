import Edsm.Dobj.Membership

/-!
# The object's messages during a join

A peer sends to a node as soon as it lists it, which is before the node's
`edsm_dobj_get` returns.  The listener drops what arrives before `inited` is set,
and `inited` is set before the fields of the type are initialised.
-/

namespace Edsm.Dobj.Get

variable {T D : Type*}

def Msg.asObjMsg : Msg D → Option D
  | .objMsg d => some d
  | _ => none

/-- The messages of `q` that `p` has accepted and not yet passed to the handler. -/
def Listener.accepted (q : UInt32) : Listener D → List D
  | .calling peerId d => if peerId = q then [d] else []
  | _ => []

/-- The messages of `q` that the handler of `p` has still to be called for. -/
def pending (s : State T D) (q p : UInt32) : List D :=
  (s.node p).listener.accepted q ++ (s.net q p).filterMap Msg.asObjMsg

/-- If the first of these messages is one of the object, `p` is ready for it. -/
def TakesReadyFrom (kind : Kind) (s : State T D) (p : UInt32) : List (Msg D) → Prop
  | .objMsg _ :: _ => ∃ dobj ∈ (s.node p).dobj, dobj.Ready kind
  | _ => True

/-- The listener takes a message of the object only once the type-specific
initialisation has finished. -/
def TakesReady (kind : Kind) (s : State T D) : Action T D → Prop
  | .deliver q p => TakesReadyFrom kind s p (s.net q p)
  | _ => True

instance (kind : Kind) (s : State T D) (p : UInt32) :
    (msgs : List (Msg D)) → Decidable (TakesReadyFrom kind s p msgs)
  | .objMsg _ :: _ => inferInstanceAs (Decidable (∃ _ ∈ Node.dobj _, _))
  | .get :: _ | .getReply _ :: _ | [] => inferInstanceAs (Decidable True)

instance (kind : Kind) (s : State T D) : (a : Action T D) → Decidable (TakesReady kind s a)
  | .deliver _ _ => inferInstanceAs (Decidable (TakesReadyFrom _ _ _ _))
  | .get _ _ | .setWaitOn _ | .sendGet _ | .wake _ _ | .testAndInit _ _ | .initField _ _
  | .sendObj _ _ | .answer _ | .callHandler _ => inferInstanceAs (Decidable True)

/-- Node 1 gets the object first; then node 2 asks for it and is listed by node 1. -/
def join : List (Action Unit Bool) :=
  [.get 1 (), .setWaitOn 1, .sendGet 1, .deliver 1 2, .answer 2, .deliver 2 1, .wake 1 (),
    .testAndInit 1 (), .initField 1 (), .initField 1 (), .initField 1 (), .get 2 (),
    .setWaitOn 2, .sendGet 2, .deliver 2 1, .answer 1, .deliver 1 2]

structure DeliveryInv (kind : Kind) (s : State T D) : Prop where
  /-- Every message is handled, accepted or on the way, in the order of the sends. -/
  accounted : ∀ q p, s.sent q p = (s.handled p q).map Prod.fst ++ pending s q p
  ready : ∀ p q, ∀ call ∈ s.handled p q, call.2 = true
  accepting : ∀ p q d, (s.node p).listener = .calling q d →
    ∃ dobj ∈ (s.node p).dobj, dobj.Ready kind

section Step

variable {G : Group} {kind : Kind} {s s' : State T D} {p q : UInt32}

/-- A step that neither sends nor takes a message of the object. -/
theorem DeliveryInv.of_eq (h : DeliveryInv kind s)
    (hsent : s'.sent = s.sent) (hhandled : s'.handled = s.handled)
    (hlistener : ∀ p q d, (s'.node p).listener = .calling q d ↔
      (s.node p).listener = .calling q d)
    (hnet : ∀ q p, (s'.net q p).filterMap Msg.asObjMsg = (s.net q p).filterMap Msg.asObjMsg)
    (hdobj : ∀ p, (∃ dobj ∈ (s.node p).dobj, dobj.Ready kind) →
      ∃ dobj ∈ (s'.node p).dobj, dobj.Ready kind) : DeliveryInv kind s' := by
  have haccepted : ∀ p q, (s'.node p).listener.accepted q = (s.node p).listener.accepted q := by
    intro p q
    cases hl : (s.node p).listener with
    | calling peerId d => rw [(hlistener p peerId d).mpr hl]
    | _ =>
        cases hl' : (s'.node p).listener with
        | calling peerId d =>
            rw [hlistener p peerId d, hl] at hl'
            cases hl'
        | _ => rfl
  refine ⟨fun q p ↦ ?_, fun p q call hcall ↦ h.ready p q call (hhandled ▸ hcall), fun p q d hl ↦ ?_⟩
  · rw [hsent, hhandled, h.accounted q p, pending, pending, haccepted, hnet]
  · exact hdobj p (h.accepting p q d ((hlistener p q d).mp hl))

theorem filterMap_asObjMsg_post {peers : List UInt32} (hpeers : peers.Nodup) {m : Msg D}
    (hm : m.asObjMsg = none) (a b : UInt32) :
    ((s.post p peers m).net a b).filterMap Msg.asObjMsg =
      (s.net a b).filterMap Msg.asObjMsg := by
  rw [post_net m a b hpeers]
  split
  · simp [hm]
  · rfl

theorem DeliveryInv.of_node (h : DeliveryInv kind s) {nd : Node T D}
    (hnode : s'.node = Function.update s.node p nd) (hsent : s'.sent = s.sent)
    (hhandled : s'.handled = s.handled)
    (hlistener : ∀ q d, nd.listener = .calling q d ↔ (s.node p).listener = .calling q d)
    (hnet : ∀ a b, (s'.net a b).filterMap Msg.asObjMsg = (s.net a b).filterMap Msg.asObjMsg)
    (hdobj : ∀ dobj ∈ (s.node p).dobj, dobj.Ready kind → ∃ dobj' ∈ nd.dobj, dobj'.Ready kind) :
    DeliveryInv kind s' := by
  have hself : s'.node p = nd := by rw [hnode, Function.update_self]
  have hothers : ∀ {x}, x ≠ p → s'.node x = s.node x := fun hx ↦ by
    rw [hnode, Function.update_of_ne hx]
  refine h.of_eq hsent hhandled (fun x q d ↦ ?_) hnet (fun x hx ↦ ?_)
  · by_cases hxp : x = p
    · subst hxp
      rw [hself]
      exact hlistener q d
    · rw [hothers hxp]
  · by_cases hxp : x = p
    · subst hxp
      obtain ⟨dobj, hmem, hready⟩ := hx
      rw [hself]
      exact hdobj dobj hmem hready
    · rw [hothers hxp]
      exact hx

theorem DeliveryInv.of_dobj (h : DeliveryInv kind s) {nd : Node T D} {dobj dobj' : Dobj}
    (hdobj : (s.node p).dobj = some dobj) (hnd : nd.dobj = some dobj')
    (hlistener : nd.listener = (s.node p).listener) (hready : dobj.Ready kind → dobj'.Ready kind) :
    DeliveryInv kind (s.setNode p nd) := by
  refine h.of_node rfl rfl rfl (fun _ _ ↦ hlistener ▸ .rfl) (fun _ _ ↦ rfl) fun dobj₁ hd hr ↦ ?_
  obtain rfl : dobj = dobj₁ := Option.some.inj (hdobj.symm.trans hd)
  exact ⟨dobj', hnd, hready hr⟩

variable [DecidableEq T]

theorem DeliveryInv.sendObj (hmem : MemberInv G s) (h : DeliveryInv kind s) {d : D}
    (hst : step G kind s (.sendObj p d) = some s') : DeliveryInv kind s' := by
  obtain ⟨dobj, hdobj, rfl⟩ := step_sendObj_eq_some hst
  have hnodup : dobj.peers.Nodup := by simpa [peersOf, hdobj] using hmem.nodup p
  refine ⟨fun a b ↦ ?_, h.ready, h.accepting⟩
  have hbefore := h.accounted a b
  unfold pending at hbefore ⊢
  change Function.update s.sent p _ a b = (s.handled b a).map Prod.fst ++
    ((s.node b).listener.accepted a ++
      ((s.post p dobj.peers (.objMsg d)).net a b).filterMap Msg.asObjMsg)
  rw [post_net _ _ _ hnodup]
  by_cases ha : a = p
  · subst ha
    rw [Function.update_self]
    by_cases hb : b ∈ dobj.peers
    · rw [if_pos hb, if_pos ⟨rfl, hb⟩, List.filterMap_append, hbefore]
      simp [Msg.asObjMsg]
    · rw [if_neg hb, if_neg fun hc ↦ hb hc.2, hbefore]
  · rw [Function.update_of_ne ha, if_neg fun hc ↦ ha hc.1, hbefore]

theorem DeliveryInv.deliver (h : DeliveryInv kind s) (hready : TakesReady kind s (.deliver q p))
    (hst : step G kind s (.deliver q p) = some s') : DeliveryInv kind s' := by
  obtain ⟨m, rest, hhead, hidle, rfl⟩ := step_deliver_eq_some hst
  have hnet : m.asObjMsg = none → ∀ a b, ((s.net.set q p rest) a b).filterMap Msg.asObjMsg =
      (s.net a b).filterMap Msg.asObjMsg := by
    intro hm a b
    rw [Channels.set_apply]
    split
    · next hab => rw [hab.1, hab.2, hhead, List.filterMap_cons_none hm]
    · rfl
  cases m with
  | get =>
      exact h.of_node rfl rfl rfl (by simp [Node.take, hidle]) (hnet rfl)
        fun dobj hd hr ↦ ⟨dobj, hd, hr⟩
  | getReply haveReference =>
      refine h.of_node rfl rfl rfl (by simp [Node.take]) (hnet rfl) fun dobj hd hr ↦ ?_
      obtain hd : (s.node p).dobj = some dobj := hd
      refine ⟨{ dobj with
        peers := if haveReference then addPeerReference q dobj.peers else dobj.peers
        waiter := dobj.waiter.addReply q }, ?_, hr.mono id fun _ hf ↦ hf⟩
      simp [Node.take, handleGetReply, hd]
  | objMsg d =>
      -- the object is ready, so the message is accepted
      obtain ⟨dobj, hdobj, hok⟩ : ∃ dobj ∈ (s.node p).dobj, dobj.Ready kind := by
        simpa [TakesReady, hhead, TakesReadyFrom] using hready
      obtain hdobj : (s.node p).dobj = some dobj := hdobj
      have htake : (s.node p).take q (.objMsg d) =
          { s.node p with listener := .calling q d } := by
        simp [Node.take, hdobj, hok.1]
      have hnode : ∀ x, (s.setNode p ((s.node p).take q (.objMsg d))).node x =
          if x = p then { s.node p with listener := .calling q d } else s.node x := by
        intro x
        by_cases hx : x = p
        · subst hx
          simp [htake]
        · simp [setNode_node_ne hx, hx]
      refine ⟨fun a b ↦ ?_, h.ready, fun b a d' hl ↦ ?_⟩
      · have hbefore := h.accounted a b
        unfold pending at hbefore ⊢
        change s.sent a b = (s.handled b a).map Prod.fst ++
          (((s.setNode p ((s.node p).take q (.objMsg d))).node b).listener.accepted a ++
            ((s.net.set q p rest) a b).filterMap Msg.asObjMsg)
        rw [hnode, Channels.set_apply, hbefore]
        by_cases hb : b = p
        · subst hb
          by_cases ha : a = q
          · subst ha
            simp [hidle, hhead, Listener.accepted, Msg.asObjMsg]
          · simp [hidle, ha, Ne.symm ha, Listener.accepted]
        · simp [hb]
      · change ((s.setNode p ((s.node p).take q (.objMsg d))).node b).listener = _ at hl
        change ∃ dobj ∈ ((s.setNode p ((s.node p).take q (.objMsg d))).node b).dobj, _
        rw [hnode] at hl ⊢
        split at hl
        · next hb =>
            rw [if_pos hb]
            exact ⟨dobj, hdobj, hok⟩
        · next hb =>
            rw [if_neg hb]
            exact h.accepting b a d' hl

theorem DeliveryInv.callHandler (h : DeliveryInv kind s)
    (hst : step G kind s (.callHandler p) = some s') : DeliveryInv kind s' := by
  obtain ⟨q, d, hlistener, rfl⟩ := step_callHandler_eq_some hst
  obtain ⟨dobj, hdobj, hok⟩ := h.accepting p q d hlistener
  have hready : (s.node p).dobj.any (·.Ready kind) = true := by
    obtain hdobj : (s.node p).dobj = some dobj := hdobj
    simpa [hdobj] using hok
  have hnode : ∀ x, (s.setNode p { s.node p with listener := .idle }).node x =
      if x = p then { s.node p with listener := .idle } else s.node x := by
    intro x
    by_cases hx : x = p
    · subst hx
      simp
    · simp [setNode_node_ne hx, hx]
  refine ⟨fun a b ↦ ?_, fun b a call hcall ↦ ?_, fun b a d' hl ↦ ?_⟩
  · have hbefore := h.accounted a b
    unfold pending at hbefore ⊢
    change s.sent a b = (State.record s.handled p q _ b a).map Prod.fst ++
      (((s.setNode p { s.node p with listener := .idle }).node b).listener.accepted a ++
        (s.net a b).filterMap Msg.asObjMsg)
    rw [hnode, record_apply, hbefore]
    by_cases hb : b = p
    · subst hb
      by_cases ha : a = q
      · subst ha
        simp [hlistener, Listener.accepted]
      · simp [hlistener, ha, Ne.symm ha, Listener.accepted]
    · simp [hb]
  · change call ∈ State.record s.handled p q _ b a at hcall
    rw [record_apply] at hcall
    split at hcall
    · next hab =>
        rcases List.mem_append.mp hcall with hcall | hcall
        · exact h.ready p q call hcall
        · rw [List.mem_singleton.mp hcall]
          exact hready
    · exact h.ready b a call hcall
  · change ((s.setNode p { s.node p with listener := .idle }).node b).listener = _ at hl
    change ∃ dobj ∈ ((s.setNode p { s.node p with listener := .idle }).node b).dobj, _
    rw [hnode] at hl ⊢
    split at hl
    · cases hl
    · next hb =>
        rw [if_neg hb]
        exact h.accepting b a d' hl

theorem DeliveryInv.get_step (h : DeliveryInv kind s) {t : T}
    (hst : step G kind s (.get p t) = some s') : DeliveryInv kind s' := by
  obtain ⟨-, -, ⟨hdobj, rfl⟩ | ⟨dobj, hdobj, rfl⟩⟩ := step_get_cases hst
  · exact h.of_node rfl rfl rfl (fun _ _ ↦ .rfl) (fun _ _ ↦ rfl) (by simp [hdobj])
  · exact h.of_dobj hdobj rfl rfl fun hr ↦ hr.mono id fun _ hf ↦ hf

theorem DeliveryInv.setWaitOn (h : DeliveryInv kind s)
    (hst : step G kind s (.setWaitOn p) = some s') : DeliveryInv kind s' := by
  obtain ⟨dobj, -, hdobj, rfl⟩ := step_setWaitOn_eq_some hst
  exact h.of_dobj hdobj rfl rfl fun hr ↦ hr.mono id fun _ hf ↦ hf

theorem DeliveryInv.sendGet (h : DeliveryInv kind s)
    (hst : step G kind s (.sendGet p) = some s') : DeliveryInv kind s' := by
  obtain ⟨q, rest, -, rfl⟩ := step_sendGet_eq_some hst
  exact h.of_node rfl rfl rfl (fun _ _ ↦ .rfl)
    (filterMap_asObjMsg_post (List.nodup_singleton q) rfl) fun dobj hd hr ↦ ⟨dobj, hd, hr⟩

theorem DeliveryInv.wake (h : DeliveryInv kind s) {t : T}
    (hst : step G kind s (.wake p t) = some s') : DeliveryInv kind s' := by
  obtain ⟨dobj, hdobj, -, -, -, rfl⟩ := step_wake_eq_some hst
  exact h.of_dobj hdobj rfl rfl fun hr ↦ hr.mono id fun _ hf ↦ hf

theorem DeliveryInv.testAndInit (h : DeliveryInv kind s) {t : T}
    (hst : step G kind s (.testAndInit p t) = some s') : DeliveryInv kind s' := by
  obtain ⟨dobj, hdobj, -, rfl⟩ := step_testAndInit_eq_some hst
  exact h.of_dobj hdobj rfl rfl fun hr ↦ hr.mono (fun _ ↦ rfl) fun _ hf ↦ hf

theorem DeliveryInv.initField (h : DeliveryInv kind s) {t : T}
    (hst : step G kind s (.initField p t) = some s') : DeliveryInv kind s' := by
  obtain ⟨field, rest, dobj, -, hdobj, rfl⟩ := step_initField_eq_some hst
  exact h.of_dobj hdobj rfl rfl fun hr ↦ hr.mono id fun _ hf ↦ List.mem_cons_of_mem _ hf

theorem DeliveryInv.answer (h : DeliveryInv kind s)
    (hst : step G kind s (.answer p) = some s') : DeliveryInv kind s' := by
  obtain ⟨q, found, hlistener, rfl⟩ := step_answer_eq_some hst
  refine h.of_node rfl rfl rfl (by simp [hlistener])
    (filterMap_asObjMsg_post (List.nodup_singleton q) rfl) fun dobj hd hr ↦ ?_
  obtain hd : (s.node p).dobj = some dobj := hd
  cases found with
  | false => exact ⟨dobj, hd, hr⟩
  | true => exact ⟨{ dobj with peers := addPeerReference q dobj.peers }, by simp [hd],
      hr.mono id fun _ hf ↦ hf⟩

theorem DeliveryInv.step (hmem : MemberInv G s) (h : DeliveryInv kind s) {a : Action T D}
    (ha : TakesReady kind s a) (hst : Get.step G kind s a = some s') : DeliveryInv kind s' := by
  cases a with
  | get p t => exact h.get_step hst
  | setWaitOn p => exact h.setWaitOn hst
  | sendGet p => exact h.sendGet hst
  | wake p t => exact h.wake hst
  | testAndInit p t => exact h.testAndInit hst
  | initField p t => exact h.initField hst
  | sendObj p d => exact h.sendObj hmem hst
  | deliver q p => exact h.deliver ha hst
  | answer p => exact h.answer hst
  | callHandler p => exact h.callHandler hst

end Step

variable [DecidableEq T] {G : Group} {kind : Kind} {s : State T D}

theorem deliveryInv_init : DeliveryInv kind (system T D G kind).init where
  accounted _ _ := rfl
  ready _ _ _ hcall := by cases hcall
  accepting _ _ _ hl := by cases hl

/-- Each message is passed to the handler once, in the order of the sends, or has
still to be; and no call finds a field that is not initialised. -/
theorem handled_once_when_ready (h : (system T D G kind).Reach (TakesReady kind) s) (p q : UInt32) :
    s.sent p q = (s.handled q p).map Prod.fst ++ pending s p q ∧
      ∀ call ∈ s.handled q p, call.2 = true := by
  have hinv : DeliveryInv kind s :=
    h.invariant (DeliveryInv kind) deliveryInv_init fun hs ih ha hst ↦
      ih.step (memberInv_of_reachable hs.reachable) ha hst
  exact ⟨hinv.accounted p q, hinv.ready q p⟩

/-- Node 2 joins the mutex of node 1, is listed and receives a message. -/
theorem handled_once_when_ready_two_nodes :
    ∃ s : State Unit Bool, s.handled 2 1 = [(true, true)] ∧
      s.sent 1 2 = (s.handled 2 1).map Prod.fst ++ pending s 1 2 ∧
        ∀ call ∈ s.handled 2 1, call.2 = true := by
  let G : Group := .ofIds [1, 2] (by decide) (by decide)
  obtain ⟨s, hs, hp⟩ := LabelledSystem.exists_reach_of_exec (system Unit Bool G .mutex)
    (TakesReady .mutex) (join ++ [.sendObj 1 true, .wake 2 (), .testAndInit 2 (),
      .initField 2 (), .initField 2 (), .initField 2 (), .deliver 1 2, .callHandler 2])
    (fun s ↦ s.handled 2 1 = [(true, true)]) (by decide)
  exact ⟨s, by simpa using hp, handled_once_when_ready hs 1 2⟩

/-- The message overtakes the thread that is about to set `inited`. -/
theorem not_handled_once :
    ∃ s : State Unit Bool, (system Unit Bool (.ofIds [1, 2] (by decide) (by decide))
        .mutex).Reachable s ∧
      ¬ (s.sent 1 2 = (s.handled 2 1).map Prod.fst ++ pending s 1 2) := by
  obtain ⟨s, hs, hp⟩ := LabelledSystem.exists_reach_of_exec
    (system Unit Bool (.ofIds [1, 2] (by decide) (by decide)) .mutex)
    LabelledSystem.anyStep (join ++ [.sendObj 1 true, .deliver 1 2])
    (fun s ↦ decide ¬ (s.sent 1 2 = (s.handled 2 1).map Prod.fst ++ pending s 1 2)) (by decide)
  exact ⟨s, hs, by simpa using hp⟩

end Edsm.Dobj.Get
