import Edsm.Dobj.Get

/-!
# Who lists whom

Two nodes that get the same object at the same time both learn of each other:
of two crossing lookups at most one can fail, since a node asks only after it
has put the object into its own table.
-/

namespace Edsm.Dobj.Get

variable {T D : Type*}

/-- `p` has the object in its table. -/
def Has (s : State T D) (p : UInt32) : Prop := (s.node p).dobj.isSome = true

instance (s : State T D) (p : UInt32) : Decidable (Has s p) :=
  inferInstanceAs (Decidable (_ = true))

def peersOf (s : State T D) (p : UInt32) : List UInt32 := (s.node p).dobj.elim [] Dobj.peers

def waitsOn (s : State T D) (p : UInt32) : List UInt32 := (s.node p).dobj.elim [] Dobj.waiter

/-- The creating call of `p` has set its `wait_on` list. -/
def Started (s : State T D) (p : UInt32) : Prop :=
  (∃ rest, (s.node p).creation = .sending rest) ∨ (s.node p).creation = .returned

structure MemberInv (G : Group) (s : State T D) : Prop where
  member : ∀ p, Has s p → p ∈ G.ids
  nodup : ∀ p, (peersOf s p).Nodup
  notSelf : ∀ p, p ∉ peersOf s p
  holds : ∀ p, ∀ q ∈ peersOf s p, Has s q
  has_of_creation : ∀ p, (s.node p).creation ≠ .absent → Has s p
  /-- A `GET` goes to other nodes only. -/
  sending : ∀ p rest, (s.node p).creation = .sending rest → p ∉ rest
  net_self : ∀ p, s.net p p = []
  get : ∀ p q, .get ∈ s.net p q → Has s p
  getReply : ∀ p q, .getReply true ∈ s.net q p → Has s q ∧ p ∈ peersOf s q
  noReply : ∀ p q, .getReply false ∈ s.net q p → s.denied p q = true
  answering : ∀ p q found, (s.node q).listener = .answering p found →
    p ≠ q ∧ Has s p ∧ (found = true → Has s q) ∧ (found = false → s.denied p q = true)
  denied : ∀ p q, s.denied p q = true → Has s p
  asymm : ∀ p q, s.denied p q = true → s.denied q p = false
  /-- A peer that has been counted lists `p` and is listed, or had found nothing. -/
  counted : ∀ p, Started s p → ∀ q ∈ G.ids, q ≠ p → q ∉ waitsOn s p →
    (q ∈ peersOf s p ∧ p ∈ peersOf s q) ∨ s.denied p q = true
  returned : ∀ p, (s.node p).creation = .returned → waitsOn s p = []

section Step

variable {G : Group} {kind : Kind} {s s' : State T D} {p q : UInt32}

@[simp] theorem setNode_node_self (nd : Node T D) : (s.setNode p nd).node p = nd := by
  simp [State.setNode]

theorem setNode_node_ne {nd : Node T D} {x : UInt32} (h : x ≠ p) :
    (s.setNode p nd).node x = s.node x := by
  simp [State.setNode, h]

theorem post_net (m : Msg D) (a b : UInt32) {peers : List UInt32} (hpeers : peers.Nodup) :
    (s.post p peers m).net a b =
      if a = p ∧ b ∈ peers then s.net a b ++ [m] else s.net a b :=
  Channels.multicast_apply s.net p hpeers [m] a b

theorem record_apply {α : Type*} (f : UInt32 → UInt32 → α) (v : α) (a b : UInt32) :
    State.record f p q v a b = if a = p ∧ b = q then v else f a b := by
  unfold State.record
  by_cases ha : a = p
  · subst ha
    simp [Function.update_apply]
  · simp [ha]

/-- A step that adds no peer, makes no lookup and counts no reply. -/
theorem MemberInv.of_mono (h : MemberInv G s) (hmono : ∀ p, Has s p → Has s' p)
    (hmember : ∀ p, Has s' p → p ∈ G.ids) (hpeers : ∀ p, peersOf s' p = peersOf s p)
    (hcreated : ∀ p, (s'.node p).creation ≠ .absent → Has s' p)
    (hsending : ∀ p rest, (s'.node p).creation = .sending rest → p ∉ rest)
    (hcounted : ∀ p, Started s' p → ∀ q ∈ G.ids, q ≠ p → q ∉ waitsOn s' p →
      Started s p ∧ q ∉ waitsOn s p)
    (hreturned : ∀ p, (s'.node p).creation = .returned → waitsOn s' p = [])
    (hlistener : ∀ p q found, (s'.node q).listener = .answering p found →
      (s.node q).listener = .answering p found)
    (hself : ∀ p, s'.net p p = []) (hget : ∀ p q, .get ∈ s'.net p q → Has s p)
    (hreply : ∀ p q b, .getReply b ∈ s'.net p q → .getReply b ∈ s.net p q)
    (hdenied : s'.denied = s.denied) : MemberInv G s' where
  member := hmember
  nodup p := hpeers p ▸ h.nodup p
  notSelf p := hpeers p ▸ h.notSelf p
  holds p q hq := hmono q (h.holds p q (hpeers p ▸ hq))
  has_of_creation := hcreated
  sending := hsending
  net_self := hself
  get p q hmem := hmono p (hget p q hmem)
  getReply p q hmem := by
    obtain ⟨hhas, hlisted⟩ := h.getReply p q (hreply q p true hmem)
    exact ⟨hmono q hhas, hpeers q ▸ hlisted⟩
  noReply p q hmem := by
    rw [hdenied]
    exact h.noReply p q (hreply q p false hmem)
  answering p q found hl := by
    obtain ⟨hne, hhas, hfound, hnot⟩ := h.answering p q found (hlistener p q found hl)
    exact ⟨hne, hmono p hhas, fun hf ↦ hmono q (hfound hf), fun hf ↦ hdenied ▸ hnot hf⟩
  denied p q hd := hmono p (h.denied p q (hdenied ▸ hd))
  asymm p q hd := by
    rw [hdenied] at hd ⊢
    exact h.asymm p q hd
  counted p hp q hq hqp hnot := by
    obtain ⟨hstarted, hgone⟩ := hcounted p hp q hq hqp hnot
    rw [hpeers, hpeers, hdenied]
    exact h.counted p hstarted q hq hqp hgone
  returned := hreturned

/-- A step of a listener: peers are added, lookups recorded, replies counted. -/
theorem MemberInv.of_grow (h : MemberInv G s) (hhas : ∀ x, Has s' x ↔ Has s x)
    (hpeers : ∀ x, peersOf s' x = peersOf s x ∨
      ∃ y, y ≠ x ∧ Has s y ∧ peersOf s' x = addPeerReference y (peersOf s x))
    (hcreation : ∀ x, (s'.node x).creation = (s.node x).creation)
    (hself : ∀ x, s'.net x x = []) (hget : ∀ x y, .get ∈ s'.net x y → .get ∈ s.net x y)
    (hgetReply : ∀ x y, .getReply true ∈ s'.net y x →
      .getReply true ∈ s.net y x ∨ (Has s y ∧ x ∈ peersOf s' y))
    (hnoReply : ∀ x y, .getReply false ∈ s'.net y x →
      .getReply false ∈ s.net y x ∨ s'.denied x y = true)
    (hanswering : ∀ x y found, (s'.node y).listener = .answering x found →
      (s.node y).listener = .answering x found ∨
        (x ≠ y ∧ Has s x ∧ (found = true → Has s y) ∧ (found = false → s'.denied x y = true)))
    (hmono : ∀ x y, s.denied x y = true → s'.denied x y = true)
    (hdenied : ∀ x y, s'.denied x y = true → Has s x)
    (hasymm : ∀ x y, s'.denied x y = true → s'.denied y x = false)
    (hcounted : ∀ x y, y ∉ waitsOn s' x → y ∉ waitsOn s x ∨
      (y ∈ peersOf s' x ∧ x ∈ peersOf s' y) ∨ s'.denied x y = true)
    (hreturned : ∀ x, waitsOn s x = [] → waitsOn s' x = []) : MemberInv G s' := by
  have hsub : ∀ {x y}, y ∈ peersOf s x → y ∈ peersOf s' x := by
    intro x y hy
    rcases hpeers x with heq | ⟨z, -, -, heq⟩
    · exact heq ▸ hy
    · exact heq ▸ mem_addPeerReference.mpr (.inl hy)
  have hof : ∀ {x y}, y ∈ peersOf s' x → y ∈ peersOf s x ∨ (y ≠ x ∧ Has s y) := by
    intro x y hy
    rcases hpeers x with heq | ⟨z, hz, hhas, heq⟩
    · exact .inl (heq ▸ hy)
    · rw [heq, mem_addPeerReference] at hy
      refine hy.imp id ?_
      rintro rfl
      exact ⟨hz, hhas⟩
  refine ⟨fun x hx ↦ h.member x ((hhas x).mp hx), fun x ↦ ?_, fun x hx ↦ ?_, fun x y hy ↦ ?_,
    fun x hx ↦ ?_, fun x rest hx ↦ h.sending x rest (hcreation x ▸ hx), hself,
    fun x y hm ↦ (hhas x).mpr (h.get x y (hget x y hm)), fun x y hm ↦ ?_, fun x y hm ↦ ?_,
    fun x y found hl ↦ ?_, fun x y hd ↦ (hhas x).mpr (hdenied x y hd), hasymm,
    fun x hx y hy hyx hnot ↦ ?_, fun x hx ↦ hreturned x (h.returned x (hcreation x ▸ hx))⟩
  · rcases hpeers x with heq | ⟨z, -, -, heq⟩
    · exact heq ▸ h.nodup x
    · exact heq ▸ nodup_addPeerReference (h.nodup x)
  · rcases hof hx with hx | ⟨hne, -⟩
    · exact h.notSelf x hx
    · exact hne rfl
  · rcases hof hy with hy | ⟨-, hy⟩
    · exact (hhas y).mpr (h.holds x y hy)
    · exact (hhas y).mpr hy
  · exact (hhas x).mpr (h.has_of_creation x (hcreation x ▸ hx))
  · rcases hgetReply x y hm with hm | ⟨hy, hx⟩
    · exact ⟨(hhas y).mpr (h.getReply x y hm).1, hsub (h.getReply x y hm).2⟩
    · exact ⟨(hhas y).mpr hy, hx⟩
  · exact (hnoReply x y hm).elim (fun hm ↦ hmono x y (h.noReply x y hm)) id
  · simp only [hhas]
    rcases hanswering x y found hl with hl | hl
    · obtain ⟨hne, hx, hfound, hnot⟩ := h.answering x y found hl
      exact ⟨hne, hx, hfound, fun hf ↦ hmono x y (hnot hf)⟩
    · exact hl
  · rcases hcounted x y hnot with hnot | hdone
    · have hstarted : Started s x := by simpa only [Started, hcreation] using hx
      exact (h.counted x hstarted y hy hyx hnot).imp (fun hm ↦ ⟨hsub hm.1, hsub hm.2⟩) (hmono x y)
    · exact hdone

theorem MemberInv.of_node (h : MemberInv G s) {nd : Node T D}
    (hnode : s'.node = Function.update s.node p nd) (hnet : s'.net = s.net)
    (hdenied : s'.denied = s.denied) (hhas : Has s p → nd.dobj.isSome = true)
    (hmember : nd.dobj.isSome = true → p ∈ G.ids)
    (hpeers : nd.dobj.elim [] Dobj.peers = peersOf s p)
    (hcreated : nd.creation ≠ .absent → nd.dobj.isSome = true)
    (hsending : ∀ rest, nd.creation = .sending rest → p ∉ rest)
    (hcounted : (∃ rest, nd.creation = .sending rest) ∨ nd.creation = .returned →
      ∀ q ∈ G.ids, q ≠ p → q ∉ nd.dobj.elim [] Dobj.waiter → Started s p ∧ q ∉ waitsOn s p)
    (hreturned : nd.creation = .returned → nd.dobj.elim [] Dobj.waiter = [])
    (hlistener : ∀ q found, nd.listener = .answering q found →
      (s.node p).listener = .answering q found) : MemberInv G s' := by
  have hcases : ∀ x, (x = p ∧ s'.node x = nd) ∨ (x ≠ p ∧ s'.node x = s.node x) := by
    intro x
    by_cases hx : x = p
    · exact .inl ⟨hx, by rw [hnode, hx, Function.update_self]⟩
    · exact .inr ⟨hx, by rw [hnode, Function.update_of_ne hx]⟩
  refine h.of_mono (fun x hx ↦ ?_) (fun x hx ↦ ?_) (fun x ↦ ?_) (fun x hx ↦ ?_)
    (fun x rest hx ↦ ?_) (fun x hx q hq hqx hnot ↦ ?_) (fun x hx ↦ ?_) (fun q x found hx ↦ ?_)
    (fun x ↦ hnet ▸ h.net_self x) (fun x q hx ↦ h.get x q (hnet ▸ hx)) (fun _ _ _ hx ↦ hnet ▸ hx)
    hdenied
  · rcases hcases x with ⟨rfl, heq⟩ | ⟨-, heq⟩ <;> unfold Has <;> rw [heq]
    · exact hhas hx
    · exact hx
  · unfold Has at hx
    rcases hcases x with ⟨rfl, heq⟩ | ⟨-, heq⟩ <;> rw [heq] at hx
    · exact hmember hx
    · exact h.member x hx
  · rcases hcases x with ⟨rfl, heq⟩ | ⟨-, heq⟩ <;> unfold peersOf <;> rw [heq]
    exact hpeers
  · rcases hcases x with ⟨rfl, heq⟩ | ⟨-, heq⟩ <;> unfold Has <;> rw [heq] at hx ⊢
    · exact hcreated hx
    · exact h.has_of_creation x hx
  · rcases hcases x with ⟨rfl, heq⟩ | ⟨-, heq⟩ <;> rw [heq] at hx
    · exact hsending rest hx
    · exact h.sending x rest hx
  · unfold Started at hx
    unfold waitsOn at hnot
    rcases hcases x with ⟨rfl, heq⟩ | ⟨-, heq⟩ <;> rw [heq] at hx hnot
    · exact hcounted hx q hq hqx hnot
    · exact ⟨hx, hnot⟩
  · unfold waitsOn
    rcases hcases x with ⟨rfl, heq⟩ | ⟨-, heq⟩ <;> rw [heq] at hx ⊢
    · exact hreturned hx
    · exact h.returned x hx
  · rcases hcases x with ⟨rfl, heq⟩ | ⟨-, heq⟩ <;> rw [heq] at hx
    · exact hlistener q found hx
    · exact hx

theorem MemberInv.of_dobj (h : MemberInv G s) {nd : Node T D} {dobj dobj' : Dobj}
    (hdobj : (s.node p).dobj = some dobj) (hnd : nd.dobj = some dobj')
    (hpeers : dobj'.peers = dobj.peers) (hwaiter : dobj'.waiter = dobj.waiter)
    (hcreation : nd.creation = (s.node p).creation)
    (hlistener : nd.listener = (s.node p).listener) : MemberInv G (s.setNode p nd) := by
  have hwaits : nd.dobj.elim [] Dobj.waiter = waitsOn s p := by simp [waitsOn, hdobj, hnd, hwaiter]
  refine h.of_node rfl rfl rfl (fun _ ↦ by simp [hnd]) (fun _ ↦ h.member p (by simp [Has, hdobj]))
    (by simp [peersOf, hdobj, hnd, hpeers]) (fun _ ↦ by simp [hnd])
    (fun rest hrest ↦ h.sending p rest (hcreation ▸ hrest)) (fun hs q _ _ hq ↦ ⟨?_, hwaits ▸ hq⟩)
    (fun hr ↦ hwaits.trans (h.returned p (hcreation ▸ hr))) fun q found hl ↦ hlistener ▸ hl
  rwa [hcreation] at hs

variable [DecidableEq T]

/-! ### The application threads -/

theorem MemberInv.get_step (h : MemberInv G s) {t : T}
    (hst : step G kind s (.get p t) = some s') : MemberInv G s' := by
  obtain ⟨hp, -, ⟨hdobj, rfl⟩ | ⟨dobj, hdobj, rfl⟩⟩ := step_get_cases hst
  · -- the new object lists nobody
    exact h.of_node rfl rfl rfl (fun _ ↦ rfl) (fun _ ↦ hp) (by simp [peersOf, hdobj, create])
      (fun _ ↦ rfl) (by simp) (by simp) (by simp) fun q found hl ↦ hl
  · exact h.of_dobj hdobj rfl rfl rfl rfl rfl

theorem MemberInv.setWaitOn (h : MemberInv G s)
    (hst : step G kind s (.setWaitOn p) = some s') : MemberInv G s' := by
  obtain ⟨dobj, -, hdobj, rfl⟩ := step_setWaitOn_eq_some hst
  have hp : p ∈ G.ids := h.member p (by simp [Has, hdobj])
  refine h.of_node rfl rfl rfl (fun _ ↦ rfl) (fun _ ↦ hp) (by simp [peersOf, hdobj])
    (fun _ ↦ rfl) (fun rest hrest hmem ↦ ?_) (fun _ q hq hqp hnot ↦ ?_) (by simp)
    fun q found hl ↦ hl
  · obtain rfl := Creation.sending.inj hrest
    exact ((G.mem_peers p hp p).mp hmem).2 rfl
  · exact absurd ((G.mem_peers p hp q).mpr ⟨hq, hqp⟩) hnot

theorem MemberInv.sendGet (h : MemberInv G s)
    (hst : step G kind s (.sendGet p) = some s') : MemberInv G s' := by
  obtain ⟨q, rest, hcreation, rfl⟩ := step_sendGet_eq_some hst
  have hhas : Has s p := h.has_of_creation p (by simp [hcreation])
  obtain ⟨hpq, hrest⟩ : p ≠ q ∧ p ∉ rest := by simpa using h.sending p _ hcreation
  have hmid : MemberInv G (s.setNode p { s.node p with creation := .sending rest }) :=
    h.of_node rfl rfl rfl id (h.member p) rfl (fun _ ↦ hhas)
      (fun rest' heq ↦ by rwa [← Creation.sending.inj heq])
      (fun _ q _ _ hq ↦ ⟨.inl ⟨_, hcreation⟩, hq⟩) (by simp) fun _ _ hl ↦ hl
  have hnet : ∀ a b m, m ∈ ((s.setNode p { s.node p with creation := .sending rest }).post p [q]
      .get).net a b → m ∈ s.net a b ∨ (a = p ∧ m = .get) := by
    intro a b m hm
    rw [post_net _ _ _ (List.nodup_singleton q)] at hm
    split at hm
    · next hab =>
        exact (List.mem_append.mp hm).imp id fun hm ↦ ⟨hab.1, List.mem_singleton.mp hm⟩
    · exact .inl hm
  refine hmid.of_mono (fun _ hx ↦ hx) hmid.member (fun _ ↦ rfl) hmid.has_of_creation
    hmid.sending (fun _ hx q _ _ hq ↦ ⟨hx, hq⟩) hmid.returned (fun _ _ _ hl ↦ hl) (fun x ↦ ?_)
    (fun a b hm ↦ ?_) (fun a b r hm ↦ ?_) rfl
  · rw [post_net _ _ _ (List.nodup_singleton q), if_neg]
    · exact h.net_self x
    · rintro ⟨rfl, hmem⟩
      exact hpq (List.mem_singleton.mp hmem)
  · rcases hnet a b .get hm with hm | ⟨rfl, -⟩
    · exact hmid.get a b hm
    · exact hmid.has_of_creation a (by simp)
  · exact (hnet a b _ hm).resolve_right (by simp)

theorem MemberInv.wake (h : MemberInv G s) {t : T}
    (hst : step G kind s (.wake p t) = some s') : MemberInv G s' := by
  obtain ⟨dobj, hdobj, -, hcreation, hready, rfl⟩ := step_wake_eq_some hst
  have hwaits : dobj.waiter = [] := hready
  refine h.of_node rfl rfl rfl (fun _ ↦ rfl) (fun _ ↦ h.member p (by simp [Has, hdobj]))
    (by simp [peersOf, hdobj]) (fun _ ↦ rfl) (by simp)
    (fun _ q _ _ hq ↦ ⟨.inl ⟨_, hcreation⟩, ?_⟩) (fun _ ↦ hwaits) fun q found hl ↦ hl
  simp [waitsOn, hdobj, hwaits]

theorem MemberInv.testAndInit (h : MemberInv G s) {t : T}
    (hst : step G kind s (.testAndInit p t) = some s') : MemberInv G s' := by
  obtain ⟨dobj, hdobj, -, rfl⟩ := step_testAndInit_eq_some hst
  exact h.of_dobj hdobj rfl rfl rfl rfl rfl

theorem MemberInv.initField (h : MemberInv G s) {t : T}
    (hst : step G kind s (.initField p t) = some s') : MemberInv G s' := by
  obtain ⟨field, rest, dobj, -, hdobj, rfl⟩ := step_initField_eq_some hst
  exact h.of_dobj hdobj rfl rfl rfl rfl rfl

theorem MemberInv.sendObj (h : MemberInv G s) {d : D}
    (hst : step G kind s (.sendObj p d) = some s') : MemberInv G s' := by
  obtain ⟨dobj, hdobj, rfl⟩ := step_sendObj_eq_some hst
  have hpeers : peersOf s p = dobj.peers := by simp [peersOf, hdobj]
  have hnodup : dobj.peers.Nodup := hpeers ▸ h.nodup p
  have hnet : ∀ a b m, m ≠ .objMsg d → m ∈ (s.post p dobj.peers (.objMsg d)).net a b →
      m ∈ s.net a b := by
    intro a b m hne hm
    rw [post_net _ _ _ hnodup] at hm
    split at hm
    · exact (List.mem_append.mp hm).resolve_right fun hm ↦ hne (List.mem_singleton.mp hm)
    · exact hm
  refine h.of_mono (fun _ hx ↦ hx) h.member (fun _ ↦ rfl) h.has_of_creation h.sending
    (fun _ hx q _ _ hq ↦ ⟨hx, hq⟩) h.returned (fun _ _ _ hl ↦ hl) (fun x ↦ ?_)
    (fun a b hm ↦ h.get a b (hnet a b _ (by simp) hm))
    (fun a b r hm ↦ hnet a b _ (by simp) hm) rfl
  change (s.post p dobj.peers (.objMsg d)).net x x = []
  rw [post_net _ _ _ hnodup, if_neg]
  · exact h.net_self x
  · rintro ⟨rfl, hmem⟩
    exact h.notSelf x (hpeers ▸ hmem)

/-! ### The listener -/

theorem MemberInv.callHandler (h : MemberInv G s)
    (hst : step G kind s (.callHandler p) = some s') : MemberInv G s' := by
  obtain ⟨q, d, -, rfl⟩ := step_callHandler_eq_some hst
  exact h.of_node rfl rfl rfl id (h.member p) rfl (h.has_of_creation p)
    (fun rest hrest ↦ h.sending p rest hrest) (fun hs q _ _ hq ↦ ⟨hs, hq⟩) (h.returned p)
    (by simp)

omit [DecidableEq T] in
/-- What is left of the channels when the listener of `p` takes a message of `q`. -/
theorem mem_of_mem_taken {m : Msg D} {rest : List (Msg D)} (hhead : s.net q p = m :: rest)
    {a b : UInt32} {m' : Msg D} (h : m' ∈ s.net.set q p rest a b) : m' ∈ s.net a b := by
  rw [Channels.set_apply] at h
  split at h
  · next hab =>
      rw [hab.1, hab.2, hhead]
      exact List.mem_cons_of_mem m h
  · exact h

omit [DecidableEq T] in
theorem MemberInv.net_self_taken (h : MemberInv G s) {m : Msg D} {rest : List (Msg D)}
    (hhead : s.net q p = m :: rest) (x : UInt32) : s.net.set q p rest x x = [] := by
  refine List.eq_nil_iff_forall_not_mem.mpr fun m' hm ↦ ?_
  have hbefore := mem_of_mem_taken hhead hm
  rw [h.net_self x] at hbefore
  cases hbefore

omit [DecidableEq T] in
theorem MemberInv.deliver_get (h : MemberInv G s) {rest : List (Msg D)}
    (hhead : s.net q p = .get :: rest) :
    MemberInv G { s.setNode p ((s.node p).take q .get) with
      net := s.net.set q p rest
      denied := deniedAfter s q p .get } := by
  have hqp : q ≠ p := by
    rintro rfl
    simp [h.net_self q] at hhead
  have hq : Has s q := h.get q p (by simp [hhead])
  have hnode : ∀ x, (s.setNode p ((s.node p).take q .get)).node x = if x = p then
      { s.node p with listener := .answering q (s.node p).dobj.isSome } else s.node x := by
    intro x
    by_cases hx : x = p
    · subst hx
      simp [Node.take]
    · simp [setNode_node_ne hx, hx]
  have hkeep : ∀ x, ((s.setNode p ((s.node p).take q .get)).node x).dobj = (s.node x).dobj ∧
      ((s.setNode p ((s.node p).take q .get)).node x).creation = (s.node x).creation := by
    intro x
    rw [hnode]
    split
    · next hx => simp [hx]
    · simp
  have hdenied : ∀ x y, deniedAfter s q p (.get : Msg D) x y = true ↔
      s.denied x y = true ∨ (x = q ∧ y = p ∧ ¬ Has s p) := by
    intro x y
    unfold deniedAfter Has
    cases hdobj : (s.node p).dobj with
    | none =>
        simp only [Option.isNone_none, if_true, record_apply]
        split
        · next hxy => simp [hxy]
        · next hxy => simpa using fun hx hy ↦ absurd ⟨hx, hy⟩ hxy
    | some dobj => simp
  refine h.of_grow (fun x ↦ ?_) (fun x ↦ .inl ?_) (fun x ↦ (hkeep x).2)
    (h.net_self_taken hhead) (fun x y hm ↦ mem_of_mem_taken hhead hm)
    (fun x y hm ↦ .inl (mem_of_mem_taken hhead hm)) (fun x y hm ↦ .inl (mem_of_mem_taken hhead hm))
    (fun x y found hl ↦ ?_) (fun x y hd ↦ (hdenied x y).mpr (.inl hd)) (fun x y hd ↦ ?_)
    (fun x y hd ↦ ?_) (fun x y hnot ↦ .inl ?_) (fun x hx ↦ ?_)
  · unfold Has
    rw [(hkeep x).1]
  · unfold peersOf
    rw [(hkeep x).1]
  · change ((s.setNode p ((s.node p).take q .get)).node y).listener = _ at hl
    rw [hnode] at hl
    split at hl
    · next hy =>
        obtain ⟨rfl, rfl⟩ := Listener.answering.inj hl
        refine .inr ⟨hy ▸ hqp, hq, fun hf ↦ hy ▸ hf, fun hf ↦ ?_⟩
        refine (hdenied _ _).mpr (.inr ⟨rfl, hy, ?_⟩)
        simp [Has, hf]
    · exact .inl hl
  · rcases (hdenied x y).mp hd with hd | ⟨rfl, -, -⟩
    · exact h.denied x y hd
    · exact hq
  · -- a node that lacks the object has not asked anybody
    by_contra hboth
    rw [Bool.not_eq_false] at hboth
    change deniedAfter s q p .get y x = true at hboth
    rcases (hdenied x y).mp hd with hxy | ⟨rfl, rfl, hnot⟩
    · rcases (hdenied y x).mp hboth with hyx | ⟨rfl, rfl, hnot⟩
      · simp [h.asymm x y hxy] at hyx
      · exact hnot (h.denied x y hxy)
    · rcases (hdenied y x).mp hboth with hyx | ⟨heq, -, -⟩
      · exact hnot (h.denied y x hyx)
      · exact hqp heq.symm
  · unfold waitsOn at hnot ⊢
    rwa [(hkeep x).1] at hnot
  · unfold waitsOn
    rw [(hkeep x).1]
    exact hx

omit [DecidableEq T] in
theorem MemberInv.deliver_getReply (h : MemberInv G s) {haveReference : Bool}
    {rest : List (Msg D)} (hhead : s.net q p = .getReply haveReference :: rest) :
    MemberInv G { s.setNode p ((s.node p).take q (.getReply haveReference)) with
      net := s.net.set q p rest
      denied := deniedAfter s q p (.getReply haveReference) } := by
  set s' : State T D := { s.setNode p ((s.node p).take q (.getReply haveReference)) with
    net := s.net.set q p rest
    denied := deniedAfter s q p (.getReply haveReference) } with hs'
  have hqp : q ≠ p := by
    rintro rfl
    simp [h.net_self q] at hhead
  have hself : s'.node p = { s.node p with
      dobj := handleGetReply (s.node p).dobj q haveReference } := setNode_node_self _
  have hothers : ∀ {x}, x ≠ p → s'.node x = s.node x := fun hx ↦ setNode_node_ne hx
  have hpeersOf : peersOf s' p = if Has s p ∧ haveReference = true then
      addPeerReference q (peersOf s p) else peersOf s p := by
    obtain hdobj | ⟨dobj, hdobj⟩ := (s.node p).dobj.eq_none_or_eq_some <;>
      cases haveReference <;> simp [peersOf, Has, hself, hdobj, handleGetReply]
  have hwaits : waitsOn s' p = ReplyWaiter.addReply (waitsOn s p) q := by
    unfold waitsOn
    rw [hself]
    cases hdobj : (s.node p).dobj <;> simp [handleGetReply, ReplyWaiter.addReply]
  have hhas : ∀ x, Has s' x ↔ Has s x := by
    intro x
    by_cases hx : x = p
    · subst hx
      simp [Has, hself, handleGetReply]
    · simp [Has, hothers hx]
  have hpeers : ∀ x, peersOf s' x = peersOf s x ∨
      ∃ y, y ≠ x ∧ Has s y ∧ peersOf s' x = addPeerReference y (peersOf s x) := by
    intro x
    by_cases hx : x = p
    · subst hx
      rw [hpeersOf]
      split
      · next hadd =>
          refine .inr ⟨q, hqp, (h.getReply x q ?_).1, rfl⟩
          rw [hhead, hadd.2]
          exact List.mem_cons_self
      · exact .inl rfl
    · exact .inl (by simp [peersOf, hothers hx])
  refine h.of_grow hhas hpeers (fun x ↦ ?_) (h.net_self_taken hhead)
    (fun x y hm ↦ mem_of_mem_taken hhead hm) (fun x y hm ↦ .inl (mem_of_mem_taken hhead hm))
    (fun x y hm ↦ .inl (mem_of_mem_taken hhead hm)) (fun x y found hl ↦ .inl ?_)
    (fun x y hd ↦ hd) h.denied h.asymm (fun x y hnot ↦ ?_) (fun x hx ↦ ?_)
  · by_cases hx : x = p
    · rw [hx, hself]
    · rw [hothers hx]
  · by_cases hy : y = p
    · rw [hy, hself] at hl
      rw [hy]
      exact hl
    · rwa [hothers hy] at hl
  · by_cases hx : x = p
    · subst hx
      by_cases hy : y = q
      · -- the reply that is counted says whether `q` lists `x`
        subst hy
        refine .inr ?_
        cases haveReference with
        | true =>
            obtain ⟨-, hlisted⟩ := h.getReply x y (by simp [hhead])
            have hhasx : Has s x := h.holds y x hlisted
            refine .inl ⟨?_, by simpa [peersOf, hothers hqp] using hlisted⟩
            rw [hpeersOf, if_pos ⟨hhasx, rfl⟩]
            exact mem_addPeerReference.mpr (.inr rfl)
        | false => exact .inr (h.noReply x y (by simp [hhead]))
      · rw [hwaits, ReplyWaiter.mem_addReply_of_ne hy] at hnot
        exact .inl hnot
    · refine .inl ?_
      unfold waitsOn at hnot ⊢
      rwa [hothers hx] at hnot
  · by_cases hxp : x = p
    · subst hxp
      rw [hwaits, hx]
      rfl
    · unfold waitsOn
      rw [hothers hxp]
      exact hx

omit [DecidableEq T] in
/-- The object's own messages change nothing here. -/
theorem MemberInv.deliver_objMsg (h : MemberInv G s) {d : D} {rest : List (Msg D)}
    (hhead : s.net q p = .objMsg d :: rest) :
    MemberInv G { s.setNode p ((s.node p).take q (.objMsg d)) with
      net := s.net.set q p rest
      denied := deniedAfter s q p (.objMsg d) } := by
  have hkeep : ∀ x, ((s.setNode p ((s.node p).take q (.objMsg d))).node x).dobj = (s.node x).dobj ∧
      ((s.setNode p ((s.node p).take q (.objMsg d))).node x).creation = (s.node x).creation ∧
      ∀ y found, ((s.setNode p ((s.node p).take q (.objMsg d))).node x).listener =
        .answering y found → (s.node x).listener = .answering y found := by
    intro x
    by_cases hx : x = p
    · subst hx
      rw [setNode_node_self]
      simp only [Node.take]
      split <;> simp
    · simp [setNode_node_ne hx]
  refine h.of_mono (fun x hx ↦ ?_) (fun x hx ↦ h.member x ?_) (fun x ↦ ?_) (fun x hx ↦ ?_)
    (fun x rest' hx ↦ h.sending x rest' ((hkeep x).2.1 ▸ hx)) (fun x hx y _ _ hnot ↦ ⟨?_, ?_⟩)
    (fun x hx ↦ ?_) (fun y x found hl ↦ (hkeep x).2.2 y found hl) (h.net_self_taken hhead)
    (fun x y hm ↦ h.get x y (mem_of_mem_taken hhead hm))
    (fun x y r hm ↦ mem_of_mem_taken hhead hm) rfl
  · unfold Has
    rwa [(hkeep x).1]
  · unfold Has at hx
    rwa [(hkeep x).1] at hx
  · unfold peersOf
    rw [(hkeep x).1]
  · unfold Has
    rw [(hkeep x).1]
    exact h.has_of_creation x ((hkeep x).2.1 ▸ hx)
  · unfold Started at hx
    rwa [(hkeep x).2.1] at hx
  · unfold waitsOn at hnot
    rwa [(hkeep x).1] at hnot
  · unfold waitsOn
    rw [(hkeep x).1]
    exact h.returned x ((hkeep x).2.1 ▸ hx)

theorem MemberInv.deliver (h : MemberInv G s)
    (hst : step G kind s (.deliver q p) = some s') : MemberInv G s' := by
  obtain ⟨m, rest, hhead, -, rfl⟩ := step_deliver_eq_some hst
  cases m with
  | get => exact h.deliver_get hhead
  | getReply haveReference => exact h.deliver_getReply hhead
  | objMsg d => exact h.deliver_objMsg hhead

theorem MemberInv.answer (h : MemberInv G s)
    (hst : step G kind s (.answer p) = some s') : MemberInv G s' := by
  obtain ⟨q, found, hlistener, rfl⟩ := step_answer_eq_some hst
  obtain ⟨hqp, hq, hfound, hnotFound⟩ := h.answering q p found hlistener
  set nd : Node T D := { s.node p with
    listener := .idle
    dobj := if found then (s.node p).dobj.map fun dobj ↦
      { dobj with peers := addPeerReference q dobj.peers } else (s.node p).dobj } with hnd
  have hself : ((s.setNode p nd).post p [q] (.getReply found)).node p = nd :=
    setNode_node_self nd
  have hothers : ∀ {x}, x ≠ p →
      ((s.setNode p nd).post p [q] (.getReply found)).node x = s.node x :=
    fun hx ↦ setNode_node_ne hx
  have hpeersOf : peersOf ((s.setNode p nd).post p [q] (.getReply found)) p =
      if found then addPeerReference q (peersOf s p) else peersOf s p := by
    unfold peersOf
    rw [hself]
    cases hdobj : (s.node p).dobj with
    | none =>
        cases found with
        | true => simp [Has, hdobj] at hfound
        | false => simp [hnd, hdobj]
    | some dobj => cases found <;> simp [hnd, hdobj]
  have hwaits : ∀ x, waitsOn ((s.setNode p nd).post p [q] (.getReply found)) x =
      waitsOn s x := by
    intro x
    by_cases hx : x = p
    · subst hx
      unfold waitsOn
      rw [hself]
      cases hdobj : (s.node x).dobj <;> cases found <;> simp [hnd, hdobj]
    · simp [waitsOn, hothers hx]
  have hnet : ∀ a b m, m ∈ ((s.setNode p nd).post p [q] (.getReply found)).net a b →
      m ∈ s.net a b ∨ (a = p ∧ b = q ∧ m = .getReply found) := by
    intro a b m hm
    rw [post_net _ _ _ (List.nodup_singleton q)] at hm
    split at hm
    · next hab =>
        exact (List.mem_append.mp hm).imp id fun hm ↦
          ⟨hab.1, List.mem_singleton.mp hab.2, List.mem_singleton.mp hm⟩
    · exact .inl hm
  refine h.of_grow (fun x ↦ ?_) (fun x ↦ ?_) (fun x ↦ ?_) (fun x ↦ ?_)
    (fun x y hm ↦ (hnet x y _ hm).resolve_right (by simp)) (fun x y hm ↦ ?_)
    (fun x y hm ↦ ?_) (fun x y b hl ↦ .inl ?_) (fun x y hd ↦ hd) h.denied h.asymm
    (fun x y hnot ↦ .inl (hwaits x ▸ hnot)) (fun x hx ↦ (hwaits x).trans hx)
  · by_cases hx : x = p
    · subst hx
      unfold Has
      rw [hself]
      cases found <;> simp [hnd]
    · simp [Has, hothers hx]
  · by_cases hx : x = p
    · subst hx
      rw [hpeersOf]
      split
      · exact .inr ⟨q, hqp, hq, rfl⟩
      · exact .inl rfl
    · exact .inl (by simp [peersOf, hothers hx])
  · by_cases hx : x = p
    · rw [hx, hself]
    · rw [hothers hx]
  · rw [post_net _ _ _ (List.nodup_singleton q), if_neg]
    · exact h.net_self x
    · rintro ⟨rfl, hmem⟩
      exact hqp (List.mem_singleton.mp hmem).symm
  · rcases hnet y x _ hm with hm | ⟨rfl, rfl, heq⟩
    · exact .inl hm
    · obtain rfl := Msg.getReply.inj heq
      refine .inr ⟨hfound rfl, ?_⟩
      rw [hpeersOf]
      exact mem_addPeerReference.mpr (.inr rfl)
  · rcases hnet y x _ hm with hm | ⟨rfl, rfl, heq⟩
    · exact .inl hm
    · obtain rfl := Msg.getReply.inj heq
      exact .inr (hnotFound rfl)
  · by_cases hy : y = p
    · rw [hy, hself] at hl
      cases hl
    · rwa [hothers hy] at hl

theorem MemberInv.step (h : MemberInv G s) {a : Action T D}
    (hst : Get.step G kind s a = some s') : MemberInv G s' := by
  cases a with
  | get p t => exact h.get_step hst
  | setWaitOn p => exact h.setWaitOn hst
  | sendGet p => exact h.sendGet hst
  | wake p t => exact h.wake hst
  | testAndInit p t => exact h.testAndInit hst
  | initField p t => exact h.initField hst
  | sendObj p d => exact h.sendObj hst
  | deliver q p => exact h.deliver hst
  | answer p => exact h.answer hst
  | callHandler p => exact h.callHandler hst

end Step

variable [DecidableEq T] {G : Group} {kind : Kind} {s : State T D}

theorem memberInv_init : MemberInv G (system T D G kind).init where
  member _ hp := by cases hp
  nodup _ := List.nodup_nil
  notSelf _ := List.not_mem_nil
  holds _ _ hq := by cases hq
  has_of_creation _ hne := absurd rfl hne
  sending _ _ hrest := by cases hrest
  net_self _ := rfl
  get _ _ hm := by cases hm
  getReply _ _ hm := by cases hm
  noReply _ _ hm := by cases hm
  answering _ _ _ hl := by cases hl
  denied _ _ hd := by cases hd
  asymm _ _ hd := by cases hd
  counted _ hp := by
    rcases hp with ⟨_, hp⟩ | hp <;> cases hp
  returned _ hp := by cases hp

theorem memberInv_of_reachable (h : (system T D G kind).Reachable s) : MemberInv G s :=
  h.invariant (MemberInv G) memberInv_init fun _ ih _ hst ↦ ih.step hst

/-- The peers lists are sound, and complete once both creating calls have returned. -/
theorem peers_symmetric (h : (system T D G kind).Reachable s) :
    (∀ p ∈ G.ids, (peersOf s p).Nodup ∧ p ∉ peersOf s p ∧ ∀ q ∈ peersOf s p, Has s q) ∧
      ∀ p ∈ G.ids, ∀ q ∈ G.ids, p ≠ q → (s.node p).creation = .returned →
        (s.node q).creation = .returned → q ∈ peersOf s p ∧ p ∈ peersOf s q := by
  have hinv := memberInv_of_reachable h
  refine ⟨fun p _ ↦ ⟨hinv.nodup p, hinv.notSelf p, hinv.holds p⟩, fun p hp q hq hpq hdp hdq ↦ ?_⟩
  have hcounted : ∀ x ∈ G.ids, ∀ y ∈ G.ids, y ≠ x → (s.node x).creation = .returned →
      (y ∈ peersOf s x ∧ x ∈ peersOf s y) ∨ s.denied x y = true := by
    intro x _ y hy hyx hdone
    exact hinv.counted x (.inr hdone) y hy hyx (by simp [hinv.returned x hdone])
  rcases hcounted p hp q hq (Ne.symm hpq) hdp with hboth | hdenied
  · exact hboth
  · rcases hcounted q hq p hp hpq hdq with hboth | hdenied'
    · exact hboth.symm
    · simp [hinv.asymm p q hdenied] at hdenied'

/-- The lookups cross: node 2 asks before it is asked and is found. -/
theorem peers_symmetric_two_nodes :
    ∃ s : State Unit Empty, (s.node 1).creation = .returned ∧ (s.node 2).creation = .returned ∧
      s.denied 1 2 = true ∧ 2 ∈ peersOf s 1 ∧ 1 ∈ peersOf s 2 := by
  let G : Group := .ofIds [1, 2] (by decide) (by decide)
  obtain ⟨s, hs, hp⟩ := LabelledSystem.exists_reach_of_exec (system Unit Empty G .mutex)
    LabelledSystem.anyStep [.get 1 (), .setWaitOn 1, .sendGet 1, .deliver 1 2, .get 2 (),
      .setWaitOn 2, .sendGet 2, .answer 2, .deliver 2 1, .answer 1, .deliver 2 1, .deliver 1 2,
      .wake 1 (), .wake 2 ()]
    (fun s ↦ (s.node 1).creation = .returned ∧ (s.node 2).creation = .returned ∧
      s.denied 1 2 = true) (by decide)
  obtain ⟨h1, h2, hdenied⟩ : (s.node 1).creation = .returned ∧
    (s.node 2).creation = .returned ∧ s.denied 1 2 = true := by simpa using hp
  exact ⟨s, h1, h2, hdenied,
    (peers_symmetric hs).2 1 (by decide) 2 (by decide) (by decide) h1 h2⟩

end Edsm.Dobj.Get
