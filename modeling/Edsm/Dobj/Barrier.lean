import Edsm.Group
import Edsm.Library.Channels
import Edsm.Library.Reachability
import Edsm.ReplyWaiter

/-!
# Barriers

The nodes of a group repeat a round of `edsm_barrier_arm`, `edsm_barrier_notify` and
`edsm_barrier_wait`.  A notification carries nothing, and one that finds no entry of its sender
in `wait_on` is discarded: a node takes part in a round from the moment it arms.
-/

namespace Edsm.Barrier

/-- Where the thread of a node is in the round. -/
inductive Pc
  | outside
  /-- `wait_on` holds the ids of all nodes. -/
  | armed
  /-- In `edsm_dobj_send`, with these peers still to send to. -/
  | sending (rest : List UInt32)
  /-- `edsm_barrier_notify` has returned. -/
  | waiting
  deriving DecidableEq

/-- The last field counts the rounds that are over; no function reads it. -/
structure Node where
  waitOn : ReplyWaiter
  pc : Pc
  rounds : ℕ

/-- The last field counts the notifications of one node that another has handled. -/
structure State where
  node : UInt32 → Node
  net : Channels UInt32 Unit
  handled : UInt32 → UInt32 → ℕ

inductive Action
  | arm (p : UInt32)
  /-- `edsm_barrier_notify` is called. -/
  | notify (p : UInt32)
  | send (p : UInt32)
  /-- The entry of the node itself is removed, and the call returns. -/
  | addOwnReply (p : UInt32)
  /-- `edsm_barrier_wait` finds `wait_on` empty and returns. -/
  | leave (p : UInt32)
  /-- The listener of `p` handles the oldest notification of `q`. -/
  | deliver (q p : UInt32)

namespace State

def setNode (s : State) (p : UInt32) (nd : Node) : State :=
  { s with node := Function.update s.node p nd }

end State

def step (G : Group) (s : State) : Action → Option State
  | .arm p =>
      if p ∈ G.ids ∧ (s.node p).pc = .outside then
        some (s.setNode p { s.node p with
          waitOn := (s.node p).waitOn.setWaitOn G.ids
          pc := .armed })
      else none
  | .notify p =>
      if (s.node p).pc = .armed then
        some (s.setNode p { s.node p with pc := .sending (G.peers p) })
      else none
  | .send p =>
      match (s.node p).pc with
      | .sending (q :: rest) => some { s.setNode p { s.node p with pc := .sending rest } with
          net := s.net.send p q () }
      | .sending [] | .outside | .armed | .waiting => none
  | .addOwnReply p =>
      if (s.node p).pc = .sending [] then
        some (s.setNode p { s.node p with
          waitOn := (s.node p).waitOn.addReply p
          pc := .waiting })
      else none
  | .leave p =>
      if (s.node p).pc = .waiting ∧ (s.node p).waitOn.Ready then
        some (s.setNode p { s.node p with
          pc := .outside
          rounds := (s.node p).rounds + 1 })
      else none
  | .deliver q p =>
      match s.net q p with
      | () :: rest =>
          some { s.setNode p { s.node p with waitOn := (s.node p).waitOn.addReply q } with
            net := s.net.set q p rest
            handled := fun a b ↦ s.handled a b + if a = q ∧ b = p then 1 else 0 }
      | [] => none

def system (G : Group) : LabelledSystem State Action where
  init := {
    node := fun _ ↦ { waitOn := [], pc := .outside, rounds := 0 }
    net := .empty
    handled := fun _ _ ↦ 0 }
  step := step G

/-! ## What is claimed of a barrier -/

/-- The calls of `edsm_barrier_notify` in the current round, and those that have returned. -/
def Pc.called : Pc → ℕ
  | sending _ | waiting => 1
  | outside | armed => 0

def Pc.notified : Pc → ℕ
  | waiting => 1
  | outside | armed | sending _ => 0

namespace State

/-- No node has finished more rounds than any other has called `edsm_barrier_notify`. -/
def Safe (G : Group) (s : State) : Prop :=
  ∀ p ∈ G.ids, ∀ q ∈ G.ids, (s.node p).rounds ≤ (s.node q).rounds + (s.node q).pc.called

/-- All have notified for the round of a node that is blocked, and nothing is in flight. -/
def Stuck (G : Group) (s : State) : Prop :=
  (∀ p ∈ G.ids, ∀ q ∈ G.ids, s.net q p = []) ∧
    ∃ p ∈ G.ids, (s.node p).pc = .waiting ∧ (s.node p).waitOn ≠ [] ∧
      ∀ q ∈ G.ids, (s.node p).rounds + 1 ≤ (s.node q).rounds + (s.node q).pc.notified

/-- The notification that is handled counts: its sender is waited for. -/
def Counts (s : State) : Action → Prop
  | .deliver q p => q ∈ (s.node p).waitOn
  | .arm _ | .notify _ | .send _ | .addOwnReply _ | .leave _ => True

end State

/-! ## Counting notifications -/

/-- The notifications of the current round that are sent to `p`. -/
def Pc.sentTo (p : UInt32) : Pc → ℕ
  | sending rest => if p ∈ rest then 0 else 1
  | waiting => 1
  | outside | armed => 0

namespace Node

/-- The notifications that the node has sent to `p`. -/
def sent (nd : Node) (p : UInt32) : ℕ := nd.rounds + nd.pc.sentTo p

/-- The notifications of `q` that have removed an entry of `wait_on`. -/
def used (nd : Node) (q : UInt32) : ℕ :=
  nd.rounds + if nd.pc = .outside ∨ q ∈ nd.waitOn then 0 else 1

/-- The lists of node `p` have no entry twice; outside the round `wait_on` is empty, and after
the notification it lacks the node itself. -/
structure Inv (G : Group) (p : UInt32) (nd : Node) : Prop where
  nodup : nd.waitOn.Nodup
  members : ∀ q ∈ nd.waitOn, q ∈ G.ids
  joined : nd.pc ≠ .outside → p ∈ G.ids
  outside : nd.pc = .outside → nd.waitOn = []
  waiting : nd.pc = .waiting → p ∉ nd.waitOn
  rest : ∀ rest, nd.pc = .sending rest → rest.Nodup

end Node

namespace State

variable {G : Group} {s s' : State} {p q x : UInt32}

/-- What is sent has been handled or is in flight, and each round has used a notification of
every other node. -/
structure Inv (G : Group) (s : State) : Prop where
  node : ∀ p, (s.node p).Inv G p
  count : ∀ q ∈ G.ids, ∀ p ∈ G.peers q,
    (s.node q).sent p = s.handled q p + (s.net q p).length
  low : ∀ p, ∀ q ∈ G.ids, q ≠ p → (s.node p).used q ≤ s.handled q p

/-- No notification has been discarded. -/
def AllUsed (G : Group) (s : State) : Prop :=
  ∀ p, ∀ q ∈ G.ids, q ≠ p → s.handled q p ≤ (s.node p).used q

theorem Inv.safe (h : s.Inv G) : s.Safe G := by
  intro p hp q hq
  by_cases hqp : q = p
  · exact hqp ▸ Nat.le_add_right _ _
  · have hpeer : p ∈ G.peers q := (G.mem_peers q hq p).mpr ⟨hp, Ne.symm hqp⟩
    calc (s.node p).rounds ≤ (s.node p).used q := Nat.le_add_right _ _
      _ ≤ s.handled q p := h.low p q hq hqp
      _ ≤ (s.node q).sent p := h.count q hq p hpeer ▸ Nat.le_add_right _ _
      _ ≤ (s.node q).rounds + (s.node q).pc.called := by
        refine Nat.add_le_add_left ?_ _
        cases (s.node q).pc with
        | outside | armed | waiting => exact Nat.le_refl _
        | sending rest =>
            rw [Pc.sentTo, Pc.called]
            split <;> omega

theorem Inv.not_stuck (h : s.Inv G) (hused : s.AllUsed G) : ¬s.Stuck G := by
  rintro ⟨hnet, p, hp, hpc, hne, hall⟩
  obtain ⟨q, hq⟩ := List.exists_mem_of_ne_nil _ hne
  have hqp : q ≠ p := by
    rintro rfl
    exact (h.node q).waiting hpc hq
  have hmem : q ∈ G.ids := (h.node p).members q hq
  have hpeer : p ∈ G.peers q := (G.mem_peers q hmem p).mpr ⟨hp, hqp.symm⟩
  have hsent : (s.node q).sent p ≤ (s.node p).rounds := by
    calc (s.node q).sent p = s.handled q p := by
          rw [h.count q hmem p hpeer, hnet p hp q hmem, List.length_nil, Nat.add_zero]
      _ ≤ (s.node p).used q := hused p q hmem hqp
      _ = (s.node p).rounds := by simp [Node.used, hq]
  have hnotified : (s.node q).pc.notified ≤ (s.node q).pc.sentTo p := by
    cases (s.node q).pc with
    | waiting => exact Nat.le_refl _
    | outside | armed | sending => exact Nat.zero_le _
  have hround := hall q hmem
  rw [Node.sent] at hsent
  omega

theorem setNode_self (nd : Node) : (s.setNode p nd).node p = nd := by
  simp [setNode]

theorem setNode_ne (nd : Node) (h : q ≠ p) : (s.setNode p nd).node q = s.node q := by
  simp [setNode, h]

/-- A step of one node that sends nothing and uses no notification. -/
structure Local (G : Group) (s : State) (x : UInt32) (nd : Node) : Prop where
  node : nd.Inv G x
  sent : x ∈ G.ids → ∀ p ∈ G.peers x, nd.sent p = (s.node x).sent p
  used : ∀ q ∈ G.ids, q ≠ x → nd.used q = (s.node x).used q

theorem Local.sent_eq {nd : Node} (h : Local G s x nd) (hq : q ∈ G.ids) (hp : p ∈ G.peers q) :
    ((s.setNode x nd).node q).sent p = (s.node q).sent p := by
  by_cases hqx : q = x
  · subst hqx
    rw [setNode_self]
    exact h.sent hq p hp
  · rw [setNode_ne nd hqx]

theorem Local.used_eq {nd : Node} (h : Local G s x nd) (hq : q ∈ G.ids) (hqp : q ≠ p) :
    ((s.setNode x nd).node p).used q = (s.node p).used q := by
  by_cases hpx : p = x
  · subst hpx
    rw [setNode_self]
    exact h.used q hq hqp
  · rw [setNode_ne nd hpx]

theorem Local.inv {nd : Node} (hlocal : Local G s x nd) (h : s.Inv G) :
    (s.setNode x nd).Inv G := by
  refine ⟨fun p ↦ ?_, fun q hq p hp ↦ ?_, fun p q hq hqp ↦ ?_⟩
  · by_cases hpx : p = x
    · subst hpx
      rw [setNode_self]
      exact hlocal.node
    · rw [setNode_ne nd hpx]
      exact h.node p
  · rw [hlocal.sent_eq hq hp]
    exact h.count q hq p hp
  · rw [hlocal.used_eq hq hqp]
    exact h.low p q hq hqp

theorem Local.allUsed {nd : Node} (hlocal : Local G s x nd) (h : s.AllUsed G) :
    (s.setNode x nd).AllUsed G := fun p q hq hqp ↦ by
  rw [hlocal.used_eq hq hqp]
  exact h p q hq hqp

/-! ## The steps of the thread -/

theorem local_arm (hx : x ∈ G.ids) (hpc : (s.node x).pc = .outside) :
    Local G s x { s.node x with waitOn := (s.node x).waitOn.setWaitOn G.ids, pc := .armed } where
  node := {
    nodup := G.nodup
    members := fun _ ↦ id
    joined := fun _ ↦ hx
    outside := fun hout ↦ by cases hout
    waiting := fun hwait ↦ by cases hwait
    rest := fun _ hrest ↦ by cases hrest }
  sent _ p _ := by simp [Node.sent, hpc, Pc.sentTo]
  used q hq _ := by simp [Node.used, hpc, ReplyWaiter.setWaitOn, hq]

theorem local_notify (h : s.Inv G) (hpc : (s.node x).pc = .armed) :
    Local G s x { s.node x with pc := .sending (G.peers x) } where
  node := { h.node x with
    joined := fun _ ↦ (h.node x).joined (by simp [hpc])
    outside := fun hout ↦ by cases hout
    waiting := fun hwait ↦ by cases hwait
    rest := fun _ hrest ↦ Pc.sending.inj hrest ▸
      G.peers_nodup x ((h.node x).joined (by simp [hpc])) }
  sent _ p hp := by simp [Node.sent, hpc, Pc.sentTo, hp]
  used q hq _ := by simp [Node.used, hpc]

theorem local_addOwnReply (h : s.Inv G) (hpc : (s.node x).pc = .sending []) :
    Local G s x { s.node x with waitOn := (s.node x).waitOn.addReply x, pc := .waiting } where
  node := {
    nodup := ReplyWaiter.nodup_addReply (h.node x).nodup x
    members := fun q hq ↦ (h.node x).members q (ReplyWaiter.mem_of_mem_addReply hq)
    joined := fun _ ↦ (h.node x).joined (by simp [hpc])
    outside := fun hout ↦ by cases hout
    waiting := fun _ ↦ ReplyWaiter.notMem_addReply (h.node x).nodup x
    rest := fun _ hrest ↦ by cases hrest }
  sent _ p _ := by simp [Node.sent, hpc, Pc.sentTo]
  used q _ hqx := by simp [Node.used, hpc, ReplyWaiter.mem_addReply_of_ne hqx]

theorem local_leave (h : s.Inv G) (hpc : (s.node x).pc = .waiting)
    (hready : (s.node x).waitOn.Ready) :
    Local G s x { s.node x with pc := .outside, rounds := (s.node x).rounds + 1 } where
  node := { h.node x with
    joined := fun hne ↦ absurd rfl hne
    outside := fun _ ↦ hready
    waiting := fun hwait ↦ by cases hwait
    rest := fun _ hrest ↦ by cases hrest }
  sent _ p _ := by simp [Node.sent, hpc, Pc.sentTo]
  used q _ _ := by
    have hnil : (s.node x).waitOn = [] := hready
    simp [Node.used, hpc, hnil]

/-! ## Sending and handling -/

theorem inv_send (h : s.Inv G) (hst : step G s (.send x) = some s') :
    s'.Inv G ∧ (s.AllUsed G → s'.AllUsed G) := by
  rw [step] at hst
  split at hst
  · next r rest hpc =>
      obtain rfl := Option.some.inj hst
      obtain ⟨hr, hrest⟩ := List.nodup_cons.mp ((h.node x).rest _ hpc)
      have hused : ∀ p q, ((s.setNode x { s.node x with pc := .sending rest }).node p).used q =
          (s.node p).used q := by
        intro p q
        by_cases hpx : p = x
        · subst hpx
          rw [setNode_self]
          simp [Node.used, hpc]
        · rw [setNode_ne _ hpx]
      have hnode : Node.Inv G x { s.node x with pc := .sending rest } :=
        { h.node x with
          joined := fun _ ↦ (h.node x).joined (by simp [hpc])
          outside := fun hout ↦ by cases hout
          waiting := fun hwait ↦ by cases hwait
          rest := fun _ heq ↦ Pc.sending.inj heq ▸ hrest }
      refine ⟨⟨fun p ↦ ?_, fun q hq p hp ↦ ?_, fun p q hq hqp ↦ ?_⟩, fun hall p q hq hqp ↦ ?_⟩
      · change Node.Inv G p ((s.setNode x { s.node x with pc := .sending rest }).node p)
        by_cases hpx : p = x
        · subst hpx
          rwa [setNode_self]
        · rw [setNode_ne _ hpx]
          exact h.node p
      · change ((s.setNode x { s.node x with pc := .sending rest }).node q).sent p =
          s.handled q p + (s.net.send x r () q p).length
        have hcount := h.count q hq p hp
        rw [Channels.send_apply]
        by_cases hqx : q = x
        · subst hqx
          rw [setNode_self]
          by_cases hpr : p = r
          · subst hpr
            have hbefore : (s.node q).sent p = (s.node q).rounds := by
              simp [Node.sent, Pc.sentTo, hpc]
            have hafter : Node.sent { s.node q with pc := .sending rest } p =
                (s.node q).rounds + 1 := by simp [Node.sent, Pc.sentTo, hr]
            rw [hafter, ← hbefore, hcount]
            simp [Nat.add_assoc]
          · have hmem : p ∈ r :: rest ↔ p ∈ rest := by simp [hpr]
            simp only [Node.sent, Pc.sentTo, hpc, hmem] at hcount
            simpa [Node.sent, Pc.sentTo, hpr] using hcount
        · rw [setNode_ne _ hqx]
          simpa [hqx] using hcount
      · change ((s.setNode x { s.node x with pc := .sending rest }).node p).used q ≤ _
        rw [hused]
        exact h.low p q hq hqp
      · change _ ≤ ((s.setNode x { s.node x with pc := .sending rest }).node p).used q
        rw [hused]
        exact hall p q hq hqp
  all_goals cases hst

theorem inv_deliver (h : s.Inv G) (hst : step G s (.deliver x p) = some s') :
    s'.Inv G ∧ (s.AllUsed G → x ∈ (s.node p).waitOn → s'.AllUsed G) := by
  rw [step] at hst
  split at hst
  · next rest hnet =>
      obtain rfl := Option.some.inj hst
      set nd : Node := { s.node p with waitOn := (s.node p).waitOn.addReply x } with hnd
      have hnode : nd.Inv G p :=
        { h.node p with
          nodup := ReplyWaiter.nodup_addReply (h.node p).nodup x
          members := fun q hq ↦ (h.node p).members q (ReplyWaiter.mem_of_mem_addReply hq)
          outside := fun hout ↦ by
            have hnil := (h.node p).outside hout
            simp [hnd, hnil, ReplyWaiter.addReply]
          waiting := fun hwait hmem ↦
            (h.node p).waiting hwait (ReplyWaiter.mem_of_mem_addReply hmem) }
      have hother : ∀ q, q ≠ x → nd.used q = (s.node p).used q := fun q hqx ↦ by
        simp [hnd, Node.used, ReplyWaiter.mem_addReply_of_ne hqx]
      have hsent : ∀ q a, ((s.setNode p nd).node q).sent a = (s.node q).sent a := by
        intro q a
        by_cases hqp : q = p
        · subst hqp
          rw [setNode_self, hnd, Node.sent, Node.sent]
        · rw [setNode_ne _ hqp]
      refine ⟨⟨fun a ↦ ?_, fun q hq a ha ↦ ?_, fun a q hq hqa ↦ ?_⟩,
        fun hall hmem a q hq hqa ↦ ?_⟩
      · change ((s.setNode p nd).node a).Inv G a
        by_cases hap : a = p
        · subst hap
          rwa [setNode_self]
        · rw [setNode_ne _ hap]
          exact h.node a
      · change ((s.setNode p nd).node q).sent a =
          s.handled q a + (if q = x ∧ a = p then 1 else 0) + (s.net.set x p rest q a).length
        rw [hsent, h.count q hq a ha, Channels.set_apply]
        split
        · next heq =>
            rw [heq.1, heq.2, hnet, List.length_cons]
            omega
        · rfl
      · change ((s.setNode p nd).node a).used q ≤
          s.handled q a + if q = x ∧ a = p then 1 else 0
        have hlow := h.low a q hq hqa
        by_cases hap : a = p
        · subst hap
          rw [setNode_self]
          by_cases hqx : q = x
          · subst hqx
            have hstep : nd.used q ≤ (s.node a).rounds + 1 :=
              Nat.add_le_add_left (by split <;> simp) _
            rw [if_pos ⟨rfl, rfl⟩]
            exact Nat.le_trans hstep (Nat.succ_le_succ (Nat.le_trans (Nat.le_add_right _ _) hlow))
          · rw [hother q hqx, if_neg fun heq ↦ hqx heq.1]
            exact hlow
        · rw [setNode_ne _ hap, if_neg fun heq ↦ hap heq.2]
          exact hlow
      · change s.handled q a + (if q = x ∧ a = p then 1 else 0) ≤
          ((s.setNode p nd).node a).used q
        have hup := hall a q hq hqa
        by_cases hap : a = p
        · subst hap
          rw [setNode_self]
          by_cases hqx : q = x
          · subst hqx
            have hin : (s.node a).pc ≠ .outside := fun hout ↦ by
              rw [(h.node a).outside hout] at hmem
              cases hmem
            have hgone : q ∉ nd.waitOn := ReplyWaiter.notMem_addReply (h.node a).nodup q
            have hbefore : (s.node a).used q = (s.node a).rounds := by
              simp [Node.used, hmem]
            have hafter : nd.used q = (s.node a).rounds + 1 := by
              rw [Node.used, if_neg (not_or.mpr ⟨hin, hgone⟩)]
            rw [if_pos ⟨rfl, rfl⟩, hafter]
            exact Nat.succ_le_succ (hbefore ▸ hup)
          · rw [hother q hqx, if_neg fun heq ↦ hqx heq.1]
            exact hup
        · rw [setNode_ne _ hap, if_neg fun heq ↦ hap heq.2]
          exact hup
  · cases hst

theorem inv_step {a : Action} (h : s.Inv G) (hst : step G s a = some s') :
    s'.Inv G ∧ (s.AllUsed G → s.Counts a → s'.AllUsed G) := by
  have hlocal : ∀ {x nd}, Local G s x nd → (s.setNode x nd).Inv G ∧
      (s.AllUsed G → s.Counts a → (s.setNode x nd).AllUsed G) :=
    fun hlocal ↦ ⟨hlocal.inv h, fun hall _ ↦ hlocal.allUsed hall⟩
  cases a with
  | arm p =>
      obtain ⟨⟨hp, hpc⟩, hst⟩ := Option.ite_none_right_eq_some.mp hst
      exact Option.some.inj hst ▸ hlocal (local_arm hp hpc)
  | notify p =>
      obtain ⟨hpc, hst⟩ := Option.ite_none_right_eq_some.mp hst
      exact Option.some.inj hst ▸ hlocal (local_notify h hpc)
  | send p => exact (inv_send h hst).imp_right fun hall hused _ ↦ hall hused
  | addOwnReply p =>
      obtain ⟨hpc, hst⟩ := Option.ite_none_right_eq_some.mp hst
      exact Option.some.inj hst ▸ hlocal (local_addOwnReply h hpc)
  | leave p =>
      obtain ⟨⟨hpc, hready⟩, hst⟩ := Option.ite_none_right_eq_some.mp hst
      exact Option.some.inj hst ▸ hlocal (local_leave h hpc hready)
  | deliver q p => exact inv_deliver h hst

theorem inv_init : (system G).init.Inv G where
  node p := {
    nodup := List.nodup_nil
    members := fun _ hq ↦ absurd hq List.not_mem_nil
    joined := fun hne ↦ absurd rfl hne
    outside := fun _ ↦ rfl
    waiting := fun hwait ↦ by cases hwait
    rest := fun _ hrest ↦ by cases hrest }
  count _ _ _ _ := rfl
  low _ _ _ _ := Nat.le_refl 0

end State

/-- No node leaves a round before all have notified for it.  If every notification finds an entry
of its sender, no node stays behind. -/
theorem safe_and_not_stuck {G : Group} {s : State} (h : (system G).Reachable s) :
    s.Safe G ∧ ((system G).Reach State.Counts s → ¬s.Stuck G) := by
  have hinv : ∀ {ok : State → Action → Prop} {t}, (system G).Reach ok t → t.Inv G :=
    fun ht ↦ ht.invariant (State.Inv G) State.inv_init
      fun _ hinv _ hst ↦ (State.inv_step hinv hst).1
  refine ⟨(hinv h).safe, fun hcounts ↦ (hinv hcounts).not_stuck ?_⟩
  exact hcounts.invariant (State.AllUsed G) (fun _ _ _ _ ↦ Nat.le_refl 0)
    fun hs hall hok hst ↦ (State.inv_step (hinv hs) hst).2 hall hok

instance (s : State) : (a : Action) → Decidable (s.Counts a)
  | .deliver q p => inferInstanceAs (Decidable (q ∈ (s.node p).waitOn))
  | .arm _ | .notify _ | .send _ | .addOwnReply _ | .leave _ => .isTrue trivial

/-- Both nodes arm before they notify; node 1 is then through with the round. -/
theorem safe_and_not_stuck_two :
    let G : Group := .ofIds [1, 2] (by decide) (by decide)
    ∃ s, (system G).Reachable s ∧ (s.node 1).rounds = 1 ∧ s.Safe G ∧ ¬s.Stuck G := by
  intro G
  obtain ⟨s, hs, hend⟩ := (system G).exists_reach_of_exec State.Counts
    [.arm 1, .arm 2, .notify 1, .send 1, .deliver 1 2, .addOwnReply 1, .notify 2, .send 2,
      .deliver 2 1, .leave 1]
    (fun s ↦ (s.node 1).rounds == 1) (by decide +kernel)
  obtain ⟨hsafe, hstuck⟩ := safe_and_not_stuck hs.reachable
  exact ⟨s, hs.reachable, by simpa using hend, hsafe, hstuck hs⟩

instance (G : Group) (s : State) : Decidable (s.Stuck G) :=
  inferInstanceAs (Decidable (_ ∧ ∃ p ∈ G.ids, _))

/-- Node 1 notifies before node 2 arms, and node 2 waits for ever. -/
theorem stuck : let G : Group := .ofIds [1, 2] (by decide) (by decide)
    ∃ s, (system G).Reachable s ∧ s.Stuck G := by
  intro G
  obtain ⟨s, hs, hend⟩ := (system G).exists_reach_of_exec LabelledSystem.anyStep
    [.arm 1, .notify 1, .send 1, .addOwnReply 1, .deliver 1 2, .arm 2, .notify 2, .send 2,
      .addOwnReply 2, .deliver 2 1, .leave 1]
    (fun s ↦ decide (s.Stuck G)) (by decide +kernel)
  exact ⟨s, hs, of_decide_eq_true hend⟩

end Edsm.Barrier
