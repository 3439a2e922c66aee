import Edsm.Mutex.Exclusion
import Mathlib.Data.Fintype.Basic

/-!
# Turns and the data sent in them

A node sends the data of its turn before the replies of its unlock, and a channel
keeps the order.  While nobody enters a turn that is not over, and no reply is
counted that has data behind it, a node has taken all data of the turns before
its own when `edsm_mutex_lock` returns.
-/

namespace Edsm.Mutex

variable {T D : Type*}

/-! ## Conditions on the steps -/

/-- No thread of the group holds the mutex. -/
def Free (G : Group) (s : State T D) : Prop := ∀ q ∈ G.ids, ∀ u, (s.node q).pc u ≠ .critical

instance [Fintype T] (G : Group) (s : State T D) : Decidable (Free G s) :=
  inferInstanceAs (Decidable (∀ _ ∈ _, ∀ _, _ ≠ _))

/-- Mutual exclusion: `edsm_mutex_lock` returns only while nobody holds the mutex. -/
def Excludes (G : Group) (s : State T D) : Action T D → Prop
  | .thread _ (.enter _) => Free G s
  | _ => True

instance [Fintype T] (G : Group) (s : State T D) : (a : Action T D) → Decidable (Excludes G s a)
  | .thread _ (.enter _) => inferInstanceAs (Decidable (Free _ _))
  | .thread _ (.acquire _) | .thread _ (.request _) | .thread _ (.unlock _)
  | .thread _ (.release _) | .publish .. | .deliver .. => inferInstanceAs (Decidable True)

def Frame.isData (f : Frame D) : Bool := f.asData.isSome

@[simp] theorem Frame.isData_mutex (msg : Msg) : (Frame.mutex msg : Frame D).isData = false := rfl

@[simp] theorem Frame.isData_data (d : D) : (Frame.data d).isData = true := rfl

/-- If the first of these frames is a reply that `p` counts, none of the others is data. -/
def CountLast (s : State T D) (q p : UInt32) : List (Frame D) → Prop
  | .mutex msg :: rest => msg.msgType = msgTypeReply → q ∈ (s.node p).mutex.waiter →
      ∀ f ∈ rest, f.isData = false
  | _ => True

instance (s : State T D) (q p : UInt32) :
    (frames : List (Frame D)) → Decidable (CountLast s q p frames)
  | .mutex _ :: _ => inferInstanceAs (Decidable (_ → _ → _))
  | .data _ :: _ => inferInstanceAs (Decidable True)
  | [] => inferInstanceAs (Decidable True)

/-- A reply that the step counts has no data of its sender behind it. -/
def CountsLast (s : State T D) : Action T D → Prop
  | .deliver q p => CountLast s q p (s.net q p)
  | _ => True

instance (s : State T D) : (a : Action T D) → Decidable (CountsLast s a)
  | .deliver _ _ => inferInstanceAs (Decidable (CountLast _ _ _ _))
  | .thread .. | .publish .. => inferInstanceAs (Decidable True)

/-- Every other node that has an open request still waits for a reply of `q`. -/
def Awaited (G : Group) (s : State T D) (q : UInt32) : Prop :=
  ∀ p ∈ G.ids, p ≠ q → (s.node p).mutex.localRequest ≠ none → q ∈ (s.node p).mutex.waiter

instance (G : Group) (s : State T D) (q : UInt32) : Decidable (Awaited G s q) :=
  inferInstanceAs (Decidable (∀ _ ∈ _, _))

/-- Whoever has an open request while data is sent still waits for the sender. -/
def SendsAwaited (G : Group) (s : State T D) : Action T D → Prop
  | .publish q _ _ => Awaited G s q
  | _ => True

/-- Data reaches a node before the reply of its sender that the node counts. -/
def DataFirst (G : Group) (s : State T D) (a : Action T D) : Prop :=
  CountsLast s a ∧ SendsAwaited G s a

def TakesTurns (G : Group) (s : State T D) (a : Action T D) : Prop :=
  Excludes G s a ∧ DataFirst G s a

/-! ## Exclusion -/

section Runs

variable [DecidableEq T] {G : Group} {s : State T D} {p q : UInt32}

/-- If the lock is entered only while it is free, it never has two holders. -/
theorem exclusive_of_excludes (h : (system T D G).Reach (Excludes G) s) : Exclusive G s := by
  refine h.invariant (Exclusive G) (fun _ _ _ _ _ _ ht ↦ by cases ht) fun {s a s'} _ ih ha hst ↦ ?_
  cases a with
  | publish q t d =>
      unfold Exclusive
      rw [pc_publish hst]
      exact ih
  | deliver q p =>
      unfold Exclusive
      simp only [pc_deliver hst]
      exact ih
  | thread p a =>
      intro x hx y hy t u ht hu
      rw [pc_thread hst] at ht hu
      cases a with
      | enter v =>
          -- nobody else was critical, so both are the thread that has entered
          have hnew : ∀ {z w}, z ∈ G.ids →
              (if z = p ∧ w = v then Pc.critical else (s.node z).pc w) = .critical →
                z = p ∧ w = v := by
            intro z w hz hw
            by_contra hne
            rw [if_neg hne] at hw
            exact ha z hz w hw
          obtain ⟨rfl, rfl⟩ := hnew hx ht
          obtain ⟨rfl, rfl⟩ := hnew hy hu
          exact ⟨rfl, rfl⟩
      | acquire v | request v | unlock v | release v =>
          have hold : ∀ {z w pc}, pc ≠ Pc.critical →
              (if z = p ∧ w = v then pc else (s.node z).pc w) = .critical →
                (s.node z).pc w = .critical := by
            intro z w pc hpc hw
            split at hw
            · exact absurd hw hpc
            · exact hw
          exact ih x hx y hy t u (hold (by simp [ThreadAction.target]) ht)
            (hold (by simp [ThreadAction.target]) hu)

end Runs

/-! ## Data in flight -/

/-- No data is on its way to a node with an open request from a node it does not wait for. -/
def Cleared (G : Group) (s : State T D) : Prop :=
  ∀ p ∈ G.ids, ∀ q ∈ G.ids, (s.node p).mutex.localRequest ≠ none →
    q ∉ (s.node p).mutex.waiter → ∀ f ∈ s.net q p, f.isData = false

section Step

variable {G : Group} {s s' : State T D} {p q r x : UInt32} {nd : Node T} {msgs : List Msg}
variable {rest : List (Frame D)}

theorem mem_handle_waiter {mutex : Mutex} (hnodup : mutex.waiter.Nodup) (q r : UInt32) (msg : Msg) :
    r ∈ (mutex.handleMessage q msg).1.waiter ↔
      r ∈ mutex.waiter ∧ ¬ (msg.msgType = msgTypeReply ∧ r = q) := by
  by_cases htype : msg.msgType = msgTypeReply
  · rw [handleMessage_reply htype]
    by_cases hr : r = q
    · subst hr
      simp [htype, ReplyWaiter.notMem_addReply hnodup]
    · simp [hr, ReplyWaiter.mem_addReply_of_ne hr]
  · rcases handleMessage_waiter mutex q msg with heq | ⟨hreply, -⟩
    · simp [heq, htype]
    · exact absurd hreply htype

theorem isData_of_mem_after (hx : x ∈ G.ids) (hpeers : nd.mutex.peers = G.peers x)
    {f : Frame D} (hf : f ∈ (s.after x nd msgs).net q p) :
    f ∈ s.net q p ∨ f.isData = false := by
  rw [after_net hx hpeers] at hf
  split at hf
  · refine (List.mem_append.mp hf).imp id fun hsent ↦ ?_
    obtain ⟨msg, -, rfl⟩ := List.mem_map.mp hsent
    rfl
  · exact .inl hf

/-- A node moves on and sends mutex messages. -/
theorem Cleared.after (h : Cleared G s) (hx : x ∈ G.ids) (hpeers : nd.mutex.peers = G.peers x)
    (hclear : ∀ q ∈ G.ids, nd.mutex.localRequest ≠ none → q ∉ nd.mutex.waiter →
      ∀ f ∈ s.net q x, f.isData = false) : Cleared G (s.after x nd msgs) := by
  intro p hp q hq hopen hwaiter f hf
  rcases isData_of_mem_after hx hpeers hf with hbefore | hf
  · by_cases hpx : p = x
    · subst hpx
      rw [after_node_self] at hopen hwaiter
      exact hclear q hq hopen hwaiter f hbefore
    · rw [after_node_ne hpx] at hopen hwaiter
      exact h p hp q hq hopen hwaiter f hbefore
  · exact hf

theorem Cleared.takeFrame (h : Cleared G s) {f : Frame D} (hhead : s.net q x = f :: rest) :
    Cleared G (s.takeFrame q x rest) :=
  fun p hp r hr hopen hwaiter g hg ↦ h p hp r hr hopen hwaiter g (of_mem_takeFrame hhead hg)

theorem Cleared.step (hwf : WellFormed G s) (h : Cleared G s) {a : Action T D}
    (ha : DataFirst G s a) (he : Effect G s a s') : Cleared G s' := by
  cases he with
  | quiet x a nd hx hm =>
      refine h.after hx (hm ▸ hwf.peers x hx) ?_
      rw [hm]
      exact h x hx
  | request x t nd hx hnone hwaiter hm =>
      refine h.after hx (by simpa [hm] using hwf.peers x hx) fun q hq _ hnot f hf ↦ ?_
      -- everybody else is waited for from now on
      by_cases hqx : q = x
      · subst hqx
        simp [hwf.net_self q hq] at hf
      · simp [hm, hwf.peers x hx, G.mem_peers x hx, hq, hqx] at hnot
  | unlock x t nd hx hpc hm =>
      exact h.after hx (by simpa [hm] using hwf.peers x hx) (by simp [hm])
  | handle q x msg rest hq hx hhead =>
      refine (h.takeFrame hhead).after hx (hwf.peers_handle hx q msg) fun r hr hopen hnot f hf ↦ ?_
      have hlocal : (s.node x).mutex.localRequest ≠ none := by simpa [Node.handle] using hopen
      by_cases hbefore : r ∈ (s.node x).mutex.waiter
      · obtain ⟨htype, rfl⟩ : msg.msgType = msgTypeReply ∧ r = q := by
          by_contra hkeep
          exact hnot ((mem_handle_waiter (hwf.node x hx).waiter_nodup q r msg).mpr ⟨hbefore, hkeep⟩)
        have hlast : CountLast s r x (s.net r x) := ha.1
        rw [hhead] at hlast
        exact hlast htype hbefore f (by simpa [takeFrame_net] using hf)
      · exact h x hx r hr hlocal hbefore f (of_mem_takeFrame hhead hf)
  | publish x t d hx hpc =>
      intro p hp q hq hopen hwaiter f hf
      rw [sendData_node] at hopen hwaiter
      rw [sendData_net hx (hwf.peers x hx)] at hf
      split at hf
      · next hqx =>
          obtain ⟨rfl, -, hpq⟩ := hqx
          exact absurd (ha.2 p hp hpq hopen) hwaiter
      · exact h p hp q hq hopen hwaiter f hf
  | data q x d rest hq hx hhead => exact h.takeFrame hhead

end Step

section Runs

variable [DecidableEq T] {G : Group} {s : State T D} {p q : UInt32}

theorem cleared_of_reach (h : (system T D G).Reach (DataFirst G) s) : Cleared G s := by
  refine invariant_of_effect (Cleared G) (fun p _ q _ hopen ↦ ?_)
    (fun hwf _ ih ha _ he ↦ ih.step hwf ha he) h
  simp [system, initialNode] at hopen

/-- All data sent to `p` has been taken when no reply is missing to a request of `p`. -/
theorem inFlight_eq_nil_of_waiter_nil (h : (system T D G).Reach (DataFirst G) s)
    (hp : p ∈ G.ids) (hq : q ∈ G.ids) {entry : RequestEntry}
    (hentry : (s.node p).mutex.localRequest = some entry)
    (hwaiter : (s.node p).mutex.waiter = []) : s.inFlight q p = [] := by
  refine List.filterMap_eq_nil_iff.mpr fun f hf ↦ ?_
  have hdata := cleared_of_reach h p hp q hq (by simp [hentry]) (by simp [hwaiter]) f hf
  simpa [Frame.isData] using hdata

theorem inFlight_eq_nil_of_critical (h : (system T D G).Reach (DataFirst G) s)
    (hp : p ∈ G.ids) (hq : q ∈ G.ids) {t : T} (ht : (s.node p).pc t = .critical) :
    s.inFlight q p = [] := by
  have hnode := (wellFormed_of_reach h).node p hp
  obtain ⟨entry, hentry⟩ := hnode.request_of_active t (.inr ht)
  exact inFlight_eq_nil_of_waiter_nil h hp hq hentry
    (hnode.waiter_nil_of_pc (t := t) (.inr (by simp [ht])) (by simp [ht]))

/-! ## Orderly runs -/

omit [DecidableEq T] in
/-- While `q` is critical, the request of any other node is outstanding at `q`. -/
theorem outstanding_of_critical (hwf : WellFormed G s) (h : SafeInv G s) (hp : p ∈ G.ids)
    (hq : q ∈ G.ids) (hpq : p ≠ q) {t : T} (ht : (s.node q).pc t = .critical)
    {entry : RequestEntry} (hentry : (s.node p).mutex.localRequest = some entry) :
    Outstanding s p q entry := by
  by_contra hout
  obtain ⟨own, hown⟩ := (hwf.node q hq).request_of_active t (.inr ht)
  have hwaiter := (hwf.node q hq).waiter_nil_of_pc (t := t) (.inr (by simp [ht])) (by simp [ht])
  have hlt := (h.yields p hp q hq hpq entry hentry hout).2 own hown
  have hgt := (h.yields_of_waiter_nil hq hp (Ne.symm hpq) hown hwaiter).2 entry hentry
  exact absurd hlt (not_lt.mpr hgt.le)

omit [DecidableEq T] in
theorem awaited_of_critical (hwf : WellFormed G s) (h : SafeInv G s) (hq : q ∈ G.ids) {t : T}
    (ht : (s.node q).pc t = .critical) : Awaited G s q := by
  intro p hp hpq hopen
  obtain ⟨entry, hentry⟩ := Option.ne_none_iff_exists'.mp hopen
  exact h.waits p hp q hq hpq entry hentry
    (outstanding_of_critical hwf h hp hq hpq ht hentry)

/-- Nobody is critical when a thread enters an exclusive state. -/
theorem free_of_enter {s' : State T D} {t : T}
    (hst : Mutex.step G s (.thread p (.enter t)) = some s') (hex : Exclusive G s') : Free G s := by
  obtain ⟨hp, hwaiting⟩ := pc_source hst
  intro q hq u hu
  have hne : ¬ (q = p ∧ u = t) := by
    rintro ⟨rfl, rfl⟩
    exact Pc.noConfusion (hwaiting.symm.trans hu)
  -- the thread that enters would be critical beside `u`
  have hstays : (s'.node q).pc u = .critical := by
    rw [pc_thread hst]
    exact (if_neg hne).trans hu
  have henters : (s'.node p).pc t = .critical := by
    rw [pc_thread hst]
    exact if_pos ⟨rfl, rfl⟩
  exact hne (hex q hq p hp u t hstays henters)

/-- Where replies are counted after their senders have answered, the rest of the conditions
comes down to the order in the channels. -/
theorem takesTurns_of_orderly
    (h : (system T D G).Reach (fun s a ↦ Orderly s a ∧ CountsLast s a) s) :
    (system T D G).Reach (TakesTurns G) s := by
  refine h.strengthen fun {s a s'} hs ha hst ↦ ?_
  have horderly := hs.mono And.left
  refine ⟨?_, ha.2, ?_⟩
  · cases a with
    | thread p a =>
        cases a with
        | enter t => exact free_of_enter hst (exclusive_of_orderly (horderly.step ha.1 hst))
        | acquire t | request t | unlock t | release t => trivial
    | publish q t d | deliver q p => trivial
  · cases a with
    | publish q t d =>
        obtain ⟨⟨hq, hpc⟩, -⟩ := Option.ite_none_right_eq_some.mp hst
        exact awaited_of_critical (wellFormed_of_reach hs) (safeInv_of_reach horderly) hq hpc
    | thread p a | deliver q p => trivial

end Runs

end Edsm.Mutex
