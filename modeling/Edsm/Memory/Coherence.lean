import Edsm.Memory.Network
import Edsm.Mutex.Turns

/-!
# Regions written to under a mutex

All nodes have joined a region and a mutex, and one thread of every node writes
to the region while it holds the mutex.  The diffs of the region and the
messages of the mutex share the channels.
-/

namespace Edsm.Memory

structure Shared where
  lock : Mutex.State Unit Frame
  node : UInt32 → Replica
  sender : UInt32 → UInt32
  /-- The last value stored to each byte; no function reads this field. -/
  written : ℕ → UInt8
  /-- Who has sent the last diff with a byte; no function reads this field. -/
  writer : ℕ → UInt32

namespace Shared

inductive Action
  /-- A step of `edsm_mutex_lock`, or the end of `edsm_mutex_unlock`. -/
  | lock (p : UInt32) (a : Mutex.ThreadAction Unit)
  /-- `edsm_mutex_unlock` under `lock`: `edsm_memory_tx_end`, and then the replies. -/
  | unlock (p : UInt32)
  | txBegin (p : UInt32) (addr : ℕ)
  | store (p : UInt32) (addr : ℕ) (value : UInt8)
  /-- The listener of `p`, if it is idle, takes the oldest frame from `q`. -/
  | deliver (q p : UInt32)
  | handlePage (p : UInt32)

/-- The thread of `p` has returned from `edsm_mutex_lock` and not yet called
`edsm_mutex_unlock`. -/
def Holds (s : Shared) (p : UInt32) : Prop := (s.lock.node p).pc () = .critical

instance (s : Shared) (p : UInt32) : Decidable (s.Holds p) :=
  inferInstanceAs (Decidable (_ = _))

/-- Node `p` sends the frames to its peers, one after the other. -/
def sendAll (G : Group) (p : UInt32) (lock : Mutex.State Unit Frame) :
    List Frame → Option (Mutex.State Unit Frame)
  | [] => some lock
  | f :: fs => (Mutex.step G lock (.publish p () f)).bind fun lock ↦ sendAll G p lock fs

/-- A frame from `q` is taken by `p`; `lock` is what the mutex makes of it. -/
def accept (s : Shared) (q p : UInt32) (lock : Mutex.State Unit Frame) :
    List (Mutex.Frame Frame) → Option Shared
  | .data f :: _ =>
      ((s.node p).receive f.payload f.pages).map fun r ↦
        { s with
          lock
          node := Function.update s.node p r
          sender := Function.update s.sender p q }
  | _ => some { s with lock }

def step (G : Group) (A : Allocator) (pagesize : ℕ) (s : Shared) : Action → Option Shared
  | .lock _ (.unlock _) => none
  | .lock p a => (Mutex.step G s.lock (.thread p a)).map fun lock ↦ { s with lock }
  | .unlock p =>
      if p ∈ G.ids ∧ s.Holds p then
        ((s.node p).txEnd A pagesize true).bind fun (r, payload) ↦
          (sendAll G p s.lock ((s.node p).frames pagesize payload)).bind fun lock ↦
            (Mutex.step G lock (.thread p (.unlock ()))).map fun lock ↦
              { s with
                lock
                node := Function.update s.node p r
                writer := fun i ↦
                  if (Patch.join (((s.node p).region.pageDiffs pagesize).map
                    (PageDiff.patch pagesize)) i).isSome then p else s.writer i }
      else none
  | .txBegin p addr =>
      if p ∈ G.ids ∧ s.Holds p then
        ((s.node p).txBegin pagesize addr).map fun r ↦
          { s with node := Function.update s.node p r }
      else none
  | .store p addr value =>
      if p ∈ G.ids ∧ s.Holds p then
        ((s.node p).store pagesize addr value).map fun r ↦
          { s with
            node := Function.update s.node p r
            written := Function.update s.written addr value }
      else none
  | .deliver q p =>
      if (s.node p).receiving = none then
        (Mutex.step G s.lock (.deliver q p)).bind fun lock ↦ s.accept q p lock (s.lock.net q p)
      else none
  | .handlePage p =>
      ((s.node p).handlePage pagesize).map fun r ↦ { s with node := Function.update s.node p r }

end Shared

/-- The runs from the joined and zeroed region and the joined and free mutex on. -/
def shared (G : Group) (A : Allocator) (pagesize : ℕ) (region : Region) :
    LabelledSystem Shared Shared.Action where
  init :=
    { lock := (Mutex.system Unit Frame G).init
      node := fun _ ↦ .initial region
      sender := fun _ ↦ 0
      written := fun _ ↦ 0
      writer := fun _ ↦ 0 }
  step := Shared.step G A pagesize

namespace Shared

def network (s : Shared) : Network := ⟨s.node, s.sender, s.lock.inFlight⟩

/-! ## Conditions on the steps -/

/-- The mutex excludes. -/
def LockExcludes (G : Group) (s : Shared) : Action → Prop
  | .lock p a => Mutex.Excludes G s.lock (.thread p a)
  | _ => True

/-- A reply that a node counts has no diff of its sender behind it, and a diff is sent only
while every other node with an open request still waits for its sender. -/
def DiffsFirst (G : Group) (pagesize : ℕ) (s : Shared) : Action → Prop
  | .unlock p => (s.node p).region.pageDiffs pagesize ≠ [] → Mutex.Awaited G s.lock p
  | .deliver q p => Mutex.CountsLast s.lock (.deliver q p)
  | _ => True

/-- No diff is sent one of whose numbers does not fit into its field. -/
def FieldsFit (pagesize : ℕ) (s : Shared) : Action → Prop
  | .unlock p => ∀ d ∈ (s.node p).region.pageDiffs pagesize, d.Fits
  | _ => True

/-- If the next page of `p` has the newest diff of a byte, then no other node's diff of this
byte is still on its way to `p`. -/
def PageInOrder (G : Group) (pagesize : ℕ) (s : Shared) (p : UInt32) : List PageDiff → Prop
  | [] => True
  | d :: rest => ∀ i < pagesize,
      d.patch pagesize (d.pageOffset + i) ≠ none ∧
        Patch.join ((rest ++ (s.lock.inFlight (s.sender p) p).flatMap Frame.pages).map
          (PageDiff.patch pagesize)) (d.pageOffset + i) = none ∧
        s.sender p = s.writer (d.pageOffset + i) →
      ∀ q ∈ G.ids, q ≠ s.sender p →
        Patch.join ((s.network.inFlight q p).map (PageDiff.patch pagesize)) (d.pageOffset + i) =
          none

def NewestLast (G : Group) (pagesize : ℕ) (s : Shared) : Action → Prop
  | .handlePage p => s.PageInOrder G pagesize p (s.node p).rest
  | _ => True

instance (G : Group) (s : Shared) : (a : Action) → Decidable (s.LockExcludes G a)
  | .lock p a => inferInstanceAs (Decidable (Mutex.Excludes G s.lock (.thread p a)))
  | .unlock _ | .txBegin .. | .store .. | .deliver .. | .handlePage _ =>
      inferInstanceAs (Decidable True)

instance (G : Group) (pagesize : ℕ) (s : Shared) :
    (a : Action) → Decidable (s.DiffsFirst G pagesize a)
  | .unlock p => inferInstanceAs (Decidable (_ ≠ [] → Mutex.Awaited G s.lock p))
  | .deliver q p => inferInstanceAs (Decidable (Mutex.CountsLast s.lock (.deliver q p)))
  | .lock .. | .txBegin .. | .store .. | .handlePage _ => inferInstanceAs (Decidable True)

instance (pagesize : ℕ) (s : Shared) : (a : Action) → Decidable (s.FieldsFit pagesize a)
  | .unlock p => inferInstanceAs (Decidable (∀ d ∈ (s.node p).region.pageDiffs pagesize, d.Fits))
  | .lock .. | .txBegin .. | .store .. | .deliver .. | .handlePage _ =>
      inferInstanceAs (Decidable True)

instance (G : Group) (pagesize : ℕ) (s : Shared) (p : UInt32) :
    (ds : List PageDiff) → Decidable (s.PageInOrder G pagesize p ds)
  | [] => inferInstanceAs (Decidable True)
  | _ :: _ => inferInstanceAs (Decidable (∀ _ < pagesize, _ → ∀ _ ∈ G.ids, _ → _ = _))

instance (G : Group) (pagesize : ℕ) (s : Shared) :
    (a : Action) → Decidable (s.NewestLast G pagesize a)
  | .handlePage p => inferInstanceAs (Decidable (s.PageInOrder G pagesize p (s.node p).rest))
  | .lock .. | .unlock _ | .txBegin .. | .store .. | .deliver .. => inferInstanceAs (Decidable True)

/-- The nodes take turns, and whoever has one has handled the diffs of the turns before. -/
def TakesTurns (G : Group) (pagesize : ℕ) (s : Shared) (a : Action) : Prop :=
  s.LockExcludes G a ∧ s.DiffsFirst G pagesize a

def Careful (G : Group) (pagesize : ℕ) (s : Shared) (a : Action) : Prop :=
  s.TakesTurns G pagesize a ∧ s.FieldsFit pagesize a ∧ s.NewestLast G pagesize a

instance (G : Group) (pagesize : ℕ) (s : Shared) (a : Action) :
    Decidable (s.TakesTurns G pagesize a) :=
  inferInstanceAs (Decidable (_ ∧ _))

instance (G : Group) (pagesize : ℕ) (s : Shared) (a : Action) :
    Decidable (s.Careful G pagesize a) :=
  inferInstanceAs (Decidable (_ ∧ _ ∧ _))

/-! ## The mutex -/

section Lock

variable {G : Group} {A : Allocator} {pagesize : ℕ} {region : Region} {s s' : Shared}
variable {p q : UInt32} {lock lock' : Mutex.State Unit Frame} {fs : List Frame}

theorem sendAll_node (h : sendAll G p lock fs = some lock') : lock'.node = lock.node := by
  induction fs generalizing lock with
  | nil => rw [← Option.some.inj h]
  | cons f fs ih =>
      obtain ⟨lock₁, hstep, hrest⟩ := Option.bind_eq_some_iff.mp h
      exact (ih hrest).trans (Mutex.pc_publish hstep)

theorem sendAll_reach (hawaited : fs ≠ [] → Mutex.Awaited G lock p)
    (h : sendAll G p lock fs = some lock')
    (hlock : (Mutex.system Unit Frame G).Reach (Mutex.TakesTurns G) lock) :
    (Mutex.system Unit Frame G).Reach (Mutex.TakesTurns G) lock' := by
  induction fs generalizing lock with
  | nil => exact Option.some.inj h ▸ hlock
  | cons f fs ih =>
      obtain ⟨lock₁, hstep, hrest⟩ := Option.bind_eq_some_iff.mp h
      have hsends := hawaited (List.cons_ne_nil f fs)
      refine ih (fun _ ↦ ?_) hrest
        (hlock.step (a := .publish p () f) ⟨trivial, trivial, hsends⟩ hstep)
      -- a frame that is sent changes no node
      unfold Mutex.Awaited
      rw [Mutex.pc_publish hstep]
      exact hsends

theorem sendAll_inFlight (hwf : Mutex.WellFormed G lock) (hp : p ∈ G.ids)
    (h : sendAll G p lock fs = some lock') (a b : UInt32) :
    lock'.inFlight a b =
      if a = p ∧ b ∈ G.peers p then lock.inFlight a b ++ fs else lock.inFlight a b := by
  induction fs generalizing lock with
  | nil =>
      obtain rfl := Option.some.inj h
      simp
  | cons f fs ih =>
      obtain ⟨lock₁, hstep, hrest⟩ := Option.bind_eq_some_iff.mp h
      simp only [ih (hwf.step hstep) hrest, Mutex.inFlight_publish hwf hstep, G.mem_peers p hp]
      split
      · rw [List.append_assoc, List.singleton_append]
      · rfl

theorem unlock_eq_some (hst : step G A pagesize s (.unlock p) = some s') :
    (p ∈ G.ids ∧ s.Holds p) ∧ ∃ r payload lock₁ lock₂,
      (s.node p).txEnd A pagesize true = some (r, payload) ∧
      sendAll G p s.lock ((s.node p).frames pagesize payload) = some lock₁ ∧
      Mutex.step G lock₁ (.thread p (.unlock ())) = some lock₂ ∧
      s' = { s with
        lock := lock₂
        node := Function.update s.node p r
        writer := fun i ↦
          if (Patch.join (((s.node p).region.pageDiffs pagesize).map
            (PageDiff.patch pagesize)) i).isSome then p else s.writer i } := by
  obtain ⟨hp, hst⟩ := Option.ite_none_right_eq_some.mp hst
  obtain ⟨⟨r, payload⟩, hend, hst⟩ := Option.bind_eq_some_iff.mp hst
  obtain ⟨lock₁, hsend, hst⟩ := Option.bind_eq_some_iff.mp hst
  obtain ⟨lock₂, hunlock, hst⟩ := Option.map_eq_some_iff.mp hst
  exact ⟨hp, r, payload, lock₁, lock₂, hend, hsend, hunlock, hst.symm⟩

theorem lock_eq_some {a : Mutex.ThreadAction Unit}
    (hst : step G A pagesize s (.lock p a) = some s') :
    a ≠ .unlock () ∧ ∃ lock, Mutex.step G s.lock (.thread p a) = some lock ∧
      s' = { s with lock } := by
  cases a with
  | unlock t => cases hst
  | acquire t | request t | enter t | release t =>
      obtain ⟨lock, hlock, rfl⟩ := Option.map_eq_some_iff.mp hst
      exact ⟨by simp, lock, hlock, rfl⟩

/-- A frame of the mutex changes no copy; a diff is handed to the listener. -/
theorem deliver_cases (hst : step G A pagesize s (.deliver q p) = some s') :
    (s.node p).receiving = none ∧ ∃ lock, Mutex.step G s.lock (.deliver q p) = some lock ∧
      ((∃ msg rest, s.lock.net q p = .mutex msg :: rest ∧ s' = { s with lock }) ∨
        ∃ f rest r, s.lock.net q p = .data f :: rest ∧
          (s.node p).receive f.payload f.pages = some r ∧
          s' = { s with
            lock
            node := Function.update s.node p r
            sender := Function.update s.sender p q }) := by
  obtain ⟨hidle, hst⟩ := Option.ite_none_right_eq_some.mp hst
  obtain ⟨lock, hlock, hst⟩ := Option.bind_eq_some_iff.mp hst
  refine ⟨hidle, lock, hlock, ?_⟩
  cases hnet : s.lock.net q p with
  | nil => simp [Mutex.step, hnet] at hlock
  | cons frame rest =>
      rw [hnet] at hst
      cases frame with
      | mutex msg => exact .inl ⟨msg, rest, rfl, (Option.some.inj hst).symm⟩
      | data f =>
          obtain ⟨r, hr, rfl⟩ := Option.map_eq_some_iff.mp hst
          exact .inr ⟨f, rest, r, rfl, hr, rfl⟩

/-- Nothing is sent for a region without a twin. -/
theorem pageDiffs_ne_nil_of_frames {r : Replica} {payload : Option (List UInt8)}
    (hend : (s.node p).txEnd A pagesize true = some (r, payload))
    (hne : (s.node p).frames pagesize payload ≠ []) :
    (s.node p).region.pageDiffs pagesize ≠ [] := by
  intro hnil
  obtain ⟨rfl, -⟩ := Replica.payload_of_txEnd (by simp [hnil]) hend
  have htwins : (s.node p).region.twins = [] := List.map_eq_nil_iff.mp hnil
  exact hne (by simp [Replica.frames, Region.payload, htwins])

theorem lock_reach_step {a : Action} (ha : s.TakesTurns G pagesize a)
    (hst : step G A pagesize s a = some s')
    (ih : (Mutex.system Unit Frame G).Reach (Mutex.TakesTurns G) s.lock) :
    (Mutex.system Unit Frame G).Reach (Mutex.TakesTurns G) s'.lock := by
  cases a with
  | lock p a =>
      obtain ⟨-, lock, hlock, rfl⟩ := lock_eq_some hst
      exact ih.step (a := .thread p a) ⟨ha.1, trivial, trivial⟩ hlock
  | unlock p =>
      obtain ⟨-, r, payload, lock₁, lock₂, hend, hsend, hunlock, rfl⟩ := unlock_eq_some hst
      have hsent := sendAll_reach (fun hne ↦ ha.2 (pageDiffs_ne_nil_of_frames hend hne)) hsend ih
      exact hsent.step (a := .thread p (.unlock ())) ⟨trivial, trivial, trivial⟩ hunlock
  | deliver q p =>
      obtain ⟨-, lock, hlock, ⟨msg, rest, -, rfl⟩ | ⟨f, rest, r, -, -, rfl⟩⟩ := deliver_cases hst
      · exact ih.step (a := .deliver q p) ⟨trivial, ha.2, trivial⟩ hlock
      · exact ih.step (a := .deliver q p) ⟨trivial, ha.2, trivial⟩ hlock
  | txBegin p addr =>
      obtain ⟨-, hst⟩ := Option.ite_none_right_eq_some.mp hst
      obtain ⟨r, -, rfl⟩ := Option.map_eq_some_iff.mp hst
      exact ih
  | store p addr value =>
      obtain ⟨-, hst⟩ := Option.ite_none_right_eq_some.mp hst
      obtain ⟨r, -, rfl⟩ := Option.map_eq_some_iff.mp hst
      exact ih
  | handlePage p =>
      obtain ⟨r, -, rfl⟩ := Option.map_eq_some_iff.mp hst
      exact ih

theorem lock_reach (h : (shared G A pagesize region).Reach (TakesTurns G pagesize) s) :
    (Mutex.system Unit Frame G).Reach (Mutex.TakesTurns G) s.lock :=
  h.simulates Shared.lock rfl fun _ ha hst ih ↦ lock_reach_step ha hst ih

end Lock

/-! ## The invariant -/

structure Inv (G : Group) (pagesize size : ℕ) (s : Shared) : Prop where
  sound : s.network.Sound G pagesize size
  /-- Every diff that came before the last reply has been handled. -/
  listening : ∀ p ∈ G.ids, ∀ entry, (s.lock.node p).mutex.localRequest = some entry →
    (s.lock.node p).mutex.waiter = [] → (s.node p).rest = []
  own : ∀ p, ¬ s.Holds p → (s.network.view pagesize).value p = (s.network.view pagesize).known p
  current : ∀ p ∈ G.ids, s.Holds p → (s.network.view pagesize).value p = s.written
  committed : ∃ committed, (s.network.view pagesize).Coherent G.ids committed s.writer ∧
    ((∀ p ∈ G.ids, ¬ s.Holds p) → committed = s.written)

variable {G : Group} {A : Allocator} {pagesize size : ℕ} {region : Region} {s s' : Shared}
variable {p q : UInt32} {r : Replica} {lock₁ : Mutex.State Unit Frame}

theorem inv_init (hget : regionGet pagesize size = some region) :
    (shared G A pagesize region).init.Inv G pagesize region.size := by
  have hnet : (shared G A pagesize region).init.network = .initial region := rfl
  have hview := Network.view_initial hget
  have hidle : ∀ p, ¬ (shared G A pagesize region).init.Holds p := fun _ hp ↦ by cases hp
  refine ⟨hnet ▸ Network.sound_initial hget, fun _ _ _ _ _ ↦ rfl, fun p _ ↦ ?_,
    fun p _ hp ↦ absurd hp (hidle p), fun _ ↦ 0, ⟨fun _ _ _ _ ↦ ?_, fun p _ i ⟨q, hq⟩ ↦ ?_⟩,
    fun _ ↦ rfl⟩
  · rw [hnet, hview]
  · rw [hnet, hview]
  · rw [hnet, hview] at hq
    exact absurd rfl hq

namespace Inv

/-- No diff is on its way to a node that waits for no reply. -/
theorem flight_eq_nil (h : s.Inv G pagesize size)
    (hlock : (Mutex.system Unit Frame G).Reach (Mutex.TakesTurns G) s.lock) (hp : p ∈ G.ids)
    {entry : RequestEntry} (hentry : (s.lock.node p).mutex.localRequest = some entry)
    (hwaiter : (s.lock.node p).mutex.waiter = []) (q : UInt32) :
    (s.network.view pagesize).flight q p = [] := by
  by_contra hne
  have hq := (h.sound.peer q p hne).1
  have hrest : (s.network.node p).rest = [] := h.listening p hp entry hentry hwaiter
  have hnet : s.network.net q p = [] :=
    Mutex.inFlight_eq_nil_of_waiter_nil (hlock.mono And.right) hp hq hentry hwaiter
  exact hne (by simp [Network.view, Network.inFlight, hrest, hnet])

theorem waiter_of_holds (hwf : Mutex.WellFormed G s.lock) (hp : p ∈ G.ids) (hholds : s.Holds p) :
    (s.lock.node p).mutex.waiter = [] ∧
      ∃ entry, (s.lock.node p).mutex.localRequest = some entry := by
  have hpc : (s.lock.node p).pc () = .critical := hholds
  exact ⟨(hwf.node p hp).waiter_nil_of_pc (t := ()) (.inr (by simp [hpc])) (by simp [hpc]),
    (hwf.node p hp).request_of_active () (.inr hpc)⟩

theorem flight_eq_nil_of_holds (h : s.Inv G pagesize size)
    (hlock : (Mutex.system Unit Frame G).Reach (Mutex.TakesTurns G) s.lock) (hp : p ∈ G.ids)
    (hholds : s.Holds p) (q : UInt32) : (s.network.view pagesize).flight q p = [] := by
  obtain ⟨hwaiter, entry, hentry⟩ := waiter_of_holds (Mutex.wellFormed_of_reach hlock) hp hholds
  exact h.flight_eq_nil hlock hp hentry hwaiter q

theorem of_view (h : s.Inv G pagesize size) (hsound : s'.network.Sound G pagesize size)
    (hlistening : ∀ p ∈ G.ids, ∀ entry, (s'.lock.node p).mutex.localRequest = some entry →
      (s'.lock.node p).mutex.waiter = [] → (s'.node p).rest = [])
    (hview : s'.network.view pagesize = s.network.view pagesize)
    (hholds : ∀ p, s'.Holds p ↔ s.Holds p) (hwritten : s'.written = s.written)
    (hwriter : s'.writer = s.writer) : s'.Inv G pagesize size := by
  refine ⟨hsound, hlistening, ?_, ?_, ?_⟩
  · simpa only [hview, hholds] using h.own
  · simpa only [hview, hholds, hwritten] using h.current
  · simpa only [hview, hholds, hwritten, hwriter] using h.committed

/-! ## The steps of the mutex -/

theorem listening_lock (hwf : Mutex.WellFormed G s.lock) (h : s.Inv G pagesize size)
    {a : Mutex.ThreadAction Unit} (ha : a ≠ .unlock ())
    (hst : Mutex.step G s.lock (.thread p a) = some lock₁) :
    ∀ x ∈ G.ids, ∀ entry, (lock₁.node x).mutex.localRequest = some entry →
      (lock₁.node x).mutex.waiter = [] → (s.node x).rest = [] := by
  obtain ⟨hp, nd, msgs, hnd, rfl⟩ := by simpa [Mutex.step] using hst
  intro x hx entry hentry hwaiter
  by_cases hxp : x = p
  · subst hxp
    rw [Mutex.after_node_self] at hentry hwaiter
    rcases Mutex.Node.threadStep_eq_some hnd with ⟨t, -, -, -, rfl, -⟩ | ⟨t, -, -, -, rfl, -⟩ |
      ⟨t, -, -, -, rfl, -⟩ | ⟨t, rfl, -⟩ | ⟨t, -, -, rfl, -⟩
    · exact h.listening x hx entry hentry hwaiter
    · -- a node that waits for nobody has no peers, so there is nobody to send it a diff
      by_contra hne
      have hpeer := h.sound.peer _ x (Network.flight_ne_nil (n := s.network) hne)
      have hmem := (G.mem_peers x hx _).mpr hpeer
      rw [← hwf.peers x hx] at hmem
      have hpeers : (s.lock.node x).mutex.peers = [] := hwaiter
      exact List.not_mem_nil (hpeers ▸ hmem)
    · exact h.listening x hx entry hentry hwaiter
    · exact absurd rfl ha
    · exact h.listening x hx entry hentry hwaiter
  · rw [Mutex.after_node_ne hxp] at hentry hwaiter
    exact h.listening x hx entry hentry hwaiter

/-- When `edsm_mutex_lock` returns and nobody else holds the mutex, the copy is up to date. -/
theorem value_eq_written (h : s.Inv G pagesize size)
    (hreach : (Mutex.system Unit Frame G).Reach (Mutex.TakesTurns G) s.lock)
    (hst : Mutex.step G s.lock (.thread p (.enter ())) = some lock₁)
    (hfree : ∀ x ∈ G.ids, ¬ s.Holds x) :
    (s.network.view pagesize).value p = s.written := by
  obtain ⟨hp, hpc⟩ := Mutex.pc_source hst
  obtain ⟨entry, hentry⟩ := ((Mutex.wellFormed_of_reach hreach).node p hp).request_of_active ()
    (.inl hpc)
  have hwaiter : (s.lock.node p).mutex.waiter = [] := by
    obtain ⟨-, nd, msgs, hnd, -⟩ := by simpa [Mutex.step] using hst
    rcases Mutex.Node.threadStep_eq_some hnd with ⟨t, heq, -⟩ | ⟨t, heq, -⟩ | ⟨t, -, -, hready, -⟩ |
      ⟨t, heq, -⟩ | ⟨t, heq, -⟩
    · cases heq
    · cases heq
    · exact hready
    · cases heq
    · cases heq
  obtain ⟨committed, hcoherent, hwritten⟩ := h.committed
  calc (s.network.view pagesize).value p
      = (s.network.view pagesize).known p := h.own p (hfree p hp)
    _ = committed := hcoherent.known_eq hp (h.flight_eq_nil hreach hp hentry hwaiter)
    _ = s.written := hwritten hfree

theorem thread (h : s.Inv G pagesize size)
    (hreach : (Mutex.system Unit Frame G).Reach (Mutex.TakesTurns G) s.lock)
    (hreach' : (Mutex.system Unit Frame G).Reach (Mutex.TakesTurns G) lock₁)
    {a : Mutex.ThreadAction Unit} (ha : a ≠ .unlock ())
    (hst : Mutex.step G s.lock (.thread p a) = some lock₁) :
    ({ s with lock := lock₁ } : Shared).Inv G pagesize size := by
  have hwf := Mutex.wellFormed_of_reach hreach
  have hex := Mutex.exclusive_of_excludes (hreach'.mono And.left)
  obtain ⟨hp, hsource⟩ := Mutex.pc_source hst
  have hnet : ({ s with lock := lock₁ } : Shared).network = s.network := by
    unfold network
    rw [Mutex.inFlight_thread hwf hst]
  have hpc : ∀ x, ({ s with lock := lock₁ } : Shared).Holds x ↔
      if x = p then a.target = .critical else s.Holds x := by
    intro x
    unfold Holds
    rw [Mutex.pc_thread hst]
    by_cases hx : x = p <;> simp [hx]
  have hbefore : ¬ s.Holds p := by
    intro hholds
    have hcritical : (s.lock.node p).pc a.thread = .critical := hholds
    rw [hsource] at hcritical
    cases a with
    | unlock t => exact ha rfl
    | acquire t | request t | enter t | release t => cases hcritical
  have hholds : ∀ x, s.Holds x → ({ s with lock := lock₁ } : Shared).Holds x := by
    intro x hx
    rw [hpc, if_neg]
    · exact hx
    · rintro rfl
      exact hbefore hx
  have hlistening := h.listening_lock hwf ha hst
  refine ⟨hnet ▸ h.sound, hlistening, fun x hx ↦ ?_, fun x hx hxholds ↦ ?_, ?_⟩
  · rw [hnet]
    exact h.own x (mt (hholds x) hx)
  · rw [hnet]
    by_cases hxp : x = p
    · subst hxp
      have htarget := (hpc x).mp hxholds
      rw [if_pos rfl] at htarget
      cases a with
      | enter t =>
          refine h.value_eq_written hreach hst fun y hy hyholds ↦ ?_
          obtain ⟨rfl, -⟩ := hex y hy x hx () () (hholds y hyholds) hxholds
          exact hbefore hyholds
      | acquire t | request t | unlock t | release t => cases htarget
    · rw [hpc, if_neg hxp] at hxholds
      exact h.current x hx hxholds
  · rw [hnet]
    obtain ⟨committed, hcoherent, hwritten⟩ := h.committed
    exact ⟨committed, hcoherent, fun hall ↦ hwritten fun x hx ↦ mt (hholds x) (hall x hx)⟩

/-- The diff of the thread that holds the mutex has all that was written. -/
theorem unlock (hpos : 0 < pagesize) (h : s.Inv G pagesize size)
    (hreach : (Mutex.system Unit Frame G).Reach (Mutex.TakesTurns G) s.lock)
    (hfirst : s.DiffsFirst G pagesize (.unlock p))
    (hfits : ∀ d ∈ (s.node p).region.pageDiffs pagesize, d.Fits)
    (hst : step G A pagesize s (.unlock p) = some s') : s'.Inv G pagesize size := by
  have hwf := Mutex.wellFormed_of_reach hreach
  have hex := Mutex.exclusive_of_excludes (hreach.mono And.left)
  obtain ⟨⟨hp, hpholds⟩, r, payload, lock₁, lock₂, hend, hsend, hunlock, rfl⟩ := unlock_eq_some hst
  have hwf₁ := Mutex.wellFormed_of_reach
    (sendAll_reach (fun hne ↦ hfirst (pageDiffs_ne_nil_of_frames hend hne)) hsend hreach)
  have hnet : ∀ a b, lock₂.inFlight a b = if a = p ∧ b ∈ G.peers p then
      s.lock.inFlight a b ++ (s.node p).frames pagesize payload else s.lock.inFlight a b := by
    intro a b
    rw [Mutex.inFlight_thread hwf₁ hunlock, sendAll_inFlight hwf hp hsend]
  have hview := Network.view_txEnd h.sound hfits hend hnet
  have hdiff := Region.isDiff_pageDiffs (h.sound.valid p).wellFormed hpos
  have hflight := h.flight_eq_nil_of_holds hreach hp hpholds
  have hafter : ∀ x, (lock₂.node x).pc () = .critical → x ≠ p ∧ s.Holds x := by
    intro x hx
    rw [Mutex.pc_thread hunlock, sendAll_node hsend] at hx
    by_cases hxp : x = p
    · simp [hxp, Mutex.ThreadAction.target] at hx
    · exact ⟨hxp, by simpa [Holds, hxp] using hx⟩
  have hnobody : ∀ x ∈ G.ids, (lock₂.node x).pc () ≠ .critical := by
    intro x hx hcritical
    obtain ⟨hxp, hholds⟩ := hafter x hcritical
    exact hxp (hex x hx p hp () () hholds hpholds).1
  obtain ⟨committed, hcoherent, -⟩ := h.committed
  have hpublish := hcoherent.publish
    (fun b hb hbp ↦ (G.mem_peers p hp b).mpr ⟨hb, hbp⟩)
    (fun hmem ↦ ((G.mem_peers p hp p).mp hmem).2 rfl) hdiff hflight
  rw [← hview] at hpublish
  refine ⟨h.sound.txEnd hfits hend hnet hp, fun x hx entry hentry hwaiter ↦ ?_,
    fun x hx ↦ ?_, fun x hx hholds ↦ absurd hholds (hnobody x hx), _, hpublish, fun _ ↦ ?_⟩
  · obtain ⟨-, nd, msgs, hnd, rfl⟩ := by simpa [Mutex.step] using hunlock
    by_cases hxp : x = p
    · subst hxp
      rw [Mutex.after_node_self] at hentry
      obtain ⟨-, rfl, -⟩ := by simpa [Mutex.Node.threadStep] using hnd
      cases hentry
    · rw [Mutex.after_node_ne hxp, sendAll_node hsend] at hentry hwaiter
      change (Function.update s.node p r x).rest = []
      rw [Function.update_of_ne hxp]
      exact h.listening x hx entry hentry hwaiter
  · change (Network.view pagesize { s.network.setNode p r with net := lock₂.inFlight }).value x =
      (Network.view pagesize { s.network.setNode p r with net := lock₂.inFlight }).known x
    rw [hview]
    simp only [Copies.publish]
    by_cases hxp : x = p
    · rw [hxp, Function.update_self]
    · rw [Function.update_of_ne hxp]
      refine h.own x fun hholds ↦ hx ?_
      change (lock₂.node x).pc () = .critical
      rw [Mutex.pc_thread hunlock, sendAll_node hsend]
      simpa [Holds, hxp] using hholds
  · -- the writer knew the committed values before it wrote
    rw [Patch.apply_join, ← hcoherent.known_eq hp hflight]
    exact hdiff.applyAll.trans (h.current p hp hpholds)

/-! ## The application -/

theorem txBegin (h : s.Inv G pagesize size) {addr : ℕ}
    (hst : (s.node p).txBegin pagesize addr = some r) :
    ({ s with node := Function.update s.node p r } : Shared).Inv G pagesize size := by
  have hrest : r.rest = (s.network.node p).rest := by rw [(Replica.txBegin_eq_some hst).2]; rfl
  have hview := Network.view_txBegin (n := s.network) hst
  refine h.of_view (h.sound.txBegin hst) (fun x hx entry hentry hwaiter ↦ ?_) hview
    (fun _ ↦ Iff.rfl) rfl rfl
  exact (Network.rest_setNode hrest x).trans (h.listening x hx entry hentry hwaiter)

theorem store (h : s.Inv G pagesize size)
    (hreach : (Mutex.system Unit Frame G).Reach (Mutex.TakesTurns G) s.lock) (hp : p ∈ G.ids)
    (hpholds : s.Holds p) {addr : ℕ} {value : UInt8}
    (hst : (s.node p).store pagesize addr value = some r) :
    ({ s with
        node := Function.update s.node p r
        written := Function.update s.written addr value } : Shared).Inv G pagesize size := by
  have hex := Mutex.exclusive_of_excludes (hreach.mono And.left)
  have hrest : r.rest = (s.network.node p).rest := by
    obtain ⟨region, -, rfl⟩ := Replica.store_eq_some hst
    rfl
  have hview := Network.view_store (n := s.network) h.sound hst
  obtain ⟨committed, hcoherent, -⟩ := h.committed
  refine ⟨h.sound.store hst, fun x hx entry hentry hwaiter ↦ ?_, fun x hx ↦ ?_,
    fun x hx hholds ↦ ?_, committed, ?_, fun hall ↦ absurd hpholds (hall p hp)⟩
  · exact (Network.rest_setNode hrest x).trans (h.listening x hx entry hentry hwaiter)
  · change ((s.network.setNode p r).view pagesize).value x =
      ((s.network.setNode p r).view pagesize).known x
    rw [hview]
    have hxp : x ≠ p := by
      rintro rfl
      exact hx hpholds
    simp only [Copies.write]
    rw [Function.update_of_ne hxp]
    exact h.own x hx
  · obtain rfl := (hex x hx p hp () () hholds hpholds).1
    change ((s.network.setNode x r).view pagesize).value x = _
    rw [hview]
    simp only [Copies.write]
    rw [Function.update_self, h.current x hx hpholds]
  · change ((s.network.setNode p r).view pagesize).Coherent _ _ _
    rw [hview]
    exact ⟨hcoherent.settled, hcoherent.newest⟩

/-! ## The listener -/

theorem deliver (h : s.Inv G pagesize size)
    (hreach : (Mutex.system Unit Frame G).Reach (Mutex.TakesTurns G) s.lock)
    (hst : step G A pagesize s (.deliver q p) = some s') : s'.Inv G pagesize size := by
  have hwf := Mutex.wellFormed_of_reach hreach
  obtain ⟨hidle, lock, hlock, hcases⟩ := deliver_cases hst
  have hholds : ∀ x, (lock.node x).pc () = .critical ↔ s.Holds x :=
    fun x ↦ by rw [Mutex.pc_deliver hlock, Holds]
  rcases hcases with ⟨msg, rest, hhead, rfl⟩ | ⟨f, rest, r, hhead, hr, rfl⟩
  · have hnet : ({ s with lock } : Shared).network = s.network := by
      unfold network
      rw [Mutex.inFlight_deliver_mutex hwf hhead hlock]
    refine h.of_view (hnet ▸ h.sound) (fun x hx entry hentry hwaiter ↦ ?_)
      (congrArg (Network.view pagesize) hnet) hholds rfl rfl
    obtain ⟨-, rfl⟩ := by simpa [Mutex.step, hhead] using hlock
    by_cases hxp : x = p
    · -- the listener was idle when it took the reply
      exact hxp ▸ (h.sound.valid p).idle hidle
    · rw [Mutex.after_node_ne hxp] at hentry hwaiter
      exact h.listening x hx entry hentry hwaiter
  · obtain ⟨hcons, hother⟩ := Mutex.inFlight_deliver_data hhead hlock
    have hnet : lock.inFlight = Channels.set s.lock.inFlight q p (lock.inFlight q p) := by
      funext a b
      rw [Channels.set_apply]
      split
      · next hab => rw [hab.1, hab.2]
      · next hab => exact hother a b hab
    have hsound := Network.Sound.receive (n := s.network) h.sound hcons hr
    have hview := Network.view_receive (n := s.network) h.sound hcons hr
    refine h.of_view ?_ (fun x hx entry hentry hwaiter ↦ ?_) ?_ hholds rfl rfl
    · unfold network
      rw [hnet]
      exact hsound
    · obtain ⟨⟨hq, hp⟩, rfl⟩ := by simpa [Mutex.step, hhead] using hlock
      by_cases hxp : x = p
      · -- no diff comes after the last reply
        subst hxp
        have hnil := Mutex.inFlight_eq_nil_of_waiter_nil (hreach.mono And.right) hx hq hentry
          hwaiter
        rw [hnil] at hcons
        cases hcons
      · change (Function.update s.node p r x).rest = []
        rw [Function.update_of_ne hxp]
        exact h.listening x hx entry hentry hwaiter
    · unfold network
      rw [hnet]
      exact hview

theorem inOrder_of_pageInOrder (h : s.Inv G pagesize size) {d : PageDiff} {rest : List PageDiff}
    (horder : s.PageInOrder G pagesize p (d :: rest)) :
    (s.network.view pagesize).InOrder s.writer (s.sender p) p (d.patch pagesize)
      ((rest ++ (s.lock.inFlight (s.sender p) p).flatMap Frame.pages).map
        (PageDiff.patch pagesize)) := by
  intro i hd hlast hwriter q hq
  by_cases hmem : q ∈ G.ids
  · have hpage : d.pageOffset ≤ i ∧ i < d.pageOffset + pagesize := by
      by_contra hout
      exact hd (if_neg hout)
    obtain ⟨j, rfl⟩ := Nat.exists_eq_add_of_le hpage.1
    exact horder j (by omega) ⟨hd, hlast, hwriter⟩ q hmem hq
  · have hnil : (s.network.view pagesize).flight q p = [] := by
      by_contra hne
      exact hmem (h.sound.peer q p hne).1
    rw [hnil, Patch.join_nil]

theorem handlePage (hpos : 0 < pagesize) (h : s.Inv G pagesize size)
    (hreach : (Mutex.system Unit Frame G).Reach (Mutex.TakesTurns G) s.lock)
    (horder : s.PageInOrder G pagesize p (s.node p).rest)
    (hst : (s.node p).handlePage pagesize = some r) :
    ({ s with node := Function.update s.node p r } : Shared).Inv G pagesize size := by
  have hsound := Network.Sound.handlePage (n := s.network) hpos h.sound hst
  have hlistening : ∀ x ∈ G.ids, ∀ entry, (s.lock.node x).mutex.localRequest = some entry →
      (s.lock.node x).mutex.waiter = [] → (Function.update s.node p r x).rest = [] := by
    intro x hx entry hentry hwaiter
    have hrest := h.listening x hx entry hentry hwaiter
    by_cases hxp : x = p
    · subst hxp
      rw [Function.update_self]
      rcases (h.sound.valid x).handlePage_cases hst with ⟨-, rfl⟩ | ⟨d, rest, -, -, -, -, hcons, -⟩
      · exact hrest
      · rw [show (s.network.node x).rest = [] from hrest] at hcons
        cases hcons
    · rwa [Function.update_of_ne hxp]
  rcases Network.view_handlePage (n := s.network) hpos h.sound hst with
    hview | ⟨d, rest, hrest, hcons, hview⟩
  · exact h.of_view hsound hlistening hview (fun _ ↦ Iff.rfl) rfl rfl
  · have hidle : p ∈ G.ids → ¬ s.Holds p := by
      intro hp hholds
      rw [h.flight_eq_nil_of_holds hreach hp hholds] at hcons
      cases hcons
    rw [show (s.node p).rest = d :: rest from hrest] at horder
    obtain ⟨committed, hcoherent, hwritten⟩ := h.committed
    have hdeliver := hcoherent.deliver hcons (h.inOrder_of_pageInOrder horder)
    rw [← hview] at hdeliver
    refine ⟨hsound, hlistening, fun x hx ↦ ?_, fun x hx hholds ↦ ?_, committed, hdeliver, hwritten⟩
    · change ((s.network.setNode p r).view pagesize).value x =
        ((s.network.setNode p r).view pagesize).known x
      have hown := h.own x hx
      rw [hview]
      simp only [Copies.deliver]
      by_cases hxp : x = p
      · subst hxp
        rw [Function.update_self, Function.update_self, hown]
      · rw [Function.update_of_ne hxp, Function.update_of_ne hxp, hown]
    · change ((s.network.setNode p r).view pagesize).value x = s.written
      have hxp : x ≠ p := by
        rintro rfl
        exact hidle hx hholds
      rw [hview]
      simp only [Copies.deliver]
      rw [Function.update_of_ne hxp]
      exact h.current x hx hholds

end Inv

theorem inv_of_reach (hget : regionGet pagesize size = some region)
    (h : (shared G A pagesize region).Reach (Careful G pagesize) s) :
    s.Inv G pagesize region.size := by
  have hpos := (Region.wellFormed_regionGet hget).2.1
  refine h.invariant (Inv G pagesize region.size) (inv_init hget) fun {s a s'} hs ih ha hst ↦ ?_
  have hreach := lock_reach (hs.mono And.left)
  have hreach' := lock_reach_step ha.1 hst hreach
  cases a with
  | lock p a =>
      obtain ⟨hunlock, lock, hlock, rfl⟩ := lock_eq_some hst
      exact ih.thread hreach hreach' hunlock hlock
  | unlock p => exact ih.unlock hpos hreach ha.1.2 ha.2.1 hst
  | txBegin p addr =>
      obtain ⟨-, hst⟩ := Option.ite_none_right_eq_some.mp hst
      obtain ⟨r, hr, rfl⟩ := Option.map_eq_some_iff.mp hst
      exact ih.txBegin hr
  | store p addr value =>
      obtain ⟨⟨hp, hholds⟩, hst⟩ := Option.ite_none_right_eq_some.mp hst
      obtain ⟨r, hr, rfl⟩ := Option.map_eq_some_iff.mp hst
      exact ih.store hreach hp hholds hr
  | deliver q p => exact ih.deliver (A := A) hreach hst
  | handlePage p =>
      obtain ⟨r, hr, rfl⟩ := Option.map_eq_some_iff.mp hst
      exact ih.handlePage hpos hreach ha.2.2 hr

end Shared

/-- When `edsm_mutex_lock` returns, the copy of the node has the last value that anybody
wrote to each byte. -/
theorem coherent_of_careful {G : Group} {A : Allocator} {pagesize size : ℕ} {region : Region}
    {s s' : Shared} {p : UInt32} (hget : regionGet pagesize size = some region)
    (h : (shared G A pagesize region).Reach (Shared.Careful G pagesize) s)
    (hexcludes : s.LockExcludes G (.lock p (.enter ())))
    (hreturn : (shared G A pagesize region).step s (.lock p (.enter ())) = some s') :
    (s'.node p).region.bytes = s'.written := by
  have hs' := Shared.inv_of_reach hget
    (h.step (a := .lock p (.enter ())) ⟨⟨hexcludes, trivial⟩, trivial, trivial⟩ hreturn)
  have hstep : Shared.step G A pagesize s (.lock p (.enter ())) = some s' := hreturn
  obtain ⟨-, lock, henter, rfl⟩ := Shared.lock_eq_some hstep
  refine hs'.current p (Mutex.pc_source henter).1 ?_
  change (lock.node p).pc () = .critical
  rw [Mutex.pc_thread henter]
  simp [Mutex.ThreadAction.target]

/-- Nodes 2 and 3 ask for the mutex while node 1 holds it, and the unlock of node 1 answers
both. -/
def threeWriters : List Shared.Action :=
  [.lock 1 (.acquire ()), .lock 1 (.request ()), .deliver 1 2, .deliver 1 3, .deliver 2 1,
    .deliver 3 1, .lock 1 (.enter ()), .deliver 2 3, .deliver 3 2, .lock 2 (.acquire ()),
    .lock 2 (.request ()), .lock 3 (.acquire ()), .lock 3 (.request ()), .deliver 2 1,
    .deliver 3 1, .deliver 2 3, .deliver 3 2, .deliver 3 2, .txBegin 1 3, .store 1 3 1,
    .unlock 1, .lock 1 (.release ()), .deliver 1 2, .handlePage 2, .handlePage 2,
    .deliver 1 2, .lock 2 (.enter ()), .txBegin 2 3, .store 2 3 2, .unlock 2,
    .lock 2 (.release ()), .deliver 1 3, .handlePage 3, .handlePage 3, .deliver 1 3,
    .deliver 2 3, .handlePage 3, .handlePage 3, .deliver 2 3]

theorem coherent_of_careful_three_nodes :
    ∃ s : Shared, s.written 3 = 2 ∧ (s.node 3).region.bytes = s.written := by
  let G : Group := .ofIds [1, 2, 3] (by decide) (by decide)
  obtain ⟨s, hs, hp⟩ := LabelledSystem.exists_reach_of_exec (shared G .zeroed 8 Region.twoPages)
    (Shared.Careful G 8) threeWriters
    (fun s ↦ s.LockExcludes G (.lock 3 (.enter ())) ∧
      ((shared G .zeroed 8 Region.twoPages).step s (.lock 3 (.enter ()))).any
        fun s' ↦ s'.written 3 = 2) (by decide +kernel)
  obtain ⟨hexcludes, hany⟩ := of_decide_eq_true hp
  obtain ⟨s', hreturn, hwritten⟩ := (Option.any_eq_true _ _).mp hany
  exact ⟨s', by simpa using hwritten,
    coherent_of_careful Region.regionGet_twoPages hs hexcludes hreturn⟩

/-- Node 2 writes to the byte that node 1 has written to, and its diff is the first one to
reach node 3. -/
def overtaking : List Shared.Action :=
  [.lock 1 (.acquire ()), .lock 1 (.request ()), .deliver 1 2, .deliver 1 3, .deliver 2 1,
    .deliver 3 1, .lock 1 (.enter ()), .deliver 2 3, .deliver 3 2, .txBegin 1 3, .store 1 3 1,
    .unlock 1, .lock 1 (.release ()), .lock 2 (.acquire ()), .lock 2 (.request ()),
    .deliver 2 1, .deliver 2 3, .deliver 1 2, .handlePage 2, .handlePage 2, .deliver 1 2,
    .deliver 3 2, .lock 2 (.enter ()), .txBegin 2 3, .store 2 3 2, .unlock 2,
    .lock 2 (.release ()), .deliver 2 3, .handlePage 3, .handlePage 3, .deliver 1 3,
    .handlePage 3, .handlePage 3, .deliver 1 3, .lock 3 (.acquire ()), .lock 3 (.request ()),
    .deliver 3 1, .deliver 3 1, .deliver 3 2, .deliver 1 3, .deliver 2 3]

/-- Node 3 has returned from `edsm_mutex_lock` with the older value. -/
theorem not_coherent_of_takesTurns :
    ¬ ∀ (G : Group) (region : Region) (s s' : Shared) (p : UInt32),
      regionGet 4096 4096 = some region →
      (shared G .zeroed 4096 region).Reach
        (fun s a ↦ s.TakesTurns G 4096 a ∧ s.FieldsFit 4096 a) s →
      s.LockExcludes G (.lock p (.enter ())) →
      (shared G .zeroed 4096 region).step s (.lock p (.enter ())) = some s' →
        (s'.node p).region.bytes = s'.written := by
  intro h
  let G : Group := .ofIds [1, 2, 3] (by decide) (by decide)
  let region : Region := ⟨4096, fun _ ↦ 0, fun _ ↦ false, [], 0⟩
  obtain ⟨s, hs, hp⟩ := LabelledSystem.exists_reach_of_exec (shared G .zeroed 4096 region)
    (fun s a ↦ s.TakesTurns G 4096 a ∧ s.FieldsFit 4096 a) overtaking
    (fun s ↦ s.LockExcludes G (.lock 3 (.enter ())) ∧
      ((shared G .zeroed 4096 region).step s (.lock 3 (.enter ()))).any
        fun s' ↦ (s'.node 3).region.bytes 3 = 1 ∧ s'.written 3 = 2) (by decide +kernel)
  obtain ⟨hexcludes, hany⟩ := of_decide_eq_true hp
  obtain ⟨s', hreturn, hbytes⟩ := (Option.any_eq_true _ _).mp hany
  obtain ⟨hold, hnew⟩ : (s'.node 3).region.bytes 3 = 1 ∧ s'.written 3 = 2 := by
    simpa using hbytes
  have hsame := congrFun (h G region s s' 3 rfl hs hexcludes hreturn) 3
  rw [hold, hnew] at hsame
  cases hsame

/-- Node 2 counts a reply that node 3 has sent for node 1, and the diff of node 3 is behind
it. -/
def earlyReply : List Shared.Action :=
  [.lock 3 (.acquire ()), .lock 3 (.request ()), .lock 1 (.acquire ()), .lock 1 (.request ()),
    .deliver 3 2, .deliver 1 2, .deliver 1 3, .deliver 2 3, .deliver 3 1, .deliver 2 1,
    .deliver 3 1, .lock 1 (.enter ()), .unlock 1, .lock 1 (.release ()), .deliver 1 3,
    .lock 3 (.enter ()), .txBegin 3 3, .store 3 3 1, .lock 2 (.acquire ()),
    .lock 2 (.request ()), .deliver 2 3, .deliver 2 3, .unlock 3, .lock 3 (.release ()),
    .deliver 2 1, .deliver 2 1, .deliver 1 2, .deliver 3 2]

/-- Exclusion alone does not bring the diff of one turn to the next one. -/
theorem not_coherent_of_lockExcludes :
    ¬ ∀ (G : Group) (s s' : Shared) (p : UInt32),
      (shared G .zeroed 8 Region.twoPages).Reach
        (fun s a ↦ s.LockExcludes G a ∧ s.FieldsFit 8 a ∧ s.NewestLast G 8 a) s →
      s.LockExcludes G (.lock p (.enter ())) →
      (shared G .zeroed 8 Region.twoPages).step s (.lock p (.enter ())) = some s' →
        (s'.node p).region.bytes = s'.written := by
  intro h
  let G : Group := .ofIds [1, 2, 3] (by decide) (by decide)
  obtain ⟨s, hs, hp⟩ := LabelledSystem.exists_reach_of_exec (shared G .zeroed 8 Region.twoPages)
    (fun s a ↦ s.LockExcludes G a ∧ s.FieldsFit 8 a ∧ s.NewestLast G 8 a) earlyReply
    (fun s ↦ s.LockExcludes G (.lock 2 (.enter ())) ∧
      ((shared G .zeroed 8 Region.twoPages).step s (.lock 2 (.enter ()))).any
        fun s' ↦ (s'.node 2).region.bytes 3 = 0 ∧ s'.written 3 = 1) (by decide +kernel)
  obtain ⟨hexcludes, hany⟩ := of_decide_eq_true hp
  obtain ⟨s', hreturn, hbytes⟩ := (Option.any_eq_true _ _).mp hany
  obtain ⟨hold, hnew⟩ : (s'.node 2).region.bytes 3 = 0 ∧ s'.written 3 = 1 := by
    simpa using hbytes
  have hsame := congrFun (h G s s' 2 hs hexcludes hreturn) 3
  rw [hold, hnew] at hsame
  cases hsame

end Edsm.Memory
