import Edsm.Library.Reachability
import Edsm.Memory.Payload

/-!
# Diffs and the messages that release them

The threads of one node write to shared regions and call `edsm_memory_tx_end`,
`edsm_barrier_notify` and `edsm_mutex_unlock`.  `diff_region` is one step and so is every send
to one peer; between the two a thread holds no lock that keeps the others out.
-/

namespace Edsm.Memory.Release

/-- What the node has joined before its threads start. -/
structure Setup where
  A : Allocator
  pagesize : ℕ
  /-- `edsm_memory_regions` -/
  regions : List UInt32
  region : UInt32 → Region
  /-- The peers of an object; every region, barrier and mutex is one. -/
  peers : UInt32 → List UInt32
  get : ∀ r ∈ regions, ∃ size, regionGet pagesize size = some (region r)

/-- The message of a call of `diff_region`. -/
structure RegionDiff where
  /-- The number of the call, which tells equal messages apart. -/
  id : ℕ
  region : UInt32
  payload : List UInt8
  deriving DecidableEq

/-- What became of a store. -/
inductive Fate
  | pending
  /-- The page was diffed and the byte was that of the twin. -/
  | unchanged
  /-- The page was diffed and the byte was this one, and not that of the twin. -/
  | carried (d : RegionDiff) (value : UInt8)
  deriving DecidableEq

def Fate.diff : Fate → Option RegionDiff
  | pending | unchanged => none
  | carried d _ => some d

/-- A store of a thread. -/
structure Change (T : Type*) where
  thread : T
  region : UInt32
  addr : ℕ
  fate : Fate
  deriving DecidableEq

inductive Msg (T : Type*)
  | diff (d : RegionDiff)
  /-- The barrier message or a mutex reply of a call of `t`, before which this many changes
  were made. -/
  | release (t : T) (before : ℕ)
  deriving DecidableEq

inductive Call
  | txEnd (region : Option UInt32)
  | barrierNotify (id : UInt32)
  /-- With the requests that were not replied to. -/
  | mutexUnlock (id : UInt32) (requests : List UInt32)
  deriving DecidableEq

/-- Where a thread is. -/
inductive Pc
  | outside
  /-- In `edsm_memory_tx_end`, with these regions left. -/
  | ending (call : Call) (rest : List UInt32)
  /-- In `edsm_dobj_send` of a diff, with these peers left. -/
  | sending (call : Call) (d : RegionDiff) (peers : List UInt32) (rest : List UInt32)
  /-- After `edsm_memory_tx_end`, with these sends left. -/
  | releasing (peers : List UInt32)
  deriving DecidableEq

structure State (T : Type*) where
  region : UInt32 → Region
  pc : T → Pc
  /-- The messages to a peer that it has not handled, oldest first. -/
  net : UInt32 → List (Msg T)
  /-- The diffs that a peer has applied. -/
  applied : UInt32 → List RegionDiff
  /-- The stores so far.  This field and the next two only record the run. -/
  changes : List (Change T)
  /-- How many changes there were when the thread began its last call. -/
  before : T → ℕ
  /-- How often `diff_region` was called. -/
  diffs : ℕ

inductive Action (T : Type*)
  | txBegin (t : T) (r : UInt32) (addr : ℕ)
  | store (t : T) (r : UInt32) (addr : ℕ) (value : UInt8)
  /-- The listener applies a page of a diff of another node. -/
  | handlePage (r : UInt32) (d : PageDiff)
  | call (t : T) (call : Call)
  /-- `diff_region` of the next region. -/
  | diffRegion (t : T)
  /-- The diff is sent to the next peer, or has been sent to all. -/
  | sendDiff (t : T)
  /-- `edsm_memory_tx_end` returns. -/
  | endTx (t : T)
  /-- The message is sent to the next peer, or all have been sent. -/
  | sendRelease (t : T)
  /-- The peer handles its oldest message. -/
  | deliver (q : UInt32)

/-! ## The calls -/

namespace Call

/-- The argument of `edsm_memory_tx_end` is `NULL`. -/
def all : Call → Bool
  | txEnd (some _) => false
  | txEnd none | barrierNotify _ | mutexUnlock .. => true

/-- The regions that `edsm_memory_tx_end` takes. -/
def regions (G : Setup) : Call → List UInt32
  | txEnd (some r) => [r]
  | txEnd none | barrierNotify _ | mutexUnlock .. => G.regions

/-- Where the thread is after `edsm_memory_tx_end`: a reply goes to all peers of the mutex. -/
def afterTx (G : Setup) : Call → Pc
  | txEnd _ => .outside
  | barrierNotify id => .releasing (G.peers id)
  | mutexUnlock id requests => .releasing (requests.flatMap fun _ ↦ G.peers id)

end Call

namespace Pc

/-- The diff that is still to be sent to the peer. -/
def unsent (q : UInt32) : Pc → Option RegionDiff
  | sending _ d peers _ => if q ∈ peers then some d else none
  | outside | ending .. | releasing _ => none

/-- The regions left of a call of `edsm_memory_tx_end` for all. -/
def left : Pc → Option (List UInt32)
  | ending call rest | sending call _ _ rest => if call.all then some rest else none
  | releasing _ => some []
  | outside => none

/-- The region that is diffed next. -/
def nextRegion : Pc → Option UInt32
  | ending _ rest => rest.head?
  | outside | sending .. | releasing _ => none

/-- The peer that the next message of a barrier or mutex goes to. -/
def receiver : Pc → Option UInt32
  | releasing peers => peers.head?
  | outside | ending .. | sending .. => none

end Pc

/-! ## The steps -/

/-- A store to a region that was diffed gets its fate. -/
def Change.settle {T : Type*} (pagesize : ℕ) (region : Region) (d : RegionDiff) (c : Change T) :
    Change T :=
  if c.region = d.region ∧ c.fate = .pending then
    { c with fate := if region.bytes c.addr = region.base pagesize c.addr then .unchanged
      else .carried d (region.bytes c.addr) }
  else c

variable {T : Type*}

namespace State

def setRegion (s : State T) (r : UInt32) (region : Region) : State T :=
  { s with region := Function.update s.region r region }

def post (s : State T) (q : UInt32) (m : Msg T) : State T :=
  { s with net := Function.update s.net q (s.net q ++ [m]) }

/-- The diff of a region is taken, which leaves the region in this way. -/
def capture (G : Setup) (s : State T) (r : UInt32) (region : Region) (d : RegionDiff) : State T :=
  { s.setRegion r region with
    changes := s.changes.map (.settle G.pagesize (s.region r) d)
    diffs := s.diffs + 1 }

/-- What `diff_region` has written. -/
def nextDiff (s : State T) (r : UInt32) (payload : Option (List UInt8)) : RegionDiff :=
  ⟨s.diffs, r, payload.getD []⟩

/-- The peer handles a message; a diff is applied by `edsm_memory_handle_message`. -/
def handle (s : State T) (q : UInt32) : Msg T → State T
  | .diff d => { s with applied := Function.update s.applied q (s.applied q ++ [d]) }
  | .release .. => s

variable [DecidableEq T]

def moveTo (s : State T) (t : T) (pc : Pc) : State T :=
  { s with pc := Function.update s.pc t pc }

end State

def step [DecidableEq T] (G : Setup) (s : State T) : Action T → Option (State T)
  | .txBegin t r addr =>
      if s.pc t = .outside ∧ r ∈ G.regions ∧ addr < (s.region r).size then
        some (s.setRegion r ((s.region r).txBegin G.pagesize addr))
      else none
  | .store t r addr value =>
      if s.pc t = .outside ∧ r ∈ G.regions then
        ((s.region r).store G.pagesize addr value).map fun region ↦
          { s.setRegion r region with changes := s.changes ++ [⟨t, r, addr, .pending⟩] }
      else none
  | .handlePage r d =>
      if r ∈ G.regions ∧ G.pagesize ∣ d.pageOffset ∧
          d.pageOffset + G.pagesize ≤ (s.region r).size then
        some (s.setRegion r ((s.region r).applyPage G.pagesize d))
      else none
  | .call t call =>
      if s.pc t = .outside ∧ call.regions G ⊆ G.regions then
        some { s.moveTo t (.ending call (call.regions G)) with
          before := Function.update s.before t s.changes.length }
      else none
  | .diffRegion t =>
      match s.pc t with
      | .ending call (r :: rest) =>
          match txEnd G.A G.pagesize call.all (s.region r) with
          | .ok (region, payload) => some ((s.capture G r region (s.nextDiff r payload)).moveTo t
              (if payload.isSome then .sending call (s.nextDiff r payload) (G.peers r) rest
              else .ending call rest))
          | .error _ => none
      | .ending _ [] | .outside | .sending .. | .releasing _ => none
  | .sendDiff t =>
      match s.pc t with
      | .sending call d (q :: peers) rest => some ((s.post q (.diff d)).moveTo t
          (.sending call d peers rest))
      | .sending call _ [] rest => some (s.moveTo t (.ending call rest))
      | .outside | .ending .. | .releasing _ => none
  | .endTx t =>
      match s.pc t with
      | .ending call [] => some (s.moveTo t (call.afterTx G))
      | .ending _ (_ :: _) | .outside | .sending .. | .releasing _ => none
  | .sendRelease t =>
      match s.pc t with
      | .releasing (q :: peers) => some ((s.post q (.release t (s.before t))).moveTo t
          (.releasing peers))
      | .releasing [] => some (s.moveTo t .outside)
      | .outside | .ending .. | .sending .. => none
  | .deliver q =>
      match s.net q with
      | m :: rest => some { s.handle q m with net := Function.update s.net q rest }
      | [] => none

def system (T : Type*) [DecidableEq T] (G : Setup) : LabelledSystem (State T) (Action T) where
  init :=
    { region := G.region
      pc _ := .outside
      net _ := []
      applied _ := []
      changes := []
      before _ := 0
      diffs := 0 }
  step := step G

/-! ## What is promised -/

/-- Whatever the copy of the region, `edsm_memory_handle_message` puts the value there. -/
def RegionDiff.Carries (G : Setup) (d : RegionDiff) (r : UInt32) (addr : ℕ) (value : UInt8) :
    Prop :=
  d.region = r ∧ ∀ (copy : Region) (msg : Message), copy.WellFormed G.pagesize →
    copy.size = (G.region r).size → msg.WellFormed → msg.bytes = d.payload →
      ∃ copy' reader, handleMessage G.pagesize copy (some msg) = .ok (copy', reader) ∧
        copy'.bytes addr = value

namespace State

/-- A peer that comes to the message of a call has applied a diff with every change that the
caller had made to a region the peer has joined, but for bytes that were those of the twin. -/
def Ordered (G : Setup) (s : State T) : Prop :=
  ∀ q t before rest, s.net q = .release t before :: rest →
    ∀ c ∈ s.changes.take before, c.thread = t → q ∈ G.peers c.region →
      c.fate = .unchanged ∨ ∃ d ∈ s.applied q, ∃ value,
        c.fate = .carried d value ∧ d.Carries G c.region c.addr value

/-- When the message of a call is sent to a peer, no other thread has yet to send to this peer a
diff it has taken with a change of the caller. -/
def Flushed (s : State T) : Action T → Prop
  | .sendRelease t => ∀ q ∈ (s.pc t).receiver, ∀ u, ∀ d ∈ (s.pc u).unsent q,
      ∀ c ∈ s.changes.take (s.before t), c.thread = t → c.fate.diff ≠ some d
  | .txBegin .. | .store .. | .handlePage .. | .call .. | .diffRegion _ | .sendDiff _ | .endTx _
  | .deliver _ => True

/-- No diff is taken one of whose numbers does not fit into its field. -/
def FieldsFit (G : Setup) (s : State T) : Action T → Prop
  | .diffRegion t => ∀ r ∈ (s.pc t).nextRegion, ∀ d ∈ (s.region r).pageDiffs G.pagesize, d.Fits
  | .txBegin .. | .store .. | .handlePage .. | .call .. | .sendDiff _ | .endTx _ | .sendRelease _
  | .deliver _ => True

/-- The diff is on its way to the peer or has been applied. -/
def Sent (s : State T) (q : UInt32) (d : RegionDiff) : Prop :=
  Msg.diff d ∈ s.net q ∨ d ∈ s.applied q

end State

/-! ## The fate of a change -/

theorem Setup.pagesize_pos (G : Setup) {r : UInt32} (hr : r ∈ G.regions) : 0 < G.pagesize := by
  obtain ⟨size, hget⟩ := G.get r hr
  exact (Region.wellFormed_regionGet hget).2.1

theorem Fate.diff_eq_some {fate : Fate} {d : RegionDiff} :
    fate.diff = some d ↔ ∃ value, fate = .carried d value := by
  cases fate <;> simp [Fate.diff]

theorem Call.regions_of_all {G : Setup} {call : Call} (h : call.all = true) :
    call.regions G = G.regions := by
  cases call with
  | txEnd region =>
      cases region with
      | none => rfl
      | some r => cases h
  | barrierNotify | mutexUnlock => rfl

theorem Call.left_afterTx {G : Setup} {call : Call} {rest : List UInt32}
    (h : (call.afterTx G).left = some rest) : (Pc.ending call []).left = some rest := by
  cases call with
  | txEnd => cases h
  | barrierNotify | mutexUnlock => exact h

namespace Change

variable {pagesize : ℕ} {region : Region} {d : RegionDiff} {c : Change T}

@[simp] theorem thread_settle : (c.settle pagesize region d).thread = c.thread := by
  unfold settle
  split <;> rfl

@[simp] theorem region_settle : (c.settle pagesize region d).region = c.region := by
  unfold settle
  split <;> rfl

@[simp] theorem addr_settle : (c.settle pagesize region d).addr = c.addr := by
  unfold settle
  split <;> rfl

theorem settle_of_ne (h : c.fate ≠ .pending) : c.settle pagesize region d = c :=
  if_neg fun hc ↦ h hc.2

theorem pending_of_settle (h : (c.settle pagesize region d).fate = .pending) :
    c.fate = .pending ∧ c.region ≠ d.region := by
  unfold settle at h
  split at h
  · change (if _ then Fate.unchanged else .carried d _) = _ at h
    split at h <;> cases h
  · next hc => exact ⟨h, fun hregion ↦ hc ⟨hregion, h⟩⟩

theorem carried_of_settle {d' : RegionDiff} {value : UInt8}
    (h : (c.settle pagesize region d).fate = .carried d' value) :
    c.fate = .carried d' value ∨ d' = d ∧ value = region.bytes c.addr ∧ c.region = d.region ∧
      region.bytes c.addr ≠ region.base pagesize c.addr := by
  unfold settle at h
  split at h
  · next hc =>
      change (if _ then Fate.unchanged else .carried d _) = _ at h
      split at h
      · cases h
      · next hne =>
          cases h
          exact .inr ⟨rfl, rfl, hc.1, hne⟩
  · exact .inl h

theorem diff_of_settle {d' : RegionDiff} (h : (c.settle pagesize region d).fate.diff = some d') :
    c.fate.diff = some d' ∨ d' = d ∧ c.region = d.region ∧
      region.bytes c.addr ≠ region.base pagesize c.addr := by
  obtain ⟨value, h⟩ := Fate.diff_eq_some.mp h
  exact (carried_of_settle h).imp (fun hold ↦ Fate.diff_eq_some.mpr ⟨value, hold⟩)
    fun hnew ↦ ⟨hnew.1, hnew.2.2⟩

end Change

/-! ## The invariant -/

namespace State

/-- What holds of a message of a call that stands behind these others: no change of the caller
is pending, and every diff with such a change goes before. -/
structure Released (G : Setup) (s : State T) (q : UInt32) (front : List (Msg T)) (t : T)
    (before : ℕ) : Prop where
  le : before ≤ s.changes.length
  settled : ∀ c ∈ s.changes.take before, c.thread = t → c.fate ≠ .pending
  sent : ∀ c ∈ s.changes.take before, c.thread = t → ∀ d, c.fate.diff = some d →
    q ∈ G.peers c.region → .diff d ∈ front ∨ d ∈ s.applied q

structure Inv (G : Setup) (s : State T) : Prop where
  wellFormed : ∀ r ∈ G.regions, (s.region r).WellFormed G.pagesize
  size : ∀ r ∈ G.regions, (s.region r).size = (G.region r).size
  regions : ∀ c ∈ s.changes, c.region ∈ G.regions
  carries : ∀ c ∈ s.changes, ∀ d value, c.fate = .carried d value →
    d.Carries G c.region c.addr value
  sent : ∀ c ∈ s.changes, ∀ d, c.fate.diff = some d → ∀ q ∈ G.peers c.region,
    s.Sent q d ∨ ∃ u, d ∈ (s.pc u).unsent q
  before_le : ∀ t, s.before t ≤ s.changes.length
  left : ∀ t rest, (s.pc t).left = some rest →
    ∀ c ∈ s.changes.take (s.before t), c.thread = t → c.fate = .pending → c.region ∈ rest
  released : ∀ q front t before behind, s.net q = front ++ .release t before :: behind →
    s.Released G q front t before

variable {G : Setup} {s s' : State T} {t : T} {q : UInt32}

theorem Inv.ordered (h : s.Inv G) : s.Ordered G := by
  intro q t before rest hnet c hc ht hq
  have hreleased := h.released q [] t before rest hnet
  cases hfate : c.fate with
  | pending => exact absurd hfate (hreleased.settled c hc ht)
  | unchanged => exact .inl rfl
  | carried d value =>
      rcases hreleased.sent c hc ht d (by rw [hfate]; rfl) hq with hd | hd
      · cases hd
      · exact .inr ⟨d, hd, value, rfl, h.carries c (List.mem_of_mem_take hc) d value hfate⟩

theorem Inv.setRegion (h : s.Inv G) {r : UInt32} {region : Region}
    (hwf : (s.region r).WellFormed G.pagesize → region.WellFormed G.pagesize)
    (hsize : region.size = (s.region r).size) :
    (s.setRegion r region).Inv G :=
  { h with
    wellFormed := fun a ha ↦ by
      by_cases har : a = r
      · subst har
        simpa [State.setRegion] using hwf (h.wellFormed a ha)
      · simpa [State.setRegion, har] using h.wellFormed a ha
    size := fun a ha ↦ by
      by_cases har : a = r
      · subst har
        simpa [State.setRegion] using hsize.trans (h.size a ha)
      · simpa [State.setRegion, har] using h.size a ha
    released := fun q front t before behind hnet ↦
      { h.released q front t before behind hnet with } }

theorem Inv.change (h : s.Inv G) {r : UInt32} (hr : r ∈ G.regions) (t : T) (addr : ℕ) :
    Inv G { s with changes := s.changes ++ [⟨t, r, addr, .pending⟩] } := by
  have hmem : ∀ {c}, c ∈ s.changes ++ [⟨t, r, addr, .pending⟩] → c.fate ≠ .pending →
      c ∈ s.changes := by
    intro c hc hfate
    rcases List.mem_append.mp hc with hc | hc
    · exact hc
    · obtain rfl := List.mem_singleton.mp hc
      exact absurd rfl hfate
  exact { h with
    regions := fun c hc ↦ by
      rcases List.mem_append.mp hc with hc | hc
      · exact h.regions c hc
      · obtain rfl := List.mem_singleton.mp hc
        exact hr
    carries := fun c hc d value hfate ↦
      h.carries c (hmem hc (by rw [hfate]; exact Fate.noConfusion)) d value hfate
    sent := fun c hc d hfate ↦
      h.sent c (hmem hc (by rintro heq; rw [heq] at hfate; cases hfate)) d hfate
    before_le := fun u ↦ (h.before_le u).trans (by simp)
    left := fun u rest hleft ↦ by
      rw [List.take_append_of_le_length (h.before_le u)]
      exact h.left u rest hleft
    released := fun q front u before behind hnet ↦ by
      have hreleased := h.released q front u before behind hnet
      have htake : (s.changes ++ [(⟨t, r, addr, .pending⟩ : Change T)]).take before =
          s.changes.take before := List.take_append_of_le_length hreleased.le
      exact ⟨hreleased.le.trans (by simp), htake ▸ hreleased.settled, htake ▸ hreleased.sent⟩ }

/-- The last message of a queue, or one before it. -/
theorem eq_last_or_exists {μ : Type*} {xs front behind : List μ} {x y : μ}
    (h : xs ++ [x] = front ++ y :: behind) :
    (front = xs ∧ y = x) ∨ ∃ behind', xs = front ++ y :: behind' := by
  rcases List.append_eq_append_iff.mp h with ⟨zs, rfl, hx⟩ | ⟨zs, rfl, hy⟩
  · cases zs with
    | nil => exact .inl ⟨List.append_nil xs, (List.cons.inj hx).1.symm⟩
    | cons z zs => simp at hx
  · cases zs with
    | nil => exact .inl ⟨(List.append_nil front).symm, (List.cons.inj hy).1⟩
    | cons z zs =>
        obtain ⟨rfl, -⟩ := List.cons.inj hy
        exact .inr ⟨zs, rfl⟩

theorem Inv.post (h : s.Inv G) {m : Msg T}
    (hm : ∀ t before, m = .release t before → s.Released G q (s.net q) t before) :
    (s.post q m).Inv G := by
  have hself : (s.post q m).net q = s.net q ++ [m] := Function.update_self _ _ _
  have hne : ∀ {a}, a ≠ q → (s.post q m).net a = s.net a := fun ha ↦ Function.update_of_ne ha _ _
  have hsent : ∀ {a d}, s.Sent a d → (s.post q m).Sent a d := by
    rintro a d (hd | hd)
    · refine .inl ?_
      by_cases haq : a = q
      · subst haq
        rw [hself]
        exact List.mem_append_left [m] hd
      · rw [hne haq]
        exact hd
    · exact .inr hd
  exact { h with
    sent := fun c hc d hfate a ha ↦ (h.sent c hc d hfate a ha).imp_left hsent
    released := fun a front t before behind hnet ↦ by
      by_cases haq : a = q
      · subst haq
        rw [hself] at hnet
        rcases eq_last_or_exists hnet with ⟨rfl, heq⟩ | ⟨behind', hold⟩
        · exact { hm t before heq.symm with }
        · exact { h.released a front t before behind' hold with }
      · rw [hne haq] at hnet
        exact { h.released a front t before behind hnet with } }

theorem mem_post_self (s : State T) (q : UInt32) (m : Msg T) : m ∈ (s.post q m).net q := by
  have hself : (s.post q m).net q = s.net q ++ [m] := Function.update_self _ _ _
  rw [hself]
  exact List.mem_append_right _ (List.mem_singleton_self m)

/-- A peer takes a message and applies at least the diff that it is. -/
theorem Inv.take (h : s.Inv G) {m : Msg T} {rest : List (Msg T)} (hnet : s.net q = m :: rest)
    {applied : UInt32 → List RegionDiff} (happlied : ∀ a, ∀ d ∈ s.applied a, d ∈ applied a)
    (hm : ∀ d, m = .diff d → d ∈ applied q) :
    Inv G { s with net := Function.update s.net q rest, applied } := by
  have hself : Function.update s.net q rest q = rest := Function.update_self _ _ _
  have hne : ∀ {a}, a ≠ q → Function.update s.net q rest a = s.net a :=
    fun ha ↦ Function.update_of_ne ha _ _
  refine { h with sent := fun c hc d hfate a ha ↦ ?_, released := ?_ }
  · refine (h.sent c hc d hfate a ha).imp_left fun hsent ↦ ?_
    rcases hsent with hd | hd
    · by_cases haq : a = q
      · subst haq
        rw [hnet] at hd
        rcases List.mem_cons.mp hd with heq | hd
        · exact .inr (hm d heq.symm)
        · refine .inl ?_
          change _ ∈ Function.update s.net a rest a
          rw [hself]
          exact hd
      · refine .inl ?_
        change _ ∈ Function.update s.net q rest a
        rw [hne haq]
        exact hd
    · exact .inr (happlied a d hd)
  · intro a front t before behind hafter
    change Function.update s.net q rest a = _ at hafter
    by_cases haq : a = q
    · subst haq
      rw [hself] at hafter
      have hreleased := h.released a (m :: front) t before behind (by rw [hnet, hafter]; rfl)
      refine ⟨hreleased.le, hreleased.settled, fun c hc ht d hfate ha ↦ ?_⟩
      rcases hreleased.sent c hc ht d hfate ha with hd | hd
      · rcases List.mem_cons.mp hd with heq | hd
        · exact .inr (hm d heq.symm)
        · exact .inl hd
      · exact .inr (happlied a d hd)
    · rw [hne haq] at hafter
      have hreleased := h.released a front t before behind hafter
      exact ⟨hreleased.le, hreleased.settled, fun c hc ht d hfate ha ↦
        (hreleased.sent c hc ht d hfate ha).imp_right (happlied a d)⟩

/-- A byte that differs from the twin is in the message, and arrives on every copy. -/
theorem Inv.carries_nextDiff (h : s.Inv G) {r : UInt32} (hr : r ∈ G.regions)
    (hfits : ∀ d ∈ (s.region r).pageDiffs G.pagesize, d.Fits) {all : Bool} {region : Region}
    {payload : Option (List UInt8)}
    (hend : txEnd G.A G.pagesize all (s.region r) = .ok (region, payload)) {addr : ℕ}
    (hne : (s.region r).bytes addr ≠ (s.region r).base G.pagesize addr) :
    payload.isSome ∧ (s.nextDiff r payload).Carries G r addr ((s.region r).bytes addr) := by
  have hwf := h.wellFormed r hr
  have htwins : (s.region r).twins ≠ [] := fun hnil ↦
    hne (congrFun (Region.base_of_twins_eq_nil hnil) addr).symm
  cases payload with
  | none =>
      have hnone := (payload_of_txEnd hfits hend).1
      rw [Region.payload, if_neg fun hc ↦ htwins hc.2] at hnone
      cases hnone
  | some bytes =>
      refine ⟨rfl, rfl, fun copy msg hcopy hsize hmsg hbytes ↦ ?_⟩
      obtain ⟨copy', reader, hhandle, -, -, happly⟩ := handleMessage_of_txEnd hfits hwf hend hcopy
        (hsize.trans (h.size r hr).symm) hmsg hbytes
      refine ⟨copy', reader, hhandle, ?_⟩
      rw [happly]
      exact (Region.isDiff_pageDiffs hwf (G.pagesize_pos hr)).applyAll_eq (Ne.symm hne) _

/-- What was settled stays as it was. -/
theorem Released.capture {front : List (Msg T)} {before : ℕ} (h : s.Released G q front t before)
    (r : UInt32) (region : Region) (d : RegionDiff) :
    (s.capture G r region d).Released G q front t before := by
  have hold : ∀ c' ∈ (s.capture G r region d).changes.take before, c'.thread = t →
      c' ∈ s.changes.take before := by
    intro c' hc' ht
    change c' ∈ (s.changes.map _).take before at hc'
    rw [← List.map_take] at hc'
    obtain ⟨c, hc, rfl⟩ := List.mem_map.mp hc'
    rw [Change.thread_settle] at ht
    rw [Change.settle_of_ne (h.settled c hc ht)]
    exact hc
  refine ⟨?_, fun c hc ht ↦ h.settled c (hold c hc ht) ht,
    fun c hc ht ↦ h.sent c (hold c hc ht) ht⟩
  change before ≤ (s.changes.map _).length
  rw [List.length_map]
  exact h.le

/-- All that the caller had changed has been diffed, and by the condition nothing of it is left
with another thread. -/
theorem Inv.release (h : s.Inv G) {peers : List UInt32} (hpc : s.pc t = .releasing (q :: peers))
    (hflushed : s.Flushed (.sendRelease t)) : s.Released G q (s.net q) t (s.before t) where
  le := h.before_le t
  settled c hc ht hpending := by
    have hrest := h.left t [] (by rw [hpc]; rfl) c hc ht hpending
    cases hrest
  sent c hc ht d hfate hq := by
    rcases h.sent c (List.mem_of_mem_take hc) d hfate q hq with hsent | ⟨u, hu⟩
    · exact hsent
    · have hreceiver : q ∈ (s.pc t).receiver := by
        rw [hpc]
        rfl
      exact absurd hfate (hflushed q hreceiver u d hu c hc ht)

section Threads

variable [DecidableEq T]

theorem moveTo_self (s : State T) (t : T) (pc : Pc) : (s.moveTo t pc).pc t = pc :=
  Function.update_self _ _ _

theorem moveTo_ne (s : State T) {t u : T} (h : u ≠ t) (pc : Pc) :
    (s.moveTo t pc).pc u = s.pc u :=
  Function.update_of_ne h _ _

theorem Inv.moveTo (h : s.Inv G) {pc : Pc}
    (hunsent : ∀ a, ∀ d ∈ (s.pc t).unsent a, s.Sent a d ∨ d ∈ pc.unsent a)
    (hleft : ∀ rest, pc.left = some rest → (s.pc t).left = some rest) :
    (s.moveTo t pc).Inv G :=
  { h with
    sent := fun c hc d hfate a ha ↦ by
      rcases h.sent c hc d hfate a ha with hsent | ⟨u, hu⟩
      · exact .inl hsent
      · by_cases hut : u = t
        · subst hut
          refine (hunsent a d hu).imp id fun hd ↦ ⟨u, ?_⟩
          rw [moveTo_self]
          exact hd
        · refine .inr ⟨u, ?_⟩
          rw [moveTo_ne s hut]
          exact hu
    left := fun u rest hu ↦ by
      by_cases hut : u = t
      · subst hut
        rw [moveTo_self] at hu
        exact h.left u rest (hleft rest hu)
      · rw [moveTo_ne s hut] at hu
        exact h.left u rest hu
    released := fun q front t before behind hnet ↦
      { h.released q front t before behind hnet with } }

/-- The diff of a region settles the changes to it, and the thread has the diff to send. -/
theorem Inv.capture (h : s.Inv G) {call : Call} {r : UInt32} {rest : List UInt32}
    (hpc : s.pc t = .ending call (r :: rest))
    (hfits : ∀ d ∈ (s.region r).pageDiffs G.pagesize, d.Fits) {region : Region}
    {payload : Option (List UInt8)}
    (hend : txEnd G.A G.pagesize call.all (s.region r) = .ok (region, payload)) :
    ((s.capture G r region (s.nextDiff r payload)).moveTo t
      (if payload.isSome then .sending call (s.nextDiff r payload) (G.peers r) rest
      else .ending call rest)).Inv G := by
  set pc : Pc := if payload.isSome then .sending call (s.nextDiff r payload) (G.peers r) rest
    else .ending call rest with hpcdef
  have hleft : pc.left = if call.all then some rest else none := by
    rw [hpcdef]
    split <;> rfl
  obtain rfl := txEnd_region hend
  have hset := h.setRegion (r := r) (fun hwf ↦ hwf.diffed) Region.diffed_size
  refine ⟨hset.wellFormed, hset.size, ?_, ?_, ?_, fun u ↦ ?_, fun u rest' hu ↦ ?_, ?_⟩
  · intro c' hc'
    obtain ⟨c, hc, rfl⟩ := List.mem_map.mp hc'
    rw [Change.region_settle]
    exact h.regions c hc
  · intro c' hc' d value hfate
    obtain ⟨c, hc, rfl⟩ := List.mem_map.mp hc'
    rw [Change.region_settle, Change.addr_settle]
    rcases Change.carried_of_settle hfate with hfate | ⟨rfl, rfl, hregion, hne⟩
    · exact h.carries c hc d value hfate
    · change c.region = r at hregion
      subst hregion
      exact (h.carries_nextDiff (h.regions c hc) hfits hend hne).2
  · intro c' hc' d hfate a ha
    obtain ⟨c, hc, rfl⟩ := List.mem_map.mp hc'
    rw [Change.region_settle] at ha
    rcases Change.diff_of_settle hfate with hfate | ⟨rfl, hregion, hne⟩
    · refine (h.sent c hc d hfate a ha).imp id fun ⟨u, hu⟩ ↦ ⟨u, ?_⟩
      have hut : u ≠ t := by
        rintro rfl
        rw [hpc] at hu
        cases hu
      exact (moveTo_ne _ hut _).symm ▸ hu
    · refine .inr ⟨t, ?_⟩
      change c.region = r at hregion
      subst hregion
      rw [moveTo_self, hpcdef, if_pos (h.carries_nextDiff (h.regions c hc) hfits hend hne).1]
      exact if_pos ha
  · change s.before u ≤ (s.changes.map _).length
    rw [List.length_map]
    exact h.before_le u
  · intro c' hc' ht hpending
    change c' ∈ (s.changes.map _).take (s.before u) at hc'
    rw [← List.map_take] at hc'
    obtain ⟨c, hc, rfl⟩ := List.mem_map.mp hc'
    rw [Change.thread_settle] at ht
    obtain ⟨hpending, hne⟩ := Change.pending_of_settle hpending
    rw [Change.region_settle]
    by_cases hut : u = t
    · subst hut
      rw [moveTo_self, hleft] at hu
      obtain ⟨hall, heq⟩ := Option.ite_none_right_eq_some.mp hu
      obtain rfl := Option.some.inj heq
      have hmem := h.left u (r :: rest) (by rw [hpc]; exact if_pos hall) c hc ht hpending
      exact (List.mem_cons.mp hmem).resolve_left hne
    · rw [moveTo_ne _ hut] at hu
      exact h.left u rest' hu c hc ht hpending
  · exact fun q front u before behind hnet ↦
      { (h.released q front u before behind hnet).capture r (s.region r).diffed
          (s.nextDiff r payload) with }

/-! ## The steps keep it -/

theorem inv_txBegin {r : UInt32} {addr : ℕ} (h : s.Inv G)
    (hst : step G s (.txBegin t r addr) = some s') : s'.Inv G := by
  obtain ⟨⟨-, -, haddr⟩, hst⟩ := Option.ite_none_right_eq_some.mp hst
  obtain rfl := Option.some.inj hst
  exact h.setRegion (fun hwf ↦ hwf.txBegin haddr) (Region.size_txBegin addr)

theorem inv_store {r : UInt32} {addr : ℕ} {value : UInt8} (h : s.Inv G)
    (hst : step G s (.store t r addr value) = some s') : s'.Inv G := by
  obtain ⟨⟨-, hr⟩, hst⟩ := Option.ite_none_right_eq_some.mp hst
  obtain ⟨region, hstore, rfl⟩ := Option.map_eq_some_iff.mp hst
  have hsize : region.size = (s.region r).size := by
    obtain ⟨-, -, rfl⟩ := Region.store_eq_some hstore
    rfl
  exact (h.setRegion (fun hwf ↦ hwf.store hstore) hsize).change hr t addr

theorem inv_handlePage {r : UInt32} {d : PageDiff} (h : s.Inv G)
    (hst : step G s (.handlePage r d) = some s') : s'.Inv G := by
  obtain ⟨-, hst⟩ := Option.ite_none_right_eq_some.mp hst
  obtain rfl := Option.some.inj hst
  exact h.setRegion (fun hwf ↦ hwf.applyPage) Region.size_applyPage

theorem inv_call {call : Call} (h : s.Inv G) (hst : step G s (.call t call) = some s') :
    s'.Inv G := by
  obtain ⟨⟨hpc, -⟩, hst⟩ := Option.ite_none_right_eq_some.mp hst
  obtain rfl := Option.some.inj hst
  have hne : ∀ {u}, u ≠ t → Function.update s.before t s.changes.length u = s.before u :=
    fun hu ↦ Function.update_of_ne hu _ _
  refine { h with sent := ?_, before_le := fun u ↦ ?_, left := fun u rest hu ↦ ?_, released := ?_ }
  · intro c hc d hfate a ha
    refine (h.sent c hc d hfate a ha).imp_right fun ⟨u, hu⟩ ↦ ⟨u, ?_⟩
    have hut : u ≠ t := by
      rintro rfl
      rw [hpc] at hu
      cases hu
    exact (moveTo_ne s hut _).symm ▸ hu
  · change Function.update s.before t s.changes.length u ≤ s.changes.length
    by_cases hut : u = t
    · rw [hut, Function.update_self]
    · rw [hne hut]
      exact h.before_le u
  · change ((s.moveTo t (.ending call (call.regions G))).pc u).left = some rest at hu
    change ∀ c ∈ s.changes.take (Function.update s.before t s.changes.length u), _
    by_cases hut : u = t
    · subst hut
      rw [moveTo_self] at hu
      obtain ⟨hall, heq⟩ := Option.ite_none_right_eq_some.mp hu
      obtain rfl := Option.some.inj heq
      intro c hc _ _
      rw [Call.regions_of_all hall]
      exact h.regions c (List.mem_of_mem_take hc)
    · rw [moveTo_ne s hut] at hu
      rw [hne hut]
      exact h.left u rest hu
  · exact fun q front u before behind hnet ↦ { h.released q front u before behind hnet with }

theorem inv_sendDiff (h : s.Inv G) (hst : step G s (.sendDiff t) = some s') : s'.Inv G := by
  rw [step] at hst
  cases hpc : s.pc t with
  | sending call d peers rest =>
      cases peers with
      | nil =>
          simp only [hpc] at hst
          obtain rfl := Option.some.inj hst
          refine h.moveTo (fun a d hd ↦ ?_) fun rest hrest ↦ ?_
          · simp [hpc, Pc.unsent] at hd
          · rw [hpc]
            exact hrest
      | cons q peers =>
          simp only [hpc] at hst
          obtain rfl := Option.some.inj hst
          have hpc' : (s.post q (.diff d)).pc t = .sending call d (q :: peers) rest := hpc
          have hpost : (s.post q (.diff d)).Inv G := h.post fun t before heq ↦ by cases heq
          refine hpost.moveTo (fun a d' hd ↦ ?_) fun rest hrest ↦ ?_
          · rw [hpc'] at hd
            obtain ⟨ha, heq⟩ := Option.ite_none_right_eq_some.mp hd
            obtain rfl := Option.some.inj heq
            rcases List.mem_cons.mp ha with rfl | ha
            · exact .inl (.inl (mem_post_self s a _))
            · exact .inr (if_pos ha)
          · rw [hpc']
            exact hrest
  | outside | ending | releasing => simp [hpc] at hst

theorem inv_endTx (h : s.Inv G) (hst : step G s (.endTx t) = some s') : s'.Inv G := by
  rw [step] at hst
  cases hpc : s.pc t with
  | ending call rest =>
      cases rest with
      | nil =>
          simp only [hpc] at hst
          obtain rfl := Option.some.inj hst
          refine h.moveTo (fun a d hd ↦ ?_) fun rest hrest ↦ ?_
          · rw [hpc] at hd
            cases hd
          · rw [hpc]
            exact Call.left_afterTx hrest
      | cons => simp [hpc] at hst
  | outside | sending | releasing => simp [hpc] at hst

theorem inv_sendRelease (h : s.Inv G) (hflushed : s.Flushed (.sendRelease t))
    (hst : step G s (.sendRelease t) = some s') : s'.Inv G := by
  rw [step] at hst
  cases hpc : s.pc t with
  | releasing peers =>
      cases peers with
      | nil =>
          simp only [hpc] at hst
          obtain rfl := Option.some.inj hst
          refine h.moveTo (fun a d hd ↦ ?_) fun rest hrest ↦ by cases hrest
          rw [hpc] at hd
          cases hd
      | cons q peers =>
          simp only [hpc] at hst
          obtain rfl := Option.some.inj hst
          have hpc' : (s.post q (.release t (s.before t))).pc t = .releasing (q :: peers) := hpc
          have hpost : (s.post q (.release t (s.before t))).Inv G := by
            refine h.post fun u before heq ↦ ?_
            cases heq
            exact h.release hpc hflushed
          refine hpost.moveTo (fun a d hd ↦ ?_) fun rest hrest ↦ ?_
          · rw [hpc'] at hd
            cases hd
          · rw [hpc']
            exact hrest
  | outside | ending | sending => simp [hpc] at hst

theorem inv_deliver (h : s.Inv G) (hst : step G s (.deliver q) = some s') : s'.Inv G := by
  rw [step] at hst
  cases hnet : s.net q with
  | nil => simp [hnet] at hst
  | cons m rest =>
      simp only [hnet] at hst
      obtain rfl := Option.some.inj hst
      cases m with
      | release t before => exact h.take hnet (fun a d hd ↦ hd) fun d heq ↦ by cases heq
      | diff d =>
          have hself : (s.handle q (.diff d)).applied q = s.applied q ++ [d] :=
            Function.update_self _ _ _
          refine h.take hnet (fun a d' hd ↦ ?_) fun d' heq ↦ ?_
          · by_cases haq : a = q
            · subst haq
              rw [hself]
              exact List.mem_append_left [d] hd
            · have hne : (s.handle q (.diff d)).applied a = s.applied a :=
                Function.update_of_ne haq _ _
              rw [hne]
              exact hd
          · cases heq
            rw [hself]
            exact List.mem_append_right _ (List.mem_singleton_self d)

theorem inv_diffRegion (h : s.Inv G) (hfits : s.FieldsFit G (.diffRegion t))
    (hst : step G s (.diffRegion t) = some s') : s'.Inv G := by
  rw [step] at hst
  cases hpc : s.pc t with
  | ending call rest =>
      cases rest with
      | nil => simp [hpc] at hst
      | cons r rest =>
          have hnext : r ∈ (s.pc t).nextRegion := by
            rw [hpc]
            rfl
          cases hend : txEnd G.A G.pagesize call.all (s.region r) with
          | error fault => simp [hpc, hend] at hst
          | ok result =>
              simp only [hpc, hend] at hst
              obtain rfl := Option.some.inj hst
              exact h.capture hpc (hfits r hnext) hend
  | outside | sending | releasing => simp [hpc] at hst

theorem inv_step {a : Action T} (h : s.Inv G) (hflushed : s.Flushed a) (hfits : s.FieldsFit G a)
    (hst : step G s a = some s') : s'.Inv G := by
  cases a with
  | txBegin t r addr => exact inv_txBegin h hst
  | store t r addr value => exact inv_store h hst
  | handlePage r d => exact inv_handlePage h hst
  | call t call => exact inv_call h hst
  | diffRegion t => exact inv_diffRegion h hfits hst
  | sendDiff t => exact inv_sendDiff h hst
  | endTx t => exact inv_endTx h hst
  | sendRelease t => exact inv_sendRelease h hflushed hst
  | deliver q => exact inv_deliver h hst

theorem inv_init (G : Setup) : (system T G).init.Inv G where
  wellFormed r hr := by
    obtain ⟨size, hget⟩ := G.get r hr
    exact (Region.wellFormed_regionGet hget).1
  size _ _ := rfl
  regions _ hc := by cases hc
  carries _ hc := by cases hc
  sent _ hc := by cases hc
  before_le _ := Nat.le_refl 0
  left _ _ hleft := by cases hleft
  released _ _ _ _ _ hnet := by simp [system] at hnet

end Threads

end State

/-- If no message of a call is sent to a peer while another thread has yet to send it a diff with
a change of the caller, then the diffs come before the messages that release them. -/
theorem ordered_of_flushed [DecidableEq T] {G : Setup} {s : State T}
    (h : (system T G).Reach (fun s a ↦ s.Flushed a ∧ s.FieldsFit G a) s) : s.Ordered G :=
  (h.invariant (State.Inv G) (State.inv_init G) fun _ hs ha hst ↦
    State.inv_step hs ha.1 ha.2 hst).ordered

instance {n : ℕ} (s : State (Fin n)) (a : Action (Fin n)) : Decidable (s.Flushed a) :=
  match a with
  | .sendRelease t => Option.decidableForallMem (s.pc t).receiver
  | .txBegin .. | .store .. | .handlePage .. | .call .. | .diffRegion _ | .sendDiff _ | .endTx _
  | .deliver _ => .isTrue trivial

instance (G : Setup) (s : State T) (a : Action T) : Decidable (s.FieldsFit G a) :=
  match a with
  | .diffRegion t => Option.decidableForallMem (s.pc t).nextRegion
  | .txBegin .. | .store .. | .handlePage .. | .call .. | .sendDiff _ | .endTx _ | .sendRelease _
  | .deliver _ => .isTrue trivial

/-- A region of two pages, and one peer. -/
def pair : Setup where
  A := .zeroed
  pagesize := 8
  regions := [1]
  region _ := Region.twoPages
  peers _ := [2]
  get _ _ := ⟨16, Region.regionGet_twoPages⟩

/-- The first call of `diff_region` finds one byte. -/
def firstDiff : RegionDiff := ⟨0, 1, encodeDiff 1 [⟨0, [⟨0, [5]⟩]⟩]⟩

/-- Thread 1 takes a diff with the store of thread 0 and sends it, and only then does the barrier
message of thread 0 go. -/
theorem ordered_of_flushed_two_threads :
    ∃ s, (system (Fin 2) pair).Reach (fun s a ↦ s.Flushed a ∧ s.FieldsFit pair a) s ∧
      s.net 2 = [.release 0 1] ∧ s.changes = [⟨0, 1, 0, .carried firstDiff 5⟩] ∧
        firstDiff ∈ s.applied 2 ∧ firstDiff.Carries pair 1 0 5 := by
  obtain ⟨s, hs, hend⟩ := (system (Fin 2) pair).exists_reach_of_exec
    (fun s a ↦ s.Flushed a ∧ s.FieldsFit pair a)
    [.txBegin 0 1 0, .store 0 1 0 5, .call 1 (.txEnd none), .diffRegion 1,
      .call 0 (.barrierNotify 7), .diffRegion 0, .endTx 0, .sendDiff 1, .sendRelease 0, .deliver 2]
    (fun s ↦ s.net 2 == [.release 0 1] && s.changes == [⟨0, 1, 0, .carried firstDiff 5⟩])
    (by decide +kernel)
  obtain ⟨hnet, hchanges⟩ : s.net 2 = [.release 0 1] ∧
      s.changes = [⟨0, 1, 0, .carried firstDiff 5⟩] := by simpa using hend
  have hmem : ⟨0, 1, 0, .carried firstDiff 5⟩ ∈ s.changes.take 1 := by simp [hchanges]
  refine ⟨s, hs, hnet, hchanges, ?_⟩
  rcases ordered_of_flushed hs 2 0 1 [] hnet _ hmem rfl (List.mem_singleton_self 2) with
    h | ⟨d, hd, value, heq, hcarries⟩
  · cases h
  · cases heq
    exact ⟨hd, hcarries⟩

/-- Thread 1 has taken a diff with the store of thread 0 when the barrier message of thread 0
goes. -/
theorem not_ordered :
    ∃ s, (system (Fin 2) pair).Reach (fun s a ↦ s.FieldsFit pair a) s ∧ ¬s.Ordered pair := by
  obtain ⟨s, hs, hend⟩ := (system (Fin 2) pair).exists_reach_of_exec (fun s a ↦ s.FieldsFit pair a)
    [.txBegin 0 1 0, .store 0 1 0 5, .call 1 (.txEnd none), .diffRegion 1,
      .call 0 (.barrierNotify 7), .diffRegion 0, .endTx 0, .sendRelease 0]
    (fun s ↦ s.net 2 == [.release 0 1] && s.changes == [⟨0, 1, 0, .carried firstDiff 5⟩] &&
      s.applied 2 == [])
    (by decide +kernel)
  obtain ⟨⟨hnet, hchanges⟩, happlied⟩ : (s.net 2 = [.release 0 1] ∧
      s.changes = [⟨0, 1, 0, .carried firstDiff 5⟩]) ∧ s.applied 2 = [] := by simpa using hend
  have hmem : ⟨0, 1, 0, .carried firstDiff 5⟩ ∈ s.changes.take 1 := by simp [hchanges]
  refine ⟨s, hs, fun hordered ↦ ?_⟩
  rcases hordered 2 0 1 [] hnet _ hmem rfl (List.mem_singleton_self 2) with h | ⟨d, hd, -⟩
  · cases h
  · rw [happlied] at hd
    cases hd

end Edsm.Memory.Release
