import Edsm.Group
import Edsm.Library.Channels
import Edsm.Memory.Replica

/-!
# The copies of all nodes

What the nodes of a group have of one region, with the diffs between them: as
the code keeps it, and as copies of one array with patches on their way.
-/

namespace Edsm.Memory

structure Network where
  node : UInt32 → Replica
  /-- Whose diff the listener of a node handles; no function reads this field. -/
  sender : UInt32 → UInt32
  net : Channels UInt32 Frame

namespace Network

def setNode (n : Network) (p : UInt32) (r : Replica) : Network :=
  { n with node := Function.update n.node p r }

/-- The pages from `q` that `p` has not handled, oldest first. -/
def inFlight (n : Network) (q p : UInt32) : List PageDiff :=
  (if n.sender p = q then (n.node p).rest else []) ++ (n.net q p).flatMap Frame.pages

def view (pagesize : ℕ) (n : Network) : Copies UInt32 ℕ UInt8 where
  value p := (n.node p).region.bytes
  known p := (n.node p).region.base pagesize
  flight q p := (n.inFlight q p).map (PageDiff.patch pagesize)

structure Sound (G : Group) (pagesize size : ℕ) (n : Network) : Prop where
  valid : ∀ p, (n.node p).Valid pagesize size
  frames : ∀ q p, ∀ f ∈ n.net q p, f.Sound pagesize size
  peer : ∀ q p, (n.view pagesize).flight q p ≠ [] → q ∈ G.ids ∧ q ≠ p

variable {G : Group} {A : Allocator} {pagesize size : ℕ} {region : Region}
variable {n : Network} {p q : UInt32} {r : Replica}

theorem node_setNode (n : Network) (p : UInt32) (r : Replica) (P : UInt32 → Replica → Prop)
    (hp : P p r) (h : ∀ q, P q (n.node q)) (q : UInt32) : P q ((n.setNode p r).node q) := by
  by_cases hq : q = p
  · subst hq
    simpa [setNode] using hp
  · simpa [setNode, hq] using h q

theorem rest_setNode (hrest : r.rest = (n.node p).rest) (a : UInt32) :
    ((n.setNode p r).node a).rest = (n.node a).rest :=
  node_setNode n p r (fun a r ↦ r.rest = (n.node a).rest) hrest (fun _ ↦ rfl) a

theorem flight_setNode (hrest : r.rest = (n.node p).rest) :
    ((n.setNode p r).view pagesize).flight = (n.view pagesize).flight := by
  funext q a
  simp only [view, inFlight, rest_setNode hrest]
  rfl

theorem flight_ne_nil (h : (n.node p).rest ≠ []) :
    (n.view pagesize).flight (n.sender p) p ≠ [] := by
  simp [view, inFlight, h]

variable (pagesize n p r) in
theorem value_setNode : ((n.setNode p r).view pagesize).value =
    Function.update (n.view pagesize).value p r.region.bytes :=
  Function.comp_update (fun r : Replica ↦ r.region.bytes) n.node p r

variable (pagesize n p r) in
theorem known_setNode : ((n.setNode p r).view pagesize).known =
    Function.update (n.view pagesize).known p (r.region.base pagesize) :=
  Function.comp_update (fun r : Replica ↦ r.region.base pagesize) n.node p r

/-! ## The start -/

/-- Every node has the zeroed region and nothing has been sent. -/
def initial (region : Region) : Network := ⟨fun _ ↦ .initial region, fun _ ↦ 0, .empty⟩

theorem view_initial (hget : regionGet pagesize size = some region) :
    (initial region).view pagesize = ⟨fun _ _ ↦ 0, fun _ _ ↦ 0, fun _ _ ↦ []⟩ := by
  have hbytes : region.bytes = fun _ ↦ 0 := (Region.wellFormed_regionGet hget).2.2
  have hbase : region.base pagesize = fun _ ↦ 0 :=
    (Region.base_of_twins_eq_nil (Region.twins_regionGet hget)).trans hbytes
  have hflight : ∀ q p, (initial region).inFlight q p = [] := by
    intro q p
    unfold inFlight
    split <;> rfl
  ext1
  · exact funext fun _ ↦ hbytes
  · exact funext fun _ ↦ hbase
  · funext q p
    exact congrArg (List.map (PageDiff.patch pagesize)) (hflight q p)

theorem sound_initial (hget : regionGet pagesize size = some region) :
    (initial region).Sound G pagesize region.size where
  valid _ := Replica.valid_initial hget
  frames _ _ _ hf := absurd hf List.not_mem_nil
  peer q p hne := by
    rw [view_initial hget] at hne
    exact absurd rfl hne

/-! ## The application -/

theorem view_txBegin {addr : ℕ} (hst : (n.node p).txBegin pagesize addr = some r) :
    (n.setNode p r).view pagesize = n.view pagesize := by
  obtain ⟨-, rfl⟩ := Replica.txBegin_eq_some hst
  ext1
  · rw [value_setNode]
    exact Function.update_eq_self_iff.mpr (Region.bytes_txBegin addr)
  · rw [known_setNode]
    exact Function.update_eq_self_iff.mpr (Region.base_txBegin addr)
  · exact flight_setNode rfl

theorem Sound.txBegin (h : n.Sound G pagesize size) {addr : ℕ}
    (hst : (n.node p).txBegin pagesize addr = some r) : (n.setNode p r).Sound G pagesize size where
  valid := node_setNode n p r (fun _ r ↦ r.Valid pagesize size) ((h.valid p).txBegin hst) h.valid
  frames := h.frames
  peer := by
    rw [view_txBegin hst]
    exact h.peer

theorem view_store (h : n.Sound G pagesize size) {addr : ℕ} {value : UInt8}
    (hst : (n.node p).store pagesize addr value = some r) :
    (n.setNode p r).view pagesize = (n.view pagesize).write p addr value := by
  obtain ⟨region, hstore, rfl⟩ := Replica.store_eq_some hst
  ext1
  · rw [value_setNode]
    obtain ⟨-, -, rfl⟩ := Region.store_eq_some hstore
    rfl
  · rw [known_setNode]
    exact Function.update_eq_self_iff.mpr ((h.valid p).wellFormed.base_store hstore)
  · exact flight_setNode rfl

theorem Sound.store (h : n.Sound G pagesize size) {addr : ℕ} {value : UInt8}
    (hst : (n.node p).store pagesize addr value = some r) :
    (n.setNode p r).Sound G pagesize size where
  valid := node_setNode n p r (fun _ r ↦ r.Valid pagesize size) ((h.valid p).store hst) h.valid
  frames := h.frames
  peer := by
    rw [view_store h hst]
    exact h.peer

section TxEnd

variable {all : Bool} {payload : Option (List UInt8)} {net : Channels UInt32 Frame}
variable (h : n.Sound G pagesize size) (hfits : ∀ d ∈ (n.node p).region.pageDiffs pagesize, d.Fits)
variable (hst : (n.node p).txEnd A pagesize all = some (r, payload))
variable (hnet : ∀ a b, net a b = if a = p ∧ b ∈ G.peers p then
  n.net a b ++ (n.node p).frames pagesize payload else n.net a b)
include h hfits hst hnet

theorem view_txEnd : ({ n.setNode p r with net } : Network).view pagesize =
    (n.view pagesize).publish p (G.peers p)
      (((n.node p).region.pageDiffs pagesize).map (PageDiff.patch pagesize)) := by
  obtain ⟨-, hpages⟩ := (h.valid p).frames hfits hst
  obtain ⟨-, hr⟩ := Replica.txEnd_eq_some hst
  have hrest : r.rest = (n.node p).rest := by rw [hr]
  have hbytes : r.region.bytes = (n.node p).region.bytes := by rw [hr, Region.diffed_bytes]
  have hbase : r.region.base pagesize = (n.node p).region.bytes := by
    rw [hr, Region.base_of_twins_eq_nil Region.diffed_twins, Region.diffed_bytes]
  ext1
  · exact (value_setNode pagesize n p r).trans (Function.update_eq_self_iff.mpr hbytes)
  · exact (known_setNode pagesize n p r).trans (congrArg (Function.update _ p) hbase)
  · funext q a
    simp only [view, inFlight, Copies.publish, rest_setNode hrest, hnet]
    by_cases hqa : q = p ∧ a ∈ G.peers p
    · rw [if_pos hqa, if_pos hqa, List.flatMap_append, hpages, ← List.append_assoc,
        List.map_append]
      rfl
    · rw [if_neg hqa, if_neg hqa]
      rfl

theorem Sound.txEnd (hp : p ∈ G.ids) :
    ({ n.setNode p r with net } : Network).Sound G pagesize size := by
  have hview := view_txEnd h hfits hst hnet
  refine ⟨node_setNode n p r (fun _ r ↦ r.Valid pagesize size) ((h.valid p).txEnd hst) h.valid,
    fun a b f hf ↦ ?_, fun a b hne ↦ ?_⟩
  · change f ∈ net a b at hf
    rw [hnet] at hf
    split at hf
    · exact (List.mem_append.mp hf).elim (h.frames a b f) (((h.valid p).frames hfits hst).1 f)
    · exact h.frames a b f hf
  · rw [hview] at hne
    simp only [Copies.publish] at hne
    split at hne
    · next hab =>
        have hb := (G.mem_peers p hp b).mp hab.2
        exact ⟨hab.1 ▸ hp, hab.1 ▸ hb.2.symm⟩
    · exact h.peer a b hne

end TxEnd

/-! ## The listener -/

section Receive

variable {f : Frame} {fs : List Frame}

theorem view_receive (h : n.Sound G pagesize size) (hcons : n.net q p = f :: fs)
    (hst : (n.node p).receive f.payload f.pages = some r) :
    ({ n.setNode p r with
        sender := Function.update n.sender p q
        net := n.net.set q p fs } : Network).view pagesize = n.view pagesize := by
  have hidle := (h.valid p).idle (Replica.receiving_of_receive hst)
  obtain ⟨msg, ts, head, hr, -⟩ :=
    Replica.receive_eq_some (h.frames q p f (by simp [hcons])) hst
  ext1
  · exact (value_setNode pagesize n p r).trans (Function.update_eq_self_iff.mpr (by rw [hr]; rfl))
  · exact (known_setNode pagesize n p r).trans (Function.update_eq_self_iff.mpr (by rw [hr]; rfl))
  · funext a b
    refine congrArg (List.map _) ?_
    by_cases hb : b = p
    · subst hb
      by_cases ha : a = q
      · subst ha
        simp only [inFlight, setNode, Function.update_self, Channels.set_self, if_true, hidle,
          ite_self, List.nil_append]
        rw [hcons, hr, List.flatMap_cons]
      · simp [inFlight, Channels.set_apply, ha, Ne.symm ha, hidle]
    · simp [inFlight, setNode, Channels.set_apply, hb]

theorem Sound.receive (h : n.Sound G pagesize size) (hcons : n.net q p = f :: fs)
    (hst : (n.node p).receive f.payload f.pages = some r) :
    ({ n.setNode p r with
        sender := Function.update n.sender p q
        net := n.net.set q p fs } : Network).Sound G pagesize size where
  valid := node_setNode n p r (fun _ r ↦ r.Valid pagesize size)
    ((h.valid p).receive (h.frames q p f (by simp [hcons])) hst) h.valid
  frames a b f' hf' := by
    simp only [Channels.set_apply] at hf'
    split at hf'
    · next hab =>
        refine h.frames a b f' ?_
        rw [hab.1, hab.2, hcons]
        exact List.mem_cons_of_mem f hf'
    · exact h.frames a b f' hf'
  peer := by
    rw [view_receive h hcons hst]
    exact h.peer

end Receive

/-- The listener returns and nothing has changed, or it has applied the oldest page. -/
theorem view_handlePage (hpos : 0 < pagesize) (h : n.Sound G pagesize size)
    (hst : (n.node p).handlePage pagesize = some r) :
    (n.setNode p r).view pagesize = n.view pagesize ∨
      ∃ d rest, (n.node p).rest = d :: rest ∧
        (n.view pagesize).flight (n.sender p) p = d.patch pagesize ::
          (rest ++ (n.net (n.sender p) p).flatMap Frame.pages).map (PageDiff.patch pagesize) ∧
        (n.setNode p r).view pagesize = (n.view pagesize).deliver (n.sender p) p (d.patch pagesize)
          ((rest ++ (n.net (n.sender p) p).flatMap Frame.pages).map (PageDiff.patch pagesize)) := by
  rcases (h.valid p).handlePage_cases hst with ⟨-, hr⟩ | ⟨d, rest, msg, k, head, tail, hrest, hr, -⟩
  · left
    ext1
    · exact (value_setNode pagesize n p r).trans (Function.update_eq_self_iff.mpr (by rw [hr]; rfl))
    · exact (known_setNode pagesize n p r).trans (Function.update_eq_self_iff.mpr (by rw [hr]; rfl))
    · exact flight_setNode (by rw [hr])
  · have hd : d ∈ (n.node p).rest := by simp [hrest]
    refine .inr ⟨d, rest, hrest, by simp [view, inFlight, hrest], ?_⟩
    ext1
    · refine (value_setNode pagesize n p r).trans (congrArg (Function.update _ p) ?_)
      rw [hr]
      exact Region.bytes_applyPage
    · refine (known_setNode pagesize n p r).trans (congrArg (Function.update _ p) ?_)
      rw [hr]
      exact Region.base_applyPage hpos ((h.valid p).inside d hd).aligned
    · funext a b
      simp only [view, Copies.deliver]
      by_cases hb : b = p
      · subst hb
        by_cases ha : a = n.sender b
        · subst ha
          simp [inFlight, setNode, hr]
        · simp [inFlight, setNode, ha, Ne.symm ha]
      · simp [inFlight, setNode, hb]

theorem Sound.handlePage (hpos : 0 < pagesize) (h : n.Sound G pagesize size)
    (hst : (n.node p).handlePage pagesize = some r) : (n.setNode p r).Sound G pagesize size where
  valid := node_setNode n p r (fun _ r ↦ r.Valid pagesize size)
    ((h.valid p).handlePage hst) h.valid
  frames := h.frames
  peer a b hne := by
    rcases view_handlePage hpos h hst with hview | ⟨d, rest, -, hcons, hview⟩
    · exact h.peer a b (hview ▸ hne)
    · rw [hview] at hne
      obtain ⟨f, hf⟩ := List.exists_mem_of_ne_nil _ hne
      exact h.peer a b (List.ne_nil_of_mem (Copies.mem_flight_deliver hcons hf))

end Network

end Edsm.Memory
