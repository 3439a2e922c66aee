import Edsm.Library.Reachability
import Edsm.Memory.Replica

/-!
# The runs of one region

In whatever order the application and the listener take their critical sections,
a page is writable exactly as long as it has a twin, and the region without the
writes that no diff has taken yet is what the bytes of the diffs say.
-/

namespace Edsm.Memory

/-- A diff for a region of this size. -/
structure RemoteDiff (pagesize size : ℕ) where
  lamportTimestamp : UInt32
  pages : List PageDiff
  fits : ∀ d ∈ pages, d.Fits
  inside : ∀ d ∈ pages, d.Inside pagesize size
  length : (encodeDiff lamportTimestamp pages).length < 2 ^ 32

inductive RegionAction (pagesize size : ℕ)
  | txBegin (addr : ℕ)
  | store (addr : ℕ) (value : UInt8)
  | receive (d : RemoteDiff pagesize size)
  | handlePage
  /-- For one region or for all. -/
  | txEnd (all : Bool)

def regionStep (A : Allocator) (pagesize size : ℕ) (s : Replica) :
    RegionAction pagesize size → Option Replica
  | .txBegin addr => s.txBegin pagesize addr
  | .store addr value => s.store pagesize addr value
  | .receive d => s.receive (encodeDiff d.lamportTimestamp d.pages) d.pages
  | .handlePage => s.handlePage pagesize
  | .txEnd all => (s.txEnd A pagesize all).map Prod.fst

def regionSystem (A : Allocator) (pagesize : ℕ) (region : Region) :
    LabelledSystem Replica (RegionAction pagesize region.size) where
  init := .initial region
  step := regionStep A pagesize region.size

variable {A : Allocator} {pagesize size : ℕ} {s s' : Replica} {region : Region}

theorem valid_regionStep (h : s.Valid pagesize size) {a : RegionAction pagesize size}
    (hst : regionStep A pagesize size s a = some s') : s'.Valid pagesize size := by
  cases a with
  | txBegin addr => exact h.txBegin hst
  | store addr value => exact h.store hst
  | receive d => exact h.receive (f := ⟨_, d.pages⟩) ⟨⟨_, rfl⟩, d.length, d.fits, d.inside⟩ hst
  | handlePage => exact h.handlePage hst
  | txEnd all =>
      obtain ⟨⟨s₁, payload⟩, hend, rfl⟩ := Option.map_eq_some_iff.mp hst
      exact h.txEnd hend

theorem valid_of_reach {ok : Replica → RegionAction pagesize region.size → Prop}
    (hget : regionGet pagesize size = some region)
    (h : (regionSystem A pagesize region).Reach ok s) : s.Valid pagesize region.size :=
  h.invariant (Replica.Valid pagesize region.size) (Replica.valid_initial hget) fun _ ih _ hst ↦
    valid_regionStep ih hst

/-- The listener finds every page it has to write to as it needs it. -/
theorem handlePage_does_not_fault (hget : regionGet pagesize size = some region)
    (h : (regionSystem A pagesize region).Reachable s) {r : Reader} {n : ℕ}
    (hreceiving : s.receiving = some (r, n + 1)) :
    ∃ region' r', handlePage pagesize s.region r = .ok (region', r') := by
  obtain ⟨d, rest, msg, head, tail, -, -, hpage, -⟩ :=
    (valid_of_reach hget h).next_page hreceiving
  exact ⟨_, _, hpage⟩

/-- One twin at most for a page and only for pages of the region; a page is writable
if and only if it has a twin. -/
theorem twins_of_reachable (hget : regionGet pagesize size = some region)
    (h : (regionSystem A pagesize region).Reachable s) :
    (s.region.heads.Nodup ∧
      ∀ head ∈ s.region.heads, pagesize ∣ head ∧ head + pagesize ≤ s.region.size) ∧
    ∀ head, pagesize ∣ head → head < s.region.size →
      (s.region.writable head = true ↔ head ∈ s.region.heads) := by
  have hwf := (valid_of_reach hget h).wellFormed
  exact ⟨⟨hwf.nodup, fun head hhead ↦ ⟨hwf.aligned head hhead,
    hwf.page_inside (hwf.aligned head hhead) (hwf.inside head hhead)⟩⟩, hwf.writable⟩

/-! ## What the diffs say -/

/-- The twin of a page, or the page itself if it has none, is the zero page with the diffs. -/
def Logged (pagesize : ℕ) (s : Replica) : Prop :=
  s.region.base pagesize = Patch.applyAll s.log fun _ ↦ 0

/-- No diff is taken one of whose numbers does not fit into its field. -/
def FieldsFit (pagesize : ℕ) (s : Replica) : RegionAction pagesize size → Prop
  | .txEnd _ => ∀ d ∈ s.region.pageDiffs pagesize, d.Fits
  | _ => True

instance (pagesize : ℕ) (s : Replica) :
    (a : RegionAction pagesize size) → Decidable (FieldsFit pagesize s a)
  | .txEnd _ => inferInstanceAs (Decidable (∀ d ∈ s.region.pageDiffs pagesize, d.Fits))
  | .txBegin _ | .store .. | .receive _ | .handlePage => inferInstanceAs (Decidable True)

theorem logged_regionStep (hpos : 0 < pagesize) (hvalid : s.Valid pagesize size)
    (h : Logged pagesize s) {a : RegionAction pagesize size} (ha : FieldsFit pagesize s a)
    (hst : regionStep A pagesize size s a = some s') : Logged pagesize s' := by
  unfold Logged at h ⊢
  cases a with
  | txBegin addr =>
      obtain ⟨-, rfl⟩ := Replica.txBegin_eq_some hst
      rw [Region.base_txBegin, h]
  | store addr value =>
      obtain ⟨region, hstore, rfl⟩ := Replica.store_eq_some hst
      rw [hvalid.wellFormed.base_store hstore, h]
  | receive d =>
      obtain ⟨msg, ts, head, rfl, -⟩ := Replica.receive_eq_some (f := ⟨_, d.pages⟩)
        ⟨⟨_, rfl⟩, d.length, d.fits, d.inside⟩ hst
      exact h
  | handlePage =>
      rcases hvalid.handlePage_cases hst with
        ⟨-, rfl⟩ | ⟨d, rest, msg, k, head, tail, hrest, rfl, -⟩
      · exact h
      · have hd : d ∈ s.rest := by simp [hrest]
        rw [Region.base_applyPage hpos (hvalid.inside d hd).aligned, h, Patch.applyAll_append]
        rfl
  | txEnd all =>
      obtain ⟨⟨s₁, payload⟩, hend, rfl⟩ := Option.map_eq_some_iff.mp hst
      have hsent := Replica.sentPages_of_txEnd ha hend
      obtain ⟨-, rfl⟩ := Replica.txEnd_eq_some hend
      rw [hsent, Region.base_diffed hvalid.wellFormed hpos, h, ← Patch.applyAll_append]

/-- While every field is wide enough, the bytes without the writes since the last diff are
those of the diffs. -/
theorem twins_and_protection (hget : regionGet pagesize size = some region)
    (h : (regionSystem A pagesize region).Reach (FieldsFit pagesize) s) :
    (s.region.heads.Nodup ∧
      ∀ head ∈ s.region.heads, pagesize ∣ head ∧ head + pagesize ≤ s.region.size) ∧
    (∀ head, pagesize ∣ head → head < s.region.size →
      (s.region.writable head = true ↔ head ∈ s.region.heads)) ∧
    s.region.base pagesize = Patch.applyAll s.log fun _ ↦ 0 := by
  obtain ⟨hheads, hwritable⟩ := twins_of_reachable hget h.reachable
  refine ⟨hheads, hwritable, h.invariant (Logged pagesize) ?_ fun hs ih ha hst ↦ ?_⟩
  · exact (Region.base_of_twins_eq_nil (Region.twins_regionGet hget)).trans
      (Region.wellFormed_regionGet hget).2.2
  · exact logged_regionStep (Region.wellFormed_regionGet hget).2.1
      (valid_of_reach hget hs) ih ha hst

/-- One byte of the second page. -/
def remoteByte : RemoteDiff 8 Region.twoPages.size where
  lamportTimestamp := 1
  pages := [⟨8, [⟨2, [6]⟩]⟩]
  fits d hd := by
    obtain rfl := List.mem_singleton.mp hd
    constructor <;> simp
  inside d hd := by
    obtain rfl := List.mem_singleton.mp hd
    constructor <;> simp [Region.twoPages]
  length := by decide

/-- A node writes to a page, handles a diff for the same page and sends its own. -/
theorem twins_and_protection_two_diffs :
    ∃ s : Replica, (s.region.bytes 9 = 5 ∧ s.region.bytes 10 = 6 ∧ s.region.heads = [] ∧
        s.log.length = 2) ∧
      s.region.base 8 = Patch.applyAll s.log fun _ ↦ 0 := by
  obtain ⟨s, hs, hp⟩ := LabelledSystem.exists_reach_of_exec (regionSystem .zeroed 8 Region.twoPages)
    (FieldsFit 8) [.txBegin 9, .store 9 5, .receive remoteByte, .handlePage, .handlePage,
      .txEnd true]
    (fun s ↦ s.region.bytes 9 = 5 ∧ s.region.bytes 10 = 6 ∧ s.region.heads = [] ∧
      s.log.length = 2) (by decide +kernel)
  exact ⟨s, by simpa using hp, (twins_and_protection Region.regionGet_twoPages hs).2.2⟩

/-- The diff of the last page of a region of more than 4 GiB says that it is one of page 0. -/
theorem not_logged :
    regionGet 4096 (2 ^ 32 + 4096) = some .huge ∧
    ∃ s : Replica, (regionSystem .zeroed 4096 .huge).Reachable s ∧
      (s.region.base 4096 (2 ^ 32) = 7 ∧ s.log.length = 1) ∧
      ¬ s.region.base 4096 = Patch.applyAll s.log fun _ ↦ 0 := by
  refine ⟨rfl, ?_⟩
  obtain ⟨s, hs, hp⟩ := LabelledSystem.exists_reach_of_exec (regionSystem .zeroed 4096 .huge)
    LabelledSystem.anyStep [.txBegin (2 ^ 32), .store (2 ^ 32) 7, .txEnd true]
    (fun s ↦ s.region.base 4096 (2 ^ 32) = 7 ∧ s.log.length = 1 ∧
      Patch.applyAll s.log (fun _ ↦ 0) (2 ^ 32) = 0) (by decide +kernel)
  obtain ⟨hbase, hlog, hsaid⟩ := of_decide_eq_true hp
  refine ⟨s, hs, ⟨hbase, hlog⟩, fun heq ↦ ?_⟩
  rw [heq, hsaid] at hbase
  cases hbase

end Edsm.Memory
