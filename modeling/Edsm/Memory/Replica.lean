import Edsm.Memory.Payload

/-!
# A node's copy of a region

The application of a node twins pages and writes to them and takes diffs, while
its listener handles the diffs of the others one page after the other.
-/

namespace Edsm.Memory

/-- A diff in transit. -/
structure Frame where
  payload : List UInt8
  /-- The pages as the sender meant them; no function reads this field. -/
  pages : List PageDiff

/-- The payload is the encoding of the pages. -/
structure Frame.Sound (pagesize size : ℕ) (f : Frame) : Prop where
  payload : ∃ ts, f.payload = encodeDiff ts f.pages
  length : f.payload.length < 2 ^ 32
  fits : ∀ d ∈ f.pages, d.Fits
  inside : ∀ d ∈ f.pages, d.Inside pagesize size

structure Replica where
  region : Region
  /-- The rest of the message that is being handled, and how many pages it has. -/
  receiving : Option (Reader × ℕ)
  /-- The same pages as the sender meant them; no function reads this field. -/
  rest : List PageDiff
  /-- The diffs sent, as their bytes say, and the diffs applied, in the order of the
  critical sections; no function reads this field. -/
  log : List (Patch ℕ UInt8)

namespace Replica

def initial (region : Region) : Replica := { region, receiving := none, rest := [], log := [] }

def txBegin (pagesize : ℕ) (s : Replica) (addr : ℕ) : Option Replica :=
  if addr < s.region.size then some { s with region := s.region.txBegin pagesize addr } else none

def store (pagesize : ℕ) (s : Replica) (addr : ℕ) (value : UInt8) : Option Replica :=
  (s.region.store pagesize addr value).map fun region ↦ { s with region }

/-- The listener is handed a message and reads up to its first page. -/
def receive (s : Replica) (payload : List UInt8) (pages : List PageDiff) : Option Replica :=
  match s.receiving, handleHeader s.region (.ofBytes payload) with
  | none, .ok (region, r, numDiffPages) =>
      some { s with region, receiving := some (r, numDiffPages), rest := pages }
  | _, _ => none

/-- The listener handles the next page, or returns after the last one. -/
def handlePage (pagesize : ℕ) (s : Replica) : Option Replica :=
  match s.receiving with
  | none => none
  | some (_, 0) => some { s with receiving := none }
  | some (r, n + 1) =>
      match Memory.handlePage pagesize s.region r with
      | .ok (region, r) => some
          { region
            receiving := some (r, n)
            rest := s.rest.tail
            log := s.log ++ (s.rest.head?.map (PageDiff.patch pagesize)).toList }
      | .error _ => none

/-- `edsm_memory_tx_end` and the payload it sends. -/
def txEnd (A : Allocator) (pagesize : ℕ) (all : Bool) (s : Replica) :
    Option (Replica × Option (List UInt8)) :=
  match Memory.txEnd A pagesize all s.region with
  | .ok (region, payload) => some
      ({ s with
        region
        log := s.log ++ (sentPages payload).map (PageDiff.patch pagesize) }, payload)
  | .error _ => none

/-- What the message of `txEnd` is in transit. -/
def frames (pagesize : ℕ) (s : Replica) (payload : Option (List UInt8)) : List Frame :=
  payload.toList.map fun payload ↦ { payload, pages := s.region.pageDiffs pagesize }

structure Valid (pagesize size : ℕ) (s : Replica) : Prop where
  wellFormed : s.region.WellFormed pagesize
  size_eq : s.region.size = size
  fits : ∀ d ∈ s.rest, d.Fits
  inside : ∀ d ∈ s.rest, d.Inside pagesize size
  idle : s.receiving = none → s.rest = []
  receiving : ∀ r n, s.receiving = some (r, n) → n = s.rest.length ∧
    ∃ head tail, r.msg.Layout head (s.rest.flatMap PageDiff.encode) tail

end Replica

variable {A : Allocator} {pagesize size : ℕ} {region : Region} {s s' : Replica}

namespace Replica

theorem valid_initial (hget : regionGet pagesize size = some region) :
    (initial region).Valid pagesize region.size := by
  obtain ⟨hwf, -, -⟩ := Region.wellFormed_regionGet hget
  exact ⟨hwf, rfl, by simp [initial], by simp [initial], fun _ ↦ rfl, by simp [initial]⟩

/-! ## The application -/

theorem txBegin_eq_some {addr : ℕ} (hst : s.txBegin pagesize addr = some s') :
    addr < s.region.size ∧ s' = { s with region := s.region.txBegin pagesize addr } := by
  unfold txBegin at hst
  split at hst
  · next haddr => exact ⟨haddr, (Option.some.inj hst).symm⟩
  · cases hst

theorem Valid.txBegin (h : s.Valid pagesize size) {addr : ℕ}
    (hst : s.txBegin pagesize addr = some s') : s'.Valid pagesize size := by
  obtain ⟨haddr, rfl⟩ := txBegin_eq_some hst
  exact ⟨h.wellFormed.txBegin haddr, (Region.size_txBegin addr).trans h.size_eq, h.fits,
    h.inside, h.idle, h.receiving⟩

theorem store_eq_some {addr : ℕ} {value : UInt8} (hst : s.store pagesize addr value = some s') :
    ∃ region, s.region.store pagesize addr value = some region ∧ s' = { s with region } := by
  obtain ⟨region, hstore, heq⟩ := Option.map_eq_some_iff.mp hst
  exact ⟨region, hstore, heq.symm⟩

theorem Valid.store (h : s.Valid pagesize size) {addr : ℕ} {value : UInt8}
    (hst : s.store pagesize addr value = some s') : s'.Valid pagesize size := by
  obtain ⟨region, hstore, rfl⟩ := store_eq_some hst
  refine ⟨h.wellFormed.store hstore, ?_, h.fits, h.inside, h.idle, h.receiving⟩
  obtain ⟨-, -, rfl⟩ := Region.store_eq_some hstore
  exact h.size_eq

theorem txEnd_eq_some {all : Bool} {payload : Option (List UInt8)}
    (hst : s.txEnd A pagesize all = some (s', payload)) :
    Memory.txEnd A pagesize all s.region = .ok (s.region.diffed, payload) ∧
      s' = { s with
        region := s.region.diffed
        log := s.log ++ (sentPages payload).map (PageDiff.patch pagesize) } := by
  unfold txEnd at hst
  split at hst
  · next region payload' hend =>
      obtain ⟨rfl, rfl⟩ := Prod.mk.inj (Option.some.inj hst)
      obtain rfl := txEnd_region hend
      exact ⟨hend, rfl⟩
  · cases hst

theorem Valid.txEnd (h : s.Valid pagesize size) {all : Bool} {payload : Option (List UInt8)}
    (hst : s.txEnd A pagesize all = some (s', payload)) : s'.Valid pagesize size := by
  obtain ⟨-, rfl⟩ := txEnd_eq_some hst
  exact ⟨h.wellFormed.diffed, Region.diffed_size.trans h.size_eq, h.fits, h.inside, h.idle,
    h.receiving⟩

section Fits

variable {all : Bool} {payload : Option (List UInt8)}
variable (hfits : ∀ d ∈ s.region.pageDiffs pagesize, d.Fits)
variable (hst : s.txEnd A pagesize all = some (s', payload))
include hfits hst

theorem payload_of_txEnd : payload = s.region.payload pagesize all ∧
    (encodeDiff (s.region.lamportTimestamp + 1) (s.region.pageDiffs pagesize)).length < 2 ^ 32 :=
  Memory.payload_of_txEnd hfits (txEnd_eq_some hst).1

theorem sentPages_of_txEnd : sentPages payload = s.region.pageDiffs pagesize :=
  Memory.sentPages_of_txEnd hfits (txEnd_eq_some hst).1

theorem Valid.frames (h : s.Valid pagesize size) :
    (∀ f ∈ s.frames pagesize payload, f.Sound pagesize size) ∧
      (s.frames pagesize payload).flatMap Frame.pages = s.region.pageDiffs pagesize := by
  obtain ⟨rfl, hlength⟩ := payload_of_txEnd hfits hst
  unfold Replica.frames Region.payload
  split
  · next hnone => simp [Region.pageDiffs, hnone.2]
  · refine ⟨?_, by simp⟩
    simp only [Option.toList_some, List.map_singleton, List.forall_mem_singleton]
    refine ⟨⟨_, rfl⟩, hlength, hfits, fun d hd ↦ ?_⟩
    obtain ⟨twin, hmem, rfl⟩ := List.mem_map.mp hd
    exact h.size_eq ▸ pageDiff_inside h.wellFormed hmem

end Fits

/-! ## The listener -/

theorem receive_spec {ts : UInt32} {pages : List PageDiff}
    (hlength : (encodeDiff ts pages).length < 2 ^ 32) (hidle : s.receiving = none) :
    ∃ msg head, s.receive (encodeDiff ts pages) pages = some { s with
        region := s.region.setLamportTimestamp ts
        receiving := some (⟨msg, 0⟩, pages.length)
        rest := pages } ∧
      msg.Layout head (pages.flatMap PageDiff.encode) [] := by
  have hcount : pages.length < 2 ^ 32 := by
    have hle := length_le_flatMap_encode pages
    rw [length_encodeDiff] at hlength
    omega
  have hbytes := Message.layout_ofBytes hlength
  rw [← List.append_nil (encodeDiff ts pages)] at hbytes
  obtain ⟨msg, head, hheader, hl⟩ := handleHeader_spec s.region hcount hbytes
  rw [List.append_nil] at hheader hl
  refine ⟨msg, head, ?_, hl⟩
  simp only [receive, hidle, hheader]

theorem receiving_of_receive {payload : List UInt8} {pages : List PageDiff}
    (hst : s.receive payload pages = some s') : s.receiving = none := by
  unfold receive at hst
  split at hst
  · next hidle _ => exact hidle
  · cases hst

theorem receive_eq_some {f : Frame} (hf : f.Sound pagesize size)
    (hst : s.receive f.payload f.pages = some s') :
    ∃ msg ts head, s' = { s with
        region := s.region.setLamportTimestamp ts
        receiving := some (⟨msg, 0⟩, f.pages.length)
        rest := f.pages } ∧
      msg.Layout head (f.pages.flatMap PageDiff.encode) [] := by
  obtain ⟨ts, hpayload⟩ := hf.payload
  rw [hpayload] at hst
  obtain ⟨msg, head, hreceive, hl⟩ :=
    receive_spec (hpayload ▸ hf.length) (receiving_of_receive hst)
  exact ⟨msg, ts, head, Option.some.inj (hst.symm.trans hreceive), hl⟩

theorem Valid.receive (h : s.Valid pagesize size) {f : Frame} (hf : f.Sound pagesize size)
    (hst : s.receive f.payload f.pages = some s') : s'.Valid pagesize size := by
  obtain ⟨msg, ts, head, rfl, hl⟩ := receive_eq_some hf hst
  refine ⟨h.wellFormed.setLamportTimestamp ts, h.size_eq, hf.fits, hf.inside, by simp, ?_⟩
  intro r n heq
  obtain ⟨rfl, rfl⟩ := by simpa using heq
  exact ⟨rfl, head, [], hl⟩

theorem Valid.next_page (h : s.Valid pagesize size) {r : Reader} {n : ℕ}
    (hreceiving : s.receiving = some (r, n + 1)) :
    ∃ d rest msg head tail, s.rest = d :: rest ∧ n = rest.length ∧
      Memory.handlePage pagesize s.region r =
        .ok (s.region.applyPage pagesize d, { r with msg }) ∧
      msg.Layout head (rest.flatMap PageDiff.encode) tail := by
  obtain ⟨hn, head, tail, hl⟩ := h.receiving r _ hreceiving
  cases hrest : s.rest with
  | nil => simp [hrest] at hn
  | cons d rest =>
      have hd : d ∈ s.rest := by simp [hrest]
      rw [hrest, List.flatMap_cons] at hl
      obtain ⟨msg, head', hpage, hl'⟩ := handlePage_spec h.wellFormed (h.fits d hd)
        (h.size_eq ▸ h.inside d hd) hl
      exact ⟨d, rest, msg, head', tail, rfl, by simpa [hrest] using hn, hpage, hl'⟩

theorem Valid.handlePage_cases (h : s.Valid pagesize size)
    (hst : s.handlePage pagesize = some s') :
    (s.rest = [] ∧ s' = { s with receiving := none }) ∨
      ∃ d rest msg failedReads head tail, s.rest = d :: rest ∧
        s' = { region := s.region.applyPage pagesize d
               receiving := some (⟨msg, failedReads⟩, rest.length)
               rest
               log := s.log ++ [d.patch pagesize] } ∧
        msg.Layout head (rest.flatMap PageDiff.encode) tail := by
  unfold handlePage at hst
  split at hst
  · cases hst
  · next r hreceiving =>
      have hzero := (h.receiving r 0 hreceiving).1
      exact .inl ⟨List.length_eq_zero_iff.mp hzero.symm, (Option.some.inj hst).symm⟩
  · next r n hreceiving =>
      obtain ⟨d, rest, msg, head, tail, hrest, rfl, hpage, hl⟩ := h.next_page hreceiving
      simp only [hpage, hrest, List.tail_cons, List.head?_cons, Option.map_some,
        Option.toList_some] at hst
      exact .inr ⟨d, rest, msg, r.failedReads, head, tail, hrest, (Option.some.inj hst).symm, hl⟩

theorem Valid.handlePage (h : s.Valid pagesize size) (hst : s.handlePage pagesize = some s') :
    s'.Valid pagesize size := by
  rcases h.handlePage_cases hst with ⟨hnil, rfl⟩ | ⟨d, rest, msg, k, head, tail, hrest, rfl, hl⟩
  · exact ⟨h.wellFormed, h.size_eq, h.fits, h.inside, fun _ ↦ hnil, by simp⟩
  · have hof : ∀ {d'}, d' ∈ rest → d' ∈ s.rest := fun hd' ↦ hrest ▸ List.mem_cons_of_mem d hd'
    refine ⟨h.wellFormed.applyPage, Region.size_applyPage.trans h.size_eq,
      fun d' hd' ↦ h.fits d' (hof hd'), fun d' hd' ↦ h.inside d' (hof hd'), by simp, ?_⟩
    intro r' n' heq
    obtain ⟨rfl, rfl⟩ := by simpa using heq
    exact ⟨rfl, head, tail, hl⟩

end Replica

end Edsm.Memory
