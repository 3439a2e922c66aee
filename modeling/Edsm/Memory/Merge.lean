import Edsm.Memory.Decode

/-!
# A remote diff on a page with unsent changes

The diff goes to the page and to its twin.  What the node has still to send of the page is where
the two differ, so the diff takes out of it the bytes that it covers and adds none.
-/

namespace Edsm.Memory

variable {pagesize : ℕ}

/-- What the node has still to send of a page. -/
def unsent (pagesize : ℕ) (page twinData : ℕ → UInt8) : Patch ℕ UInt8 := fun i ↦
  if i < pagesize ∧ page i ≠ twinData i then some (page i) else none

theorem pageDiff_pagePatch (region : Region) (twin : PageTwin) :
    (pageDiff pagesize region twin).pagePatch =
      unsent pagesize (region.page twin.originalPageHead) twin.twinData :=
  funext fun i ↦ join_sectionsOf _ _ pagesize i

/-- What is covered is not sent any more; the rest keeps its local values. -/
theorem unsent_apply (f : Patch ℕ UInt8) (page twinData : ℕ → UInt8) (i : ℕ) :
    unsent pagesize (f.apply page) (f.apply twinData) i =
      if f i = none then unsent pagesize page twinData i else none := by
  unfold unsent
  simp only [Patch.apply_ne_apply_iff]
  by_cases hnone : f i = none
  · simp [hnone, Patch.apply_of_eq_none hnone]
  · simp [hnone]

theorem unsent_congr {page page' twinData : ℕ → UInt8} (h : ∀ i < pagesize, page i = page' i) :
    unsent pagesize page twinData = unsent pagesize page' twinData := by
  funext i
  unfold unsent
  by_cases hi : i < pagesize
  · rw [h i hi]
  · simp [hi]

namespace Region

variable {region : Region} {d : PageDiff} {twin : PageTwin}

theorem page_applyPage {i : ℕ} (hi : i < pagesize) :
    (region.applyPage pagesize d).page d.pageOffset i =
      d.pagePatch.apply (region.page d.pageOffset) i := by
  have hin : d.pageOffset ≤ d.pageOffset + i ∧ d.pageOffset + i < d.pageOffset + pagesize := by
    omega
  unfold page
  rw [bytes_applyPage]
  simp [Patch.apply, PageDiff.patch, hi]

theorem findTwin_applyPage_self (pagesize : ℕ) (htwin : region.findTwin d.pageOffset = some twin) :
    (region.applyPage pagesize d).findTwin d.pageOffset =
      some { twin with twinData := d.pagePatch.apply twin.twinData } := by
  have hhead : twin.originalPageHead = d.pageOffset := by
    simpa using List.find?_some htwin
  rw [findTwin_applyPage, htwin, Option.map_some, if_pos hhead]

/-- The next diff of the region has one page for each twin; this is the one of a given twin. -/
theorem exists_pageDiff (pagesize : ℕ) (hnodup : region.heads.Nodup) (hmem : twin ∈ region.twins) :
    ∃ before after, region.pageDiffs pagesize =
        before ++ pageDiff pagesize region twin :: after ∧
      ∀ e ∈ before ++ after, e.pageOffset ≠ twin.originalPageHead := by
  obtain ⟨twins₁, twins₂, htwins⟩ := List.append_of_mem hmem
  refine ⟨twins₁.map (pageDiff pagesize region), twins₂.map (pageDiff pagesize region), ?_, ?_⟩
  · rw [pageDiffs, htwins, List.map_append, List.map_cons]
  · rw [heads, htwins, List.map_append, List.map_cons, List.nodup_middle, List.nodup_cons,
      ← List.map_append] at hnodup
    rw [← List.map_append]
    intro e he heq
    obtain ⟨twin', htwin', rfl⟩ := List.mem_map.mp he
    exact hnodup.1 (List.mem_map.mpr ⟨twin', htwin', heq⟩)

/-- Whatever message it is appended to, the next diff of the region has one page at this offset,
which changes these bytes; it is taken if the allocations succeed. -/
def NextDiff (pagesize : ℕ) (region : Region) (pageOffset : ℕ) (f : Patch ℕ UInt8) : Prop :=
  ∀ A msg, Message.WellFormed msg → (diffRegion A pagesize region msg).Meets
    (A.Grants (msg.headSize.toNat + msg.dataSize.toNat + (8 + 11 * region.size)))
    fun result ↦ ∃ ts before d after,
      result.2.1.bytes = msg.bytes ++ encodeDiff ts (before ++ d :: after) ∧
        d.pageOffset = pageOffset ∧ (∀ e ∈ before ++ after, e.pageOffset ≠ pageOffset) ∧
        d.pagePatch = f

theorem nextDiff_of_findTwin (hpos : 0 < pagesize) (hpagesize : pagesize ≤ 2 ^ 16)
    (hregion : region.WellFormed pagesize) {head : ℕ} (htwin : region.findTwin head = some twin) :
    region.NextDiff pagesize head (unsent pagesize (region.page head) twin.twinData) := by
  intro A msg hwf
  obtain ⟨hmem, rfl⟩ := (findTwin_eq_some hregion.nodup).mp htwin
  obtain ⟨_, _, hl⟩ := hwf.layout
  have hlength := hregion.length_encodeDiff_le hpos (region.lamportTimestamp + 1)
  refine ((diffRegion_meets (A := A) hl fun t _ ↦ countsFit_of_le hpagesize).of_imp
    fun hgrants ↦ hgrants.mono ?_).mono ?_
  · rintro result ⟨msg', tail', rfl, hl'⟩
    obtain ⟨before, after, hpages, hothers⟩ := exists_pageDiff pagesize hregion.nodup hmem
    refine ⟨region.lamportTimestamp + 1, before, _, after, ?_, rfl, hothers,
      pageDiff_pagePatch region twin⟩
    rw [← hpages]
    exact hl'.bytes_eq
  · rw [← hl.headSize, ← hl.dataSize]
    exact Nat.add_le_add_left hlength _

theorem findTwin_txBegin {head : ℕ} (haligned : pagesize ∣ head)
    (htwin : region.findTwin head = none) :
    (region.txBegin pagesize head).findTwin head = some ⟨head, region.page head⟩ := by
  have hhead : pageHead pagesize head = head := by
    rw [pageHead, Nat.mod_eq_zero_of_dvd haligned, Nat.sub_zero]
  rw [← hhead] at htwin
  rw [txBegin_of_none htwin, hhead]
  simp [findTwin, twinPage, protect]

end Region

/-- A remote diff of a page with a twin goes to the page and to the twin, and the next diff of
the region has of that page what was unsent before and is not covered, with its local values; on
a page without a twin it has the same effect as on that page with a twin that is a copy of it. -/
theorem remote_diff_merges {region : Region} {d : PageDiff} (hpos : 0 < pagesize)
    (hpagesize : pagesize ≤ 2 ^ 16) (hregion : region.WellFormed pagesize) (hfits : d.Fits)
    (hinside : d.Inside pagesize region.size) {r : Reader} {head bytes tail : List UInt8}
    (h : r.msg.Layout head (d.encode ++ bytes) tail) :
    (∀ twin, region.findTwin d.pageOffset = some twin →
      ∃ region' msg', handlePage pagesize region r = .ok (region', { r with msg := msg' }) ∧
        region'.size = region.size ∧
        (∀ i < pagesize, region'.page d.pageOffset i =
          d.pagePatch.apply (region.page d.pageOffset) i) ∧
        region'.findTwin d.pageOffset =
          some { twin with twinData := d.pagePatch.apply twin.twinData } ∧
        region'.NextDiff pagesize d.pageOffset fun i ↦
          if d.pagePatch i = none then
            unsent pagesize (region.page d.pageOffset) twin.twinData i
          else none) ∧
    (region.findTwin d.pageOffset = none →
      ∃ region' region'' msg' msg'', handlePage pagesize region r =
          .ok (region', { r with msg := msg' }) ∧
        (region.txBegin pagesize d.pageOffset).findTwin d.pageOffset =
          some ⟨d.pageOffset, region.page d.pageOffset⟩ ∧
        handlePage pagesize (region.txBegin pagesize d.pageOffset) r =
          .ok (region'', { r with msg := msg'' }) ∧
        ∀ i < pagesize, region'.page d.pageOffset i = region''.page d.pageOffset i) := by
  obtain ⟨msg', head', hpage, -⟩ := handlePage_spec hregion hfits hinside h
  constructor
  · intro twin htwin
    have htwin' := Region.findTwin_applyPage_self pagesize htwin
    have hnext := Region.nextDiff_of_findTwin hpos hpagesize (hregion.applyPage (d := d)) htwin'
    rw [unsent_congr fun i hi ↦ Region.page_applyPage hi] at hnext
    refine ⟨_, msg', hpage, Region.size_applyPage, fun i hi ↦ Region.page_applyPage hi, htwin', ?_⟩
    convert hnext using 2 with i
    exact (unsent_apply _ _ _ i).symm
  · intro hnone
    have hlt : d.pageOffset < region.size := by
      have hle := hinside.page
      omega
    obtain ⟨msg'', head'', hpage', -⟩ := handlePage_spec (hregion.txBegin hlt) hfits
      (by rwa [Region.size_txBegin]) h
    refine ⟨_, _, msg', msg'', hpage, Region.findTwin_txBegin hinside.aligned hnone,
      hpage', fun i hi ↦ ?_⟩
    rw [Region.page_applyPage hi, Region.page_applyPage hi]
    unfold Region.page
    rw [Region.bytes_txBegin]

/-- Two pages, with a byte of the first to be sent. -/
def oneUnsent : Region where
  size := 16
  bytes := Function.update (fun _ ↦ 0) 1 5
  writable head := head = 0
  twins := [⟨0, fun _ ↦ 0⟩]
  lamportTimestamp := 0

theorem wellFormed_oneUnsent : oneUnsent.WellFormed 8 where
  size := by decide
  nodup := List.nodup_singleton 0
  aligned := by simp [Region.heads, oneUnsent]
  inside := by simp [Region.heads, oneUnsent]
  writable := by simp [Region.heads, oneUnsent]

/-- Two sections that overlap, and cover the unsent byte. -/
def overlapping : PageDiff := ⟨0, [⟨1, [7, 7]⟩, ⟨2, [9]⟩]⟩

theorem inside_overlapping : overlapping.Inside 8 16 := by
  constructor <;> simp [overlapping]

/-- The later section wins, on the page and on its twin, and the next diff has nothing of the
byte that was to be sent. -/
theorem remote_diff_merges_overlapping :
    ∃ region' msg', handlePage 8 oneUnsent ⟨.ofBytes overlapping.encode, 0⟩ =
        .ok (region', ⟨msg', 0⟩) ∧
      region'.page 0 1 = 7 ∧ region'.page 0 2 = 9 ∧
      (region'.findTwin 0).map (fun twin ↦ (twin.twinData 1, twin.twinData 2)) = some (7, 9) ∧
      ∃ result ts before d after, diffRegion .zeroed 8 region' (.ofBytes []) = .ok result ∧
        result.2.1.bytes = encodeDiff ts (before ++ d :: after) ∧ d.pageOffset = 0 ∧
        d.pagePatch 1 = none := by
  have hl : (Message.ofBytes overlapping.encode).Layout [] (overlapping.encode ++ []) [] := by
    rw [List.append_nil]
    exact Message.layout_ofBytes (by decide)
  obtain ⟨region', msg', hpage, hsize, hbytes, htwin, hnext⟩ := (remote_diff_merges (by decide)
    (by decide) wellFormed_oneUnsent (by decide) inside_overlapping
    (r := ⟨.ofBytes overlapping.encode, 0⟩) hl).1 _ rfl
  have hempty : (Message.ofBytes []).Layout [] [] [] := Message.layout_ofBytes (by decide)
  obtain ⟨result, hdiff, ts, before, d, after, hsent, hoffset, -, hpatch⟩ :=
    (hnext .zeroed _ hempty.wellFormed).exists_ok ⟨Allocator.zeroed_succeeds, by
      rw [hsize]
      decide⟩
  refine ⟨region', msg', hpage, hbytes 1 (by decide), hbytes 2 (by decide), ?_,
    result, ts, before, d, after, hdiff, hsent, hoffset, ?_⟩
  · change (region'.findTwin overlapping.pageOffset).map _ = _
    rw [htwin]
    rfl
  · rw [hpatch]
    rfl

end Edsm.Memory
