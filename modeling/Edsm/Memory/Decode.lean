import Edsm.Memory.Twins

/-!
# What the decoder reads

On the encoding of a diff no read fails, and each page has the effect of its
sections on the page, and on its twin if it has one.
-/

namespace Edsm.Memory

variable {pagesize : ℕ} {head bytes tail : List UInt8}

namespace Reader

theorem readWord_spec {r : Reader} {w n : ℕ} (size : UInt32) (hsize : size.toNat = w)
    (hw : w < 2 ^ 31) (hn : n < 256 ^ w)
    (h : r.msg.Layout head (LittleEndian.toBytes w n ++ bytes) tail) :
    ∃ msg, r.readWord size = .ok (n, { r with msg }) ∧
      msg.Layout (head ++ LittleEndian.toBytes w n) bytes tail := by
  obtain ⟨msg, hread, hl⟩ := Message.read_spec h size
    (by rw [hsize, LittleEndian.length_toBytes]) (by rwa [LittleEndian.length_toBytes])
  refine ⟨msg, ?_, hl⟩
  simp only [readWord, hread, bind, Except.bind, pure, Except.pure, LittleEndian.ofBytes_toBytes,
    Nat.mod_eq_of_lt hn]

theorem readInto_spec {r : Reader} {x : Section} (dst : ℕ → UInt8)
    (hlength : x.data.length < 2 ^ 16) (hinside : x.offset + x.data.length ≤ pagesize)
    (h : r.msg.Layout head (x.data ++ bytes) tail) :
    ∃ msg, r.readInto pagesize dst x.offset x.data.length =
        .ok (x.patch.apply dst, { r with msg }) ∧
      msg.Layout (head ++ x.data) bytes tail := by
  obtain ⟨msg, hread, hl⟩ := Message.read_spec h (UInt32.ofNat x.data.length)
    (by rw [UInt32.toNat_ofNat', Nat.mod_eq_of_lt (by omega)]) (by omega)
  refine ⟨msg, ?_, hl⟩
  simp only [readInto, hread, bind, Except.bind, if_pos (Or.inr hinside), pure, Except.pure]

end Reader

theorem readSectionHeader {r : Reader} {x : Section} (hoffset : x.offset < 2 ^ 16)
    (hlength : x.data.length < 2 ^ 16) (h : r.msg.Layout head (x.encode ++ bytes) tail) :
    ∃ msg₁ msg₂ head', r.readWord 2 = .ok (x.offset, { r with msg := msg₁ }) ∧
      Reader.readWord { r with msg := msg₁ } 2 = .ok (x.data.length, { r with msg := msg₂ }) ∧
      msg₂.Layout head' (x.data ++ bytes) tail := by
  rw [Section.encode, List.append_assoc, List.append_assoc] at h
  obtain ⟨msg₁, hread₁, hl₁⟩ := Reader.readWord_spec 2 rfl (by decide) hoffset h
  obtain ⟨msg₂, hread₂, hl₂⟩ := Reader.readWord_spec (r := { r with msg := msg₁ }) 2 rfl (by decide)
    hlength hl₁
  exact ⟨msg₁, msg₂, _, hread₁, hread₂, hl₂⟩

theorem applyToShadow_spec (xs : List Section) (hoffset : ∀ x ∈ xs, x.offset < 2 ^ 16)
    (hlength : ∀ x ∈ xs, x.data.length < 2 ^ 16)
    (hinside : ∀ x ∈ xs, x.offset + x.data.length ≤ pagesize) (page : ℕ → UInt8) {r : Reader}
    (h : r.msg.Layout head (xs.flatMap Section.encode ++ bytes) tail) :
    ∃ msg head', applyToShadow pagesize xs.length page r =
        .ok (Patch.applyAll (xs.map Section.patch) page, { r with msg }) ∧
      msg.Layout head' bytes tail := by
  induction xs generalizing page r head with
  | nil => exact ⟨r.msg, head, rfl, by simpa using h⟩
  | cons x xs ih =>
      rw [List.flatMap_cons, List.append_assoc] at h
      have hx := List.mem_cons_self (a := x) (l := xs)
      obtain ⟨msg₁, msg₂, head₂, hread₁, hread₂, hl₂⟩ :=
        readSectionHeader (hoffset x hx) (hlength x hx) h
      obtain ⟨msg₃, hread₃, hl₃⟩ := Reader.readInto_spec (r := { r with msg := msg₂ }) page
        (hlength x hx) (hinside x hx) hl₂
      obtain ⟨msg₄, head₄, hrest, hl₄⟩ := ih (fun y hy ↦ hoffset y (List.mem_cons_of_mem x hy))
        (fun y hy ↦ hlength y (List.mem_cons_of_mem x hy))
        (fun y hy ↦ hinside y (List.mem_cons_of_mem x hy)) (x.patch.apply page)
        (r := { r with msg := msg₃ }) hl₃
      refine ⟨msg₄, head₄, ?_, hl₄⟩
      simp only [List.length_cons, applyToShadow, hread₁, hread₂, hread₃, hrest, bind, Except.bind,
        List.map_cons, Patch.applyAll_cons]

/-- The bytes copied from the twin are those the section has put there. -/
theorem copyRange_apply (x : Section) (page twinData : ℕ → UInt8) :
    copyRange page (x.patch.apply twinData) x.offset x.data.length = x.patch.apply page := by
  funext i
  unfold copyRange
  split
  · next hi =>
      have hsome : x.patch i ≠ none := by
        rw [Ne, Section.patch_eq_none_iff]
        omega
      obtain ⟨b, hb⟩ := Option.ne_none_iff_exists'.mp hsome
      rw [Patch.apply_of_eq_some hb, Patch.apply_of_eq_some hb]
  · next hi =>
      rw [Patch.apply_of_eq_none]
      rw [Section.patch_eq_none_iff]
      omega

theorem applyToTwin_spec (xs : List Section) (hoffset : ∀ x ∈ xs, x.offset < 2 ^ 16)
    (hlength : ∀ x ∈ xs, x.data.length < 2 ^ 16)
    (hinside : ∀ x ∈ xs, x.offset + x.data.length ≤ pagesize) (page twinData : ℕ → UInt8)
    {r : Reader} (h : r.msg.Layout head (xs.flatMap Section.encode ++ bytes) tail) :
    ∃ msg head', applyToTwin pagesize true xs.length page twinData r =
        .ok (Patch.applyAll (xs.map Section.patch) page,
          Patch.applyAll (xs.map Section.patch) twinData, { r with msg }) ∧
      msg.Layout head' bytes tail := by
  induction xs generalizing page twinData r head with
  | nil => exact ⟨r.msg, head, rfl, by simpa using h⟩
  | cons x xs ih =>
      rw [List.flatMap_cons, List.append_assoc] at h
      have hx := List.mem_cons_self (a := x) (l := xs)
      obtain ⟨msg₁, msg₂, head₂, hread₁, hread₂, hl₂⟩ :=
        readSectionHeader (hoffset x hx) (hlength x hx) h
      obtain ⟨msg₃, hread₃, hl₃⟩ := Reader.readInto_spec (r := { r with msg := msg₂ }) twinData
        (hlength x hx) (hinside x hx) hl₂
      obtain ⟨msg₄, head₄, hrest, hl₄⟩ := ih (fun y hy ↦ hoffset y (List.mem_cons_of_mem x hy))
        (fun y hy ↦ hlength y (List.mem_cons_of_mem x hy))
        (fun y hy ↦ hinside y (List.mem_cons_of_mem x hy)) (x.patch.apply page)
        (x.patch.apply twinData) (r := { r with msg := msg₃ }) hl₃
      refine ⟨msg₄, head₄, ?_, hl₄⟩
      simp only [List.length_cons, applyToTwin, hread₁, hread₂, hread₃, bind, Except.bind,
        if_pos (hinside x hx), or_true, if_true, copyRange_apply, hrest, List.map_cons,
        Patch.applyAll_cons]

/-! ## One page -/

theorem setPage_pagePatch (pagesize : ℕ) (region : Region) (d : PageDiff) :
    region.setPage pagesize d.pageOffset (d.pagePatch.apply (region.page d.pageOffset)) =
      { region with bytes := (d.patch pagesize).apply region.bytes } := by
  unfold Region.setPage
  congr 1
  funext i
  simp only [PageDiff.patch, Patch.apply]
  split
  · next hi => rw [Region.page, Nat.add_sub_cancel' hi.1]
  · rfl

/-- Twins of other pages are left as they are. -/
theorem map_ite_of_head_ne {head : ℕ} {twins : List PageTwin} (f : PageTwin → PageTwin)
    (h : ∀ twin ∈ twins, twin.originalPageHead ≠ head) :
    (twins.map fun twin ↦ if twin.originalPageHead = head then f twin else twin) = twins :=
  calc twins.map _ = twins.map id := List.map_congr_left fun twin hmem ↦ if_neg (h twin hmem)
    _ = twins := List.map_id twins

theorem setTwin_eq_map (f : (ℕ → UInt8) → ℕ → UInt8) {twin : PageTwin} {twins : List PageTwin}
    (hnodup : (twins.map PageTwin.originalPageHead).Nodup) (hmem : twin ∈ twins) :
    setTwin twin.originalPageHead (f twin.twinData) twins =
      twins.map fun t ↦ if t.originalPageHead = twin.originalPageHead then
        { t with twinData := f t.twinData } else t := by
  induction twins with
  | nil => cases hmem
  | cons t twins ih =>
      obtain ⟨hnot, hnodup⟩ := List.nodup_cons.mp hnodup
      have hrest : ∀ t' ∈ twins, t'.originalPageHead ≠ t.originalPageHead := by
        intro t' ht' heq
        exact hnot (heq ▸ List.mem_map_of_mem ht')
      rw [setTwin, List.map_cons]
      rcases List.mem_cons.mp hmem with rfl | hmem
      · rw [if_pos rfl, if_pos rfl, map_ite_of_head_ne _ hrest]
      · rw [if_neg fun heq ↦ hrest twin hmem heq.symm, if_neg fun heq ↦ hrest twin hmem heq.symm,
          ih hnodup hmem]

variable {region : Region} {d : PageDiff}

theorem handlePage_spec (hregion : region.WellFormed pagesize) (hfits : d.Fits)
    (hinside : d.Inside pagesize region.size) {r : Reader}
    (h : r.msg.Layout head (d.encode ++ bytes) tail) :
    ∃ msg head', handlePage pagesize region r =
        .ok (region.applyPage pagesize d, { r with msg }) ∧ msg.Layout head' bytes tail := by
  rw [PageDiff.encode, List.append_assoc, List.append_assoc] at h
  obtain ⟨msg₁, hread₁, hl₁⟩ := Reader.readWord_spec 4 rfl (by decide)
    hfits.pageOffset h
  obtain ⟨msg₂, hread₂, hl₂⟩ := Reader.readWord_spec (r := { r with msg := msg₁ }) 2 rfl (by decide)
    hfits.sections hl₁
  have haligned : d.pageOffset % pagesize = 0 := Nat.mod_eq_zero_of_dvd hinside.aligned
  have hpage := setPage_pagePatch pagesize region d
  rw [PageDiff.pagePatch, Patch.apply_join] at hpage
  by_cases hnil : d.sections = []
  · refine ⟨msg₂, _, ?_, by simpa [hnil] using hl₂⟩
    simp only [handlePage, hread₁, hread₂, bind, Except.bind, haligned, ne_eq, not_true_eq_false,
      if_false, hnil, List.length_nil, if_true, pure, Except.pure, Region.applyPage]
  · have hlength : d.sections.length ≠ 0 := fun h0 ↦ hnil (List.length_eq_zero_iff.mp h0)
    cases hfind : region.findTwin d.pageOffset with
    | none =>
        obtain ⟨msg₃, head₃, happly, hl₃⟩ := applyToShadow_spec d.sections hfits.offset hfits.length
          hinside.sections (region.page d.pageOffset) (r := { r with msg := msg₂ }) hl₂
        refine ⟨msg₃, head₃, ?_, hl₃⟩
        have hne : ∀ twin ∈ region.twins, twin.originalPageHead ≠ d.pageOffset :=
          fun twin hmem heq ↦ Region.findTwin_eq_none.mp hfind (heq ▸ Region.mem_heads hmem)
        have htwins := map_ite_of_head_ne
          (fun twin ↦ { twin with twinData := d.pagePatch.apply twin.twinData }) hne
        simp only [handlePage, hread₁, hread₂, bind, Except.bind, haligned, ne_eq,
          not_true_eq_false, if_false, hlength, not_lt.mpr hinside.page, hfind, happly, pure,
          Except.pure, hpage, Region.applyPage, hnil, Option.isNone_none, if_true, htwins]
        rfl
    | some twin =>
        obtain ⟨hmem, hhead⟩ := (Region.findTwin_eq_some hregion.nodup).mp hfind
        have hin : d.pageOffset ∈ region.heads := hhead ▸ Region.mem_heads hmem
        have hwritable : region.writable d.pageOffset = true :=
          (hregion.writable _ hinside.aligned (hregion.inside _ hin)).mpr hin
        obtain ⟨msg₃, head₃, happly, hl₃⟩ := applyToTwin_spec d.sections hfits.offset hfits.length
          hinside.sections (region.page d.pageOffset) twin.twinData (r := { r with msg := msg₂ })
          hl₂
        refine ⟨msg₃, head₃, ?_, hl₃⟩
        have htwins := setTwin_eq_map (fun data ↦ d.pagePatch.apply data) hregion.nodup hmem
        rw [hhead] at htwins
        simp only [PageDiff.pagePatch, Patch.apply_join] at htwins
        simp only [handlePage, hread₁, hread₂, bind, Except.bind, haligned, ne_eq,
          not_true_eq_false, if_false, hlength, not_lt.mpr hinside.page, hfind, hwritable, happly,
          pure, Except.pure, hpage, Region.applyPage, hnil, Option.isNone_some, htwins,
          PageDiff.pagePatch, Patch.apply_join, reduceCtorEq]

theorem foldl_applyPage_bytes (ds : List PageDiff) (region : Region) :
    (ds.foldl (Region.applyPage pagesize) region).bytes =
      Patch.applyAll (ds.map (PageDiff.patch pagesize)) region.bytes := by
  induction ds generalizing region with
  | nil => rfl
  | cons d ds ih =>
      rw [List.foldl_cons, ih, Region.bytes_applyPage, List.map_cons, Patch.applyAll_cons]

theorem foldl_applyPage_size (ds : List PageDiff) (region : Region) :
    (ds.foldl (Region.applyPage pagesize) region).size = region.size := by
  induction ds generalizing region with
  | nil => rfl
  | cons d ds ih => rw [List.foldl_cons, ih, Region.size_applyPage]

theorem foldl_applyPage_wellFormed (ds : List PageDiff) (hregion : region.WellFormed pagesize) :
    (ds.foldl (Region.applyPage pagesize) region).WellFormed pagesize := by
  induction ds generalizing region with
  | nil => exact hregion
  | cons d ds ih => exact ih hregion.applyPage

theorem handlePages_spec (ds : List PageDiff) (hregion : region.WellFormed pagesize)
    (hfits : ∀ d ∈ ds, d.Fits) (hinside : ∀ d ∈ ds, d.Inside pagesize region.size) {r : Reader}
    (h : r.msg.Layout head (ds.flatMap PageDiff.encode ++ bytes) tail) :
    ∃ msg head', handlePages pagesize ds.length region r =
        .ok (ds.foldl (Region.applyPage pagesize) region, { r with msg }) ∧
      msg.Layout head' bytes tail := by
  induction ds generalizing region r head with
  | nil => exact ⟨r.msg, head, rfl, by simpa using h⟩
  | cons d ds ih =>
      rw [List.flatMap_cons, List.append_assoc] at h
      obtain ⟨msg₁, head₁, hpage, hl₁⟩ := handlePage_spec hregion (hfits d List.mem_cons_self)
        (hinside d List.mem_cons_self) h
      obtain ⟨msg₂, head₂, hrest, hl₂⟩ := ih
        (hregion.applyPage (d := d))
        (fun d' hd' ↦ hfits d' (List.mem_cons_of_mem d hd'))
        (fun d' hd' ↦ by
          rw [Region.size_applyPage]
          exact hinside d' (List.mem_cons_of_mem d hd'))
        (r := { r with msg := msg₁ }) hl₁
      refine ⟨msg₂, head₂, ?_, hl₂⟩
      simp only [List.length_cons, handlePages, hpage, bind, Except.bind, hrest, List.foldl_cons]

theorem handleHeader_spec (region : Region) {ts : UInt32} {ds : List PageDiff}
    (hlength : ds.length < 2 ^ 32) {msg : Message}
    (h : msg.Layout head (encodeDiff ts ds ++ bytes) tail) :
    ∃ msg' head', handleHeader region msg =
        .ok (region.setLamportTimestamp ts, ⟨msg', 0⟩, ds.length) ∧
      msg'.Layout head' (ds.flatMap PageDiff.encode ++ bytes) tail := by
  rw [encodeDiff, List.append_assoc, List.append_assoc] at h
  obtain ⟨msg₁, hread₁, hl₁⟩ := Reader.readWord_spec (r := ⟨msg, 0⟩) 4 rfl (by decide)
    ts.toNat_lt h
  obtain ⟨msg₂, hread₂, hl₂⟩ := Reader.readWord_spec (r := ⟨msg₁, 0⟩) 4 rfl (by decide)
    hlength hl₁
  refine ⟨msg₂, _, ?_, hl₂⟩
  simp only [handleHeader, hread₁, hread₂, bind, Except.bind, pure, Except.pure,
    UInt32.ofNat_toNat]

/-- The decoder applies the whole diff and leaves what comes after it. -/
theorem handleMessage_append_spec (hregion : region.WellFormed pagesize) {ts : UInt32}
    {ds : List PageDiff} (hlength : ds.length < 2 ^ 32) (hfits : ∀ d ∈ ds, d.Fits)
    (hinside : ∀ d ∈ ds, d.Inside pagesize region.size) {msg : Message} (hwf : msg.WellFormed)
    (hbytes : msg.bytes = encodeDiff ts ds ++ bytes) :
    ∃ msg', handleMessage pagesize region (some msg) =
        .ok (ds.foldl (Region.applyPage pagesize) (region.setLamportTimestamp ts), ⟨msg', 0⟩) ∧
      msg'.bytes = bytes := by
  obtain ⟨head, tail, hl⟩ := hwf.layout
  rw [hbytes] at hl
  obtain ⟨msg₁, head₁, hheader, hl₁⟩ := handleHeader_spec region hlength hl
  obtain ⟨msg₂, head₂, hpages, hl₂⟩ := handlePages_spec (r := ⟨msg₁, 0⟩) ds
    (hregion.setLamportTimestamp ts) hfits hinside hl₁
  refine ⟨msg₂, ?_, hl₂.bytes_eq⟩
  simp only [handleMessage, hheader, bind, Except.bind, hpages]

/-- The decoder reads the message of a diff to its last byte. -/
theorem handleMessage_spec (hregion : region.WellFormed pagesize) {ts : UInt32} {ds : List PageDiff}
    (hlength : ds.length < 2 ^ 32) (hfits : ∀ d ∈ ds, d.Fits)
    (hinside : ∀ d ∈ ds, d.Inside pagesize region.size) {msg : Message} (hwf : msg.WellFormed)
    (hbytes : msg.bytes = encodeDiff ts ds) :
    ∃ msg', handleMessage pagesize region (some msg) =
        .ok (ds.foldl (Region.applyPage pagesize) (region.setLamportTimestamp ts), ⟨msg', 0⟩) ∧
      msg'.bytes = [] :=
  handleMessage_append_spec hregion hlength hfits hinside hwf
    (hbytes.trans (List.append_nil _).symm)

end Edsm.Memory
