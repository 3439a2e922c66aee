import Edsm.Library.Copies
import Edsm.Memory.Encode
import Mathlib.Data.List.Nodup
import Mathlib.Data.List.Perm.Subperm

/-!
# Twins and page protection

A page is writable exactly as long as it has a twin.  The bytes of the twin, or
of the page itself if it has none, are what the other nodes know of the page.
-/

namespace Edsm.Memory

variable {pagesize : ℕ} {region : Region}

theorem pageHead_dvd (pagesize addr : ℕ) : pagesize ∣ pageHead pagesize addr :=
  Nat.dvd_sub_mod addr

theorem pageHead_le (pagesize addr : ℕ) : pageHead pagesize addr ≤ addr := Nat.sub_le _ _

theorem eq_pageHead_iff (hpos : 0 < pagesize) {head addr : ℕ} (h : pagesize ∣ head) :
    head = pageHead pagesize addr ↔ head ≤ addr ∧ addr < head + pagesize := by
  obtain ⟨k, rfl⟩ := h
  have hmod := Nat.mod_add_div addr pagesize
  have hlt := Nat.mod_lt addr hpos
  unfold pageHead
  constructor
  · intro hhead
    have hle := Nat.mod_le addr pagesize
    omega
  · rintro ⟨hle, hlt'⟩
    have hk : addr / pagesize = k := by
      rw [Nat.div_eq_iff hpos]
      constructor
      · rw [Nat.mul_comm]
        exact hle
      · rw [Nat.mul_comm k]
        omega
    rw [hk] at hmod
    omega

namespace Region

/-- The heads of the pages that have a twin. -/
def heads (region : Region) : List ℕ := region.twins.map PageTwin.originalPageHead

/-- The invariant of a region while nobody holds `region_lock`. -/
structure WellFormed (pagesize : ℕ) (region : Region) : Prop where
  size : pagesize ∣ region.size
  nodup : region.heads.Nodup
  aligned : ∀ head ∈ region.heads, pagesize ∣ head
  inside : ∀ head ∈ region.heads, head < region.size
  writable : ∀ head, pagesize ∣ head → head < region.size →
    (region.writable head = true ↔ head ∈ region.heads)

/-- The bytes of the twin if the page has one, and of the page otherwise. -/
def base (pagesize : ℕ) (region : Region) : ℕ → UInt8 := fun i ↦
  match region.findTwin (pageHead pagesize i) with
  | some twin => twin.twinData (i - pageHead pagesize i)
  | none => region.bytes i

/-- The effect of one page of a diff. -/
def applyPage (pagesize : ℕ) (region : Region) (d : PageDiff) : Region :=
  if d.sections = [] then region
  else { region with
    bytes := (d.patch pagesize).apply region.bytes
    writable := if (region.findTwin d.pageOffset).isNone then
      Function.update region.writable d.pageOffset false else region.writable
    twins := region.twins.map fun twin ↦ if twin.originalPageHead = d.pageOffset then
      { twin with twinData := d.pagePatch.apply twin.twinData } else twin }

theorem mem_heads {twin : PageTwin} (h : twin ∈ region.twins) :
    twin.originalPageHead ∈ region.heads :=
  List.mem_map_of_mem h

theorem findTwin_eq_none {head : ℕ} : region.findTwin head = none ↔ head ∉ region.heads := by
  simp [findTwin, List.find?_eq_none, heads]

theorem findTwin_eq_some (h : region.heads.Nodup) {head : ℕ} {twin : PageTwin} :
    region.findTwin head = some twin ↔ twin ∈ region.twins ∧ twin.originalPageHead = head := by
  constructor
  · intro hfind
    exact ⟨List.mem_of_find?_eq_some hfind, by simpa using List.find?_some hfind⟩
  · rintro ⟨hmem, rfl⟩
    cases hfind : region.findTwin twin.originalPageHead with
    | none => exact absurd (mem_heads hmem) (findTwin_eq_none.mp hfind)
    | some twin' =>
        have hmem' := List.mem_of_find?_eq_some hfind
        have hhead : twin'.originalPageHead = twin.originalPageHead := by
          simpa using List.find?_some hfind
        rw [List.inj_on_of_nodup_map h hmem' hmem hhead]

theorem WellFormed.page_inside (h : region.WellFormed pagesize) {head : ℕ}
    (hdvd : pagesize ∣ head) (hlt : head < region.size) : head + pagesize ≤ region.size := by
  obtain ⟨k, rfl⟩ := hdvd
  obtain ⟨m, hm⟩ := h.size
  rw [hm] at hlt ⊢
  have hkm : k < m := lt_of_mul_lt_mul_left hlt (Nat.zero_le _)
  calc pagesize * k + pagesize = pagesize * (k + 1) := by rw [Nat.mul_succ]
    _ ≤ pagesize * m := Nat.mul_le_mul_left _ hkm

theorem WellFormed.length_twins_mul_le (h : region.WellFormed pagesize) :
    region.twins.length * pagesize ≤ region.size := by
  have hnodup : (region.heads.map (· / pagesize)).Nodup := by
    refine List.Nodup.map_on (fun a ha b hb hab ↦ ?_) h.nodup
    rw [← Nat.div_mul_cancel (h.aligned a ha), hab, Nat.div_mul_cancel (h.aligned b hb)]
  have hsubset : region.heads.map (· / pagesize) ⊆ List.range (region.size / pagesize) := by
    intro k hk
    obtain ⟨head, hhead, rfl⟩ := List.mem_map.mp hk
    refine List.mem_range.mpr (Nat.div_lt_div_of_lt_of_dvd h.size (h.inside head hhead))
  have hle := (List.Nodup.subperm hnodup hsubset).length_le
  rw [List.length_map, List.length_range, heads, List.length_map] at hle
  calc region.twins.length * pagesize ≤ region.size / pagesize * pagesize :=
        Nat.mul_le_mul_right _ hle
    _ ≤ region.size := Nat.div_mul_le_self _ _

/-- The message of a diff is not much longer than the region. -/
theorem WellFormed.length_encodeDiff_le (h : region.WellFormed pagesize) (hpos : 0 < pagesize)
    (ts : UInt32) :
    (encodeDiff ts (region.pageDiffs pagesize)).length ≤ 8 + 11 * region.size := by
  have hpages : ∀ twins : List PageTwin,
      ((twins.map (pageDiff pagesize region)).flatMap PageDiff.encode).length ≤
        twins.length * (6 + 5 * pagesize) := by
    intro twins
    induction twins with
    | nil => simp
    | cons twin twins ih =>
        have hpage := length_sections_le (region.page twin.originalPageHead) twin.twinData pagesize
        rw [List.map_cons, List.flatMap_cons, List.length_append, PageDiff.length_encode,
          List.length_cons, Nat.succ_mul]
        simp only [pageDiff] at ih ⊢
        omega
  have hall := hpages region.twins
  have htwins := h.length_twins_mul_le
  have hcount : region.twins.length ≤ region.twins.length * pagesize :=
    Nat.le_mul_of_pos_right _ hpos
  rw [Nat.mul_add, Nat.mul_left_comm] at hall
  rw [length_encodeDiff, Region.pageDiffs]
  omega

/-! ## Making a region -/

theorem wellFormed_regionGet {size : ℕ} (h : regionGet pagesize size = some region) :
    region.WellFormed pagesize ∧ 0 < pagesize ∧ region.bytes = fun _ ↦ 0 := by
  simp only [regionGet] at h
  split at h
  · next hdvd =>
      obtain rfl := Option.some.inj h
      have hpos : 0 < pagesize := Nat.pos_of_dvd_of_pos hdvd (by decide)
      refine ⟨⟨?_, List.nodup_nil, by simp [heads], by simp [heads], by simp [heads]⟩, hpos, rfl⟩
      change pagesize ∣ if size % pagesize ≠ 0 then _ else size
      split
      · rw [Nat.dvd_mod_iff hdvd]
        have hlt := Nat.mod_lt size hpos
        have hmod := Nat.mod_add_div size pagesize
        refine ⟨size / pagesize + 1, ?_⟩
        rw [Nat.mul_succ]
        omega
      · next hzero => exact Nat.dvd_of_mod_eq_zero (not_not.mp hzero)
  · cases h

theorem twins_regionGet {size : ℕ} (h : regionGet pagesize size = some region) :
    region.twins = [] := by
  simp only [regionGet] at h
  split at h
  · obtain rfl := Option.some.inj h
    rfl
  · cases h

/-- Two pages of 8 bytes. -/
def twoPages : Region where
  size := 16
  bytes _ := 0
  writable _ := false
  twins := []
  lamportTimestamp := 0

theorem regionGet_twoPages : regionGet 8 16 = some twoPages := rfl

/-- A region of one page more than an offset of 32 bits can tell apart. -/
def huge : Region where
  size := 2 ^ 32 + 4096
  bytes _ := 0
  writable _ := false
  twins := []
  lamportTimestamp := 0

/-! ## Twinning a page and writing to it -/

theorem txBegin_of_none {addr : ℕ} (h : region.findTwin (pageHead pagesize addr) = none) :
    region.txBegin pagesize addr = (region.twinPage (pageHead pagesize addr)).protect
      (pageHead pagesize addr) true := by
  simp [txBegin, h]

theorem txBegin_of_some {addr : ℕ} {twin : PageTwin}
    (h : region.findTwin (pageHead pagesize addr) = some twin) :
    region.txBegin pagesize addr = region.protect (pageHead pagesize addr) true := by
  simp [txBegin, h]

theorem heads_txBegin {addr : ℕ} : (region.txBegin pagesize addr).heads =
    if pageHead pagesize addr ∈ region.heads then region.heads
    else pageHead pagesize addr :: region.heads := by
  cases hfind : region.findTwin (pageHead pagesize addr) with
  | none =>
      rw [txBegin_of_none hfind, if_neg (findTwin_eq_none.mp hfind)]
      rfl
  | some twin =>
      rw [txBegin_of_some hfind,
        if_pos (by_contra fun hnot ↦ by simp [findTwin_eq_none.mpr hnot] at hfind)]
      rfl

theorem writable_txBegin {addr head : ℕ} : (region.txBegin pagesize addr).writable head = true ↔
    head = pageHead pagesize addr ∨ region.writable head = true := by
  have hself : (region.txBegin pagesize addr).writable =
      Function.update region.writable (pageHead pagesize addr) true := by
    cases hfind : region.findTwin (pageHead pagesize addr) with
    | none =>
        rw [txBegin_of_none hfind]
        exact Function.update_idem _ _ _
    | some twin => rw [txBegin_of_some hfind, protect]
  rw [hself, Function.update_apply]
  split <;> simp_all

theorem size_txBegin (addr : ℕ) : (region.txBegin pagesize addr).size = region.size := by
  cases hfind : region.findTwin (pageHead pagesize addr) with
  | none => rw [txBegin_of_none hfind]; rfl
  | some twin => rw [txBegin_of_some hfind]; rfl

theorem bytes_txBegin (addr : ℕ) : (region.txBegin pagesize addr).bytes = region.bytes := by
  cases hfind : region.findTwin (pageHead pagesize addr) with
  | none => rw [txBegin_of_none hfind]; rfl
  | some twin => rw [txBegin_of_some hfind]; rfl

theorem WellFormed.txBegin (h : region.WellFormed pagesize) {addr : ℕ}
    (haddr : addr < region.size) :
    (region.txBegin pagesize addr).WellFormed pagesize := by
  have hsize : (region.txBegin pagesize addr).size = region.size := size_txBegin addr
  have hmem : ∀ head, head ∈ (region.txBegin pagesize addr).heads ↔
      head = pageHead pagesize addr ∨ head ∈ region.heads := by
    intro head
    rw [heads_txBegin]
    split
    · next hin =>
        refine ⟨.inr, Or.rec ?_ id⟩
        rintro rfl
        exact hin
    · exact List.mem_cons
  refine ⟨hsize ▸ h.size, ?_, fun head hhead ↦ ?_, fun head hhead ↦ ?_, fun head hdvd hlt ↦ ?_⟩
  · rw [heads_txBegin]
    split
    · exact h.nodup
    · next hnot => exact List.nodup_cons.mpr ⟨hnot, h.nodup⟩
  · rcases (hmem head).mp hhead with rfl | hhead
    · exact pageHead_dvd pagesize addr
    · exact h.aligned head hhead
  · rw [hsize]
    rcases (hmem head).mp hhead with rfl | hhead
    · exact (pageHead_le pagesize addr).trans_lt haddr
    · exact h.inside head hhead
  · rw [writable_txBegin, hmem, h.writable head hdvd (hsize ▸ hlt)]

theorem base_txBegin (addr : ℕ) : (region.txBegin pagesize addr).base pagesize =
    region.base pagesize := by
  cases hfind : region.findTwin (pageHead pagesize addr) with
  | some twin =>
      rw [txBegin_of_some hfind]
      rfl
  | none =>
      rw [txBegin_of_none hfind]
      funext i
      unfold base findTwin twinPage protect
      simp only [List.find?_cons]
      by_cases hi : pageHead pagesize addr = pageHead pagesize i
      · rw [findTwin, hi] at hfind
        simp only [hi, decide_true, hfind]
        rw [page, Nat.add_sub_cancel' (pageHead_le pagesize i)]
      · simp [hi]

theorem store_eq_some {addr : ℕ} {value : UInt8} {region' : Region}
    (h : region.store pagesize addr value = some region') :
    addr < region.size ∧ region.writable (pageHead pagesize addr) = true ∧
      region' = { region with bytes := Function.update region.bytes addr value } := by
  unfold store at h
  split at h
  · next hc => exact ⟨hc.1, hc.2, (Option.some.inj h).symm⟩
  · cases h

theorem WellFormed.store (h : region.WellFormed pagesize) {addr : ℕ} {value : UInt8}
    {region' : Region} (hst : region.store pagesize addr value = some region') :
    region'.WellFormed pagesize := by
  obtain ⟨-, -, rfl⟩ := store_eq_some hst
  exact ⟨h.size, h.nodup, h.aligned, h.inside, h.writable⟩

/-- Only a page with a twin is written to, so what the others know stays. -/
theorem WellFormed.base_store (h : region.WellFormed pagesize) {addr : ℕ} {value : UInt8}
    {region' : Region} (hst : region.store pagesize addr value = some region') :
    region'.base pagesize = region.base pagesize := by
  obtain ⟨hlt, hwritable, rfl⟩ := store_eq_some hst
  have hmem := (h.writable _ (pageHead_dvd pagesize addr)
    ((pageHead_le pagesize addr).trans_lt hlt)).mp hwritable
  funext i
  change (match region.findTwin (pageHead pagesize i) with
    | some twin => twin.twinData (i - pageHead pagesize i)
    | none => Function.update region.bytes addr value i) = region.base pagesize i
  unfold base
  cases hfind : region.findTwin (pageHead pagesize i) with
  | some twin => rfl
  | none =>
      have hne : i ≠ addr := by
        rintro rfl
        exact findTwin_eq_none.mp hfind hmem
      exact Function.update_of_ne hne _ _

theorem WellFormed.setLamportTimestamp (h : region.WellFormed pagesize) (ts : UInt32) :
    (region.setLamportTimestamp ts).WellFormed pagesize :=
  ⟨h.size, h.nodup, h.aligned, h.inside, h.writable⟩

/-! ## Applying one page of a diff -/

section ApplyPage

variable {d : PageDiff}

theorem size_applyPage : (region.applyPage pagesize d).size = region.size := by
  unfold applyPage
  split <;> rfl

theorem bytes_applyPage :
    (region.applyPage pagesize d).bytes = (d.patch pagesize).apply region.bytes := by
  unfold applyPage
  split
  · next hnil =>
      funext i
      rw [Patch.apply_of_eq_none]
      simp [PageDiff.patch, PageDiff.pagePatch, hnil, Patch.join, Patch.empty]
  · rfl

/-- The twin of the page gets the same bytes. -/
theorem twins_applyPage : (region.applyPage pagesize d).twins =
    region.twins.map fun twin ↦ if twin.originalPageHead = d.pageOffset then
      { twin with twinData := d.pagePatch.apply twin.twinData } else twin := by
  unfold applyPage
  split
  · next hnil =>
      have hempty : d.pagePatch = Patch.empty := by
        simp [PageDiff.pagePatch, hnil, Patch.join]
      simp [hempty]
  · rfl

theorem heads_applyPage : (region.applyPage pagesize d).heads = region.heads := by
  rw [heads, twins_applyPage, List.map_map]
  refine List.map_congr_left fun twin _ ↦ ?_
  rw [Function.comp_apply]
  split <;> rfl

theorem writable_applyPage_of_mem {head : ℕ} (h : head ∈ region.heads) :
    (region.applyPage pagesize d).writable head = region.writable head := by
  unfold applyPage
  split
  · rfl
  · change (if (region.findTwin d.pageOffset).isNone then
      Function.update region.writable d.pageOffset false else region.writable) head = _
    split
    · next hnone =>
        rw [Option.isNone_iff_eq_none, findTwin_eq_none] at hnone
        refine Function.update_of_ne ?_ _ _
        rintro rfl
        exact hnone h
    · rfl

theorem writable_applyPage_of_eq_false {head : ℕ} (hfalse : region.writable head = false) :
    (region.applyPage pagesize d).writable head = false := by
  unfold applyPage
  split
  · exact hfalse
  · change (if (region.findTwin d.pageOffset).isNone then
      Function.update region.writable d.pageOffset false else region.writable) head = _
    split
    · rw [Function.update_apply]
      split
      · rfl
      · exact hfalse
    · exact hfalse

theorem WellFormed.applyPage (h : region.WellFormed pagesize) :
    (region.applyPage pagesize d).WellFormed pagesize where
  size := by
    rw [size_applyPage]
    exact h.size
  nodup := by
    rw [heads_applyPage]
    exact h.nodup
  aligned := by
    rw [heads_applyPage]
    exact h.aligned
  inside := by
    rw [heads_applyPage, size_applyPage]
    exact h.inside
  writable head hdvd hlt := by
    rw [size_applyPage] at hlt
    rw [heads_applyPage]
    by_cases hmem : head ∈ region.heads
    · rw [writable_applyPage_of_mem hmem]
      exact h.writable head hdvd hlt
    · have hfalse : region.writable head = false := by
        simpa [hmem] using h.writable head hdvd hlt
      simp [writable_applyPage_of_eq_false hfalse, hmem]

theorem findTwin_applyPage (head : ℕ) : (region.applyPage pagesize d).findTwin head =
    (region.findTwin head).map fun twin ↦ if twin.originalPageHead = d.pageOffset then
      { twin with twinData := d.pagePatch.apply twin.twinData } else twin := by
  unfold findTwin
  rw [twins_applyPage, List.find?_map]
  congr 2
  funext twin
  rw [Function.comp_apply]
  split <;> rfl

/-- A diff of the others changes what they know in the same way as the region. -/
theorem base_applyPage (hpos : 0 < pagesize) (haligned : pagesize ∣ d.pageOffset) :
    (region.applyPage pagesize d).base pagesize =
      (d.patch pagesize).apply (region.base pagesize) := by
  funext i
  have hpage : d.pageOffset = pageHead pagesize i ↔
      d.pageOffset ≤ i ∧ i < d.pageOffset + pagesize := eq_pageHead_iff hpos haligned
  unfold base
  rw [findTwin_applyPage]
  cases hfind : region.findTwin (pageHead pagesize i) with
  | none =>
      simp only [Option.map_none, bytes_applyPage]
      simp only [Patch.apply, hfind]
  | some twin =>
      have hhead : twin.originalPageHead = pageHead pagesize i := by
        simpa using List.find?_some hfind
      simp only [Option.map_some, hhead, Patch.apply, PageDiff.patch, hfind, ← hpage]
      by_cases hi : pageHead pagesize i = d.pageOffset
      · simp [hi, Patch.apply]
      · simp [hi, Ne.symm hi]

end ApplyPage

/-! ## The diff of the region as a patch -/

/-- A page diff of the region changes the bytes that differ from the twin. -/
theorem pageDiff_patch (twin : PageTwin) (i : ℕ) :
    (pageDiff pagesize region twin).patch pagesize i =
      if (twin.originalPageHead ≤ i ∧ i < twin.originalPageHead + pagesize) ∧
        region.bytes i ≠ twin.twinData (i - twin.originalPageHead) then some (region.bytes i)
      else none := by
  by_cases hi : twin.originalPageHead ≤ i ∧ i < twin.originalPageHead + pagesize
  · have hlt : i - twin.originalPageHead < pagesize := by omega
    have hjoin := join_sectionsOf (region.page twin.originalPageHead) twin.twinData pagesize
      (i - twin.originalPageHead)
    rw [page, Nat.add_sub_cancel' hi.1] at hjoin
    simp only [PageDiff.patch, PageDiff.pagePatch, pageDiff]
    simpa [hlt, hi] using hjoin
  · rw [if_neg fun hc ↦ hi hc.1]
    exact if_neg hi

theorem WellFormed.twin_unique (h : region.WellFormed pagesize) (hpos : 0 < pagesize)
    {twin twin' : PageTwin} (hmem : twin ∈ region.twins) (hmem' : twin' ∈ region.twins) {i : ℕ}
    (hi : twin.originalPageHead ≤ i ∧ i < twin.originalPageHead + pagesize)
    (hi' : twin'.originalPageHead ≤ i ∧ i < twin'.originalPageHead + pagesize) : twin = twin' := by
  refine List.inj_on_of_nodup_map h.nodup hmem hmem' ?_
  rw [(eq_pageHead_iff hpos (h.aligned _ (mem_heads hmem))).mpr hi,
    (eq_pageHead_iff hpos (h.aligned _ (mem_heads hmem'))).mpr hi']

theorem applyAll_pageDiffs (h : region.WellFormed pagesize) (hpos : 0 < pagesize)
    {twin : PageTwin} (hmem : twin ∈ region.twins) {i : ℕ}
    (hi : twin.originalPageHead ≤ i ∧ i < twin.originalPageHead + pagesize) (g : ℕ → UInt8) :
    Patch.applyAll ((region.pageDiffs pagesize).map (PageDiff.patch pagesize)) g i =
      if region.bytes i ≠ twin.twinData (i - twin.originalPageHead) then region.bytes i
      else g i := by
  rw [← Patch.apply_join, pageDiffs, List.map_map]
  split
  · next hdiff =>
      refine Patch.apply_of_eq_some (Patch.join_eq_some ?_ fun f hf hsome ↦ ?_)
      · refine ⟨_, List.mem_map_of_mem hmem, ?_⟩
        rw [Function.comp_apply, pageDiff_patch, if_pos ⟨hi, hdiff⟩]
        rfl
      · obtain ⟨twin', -, rfl⟩ := List.mem_map.mp hf
        rw [Function.comp_apply, pageDiff_patch] at hsome ⊢
        split at hsome
        · next hc => rw [if_pos hc]
        · cases hsome
  · next hsame =>
      refine Patch.apply_of_eq_none (Patch.join_eq_none.mpr fun f hf ↦ ?_)
      obtain ⟨twin', hmem', rfl⟩ := List.mem_map.mp hf
      rw [Function.comp_apply, pageDiff_patch, if_neg]
      rintro ⟨hi', hdiff⟩
      obtain rfl := h.twin_unique hpos hmem' hmem hi' hi
      exact hsame hdiff

/-- A byte of a page without a twin is in no page of the diff. -/
theorem applyAll_pageDiffs_of_forall {i : ℕ}
    (hi : ∀ twin ∈ region.twins,
      ¬ (twin.originalPageHead ≤ i ∧ i < twin.originalPageHead + pagesize)) (g : ℕ → UInt8) :
    Patch.applyAll ((region.pageDiffs pagesize).map (PageDiff.patch pagesize)) g i = g i := by
  refine Patch.applyAll_of_forall_none fun f hf ↦ ?_
  obtain ⟨d, hd, rfl⟩ := List.mem_map.mp hf
  obtain ⟨twin, hmem, rfl⟩ := List.mem_map.mp hd
  rw [pageDiff_patch, if_neg fun hc ↦ hi twin hmem hc.1]

/-! ## The region after its diff -/

theorem protectAll_eq (region : Region) (twins : List PageTwin) :
    region.protectAll twins = { region with
      writable := fun head ↦ if head ∈ twins.map PageTwin.originalPageHead then false
        else region.writable head } := by
  unfold protectAll
  induction twins generalizing region with
  | nil => simp
  | cons twin twins ih =>
      rw [List.foldl_cons, ih]
      unfold protect
      congr 1
      funext head
      by_cases hhead : head = twin.originalPageHead
      · simp [hhead]
      · simp [hhead]

@[simp] theorem diffed_bytes : region.diffed.bytes = region.bytes := by
  rw [diffed, protectAll_eq]
  rfl

@[simp] theorem diffed_twins : region.diffed.twins = [] := rfl

@[simp] theorem diffed_size : region.diffed.size = region.size := by
  rw [diffed, protectAll_eq]
  rfl

theorem WellFormed.diffed (h : region.WellFormed pagesize) :
    region.diffed.WellFormed pagesize where
  size := by
    rw [diffed_size]
    exact h.size
  nodup := List.nodup_nil
  aligned := by simp [heads]
  inside := by simp [heads]
  writable head hdvd hlt := by
    have hbefore := h.writable head hdvd (diffed_size ▸ hlt)
    have hfalse : region.diffed.writable head = false := by
      rw [Region.diffed, protectAll_eq]
      change (if head ∈ region.heads then false else region.writable head) = false
      split
      · rfl
      · next hnot => simpa [hnot] using hbefore
    simp [hfalse, heads]

/-! ## What the others know -/

theorem base_eq_twinData (h : region.WellFormed pagesize) (hpos : 0 < pagesize) {twin : PageTwin}
    (hmem : twin ∈ region.twins) {i : ℕ}
    (hi : twin.originalPageHead ≤ i ∧ i < twin.originalPageHead + pagesize) :
    region.base pagesize i = twin.twinData (i - twin.originalPageHead) := by
  have hhead := (eq_pageHead_iff hpos (h.aligned _ (mem_heads hmem))).mpr hi
  have hfind := (findTwin_eq_some h.nodup).mpr ⟨hmem, hhead⟩
  simp only [base, hfind]
  rw [hhead]

/-- Where no page differs from its twin the others know everything. -/
theorem base_eq_bytes (hpos : 0 < pagesize) (hsame : ∀ twin ∈ region.twins, ∀ i < pagesize,
    region.page twin.originalPageHead i = twin.twinData i) :
    region.base pagesize = region.bytes := by
  funext i
  unfold base
  split
  · next twin hfind =>
      have hlt : i - pageHead pagesize i < pagesize := by
        rw [pageHead, Nat.sub_sub_self (Nat.mod_le _ _)]
        exact Nat.mod_lt i hpos
      obtain hhead : twin.originalPageHead = pageHead pagesize i := by
        simpa using List.find?_some hfind
      rw [← hsame twin (List.mem_of_find?_eq_some hfind) _ hlt, page, hhead,
        Nat.add_sub_cancel' (pageHead_le pagesize i)]
  · rfl

theorem base_of_twins_eq_nil (h : region.twins = []) : region.base pagesize = region.bytes := by
  funext i
  simp [base, findTwin, h]

/-- The diff tells the others all that they did not know. -/
theorem base_diffed (h : region.WellFormed pagesize) (hpos : 0 < pagesize) :
    region.diffed.base pagesize =
      Patch.applyAll ((region.pageDiffs pagesize).map (PageDiff.patch pagesize))
        (region.base pagesize) := by
  rw [base_of_twins_eq_nil diffed_twins, diffed_bytes]
  funext i
  cases hfind : region.findTwin (pageHead pagesize i) with
  | none =>
      rw [applyAll_pageDiffs_of_forall]
      · simp [base, hfind]
      · intro twin hmem hi
        have hhead := (eq_pageHead_iff hpos (h.aligned _ (mem_heads hmem))).mpr hi
        exact findTwin_eq_none.mp hfind (hhead ▸ mem_heads hmem)
  | some twin =>
      obtain ⟨hmem, hhead⟩ := (findTwin_eq_some h.nodup).mp hfind
      have hi := (eq_pageHead_iff hpos (h.aligned _ (mem_heads hmem))).mp hhead
      rw [applyAll_pageDiffs h hpos hmem hi]
      split
      · rfl
      · next hsame =>
          rw [base_eq_twinData h hpos hmem hi]
          exact not_not.mp hsame

/-- The diff has a byte only where the others do not know it. -/
theorem isDiff_pageDiffs (h : region.WellFormed pagesize) (hpos : 0 < pagesize) :
    Copies.IsDiff ((region.pageDiffs pagesize).map (PageDiff.patch pagesize))
      (region.base pagesize) region.bytes where
  applyAll := by rw [← base_diffed h hpos, base_of_twins_eq_nil diffed_twins, diffed_bytes]
  eq_none i hsame f hf := by
    obtain ⟨d, hd, rfl⟩ := List.mem_map.mp hf
    obtain ⟨twin, hmem, rfl⟩ := List.mem_map.mp hd
    rw [pageDiff_patch, if_neg]
    rintro ⟨hi, hdiff⟩
    exact hdiff (by rw [← hsame, base_eq_twinData h hpos hmem hi])

end Region

theorem pageDiff_inside (h : region.WellFormed pagesize) {twin : PageTwin}
    (hmem : twin ∈ region.twins) : (pageDiff pagesize region twin).Inside pagesize region.size where
  aligned := h.aligned _ (Region.mem_heads hmem)
  page := h.page_inside (h.aligned _ (Region.mem_heads hmem)) (h.inside _ (Region.mem_heads hmem))
  sections _ hx := (inside_of_mem_sectionsOf hx).1

end Edsm.Memory
