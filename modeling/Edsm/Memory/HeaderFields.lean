import Edsm.Memory.Encode

/-!
# The fields of a diff

A page offset is written as 32 bits, the number of the sections of a page and the offset and the
length of each as 16.  The length is also the counter by which the encoder knows that it is in a
section.
-/

namespace Edsm.Memory

/-- These bytes start with these sections, with fields that say what the sections are. -/
def SectionsExact : List Section → List UInt8 → Prop
  | [], out => out = []
  | x :: rest, out =>
      LittleEndian.ofBytes (out.take 2) = x.offset ∧
        LittleEndian.ofBytes ((out.drop 2).take 2) = x.data.length ∧
        (out.drop 4).take x.data.length = x.data ∧
        SectionsExact rest (out.drop (4 + x.data.length))

/-- These bytes are a page, with fields that say what the page is. -/
structure PageExact (d : PageDiff) (out : List UInt8) : Prop where
  pageOffset : LittleEndian.ofBytes (out.take 4) = d.pageOffset
  sections : LittleEndian.ofBytes ((out.drop 4).take 2) = d.sections.length
  each : SectionsExact d.sections (out.drop 6)

/-- Whatever message the page is appended to, its fields are exact. -/
def HeadersExact (pagesize : ℕ) (region : Region) (twin : PageTwin) : Prop :=
  ∀ A msg msg', Message.WellFormed msg → diffPage A pagesize region twin msg = .ok msg' →
    ∃ out, msg'.bytes = msg.bytes ++ out ∧ PageExact (pageDiff pagesize region twin) out

/-- `contiguous_bytes` is not 0 behind a byte that differs. -/
def CountsRuns (pagesize : ℕ) (region : Region) (twin : PageTwin) : Prop :=
  ∀ A msg i d, Message.WellFormed msg → i < pagesize →
    region.page twin.originalPageHead i ≠ twin.twinData i →
    (List.range (i + 1)).foldlM (diffByte A (region.page twin.originalPageHead) twin.twinData)
      ⟨msg, 0, 0, 0⟩ = .ok d →
    d.contiguousBytes ≠ 0

/-- Some byte of the page is as in its twin. -/
def KeepsByte (pagesize : ℕ) (region : Region) (twin : PageTwin) : Prop :=
  ∃ i < pagesize, region.page twin.originalPageHead i = twin.twinData i

/-- The page starts below 4 GiB, and the largest page is not rewritten as a whole. -/
structure HeaderFits (pagesize : ℕ) (region : Region) (twin : PageTwin) : Prop where
  pageOffset : twin.originalPageHead < 2 ^ 32
  keeps : pagesize = 2 ^ 16 → KeepsByte pagesize region twin

/-! ## Fields that are wide enough -/

theorem ofBytes_u16_eq_iff {n : ℕ} : LittleEndian.ofBytes (u16 n) = n ↔ n < 2 ^ 16 :=
  LittleEndian.ofBytes_toBytes_eq_iff

theorem ofBytes_u32_eq_iff {n : ℕ} : LittleEndian.ofBytes (u32 n) = n ↔ n < 2 ^ 32 :=
  LittleEndian.ofBytes_toBytes_eq_iff

theorem sectionsExact_encode_iff (xs : List Section) :
    SectionsExact xs (xs.flatMap Section.encode) ↔
      ∀ x ∈ xs, x.offset < 2 ^ 16 ∧ x.data.length < 2 ^ 16 := by
  induction xs with
  | nil => simp [SectionsExact]
  | cons x xs ih =>
      have hout : (x :: xs).flatMap Section.encode =
          u16 x.offset ++ (u16 x.data.length ++ (x.data ++ xs.flatMap Section.encode)) := by
        simp [Section.encode]
      have hlength : (u16 x.offset).length = 2 := length_u16 _
      have hlength' : (u16 x.data.length).length = 2 := length_u16 _
      have hdrop2 : ((x :: xs).flatMap Section.encode).drop 2 =
          u16 x.data.length ++ (x.data ++ xs.flatMap Section.encode) := by
        rw [hout, List.drop_left' hlength]
      have hdrop4 : ((x :: xs).flatMap Section.encode).drop 4 =
          x.data ++ xs.flatMap Section.encode := by
        rw [show 4 = 2 + 2 from rfl, ← List.drop_drop, hdrop2, List.drop_left' hlength']
      have hrest : ((x :: xs).flatMap Section.encode).drop (4 + x.data.length) =
          xs.flatMap Section.encode := by
        rw [← List.drop_drop, hdrop4, List.drop_left]
      rw [SectionsExact, hdrop2, hdrop4, hrest, ih, hout, List.take_left' hlength,
        List.take_left' hlength', List.take_left, ofBytes_u16_eq_iff, ofBytes_u16_eq_iff,
        List.forall_mem_cons]
      tauto

theorem pageExact_encode_iff (d : PageDiff) : PageExact d d.encode ↔ d.Fits := by
  have hout : d.encode = u32 d.pageOffset ++
      (u16 d.sections.length ++ d.sections.flatMap Section.encode) := by
    simp [PageDiff.encode]
  have hdrop4 : d.encode.drop 4 =
      u16 d.sections.length ++ d.sections.flatMap Section.encode := by
    rw [hout, List.drop_left' (length_u32 _)]
  have hdrop6 : d.encode.drop 6 = d.sections.flatMap Section.encode := by
    rw [show 6 = 4 + 2 from rfl, ← List.drop_drop, hdrop4, List.drop_left' (length_u16 _)]
  constructor
  · rintro ⟨hoffset, hsections, heach⟩
    rw [hout, List.take_left' (length_u32 _), ofBytes_u32_eq_iff] at hoffset
    rw [hdrop4, List.take_left' (length_u16 _), ofBytes_u16_eq_iff] at hsections
    rw [hdrop6, sectionsExact_encode_iff] at heach
    exact ⟨hoffset, hsections, fun x hx ↦ (heach x hx).1, fun x hx ↦ (heach x hx).2⟩
  · intro h
    constructor
    · rw [hout, List.take_left' (length_u32 _), ofBytes_u32_eq_iff]
      exact h.pageOffset
    · rw [hdrop4, List.take_left' (length_u16 _), ofBytes_u16_eq_iff]
      exact h.sections
    · rw [hdrop6, sectionsExact_encode_iff]
      exact fun x hx ↦ ⟨h.offset x hx, h.length x hx⟩

/-! ## The diff of a page -/

variable {A : Allocator} {pagesize : ℕ} {region : Region} {twin : PageTwin} {msg msg' : Message}

/-- A run of 64 KiB is the whole page. -/
theorem length_lt_of_keepsByte (hpagesize : pagesize ≤ 2 ^ 16)
    (h : pagesize = 2 ^ 16 → KeepsByte pagesize region twin) {r : Run}
    (hr : r ∈ runs (differs (region.page twin.originalPageHead) twin.twinData) pagesize) :
    r.length < 2 ^ 16 := by
  have hle : r.start + r.length ≤ pagesize := (maximalRuns_runs _ _).le r hr
  by_contra hge
  obtain ⟨i, hi, heq⟩ := h (by omega)
  have hdiffers := forall_of_length_eq hr (by omega) i hi
  simp [differs, heq] at hdiffers

/-- A page of at most 64 KiB overruns the counter of a section only by being rewritten as a
whole. -/
theorem pageDiff_fits_iff (hpos : 0 < pagesize) (hpagesize : pagesize ≤ 2 ^ 16) :
    (pageDiff pagesize region twin).Fits ↔ HeaderFits pagesize region twin := by
  constructor
  · intro h
    refine ⟨h.pageOffset, fun hmax ↦ ?_⟩
    by_contra hnone
    have hall : ∀ i < pagesize,
        differs (region.page twin.originalPageHead) twin.twinData i = true :=
      fun i hi ↦ decide_eq_true fun heq ↦ hnone ⟨i, hi, heq⟩
    obtain ⟨r, hr, hlength⟩ := exists_length_eq_of_forall hpos hall
    have hlt := h.length _ (List.mem_map_of_mem hr)
    rw [sectionOf_length, hlength] at hlt
    omega
  · intro h
    refine pageDiff_fits_of_length h.pageOffset hpagesize fun x hx ↦ ?_
    obtain ⟨r, hr, rfl⟩ := List.mem_map.mp hx
    rw [sectionOf_length]
    exact length_lt_of_keepsByte hpagesize h.keeps hr

theorem bytes_of_diffPage (hwf : msg.WellFormed) (hpagesize : pagesize ≤ 2 ^ 16)
    (hpage : diffPage A pagesize region twin msg = .ok msg') :
    msg'.bytes = msg.bytes ++ (pageDiff pagesize region twin).encode := by
  obtain ⟨head, tail, hl⟩ := hwf.layout
  obtain ⟨_, hl'⟩ := (diffPage_meets hl region twin (countsFit_of_le hpagesize)).of_eq_ok hpage
  exact hl'.bytes_eq

theorem empty_layout : (Message.ofBytes []).Layout [] [] [] := Message.layout_ofBytes (by decide)

theorem exists_diffPage (hpagesize : pagesize ≤ 2 ^ 16) (region : Region) (twin : PageTwin) :
    ∃ msg', diffPage .zeroed pagesize region twin (.ofBytes []) = .ok msg' := by
  have hlength := (pageDiff pagesize region twin).length_encode
  have hsections := length_sections_le (region.page twin.originalPageHead) twin.twinData pagesize
  obtain ⟨msg', hpage, -⟩ := (diffPage_meets (A := .zeroed) empty_layout region twin
    (countsFit_of_le hpagesize)).exists_ok ⟨Allocator.zeroed_succeeds, by
      simp only [pageDiff, List.length_nil] at hlength ⊢
      omega⟩
  exact ⟨msg', hpage⟩

theorem headersExact_iff (hpos : 0 < pagesize) (hpagesize : pagesize ≤ 2 ^ 16) :
    HeadersExact pagesize region twin ↔ HeaderFits pagesize region twin := by
  rw [← pageDiff_fits_iff hpos hpagesize, ← pageExact_encode_iff]
  constructor
  · intro h
    obtain ⟨msg', hpage⟩ := exists_diffPage hpagesize region twin
    obtain ⟨out, hout, hexact⟩ := h _ _ _ empty_layout.wellFormed hpage
    rw [bytes_of_diffPage empty_layout.wellFormed hpagesize hpage, List.append_cancel_left_eq]
      at hout
    rwa [hout]
  · intro h A msg msg' hwf hpage
    exact ⟨_, bytes_of_diffPage hwf hpagesize hpage, h⟩

/-- The counter after the first `i + 1` bytes. -/
theorem contiguousBytes_eq (region : Region) (twin : PageTwin) (hwf : msg.WellFormed)
    (hpagesize : pagesize ≤ 2 ^ 16) {i : ℕ}
    (hi : i < pagesize) {d : DiffState}
    (hloop : (List.range (i + 1)).foldlM
      (diffByte A (region.page twin.originalPageHead) twin.twinData) ⟨msg, 0, 0, 0⟩ = .ok d) :
    d.contiguousBytes = UInt16.ofNat (Run.trailing (i + 1)
      (runs (differs (region.page twin.originalPageHead) twin.twinData) (i + 1))) := by
  obtain ⟨head, tail, hl⟩ := hwf.layout
  have hcounts : CountsFit (region.page twin.originalPageHead) twin.twinData pagesize :=
    countsFit_of_le hpagesize
  exact ((foldlM_diffByte (loopInv_init hl _ _) fun j hj ↦ hcounts j (by omega)).of_eq_ok
    hloop).contiguousBytes

theorem exists_loop (hpagesize : pagesize ≤ 2 ^ 16) (real copied : ℕ → UInt8) :
    ∃ d, (List.range pagesize).foldlM (diffByte .zeroed real copied) ⟨.ofBytes [], 0, 0, 0⟩ =
      .ok d := by
  have hsections := length_sections_le real copied pagesize
  obtain ⟨d, hloop, -⟩ := (foldlM_diffByte (A := .zeroed) (loopInv_init empty_layout real copied)
    (countsFit_of_le hpagesize)).exists_ok ⟨Allocator.zeroed_succeeds, by
      rw [List.length_nil]
      omega⟩
  exact ⟨d, hloop⟩

theorem countsRuns_iff (hpagesize : pagesize ≤ 2 ^ 16) :
    CountsRuns pagesize region twin ↔ (pagesize = 2 ^ 16 → KeepsByte pagesize region twin) := by
  constructor
  · rintro h rfl
    by_contra hnone
    have hall : ∀ i < 2 ^ 16, region.page twin.originalPageHead i ≠ twin.twinData i :=
      fun i hi heq ↦ hnone ⟨i, hi, heq⟩
    have hle : 65535 + 1 ≤ 2 ^ 16 := by decide
    obtain ⟨d, hloop⟩ := exists_loop hle (region.page twin.originalPageHead) twin.twinData
    have hcounter := contiguousBytes_eq region twin empty_layout.wellFormed le_rfl hle hloop
    rw [trailing_of_forall fun i hi ↦ by simpa [differs] using hall i (by omega)] at hcounter
    exact h _ _ 65535 d empty_layout.wellFormed hle (hall _ hle) hloop hcounter
  · intro h A msg i d hwf hi hne hloop hzero
    rw [contiguousBytes_eq region twin hwf hpagesize hi hloop] at hzero
    have hlt : Run.trailing (i + 1)
        (runs (differs (region.page twin.originalPageHead) twin.twinData) (i + 1)) < 2 ^ 16 :=
      trailing_lt_of_length_lt (n := pagesize) (by decide)
        (fun _ hr ↦ length_lt_of_keepsByte hpagesize h hr) (i + 1) hi
    have hnat := congrArg UInt16.toNat hzero
    rw [UInt16.toNat_ofNat', Nat.mod_eq_of_lt hlt, trailing_runs_succ,
      if_pos (by simpa [differs] using hne)] at hnat
    cases hnat

/-! ## The diff of a region -/

/-- Behind the timestamp and the number of pages, the pages have exact fields. -/
def DiffExact (pagesize : ℕ) (region : Region) : Prop :=
  ∀ A msg region' msg' n, Message.WellFormed msg →
    diffRegion A pagesize region msg = .ok (region', msg', n) →
    ∃ outs, List.Forall₂ PageExact (region.pageDiffs pagesize) outs ∧
      msg'.bytes = msg.bytes ++ (u32 (region.lamportTimestamp + 1).toNat ++
        u32 (region.pageDiffs pagesize).length ++ outs.flatten)

theorem diffExact_of_fits (h : ∀ d ∈ region.pageDiffs pagesize, d.Fits) :
    DiffExact pagesize region := by
  intro A msg region' msg' n hwf hdiff
  obtain ⟨head, tail, hl⟩ := hwf.layout
  obtain ⟨_, _, heq, hl'⟩ := (diffRegion_meets hl (countsFit_of_fits h)).of_eq_ok hdiff
  cases heq
  refine ⟨(region.pageDiffs pagesize).map PageDiff.encode, ?_, ?_⟩
  · rw [List.forall₂_map_right_iff, List.forall₂_same]
    exact fun d hd ↦ (pageExact_encode_iff d).mpr (h d hd)
  · rw [hl'.bytes_eq, encodeDiff, List.flatMap]

/-- The fields of a page are exact, and the counter of a section tells that there is one, if and
only if the page starts below 4 GiB and is not a page of 64 KiB that is rewritten as a whole;
where this holds of all twins, it is so for the whole diff. -/
theorem headers_exact_iff (hpos : 0 < pagesize) (hpagesize : pagesize ≤ 2 ^ 16)
    (region : Region) :
    (∀ twin, HeadersExact pagesize region twin ∧ CountsRuns pagesize region twin ↔
      HeaderFits pagesize region twin) ∧
    ((∀ twin ∈ region.twins, HeaderFits pagesize region twin) → DiffExact pagesize region) := by
  refine ⟨fun twin ↦ ?_, fun h ↦ diffExact_of_fits fun d hd ↦ ?_⟩
  · rw [headersExact_iff hpos hpagesize, countsRuns_iff hpagesize]
    exact ⟨fun h ↦ h.1, fun h ↦ ⟨h, h.keeps⟩⟩
  · obtain ⟨twin, htwin, rfl⟩ := List.mem_map.mp hd
    exact (pageDiff_fits_iff hpos hpagesize).mpr (h twin htwin)

/-- One byte of the first of two pages is new. -/
def touched : Region where
  size := 8192
  bytes := Function.update (fun _ ↦ 0) 5 1
  writable := fun _ ↦ true
  twins := [⟨0, fun _ ↦ 0⟩]
  lamportTimestamp := 0

theorem touched_fits : ∀ twin ∈ touched.twins, HeaderFits 4096 touched twin := by
  intro twin htwin
  obtain rfl := List.mem_singleton.mp htwin
  exact ⟨by decide, fun h ↦ absurd h (by decide)⟩

theorem headers_exact_touched : HeadersExact 4096 touched ⟨0, fun _ ↦ 0⟩ ∧
    CountsRuns 4096 touched ⟨0, fun _ ↦ 0⟩ ∧ DiffExact 4096 touched := by
  obtain ⟨hpage, hdiff⟩ := headers_exact_iff (by decide : 0 < 4096) (by decide) touched
  obtain ⟨hexact, hcounts⟩ := (hpage _).mpr (touched_fits _ List.mem_cons_self)
  exact ⟨hexact, hcounts, hdiff touched_fits⟩

/-- The only page, of 64 KiB, is rewritten as a whole. -/
def rewritten : Region where
  size := 65536
  bytes := fun _ ↦ 1
  writable := fun _ ↦ true
  twins := [⟨0, fun _ ↦ 0⟩]
  lamportTimestamp := 0

/-- A page behind the first 4 GiB is written. -/
def distant : Region where
  size := 2 ^ 33
  bytes := fun _ ↦ 1
  writable := fun _ ↦ true
  twins := [⟨2 ^ 32, fun _ ↦ 0⟩]
  lamportTimestamp := 0

theorem not_headersExact : ¬ HeadersExact 65536 rewritten ⟨0, fun _ ↦ 0⟩ ∧
    ¬ CountsRuns 65536 rewritten ⟨0, fun _ ↦ 0⟩ ∧
    ¬ HeadersExact 4096 distant ⟨2 ^ 32, fun _ ↦ 0⟩ := by
  have hkeeps : ¬ KeepsByte 65536 rewritten ⟨0, fun _ ↦ 0⟩ := by
    rintro ⟨i, -, heq⟩
    exact absurd heq (by decide : (1 : UInt8) ≠ 0)
  rw [headersExact_iff (by decide) (by decide), headersExact_iff (by decide) (by decide),
    countsRuns_iff (by decide)]
  exact ⟨fun h ↦ hkeeps (h.keeps rfl), fun h ↦ hkeeps (h rfl),
    fun h ↦ absurd h.pageOffset (by decide)⟩

end Edsm.Memory
