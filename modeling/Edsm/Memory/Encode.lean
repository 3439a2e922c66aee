import Edsm.Memory.Region

/-!
# What the encoder writes

One pass over the bytes of a page writes the sections as it finds them; the two
counters of a section and a page are written as zero and patched later.  A
reallocation between the write and the patch moves the buffer but not the data.
-/

namespace Edsm.Memory

/-! ## The fields -/

@[simp] theorem length_u16 (n : ℕ) : (u16 n).length = 2 := LittleEndian.length_toBytes 2 n

@[simp] theorem length_u32 (n : ℕ) : (u32 n).length = 4 := LittleEndian.length_toBytes 4 n

theorem u16_toNat_ofNat (n : ℕ) : u16 (UInt16.ofNat n).toNat = u16 n := by
  rw [UInt16.toNat_ofNat']
  exact LittleEndian.toBytes_mod 2 n

theorem u32_toNat_ofNat (n : ℕ) : u32 (UInt32.ofNat n).toNat = u32 n := by
  rw [UInt32.toNat_ofNat']
  exact LittleEndian.toBytes_mod 4 n

@[simp] theorem Section.length_encode (x : Section) : x.encode.length = 4 + x.data.length := by
  simp [Section.encode]
  omega

theorem PageDiff.length_encode (d : PageDiff) :
    d.encode.length = 6 + (d.sections.flatMap Section.encode).length := by
  simp [PageDiff.encode]
  omega

theorem length_encodeDiff (ts : UInt32) (pages : List PageDiff) :
    (encodeDiff ts pages).length = 8 + (pages.flatMap PageDiff.encode).length := by
  simp [encodeDiff]
  omega

theorem length_le_flatMap_encode (ds : List PageDiff) :
    6 * ds.length ≤ (ds.flatMap PageDiff.encode).length := by
  induction ds with
  | nil => simp
  | cons d ds ih =>
      simp only [List.flatMap_cons, List.length_append, List.length_cons, PageDiff.length_encode]
      omega

/-! ## The sections of one more byte -/

section Sections

variable {real copied : ℕ → UInt8} {n : ℕ}

theorem sectionOf_extend (real : ℕ → UInt8) (r : Run) :
    sectionOf real r.extend = ⟨r.start, (sectionOf real r).data ++ [real r.stop]⟩ := by
  simp [sectionOf, Run.extend, Run.stop, List.range'_concat]

theorem sectionOf_one (real : ℕ → UInt8) (i : ℕ) : sectionOf real ⟨i, 1⟩ = ⟨i, [real i]⟩ := by
  simp [sectionOf]

theorem sectionsOf_succ_of_eq (h : real n = copied n) :
    sectionsOf real copied (n + 1) = sectionsOf real copied n := by
  rw [sectionsOf, runs_succ_of_false (by simp [differs, h]), sectionsOf]

theorem monotone_length_sections (real copied : ℕ → UInt8) :
    Monotone fun n ↦ ((sectionsOf real copied n).flatMap Section.encode).length := by
  refine monotone_nat_of_le_succ fun n ↦ ?_
  by_cases h : real n = copied n
  · rw [sectionsOf_succ_of_eq h]
  · unfold sectionsOf
    rcases runs_succ_of_true (p := differs real copied) (n := n) (by simpa [differs] using h) with
      ⟨rs, r, hruns, -, hsucc, -⟩ | ⟨hsucc, -⟩
    · simp [hruns, hsucc, Run.extend]
    · simp [hsucc]

/-- A byte that differs needs a section of its own at most. -/
theorem length_sections_le (real copied : ℕ → UInt8) (n : ℕ) :
    ((sectionsOf real copied n).flatMap Section.encode).length ≤ 5 * n := by
  induction n with
  | zero => simp [sectionsOf, runs]
  | succ n ih =>
      by_cases h : real n = copied n
      · rw [sectionsOf_succ_of_eq h]
        omega
      · unfold sectionsOf at ih ⊢
        rcases runs_succ_of_true (p := differs real copied) (n := n)
          (by simpa [differs] using h) with ⟨rs, r, hruns, -, hsucc, -⟩ | ⟨hsucc, -⟩
        · simp only [hruns, hsucc, List.map_append, List.flatMap_append, List.length_append,
            List.map_singleton, List.flatMap_singleton, Section.length_encode, sectionOf_length,
            Run.extend] at ih ⊢
          omega
        · simp only [hsucc, List.map_append, List.flatMap_append, List.length_append,
            List.map_singleton, List.flatMap_singleton, Section.length_encode,
            sectionOf_length] at ih ⊢
          omega

end Sections

/-! ## The loop over the bytes of a page -/

section Loop

variable {A : Allocator} {real copied : ℕ → UInt8} {head before tail : List UInt8} {i : ℕ}
variable {d : DiffState}

/-- The state of the loop before byte `i`. -/
structure LoopInv (real copied : ℕ → UInt8) (head before : List UInt8) (i : ℕ) (d : DiffState) :
    Prop where
  layout : ∃ tail, d.msg.Layout head
    (before ++ (sectionsOf real copied i).flatMap Section.encode) tail
  contiguousBytes :
    d.contiguousBytes = UInt16.ofNat (Run.trailing i (runs (differs real copied) i))
  numPageSections : d.numPageSections = UInt16.ofNat (runs (differs real copied) i).length
  /-- The counter of the last section, if that section may go on. -/
  offset : ∀ rs r, runs (differs real copied) i = rs ++ [r] → r.stop = i →
    d.continuousBytesOffset.toNat =
      (before ++ (rs.map (sectionOf real)).flatMap Section.encode).length + 2

/-- The `uint16_t` counter of the section in progress does not wrap before the next byte. -/
def CountsFit (real copied : ℕ → UInt8) (n : ℕ) : Prop :=
  ∀ i < n, Run.trailing i (runs (differs real copied) i) < 2 ^ 16

/-- The counter of the last section is patched and the byte appended. -/
theorem patch_write {pre old data : List UInt8} {x : ℕ} {msg : Message}
    (h : msg.Layout head (pre ++ (u16 x ++ old ++ data)) tail) (hold : old.length = 2)
    {offset : UInt32} (hoffset : offset.toNat = pre.length + 2) {count : UInt16}
    (hcount : count = UInt16.ofNat (data.length + 1)) (b : UInt8) :
    ∃ msg', msg.patch offset (u16 count.toNat) = .ok msg' ∧
      (msg'.write A [b]).Meets (A.Grants (head.length + pre.length + (5 + data.length)))
        fun msg ↦ ∃ tail, msg.Layout head (pre ++ Section.encode ⟨x, data ++ [b]⟩) tail := by
  have hsplit : pre ++ (u16 x ++ old ++ data) = (pre ++ u16 x) ++ old ++ data := by simp
  rw [hsplit] at h
  obtain ⟨msg', hpatch, hl⟩ := Message.patch_spec h offset (u16 count.toNat)
    (by rw [hoffset, List.length_append, length_u16]) (by rw [hold, length_u16])
  have hwrite := Message.write_meets (A := A) hl [b] (by simp)
  refine ⟨msg', hpatch, (hwrite.of_imp fun hgrants ↦ ?_).mono ?_⟩
  · refine hgrants.mono ?_
    simp only [List.length_append, length_u16, List.length_singleton]
    omega
  · rintro msg ⟨tail, hl'⟩
    refine ⟨tail, ?_⟩
    convert hl' using 1
    rw [hcount, u16_toNat_ofNat]
    simp [Section.encode]

theorem diffByte_of_eq (h : LoopInv real copied head before i d) (heq : real i = copied i) :
    LoopInv real copied head before (i + 1) { d with contiguousBytes := 0 } := by
  have hruns : runs (differs real copied) (i + 1) = runs (differs real copied) i :=
    runs_succ_of_false (by simp [differs, heq])
  refine ⟨?_, ?_, ?_, fun rs r hconcat hstop ↦ ?_⟩
  · rw [sectionsOf_succ_of_eq heq]
    exact h.layout
  · rw [trailing_runs_succ, if_neg (by simp [differs, heq])]
    rfl
  · rw [hruns]
    exact h.numPageSections
  · rw [hruns] at hconcat
    have hle := (maximalRuns_runs (differs real copied) i).le r (by simp [hconcat])
    omega

theorem diffByte_extend (h : LoopInv real copied head before i d)
    (hne : real i ≠ copied i) {rs : List Run} {r : Run}
    (hruns : runs (differs real copied) i = rs ++ [r]) (hstop : r.stop = i)
    (hsucc : runs (differs real copied) (i + 1) = rs ++ [r.extend])
    (htrailing : Run.trailing i (runs (differs real copied) i) = r.length)
    (hlt : r.length < 2 ^ 16) :
    (diffByte A real copied d i).Meets (A.Grants (head.length + before.length +
        ((sectionsOf real copied (i + 1)).flatMap Section.encode).length))
      (LoopInv real copied head before (i + 1)) := by
  obtain ⟨tail, hl⟩ := h.layout
  have hpos : 0 < r.length :=
    (maximalRuns_runs (differs real copied) i).pos r (by simp [hruns])
  have hcount := h.contiguousBytes
  rw [htrailing] at hcount
  have hcountNe : d.contiguousBytes ≠ 0 := by
    intro h0
    have hnat := congrArg UInt16.toNat (hcount.symm.trans h0)
    rw [UInt16.toNat_ofNat', Nat.mod_eq_of_lt hlt] at hnat
    exact hpos.ne' hnat
  have hbefore : sectionsOf real copied i = rs.map (sectionOf real) ++ [sectionOf real r] := by
    rw [sectionsOf, hruns, List.map_append, List.map_singleton]
  have hafter : sectionsOf real copied (i + 1) =
      rs.map (sectionOf real) ++ [⟨r.start, (sectionOf real r).data ++ [real i]⟩] := by
    rw [sectionsOf, hsucc, List.map_append, List.map_singleton, sectionOf_extend, hstop]
  rw [hbefore, List.flatMap_append, List.flatMap_singleton, ← List.append_assoc] at hl
  obtain ⟨msg₁, hpatch, hwrite⟩ := patch_write (A := A) hl (length_u16 _)
    (h.offset rs r hruns hstop) (show d.contiguousBytes + 1 = _ by
      rw [hcount, sectionOf_length, UInt16.ofNat_add]; rfl) (real i)
  simp only [diffByte, if_pos hne, if_pos hcountNe, hpatch, bind, Except.bind]
  refine hwrite.bind (fun hgrants ↦ hgrants.mono ?_) ?_
  · simp only [hafter, List.flatMap_append, List.flatMap_singleton, List.length_append,
      Section.length_encode, List.length_singleton]
    omega
  rintro msg₂ ⟨tail', hl₂⟩
  refine ⟨⟨tail', ?_⟩, ?_, ?_, fun rs' r' hconcat _ ↦ ?_⟩
  · rw [hafter, List.flatMap_append, List.flatMap_singleton, ← List.append_assoc]
    exact hl₂
  · change d.contiguousBytes + 1 = _
    rw [trailing_runs_succ, if_pos (by simpa [differs] using hne), htrailing, hcount,
      UInt16.ofNat_add]
    rfl
  · change d.numPageSections = _
    rw [h.numPageSections, hruns, hsucc]
    simp
  · obtain ⟨rfl, -⟩ := List.append_inj' (hconcat.symm.trans hsucc) rfl
    exact h.offset rs' r hruns hstop

theorem diffByte_start (h : LoopInv real copied head before i d)
    (hne : real i ≠ copied i)
    (hsucc : runs (differs real copied) (i + 1) = runs (differs real copied) i ++ [⟨i, 1⟩])
    (htrailing : Run.trailing i (runs (differs real copied) i) = 0) :
    (diffByte A real copied d i).Meets (A.Grants (head.length + before.length +
        ((sectionsOf real copied (i + 1)).flatMap Section.encode).length))
      (LoopInv real copied head before (i + 1)) := by
  obtain ⟨tail, hl⟩ := h.layout
  have hcount : d.contiguousBytes = 0 := by
    rw [h.contiguousBytes, htrailing]
    rfl
  have hafter : sectionsOf real copied (i + 1) = sectionsOf real copied i ++ [⟨i, [real i]⟩] := by
    rw [sectionsOf, hsucc, List.map_append, List.map_singleton, sectionOf_one, sectionsOf]
  set pre := before ++ (sectionsOf real copied i).flatMap Section.encode with hpre
  set n := head.length + before.length +
    ((sectionsOf real copied (i + 1)).flatMap Section.encode).length with hn
  have hlength : head.length + pre.length + 5 = n := by
    simp only [hn, hafter, hpre, List.flatMap_append, List.flatMap_singleton, List.length_append,
      Section.length_encode, List.length_singleton]
    omega
  have hopen : (openSection A d i).Meets (A.Grants n) fun d₂ ↦
      (∃ tail, d₂.msg.Layout head (pre ++ (u16 i ++ u16 d.contiguousBytes.toNat ++ [])) tail) ∧
        d₂.continuousBytesOffset.toNat = pre.length + 2 ∧ d₂.contiguousBytes = 1 ∧
        d₂.numPageSections = d.numPageSections + 1 := by
    refine (Message.write_meets hl (u16 i) (by simp)).bind
      (fun hgrants ↦ hgrants.mono ?_) ?_
    · rw [length_u16]
      omega
    rintro msg₁ ⟨tail₁, hl₁⟩
    refine (Message.write_meets hl₁ (u16 d.contiguousBytes.toNat) (by simp)).bind
      (fun hgrants ↦ hgrants.mono ?_) ?_
    · rw [List.length_append, length_u16, length_u16]
      omega
    rintro msg₂ ⟨tail₂, hl₂⟩
    refine ⟨⟨tail₂, by simpa using hl₂⟩, ?_, rfl, rfl⟩
    rw [hl₁.dataSize, List.length_append, length_u16]
  simp only [diffByte, if_pos hne, hcount, ne_eq, not_true_eq_false, if_false]
  refine hopen.bind id ?_
  rintro d₂ ⟨⟨tail₂, hl₂⟩, hoffset, hone, hsections⟩
  obtain ⟨msg₃, hpatch, hwrite⟩ := patch_write (A := A) hl₂ (length_u16 _) hoffset hone (real i)
  simp only [hpatch, bind, Except.bind]
  refine hwrite.bind (fun hgrants ↦ hgrants.mono ?_) ?_
  · rw [List.length_nil]
    omega
  rintro msg₄ ⟨tail', hl₄⟩
  refine ⟨⟨tail', ?_⟩, ?_, ?_, fun rs r hconcat _ ↦ ?_⟩
  · rw [hafter, List.flatMap_append, List.flatMap_singleton, ← List.append_assoc]
    exact hl₄
  · change d₂.contiguousBytes = _
    rw [trailing_runs_succ, if_pos (by simpa [differs] using hne), htrailing, hone]
    rfl
  · change d₂.numPageSections = _
    rw [hsections, h.numPageSections, hsucc, List.length_append, UInt16.ofNat_add]
    rfl
  · obtain ⟨rfl, -⟩ := List.append_inj' (hconcat.symm.trans hsucc) rfl
    exact hoffset

theorem diffByte_meets (h : LoopInv real copied head before i d)
    (hlt : Run.trailing i (runs (differs real copied) i) < 2 ^ 16) :
    (diffByte A real copied d i).Meets (A.Grants (head.length + before.length +
        ((sectionsOf real copied (i + 1)).flatMap Section.encode).length))
      (LoopInv real copied head before (i + 1)) := by
  by_cases heq : real i = copied i
  · rw [diffByte, if_neg (not_not.mpr heq)]
    exact diffByte_of_eq h heq
  · rcases runs_succ_of_true (p := differs real copied) (n := i) (by simpa [differs] using heq) with
      ⟨rs, r, hruns, hstop, hsucc, htrailing⟩ | ⟨hsucc, htrailing⟩
    · exact diffByte_extend h heq hruns hstop hsucc htrailing (htrailing ▸ hlt)
    · exact diffByte_start h heq hsucc htrailing

theorem foldlM_diffByte (h : LoopInv real copied head before 0 d) {n : ℕ}
    (hcounts : CountsFit real copied n) :
    ((List.range n).foldlM (diffByte A real copied) d).Meets
      (A.Grants (head.length + before.length +
        ((sectionsOf real copied n).flatMap Section.encode).length))
      (LoopInv real copied head before n) := by
  induction n with
  | zero => exact h
  | succ n ih =>
      have hmono := monotone_length_sections real copied (Nat.le_add_right n 1)
      simp only at hmono
      rw [List.range_succ, List.foldlM_append]
      refine (ih fun i hi ↦ hcounts i (by omega)).bind (fun hgrants ↦ hgrants.mono (by omega))
        fun d₁ hinv ↦ ?_
      rw [List.foldlM_cons]
      exact (diffByte_meets hinv (hcounts n n.lt_succ_self)).bind id fun d₂ hinv' ↦ hinv'

end Loop

/-! ## Pages and regions -/

variable {A : Allocator} {pagesize : ℕ} {region : Region} {head bytes tail : List UInt8}
variable {msg : Message}

/-- The changes of one page against its twin. -/
def pageDiff (pagesize : ℕ) (region : Region) (twin : PageTwin) : PageDiff :=
  ⟨twin.originalPageHead,
    sectionsOf (region.page twin.originalPageHead) twin.twinData pagesize⟩

/-- In a page of at most 64 KiB the length of a section is all that may not fit. -/
theorem pageDiff_fits_of_length {twin : PageTwin} (hhead : twin.originalPageHead < 2 ^ 32)
    (hpagesize : pagesize ≤ 2 ^ 16)
    (hlength : ∀ x ∈ (pageDiff pagesize region twin).sections, x.data.length < 2 ^ 16) :
    (pageDiff pagesize region twin).Fits where
  pageOffset := hhead
  sections := by
    have hcount := two_mul_length_sectionsOf_le (region.page twin.originalPageHead)
      twin.twinData pagesize
    change (sectionsOf _ _ _).length < _
    omega
  offset x hx := by
    have hinside := inside_of_mem_sectionsOf hx
    omega
  length := hlength

/-- What the next diff of the region says. -/
def Region.pageDiffs (pagesize : ℕ) (region : Region) : List PageDiff :=
  region.twins.map (pageDiff pagesize region)

theorem loopInv_init {before : List UInt8} (h : msg.Layout head before tail)
    (real copied : ℕ → UInt8) :
    LoopInv real copied head before 0 ⟨msg, 0, 0, 0⟩ where
  layout := ⟨tail, by simpa [sectionsOf, runs] using h⟩
  contiguousBytes := rfl
  numPageSections := rfl
  offset rs r h := by simp [runs] at h

theorem countsFit_of_le {real copied : ℕ → UInt8} (hpagesize : pagesize ≤ 2 ^ 16) :
    CountsFit real copied pagesize := fun i hi ↦
  (trailing_runs_le _ i).trans_lt (by omega)

theorem PageDiff.Fits.counts {twin : PageTwin} (h : (pageDiff pagesize region twin).Fits) :
    CountsFit (region.page twin.originalPageHead) twin.twinData pagesize := by
  intro i hi
  refine trailing_lt_of_length_lt (by decide) (fun r hr ↦ ?_) i hi.le
  rw [← sectionOf_length]
  exact h.length _ (List.mem_map_of_mem hr)

theorem countsFit_of_fits (h : ∀ d ∈ region.pageDiffs pagesize, d.Fits) :
    ∀ twin ∈ region.twins,
      CountsFit (region.page twin.originalPageHead) twin.twinData pagesize :=
  fun _ htwin ↦ (h _ (List.mem_map_of_mem htwin)).counts

theorem diffPage_meets (h : msg.Layout head bytes tail) (region : Region) (twin : PageTwin)
    (hcounts : CountsFit (region.page twin.originalPageHead) twin.twinData pagesize) :
    (diffPage A pagesize region twin msg).Meets
      (A.Grants (head.length + bytes.length + (pageDiff pagesize region twin).encode.length))
      fun msg ↦ ∃ tail,
        msg.Layout head (bytes ++ (pageDiff pagesize region twin).encode) tail := by
  have hlength := (pageDiff pagesize region twin).length_encode
  refine (Message.write_meets h (u32 twin.originalPageHead) (by simp)).bind
    (fun hgrants ↦ hgrants.mono ?_) ?_
  · rw [length_u32]
    omega
  rintro msg₁ ⟨tail₁, hl₁⟩
  refine (Message.write_meets hl₁ (u16 0) (by simp)).bind
    (fun hgrants ↦ hgrants.mono ?_) ?_
  · simp only [List.length_append, length_u16, length_u32]
    omega
  rintro msg₂ ⟨tail₂, hl₂⟩
  refine (foldlM_diffByte (loopInv_init hl₂ (region.page twin.originalPageHead) twin.twinData)
    hcounts).bind (fun hgrants ↦ hgrants.mono ?_) fun d hinv ↦ ?_
  · simp only [List.length_append, length_u16, length_u32]
    simp only [pageDiff] at hlength
    simp only [pageDiff]
    omega
  obtain ⟨tail₃, hl₃⟩ := hinv.layout
  obtain ⟨msg₄, hpatch, hl₄⟩ := Message.patch_spec hl₃ msg₁.dataSize
    (u16 d.numPageSections.toNat) hl₁.dataSize (by simp)
  rw [hpatch]
  refine ⟨tail₃, ?_⟩
  rw [hinv.numPageSections, u16_toNat_ofNat] at hl₄
  convert hl₄ using 1
  simp [pageDiff, PageDiff.encode, sectionsOf]

/-- The region after the pages of the twins have been made read-only. -/
def Region.protectAll (region : Region) (twins : List PageTwin) : Region :=
  twins.foldl (fun region twin ↦ region.protect twin.originalPageHead false) region

@[simp] theorem pageDiff_protect (x : ℕ) (writable : Bool) :
    pageDiff pagesize (region.protect x writable) = pageDiff pagesize region := rfl

/-- The region after its diff has been taken. -/
def Region.diffed (region : Region) : Region :=
  { region.incrementLamportTimestamp.protectAll region.twins with twins := [] }

theorem diffTwins_meets (h : msg.Layout head bytes tail) (region : Region)
    (twins : List PageTwin)
    (hcounts : ∀ twin ∈ twins,
      CountsFit (region.page twin.originalPageHead) twin.twinData pagesize)
    (n : UInt32) :
    (diffTwins A pagesize { region with twins := twins } msg n twins).Meets
      (A.Grants (head.length + bytes.length +
        ((twins.map (pageDiff pagesize region)).flatMap PageDiff.encode).length))
      fun result ↦ ∃ msg tail, result =
          ({ region.protectAll twins with twins := [] }, msg, n + UInt32.ofNat twins.length) ∧
        msg.Layout head
          (bytes ++ (twins.map (pageDiff pagesize region)).flatMap PageDiff.encode) tail := by
  induction twins generalizing msg bytes tail region n with
  | nil => exact ⟨msg, tail, by simp [Region.protectAll], by simpa using h⟩
  | cons twin twins ih =>
      have hpage := diffPage_meets (A := A) h (region.protect twin.originalPageHead false)
        twin (hcounts twin List.mem_cons_self)
      rw [pageDiff_protect] at hpage
      refine hpage.bind (fun hgrants ↦ hgrants.mono ?_) ?_
      · simp only [List.map_cons, List.flatMap_cons, List.length_append]
        omega
      · rintro msg₁ ⟨tail₁, hl₁⟩
        refine ((ih hl₁ (region.protect twin.originalPageHead false)
          (fun twin' hmem ↦ hcounts twin' (List.mem_cons_of_mem twin hmem)) (n + 1)).of_imp
          fun hgrants ↦ ?_).mono ?_
        · refine hgrants.mono ?_
          simp only [List.map_cons, List.flatMap_cons, List.length_append, pageDiff_protect]
          omega
        · rintro _ ⟨msg₂, tail₂, rfl, hl₂⟩
          have hcount : n + UInt32.ofNat (twin :: twins).length =
              n + 1 + UInt32.ofNat twins.length := by
            rw [List.length_cons, Nat.add_comm, UInt32.ofNat_add, ← UInt32.add_assoc]
            rfl
          exact ⟨msg₂, tail₂, by rw [hcount]; rfl, by simpa using hl₂⟩

/-- The encoder appends the whole diff, with the next timestamp; the twins are gone and
their pages read-only. -/
theorem diffRegion_meets (h : msg.Layout head bytes tail)
    (hcounts : ∀ twin ∈ region.twins,
      CountsFit (region.page twin.originalPageHead) twin.twinData pagesize) :
    (diffRegion A pagesize region msg).Meets
      (A.Grants (head.length + bytes.length +
        (encodeDiff (region.lamportTimestamp + 1) (region.pageDiffs pagesize)).length))
      fun result ↦ ∃ msg tail, result =
          (region.diffed, msg, UInt32.ofNat region.twins.length) ∧
        msg.Layout head
          (bytes ++ encodeDiff (region.lamportTimestamp + 1) (region.pageDiffs pagesize)) tail := by
  have hlength := length_encodeDiff (region.lamportTimestamp + 1) (region.pageDiffs pagesize)
  refine (Message.write_meets h (u32 (region.lamportTimestamp + 1).toNat) (by simp)).bind
    (fun hgrants ↦ hgrants.mono ?_) ?_
  · rw [length_u32]
    omega
  rintro msg₁ ⟨tail₁, hl₁⟩
  refine (Message.write_meets hl₁ (u32 0) (by simp)).bind
    (fun hgrants ↦ hgrants.mono ?_) ?_
  · simp only [List.length_append, length_u32]
    omega
  rintro msg₂ ⟨tail₂, hl₂⟩
  refine (diffTwins_meets hl₂ region.incrementLamportTimestamp region.twins hcounts 0).bind
    (fun hgrants ↦ hgrants.mono ?_) ?_
  · simp only [List.length_append, length_u32]
    change _ + ((region.twins.map (pageDiff pagesize region)).flatMap _).length ≤ _
    unfold Region.pageDiffs at hlength ⊢
    omega
  rintro _ ⟨msg₃, tail₃, rfl, hl₃⟩
  obtain ⟨msg₄, hpatch, hl₄⟩ := Message.patch_spec hl₃ msg₁.dataSize
    (u32 (UInt32.ofNat region.twins.length).toNat) hl₁.dataSize (by simp)
  simp only [UInt32.zero_add, hpatch, bind, Except.bind]
  refine ⟨msg₄, tail₃, rfl, ?_⟩
  rw [u32_toNat_ofNat] at hl₄
  convert hl₄ using 1
  rw [encodeDiff, Region.pageDiffs, List.length_map]
  simp only [List.append_assoc]
  rfl

/-- Whatever the message, the region is left in the same way. -/
theorem txEnd_region {all : Bool} {region' : Region} {payload : Option (List UInt8)}
    (h : txEnd A pagesize all region = .ok (region', payload)) : region' = region.diffed := by
  have htwins : ∀ (twins : List PageTwin) (region region' : Region) (msg msg' : Message)
      (n n' : UInt32), diffTwins A pagesize { region with twins := twins } msg n twins =
        .ok (region', msg', n') → region' = { region.protectAll twins with twins := [] } := by
    intro twins
    induction twins with
    | nil =>
        intro region region' msg msg' n n' h
        simp only [diffTwins, Except.ok.injEq, Prod.mk.injEq] at h
        exact h.1.symm
    | cons twin twins ih =>
        intro region region' msg msg' n n' h
        rw [diffTwins] at h
        obtain ⟨msg₁, -, hrest⟩ := Fault.bind_eq_ok.mp h
        exact ih (region.protect twin.originalPageHead false) _ _ _ _ _ hrest
  unfold txEnd at h
  split at h
  · cases h
  · next msg hcreate =>
      obtain ⟨⟨region₁, msg₁, n⟩, hdiff, hret⟩ := Fault.bind_eq_ok.mp h
      simp only [pure, Except.pure, Except.ok.injEq, Prod.mk.injEq] at hret
      obtain rfl := hret.1
      unfold diffRegion at hdiff
      obtain ⟨msg₂, -, hdiff⟩ := Fault.bind_eq_ok.mp hdiff
      obtain ⟨msg₃, -, hdiff⟩ := Fault.bind_eq_ok.mp hdiff
      obtain ⟨⟨region₂, msg₄, n'⟩, hpages, hdiff⟩ := Fault.bind_eq_ok.mp hdiff
      obtain ⟨msg₅, -, hdiff⟩ := Fault.bind_eq_ok.mp hdiff
      simp only [pure, Except.pure, Except.ok.injEq, Prod.mk.injEq] at hdiff
      obtain rfl := hdiff.1
      exact htwins region.twins region.incrementLamportTimestamp _ _ _ _ _ hpages

/-- What `edsm_memory_tx_end` hands over for a region. -/
def Region.payload (pagesize : ℕ) (all : Bool) (region : Region) : Option (List UInt8) :=
  if all = true ∧ region.twins = [] then none
  else some (encodeDiff (region.lamportTimestamp + 1) (region.pageDiffs pagesize))

theorem txEnd_meets (hfits : ∀ d ∈ region.pageDiffs pagesize, d.Fits) (all : Bool) :
    (txEnd A pagesize all region).Meets
      (A.Grants (encodeDiff (region.lamportTimestamp + 1) (region.pageDiffs pagesize)).length)
      fun result ↦ result = (region.diffed, region.payload pagesize all) ∧
        (encodeDiff (region.lamportTimestamp + 1) (region.pageDiffs pagesize)).length < 2 ^ 32 := by
  rw [txEnd]
  cases hcreate : Message.create A 0 300 with
  | none =>
      rintro ⟨hA, -⟩
      have hmalloc := hA (0 + 300 : UInt32).toNat
      rw [Option.map_eq_none_iff.mp hcreate] at hmalloc
      cases hmalloc
  | some msg =>
      obtain ⟨tail, hl, -⟩ := Message.layout_create_tail hcreate
      have hdiff := diffRegion_meets (A := A) hl (countsFit_of_fits hfits)
      simp only [List.length_nil, Nat.zero_add, List.nil_append] at hdiff
      refine hdiff.bind id ?_
      rintro _ ⟨msg', tail', rfl, hl'⟩
      have hlength : (encodeDiff (region.lamportTimestamp + 1) (region.pageDiffs pagesize)).length <
          2 ^ 32 := hl'.dataSize ▸ msg'.dataSize.toNat_lt
      have hcount : region.twins.length < 2 ^ 31 := by
        have hle := length_le_flatMap_encode (region.pageDiffs pagesize)
        rw [length_encodeDiff] at hlength
        rw [Region.pageDiffs, List.length_map, ← Region.pageDiffs] at hle
        omega
      have hsends : (¬ (all : Prop) ∨ 0 < UInt32.ofNat region.twins.length ∧
          (UInt32.ofNat region.twins.length).toNat < 2 ^ 31) ↔
            ¬ (all = true ∧ region.twins = []) := by
        rw [UInt32.lt_iff_toNat_lt, UInt32.toNat_ofNat', Nat.mod_eq_of_lt (by omega),
          ← List.length_eq_zero_iff, UInt32.toNat_zero, not_and_or]
        exact or_congr_right ⟨fun h ↦ by omega, fun h ↦ by omega⟩
      refine ⟨?_, hlength⟩
      simp only [hsends, Region.payload, ite_not, hl'.bytes_eq]

end Edsm.Memory
