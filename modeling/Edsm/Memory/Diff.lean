import Edsm.Library.LittleEndian
import Edsm.Library.Overlay
import Edsm.Library.Runs

/-!
# Diffs

What the diff of a region says, apart from its bytes on the wire: for some pages
the sections of consecutive bytes that change and their new values.
-/

namespace Edsm.Memory

/-- Consecutive changed bytes of a page. -/
structure Section where
  offset : ℕ
  data : List UInt8
  deriving DecidableEq, Repr

structure PageDiff where
  pageOffset : ℕ
  sections : List Section
  deriving DecidableEq, Repr

/-! ## The format -/

/-- `(uint16_t)` of a number, as it is written into a message. -/
def u16 (n : ℕ) : List UInt8 := LittleEndian.toBytes 2 n

def u32 (n : ℕ) : List UInt8 := LittleEndian.toBytes 4 n

def Section.encode (x : Section) : List UInt8 := u16 x.offset ++ u16 x.data.length ++ x.data

def PageDiff.encode (d : PageDiff) : List UInt8 :=
  u32 d.pageOffset ++ u16 d.sections.length ++ d.sections.flatMap Section.encode

/-- The whole message; each number is cut down to the width of its field. -/
def encodeDiff (lamportTimestamp : UInt32) (pages : List PageDiff) : List UInt8 :=
  u32 lamportTimestamp.toNat ++ u32 pages.length ++ pages.flatMap PageDiff.encode

/-- No field of the page is too narrow. -/
structure PageDiff.Fits (d : PageDiff) : Prop where
  pageOffset : d.pageOffset < 2 ^ 32
  sections : d.sections.length < 2 ^ 16
  offset : ∀ x ∈ d.sections, x.offset < 2 ^ 16
  length : ∀ x ∈ d.sections, x.data.length < 2 ^ 16

instance (d : PageDiff) : Decidable d.Fits :=
  decidable_of_iff (d.pageOffset < 2 ^ 32 ∧ d.sections.length < 2 ^ 16 ∧
      (∀ x ∈ d.sections, x.offset < 2 ^ 16) ∧ ∀ x ∈ d.sections, x.data.length < 2 ^ 16)
    ⟨fun ⟨h₁, h₂, h₃, h₄⟩ ↦ ⟨h₁, h₂, h₃, h₄⟩, fun ⟨h₁, h₂, h₃, h₄⟩ ↦ ⟨h₁, h₂, h₃, h₄⟩⟩

/-- The page lies in a region of the given size and the sections in the page. -/
structure PageDiff.Inside (pagesize size : ℕ) (d : PageDiff) : Prop where
  aligned : pagesize ∣ d.pageOffset
  page : d.pageOffset + pagesize ≤ size
  sections : ∀ x ∈ d.sections, x.offset + x.data.length ≤ pagesize

instance (pagesize size : ℕ) (d : PageDiff) : Decidable (d.Inside pagesize size) :=
  decidable_of_iff (pagesize ∣ d.pageOffset ∧ d.pageOffset + pagesize ≤ size ∧
      ∀ x ∈ d.sections, x.offset + x.data.length ≤ pagesize)
    ⟨fun ⟨h₁, h₂, h₃⟩ ↦ ⟨h₁, h₂, h₃⟩, fun ⟨h₁, h₂, h₃⟩ ↦ ⟨h₁, h₂, h₃⟩⟩

/-! ## The bytes that change -/

/-- On the bytes of a page. -/
def Section.patch (x : Section) : Patch ℕ UInt8 :=
  fun i ↦ if x.offset ≤ i then x.data[i - x.offset]? else none

/-- On the bytes of the page; a later section wins. -/
def PageDiff.pagePatch (d : PageDiff) : Patch ℕ UInt8 := .join (d.sections.map Section.patch)

/-- On the bytes of the region. -/
def PageDiff.patch (pagesize : ℕ) (d : PageDiff) : Patch ℕ UInt8 := fun i ↦
  if d.pageOffset ≤ i ∧ i < d.pageOffset + pagesize then d.pagePatch (i - d.pageOffset) else none

theorem Section.patch_eq_none_iff {x : Section} {i : ℕ} :
    x.patch i = none ↔ i < x.offset ∨ x.offset + x.data.length ≤ i := by
  unfold Section.patch
  split
  · rw [List.getElem?_eq_none_iff]
    omega
  · simp only [true_iff]
    omega

/-! ## The diff of two pages -/

/-- The bytes of a run as a section. -/
def sectionOf (real : ℕ → UInt8) (r : Run) : Section :=
  ⟨r.start, (List.range' r.start r.length).map real⟩

/-- Where two pages differ. -/
def differs (real copied : ℕ → UInt8) (i : ℕ) : Bool := real i ≠ copied i

/-- The maximal runs of differing bytes among the first `n`. -/
def sectionsOf (real copied : ℕ → UInt8) (n : ℕ) : List Section :=
  (runs (differs real copied) n).map (sectionOf real)

variable {real copied : ℕ → UInt8} {r : Run} {i n : ℕ}

@[simp] theorem sectionOf_length : (sectionOf real r).data.length = r.length := by
  simp [sectionOf]

theorem sectionOf_patch_of_mem (h : i ∈ r) : (sectionOf real r).patch i = some (real i) := by
  obtain ⟨hstart, hstop⟩ := Run.mem_def.mp h
  have hi : i - r.start < r.length := by omega
  have hget : ((List.range' r.start r.length).map real)[i - r.start]? = some (real i) := by
    rw [List.getElem?_map, List.getElem?_range' hi, Option.map_some, Nat.one_mul,
      Nat.add_sub_cancel' hstart]
  exact (if_pos hstart).trans hget

theorem sectionOf_patch_of_notMem (h : i ∉ r) : (sectionOf real r).patch i = none := by
  rw [Section.patch_eq_none_iff, sectionOf_length]
  rw [Run.mem_def] at h
  change i < r.start ∨ r.start + r.length ≤ i
  omega

/-- A section has bytes, and they are bytes of the page. -/
theorem inside_of_mem_sectionsOf {x : Section} (h : x ∈ sectionsOf real copied n) :
    x.offset + x.data.length ≤ n ∧ 0 < x.data.length := by
  obtain ⟨r, hr, rfl⟩ := List.mem_map.mp h
  rw [sectionOf_length]
  exact ⟨(maximalRuns_runs _ n).le r hr, (maximalRuns_runs _ n).pos r hr⟩

theorem two_mul_length_sectionsOf_le (real copied : ℕ → UInt8) (n : ℕ) :
    2 * (sectionsOf real copied n).length ≤ n + 1 := by
  rw [sectionsOf, List.length_map]
  exact (maximalRuns_runs _ n).two_mul_length_le

/-- The diff of two pages has the new value of each byte that differs, and no other byte. -/
theorem join_sectionsOf (real copied : ℕ → UInt8) (n i : ℕ) :
    Patch.join ((sectionsOf real copied n).map Section.patch) i =
      if i < n ∧ real i ≠ copied i then some (real i) else none := by
  have hmem : (∃ r ∈ runs (differs real copied) n, i ∈ r) ↔ i < n ∧ real i ≠ copied i := by
    rw [exists_mem_runs_iff]
    simp [differs]
  split
  · next h =>
      -- every section has the value of the real page, so the order does not matter
      refine Patch.join_eq_some ?_ ?_
      · obtain ⟨r, hr, hi⟩ := hmem.mpr h
        exact ⟨_, List.mem_map.mpr ⟨_, List.mem_map.mpr ⟨r, hr, rfl⟩, rfl⟩,
          by rw [sectionOf_patch_of_mem hi]; rfl⟩
      · intro f hf hsome
        obtain ⟨x, hx, rfl⟩ := List.mem_map.mp hf
        obtain ⟨r, -, rfl⟩ := List.mem_map.mp hx
        by_cases hi : i ∈ r
        · exact sectionOf_patch_of_mem hi
        · rw [sectionOf_patch_of_notMem hi] at hsome
          cases hsome
  · next h =>
      refine Patch.join_eq_none.mpr fun f hf ↦ ?_
      obtain ⟨x, hx, rfl⟩ := List.mem_map.mp hf
      obtain ⟨r, hr, rfl⟩ := List.mem_map.mp hx
      exact sectionOf_patch_of_notMem fun hi ↦ h (hmem.mp ⟨r, hr, hi⟩)

end Edsm.Memory
