import Mathlib.Data.List.Nodup
import Mathlib.Data.List.Sublists

/-!
# Singly linked lists in memory

A heap is a list of places, each with a cell or free; a link is the place of
another cell or null.  `Segment heap nodes last` says that the cells at the places
of `nodes` hold their values and are linked in this order, the last of them to
`last`.  A segment that ends in null has no place twice, so a walk along it takes
no more steps than the heap has places.  The walks below return `none` where they
come to a place that is free, or take more steps than that.
-/

namespace LinkedList

structure Cell (α : Type*) where
  value : α
  next : Option ℕ
  deriving DecidableEq, Repr

abbrev Heap (α : Type*) := List (Option (Cell α))

variable {α : Type*}

namespace Heap

def read (heap : Heap α) (p : ℕ) : Option (Cell α) := (heap[p]?).join

def write (heap : Heap α) (p : ℕ) (cell : Cell α) : Heap α := heap.set p (some cell)

def free (heap : Heap α) (p : ℕ) : Heap α := heap.set p none

/-- A new cell at a place that is free. -/
def alloc (heap : Heap α) (p : ℕ) (cell : Cell α) : Heap α :=
  (heap ++ List.replicate (p + 1 - heap.length) none).set p (some cell)

variable {heap : Heap α} {p q : ℕ} {cell cell' : Cell α}

theorem lt_length_of_read (h : heap.read p = some cell) : p < heap.length := by
  by_contra hle
  simp [read, List.getElem?_eq_none (not_lt.mp hle)] at h

theorem read_write_self (h : heap.read p = some cell) :
    (heap.write p cell').read p = some cell' := by
  simp [read, write, List.getElem?_set_self (lt_length_of_read h)]

theorem read_write_ne (h : q ≠ p) (cell : Cell α) :
    (heap.write p cell).read q = heap.read q := by
  rw [read, read, write, List.getElem?_set_ne (Ne.symm h)]

theorem read_free_ne (h : q ≠ p) : (heap.free p).read q = heap.read q := by
  rw [read, read, free, List.getElem?_set_ne (Ne.symm h)]

theorem read_free_self (heap : Heap α) (p : ℕ) : (heap.free p).read p = none := by
  rw [read, free]
  by_cases h : p < List.length heap
  · simp [List.getElem?_set_self h]
  · simp [not_lt.mp h]

theorem read_alloc_self (heap : Heap α) (p : ℕ) (cell : Cell α) :
    (heap.alloc p cell).read p = some cell := by
  rw [read, alloc, List.getElem?_set_self (by simp; omega)]
  rfl

theorem read_alloc_ne (h : q ≠ p) (cell : Cell α) :
    (heap.alloc p cell).read q = heap.read q := by
  rw [read, read, alloc, List.getElem?_set_ne (Ne.symm h)]
  by_cases hq : q < List.length heap
  · rw [List.getElem?_append_left hq]
  · rw [List.getElem?_append_right (not_lt.mp hq), List.getElem?_eq_none (not_lt.mp hq),
      List.getElem?_replicate]
    split <;> rfl

end Heap

/-! ## Segments -/

/-- A link to the first of the nodes, or `last` if there is none. -/
def first : List (ℕ × α) → Option ℕ → Option ℕ
  | [], last => last
  | node :: _, _ => some node.1

def Segment (heap : Heap α) : List (ℕ × α) → Option ℕ → Prop
  | [], _ => True
  | node :: nodes, last =>
      heap.read node.1 = some ⟨node.2, first nodes last⟩ ∧ Segment heap nodes last

section Segment

variable {heap heap' : Heap α} {nodes nodes' front back : List (ℕ × α)} {last : Option ℕ}
  {p : ℕ} {x : α}

@[simp] theorem first_nil (last : Option ℕ) : first ([] : List (ℕ × α)) last = last := rfl

@[simp] theorem first_cons (node : ℕ × α) (nodes : List (ℕ × α)) (last : Option ℕ) :
    first (node :: nodes) last = some node.1 := rfl

theorem first_append (front back : List (ℕ × α)) (last : Option ℕ) :
    first (front ++ back) last = first front (first back last) := by
  cases front <;> rfl

theorem first_eq_none : first nodes none = none ↔ nodes = [] := by
  cases nodes <;> simp

/-- What comes behind a node does not change the link to the first one. -/
theorem exists_first (front : List (ℕ × α)) (node : ℕ × α) :
    ∃ start ∈ (front ++ [node]).map Prod.fst,
      ∀ rest last, first (front ++ node :: rest) last = some start := by
  cases front with
  | nil => exact ⟨node.1, by simp, fun _ _ ↦ rfl⟩
  | cons node' front => exact ⟨node'.1, by simp, fun _ _ ↦ rfl⟩

theorem segment_cons (node : ℕ × α) (nodes : List (ℕ × α)) (last : Option ℕ) :
    Segment heap (node :: nodes) last ↔
      heap.read node.1 = some ⟨node.2, first nodes last⟩ ∧ Segment heap nodes last := Iff.rfl

theorem segment_append :
    Segment heap (front ++ back) last ↔
      Segment heap front (first back last) ∧ Segment heap back last := by
  induction front with
  | nil => simp [Segment]
  | cons node front ih => rw [List.cons_append, segment_cons, segment_cons, ih, first_append,
      and_assoc]

theorem Segment.read_of_mem (h : Segment heap nodes last) (hmem : p ∈ nodes.map Prod.fst) :
    ∃ cell, heap.read p = some cell := by
  induction nodes with
  | nil => simp at hmem
  | cons node nodes ih =>
      obtain ⟨hread, hrest⟩ := h
      rcases List.mem_cons.mp hmem with rfl | hmem
      · exact ⟨_, hread⟩
      · exact ih hrest hmem

/-- A segment depends on its own places only. -/
theorem Segment.frame (h : Segment heap nodes last)
    (hsame : ∀ p ∈ nodes.map Prod.fst, heap'.read p = heap.read p) :
    Segment heap' nodes last := by
  induction nodes with
  | nil => trivial
  | cons node nodes ih =>
      rw [List.map_cons, List.forall_mem_cons] at hsame
      exact ⟨hsame.1.trans h.1, ih h.2 hsame.2⟩

/-- What is linked from a place is determined by the heap. -/
theorem Segment.unique (h : Segment heap nodes none) (h' : Segment heap nodes' none)
    (hfirst : first nodes none = first nodes' none) : nodes = nodes' := by
  induction nodes generalizing nodes' with
  | nil => exact (first_eq_none.mp hfirst.symm).symm
  | cons node nodes ih =>
      cases nodes' with
      | nil => simp at hfirst
      | cons node' nodes' =>
          obtain ⟨p, x⟩ := node
          obtain ⟨q, y⟩ := node'
          obtain rfl : p = q := by simpa using hfirst
          obtain ⟨hread, hrest⟩ := h
          obtain ⟨hread', hrest'⟩ := h'
          obtain ⟨rfl, hnext⟩ : x = y ∧ first nodes none = first nodes' none := by
            simpa using hread.symm.trans hread'
          rw [ih hrest hrest' hnext]

/-- A list that ends has no place twice. -/
theorem Segment.nodup (h : Segment heap nodes none) : (nodes.map Prod.fst).Nodup := by
  induction nodes with
  | nil => exact List.nodup_nil
  | cons node nodes ih =>
      rw [List.map_cons, List.nodup_cons]
      refine ⟨fun hmem ↦ ?_, ih h.2⟩
      obtain ⟨node', hnode', hplace⟩ := List.mem_map.mp hmem
      obtain ⟨front, back, rfl⟩ := List.append_of_mem hnode'
      have hback := (segment_append.mp h.2).2
      -- the same place again would be followed by the same list again
      have heq := h.unique hback (by simp [hplace])
      have hlength := congrArg List.length heq
      simp at hlength
      omega

theorem Segment.length_le (h : Segment heap nodes none) : nodes.length ≤ heap.length := by
  have hsub : nodes.map Prod.fst ⊆ List.range heap.length := by
    intro p hp
    obtain ⟨cell, hcell⟩ := h.read_of_mem hp
    exact List.mem_range.mpr (Heap.lt_length_of_read hcell)
  simpa using (h.nodup.subperm hsub).length_le

end Segment

/-! ## Walks -/

/-- From the cell at a place to the first one whose link is null or `target`. -/
def seek (heap : Heap α) (target : ℕ) : ℕ → ℕ → Option ℕ
  | 0, _ => none
  | steps + 1, p =>
      (heap.read p).bind fun cell ↦
        match cell.next with
        | none => some p
        | some q => if q = target then some p else seek heap target steps q

/-- The number of cells that are linked from here on. -/
def count (heap : Heap α) : ℕ → Option ℕ → Option ℕ
  | _, none => some 0
  | 0, some _ => none
  | steps + 1, some p =>
      (heap.read p).bind fun cell ↦ (count heap steps cell.next).map (· + 1)

/-- Take the cell at `target` out of the list from `head` on.  It stays allocated. -/
def unlink (heap : Heap α) (head : Option ℕ) (target : ℕ) : Option (Heap α × Option ℕ) :=
  if head = some target then (heap.read target).map fun cell ↦ (heap, cell.next)
  else
    head.bind fun p ↦ (seek heap target heap.length p).bind fun before ↦
      (heap.read before).bind fun cell ↦
        if cell.next = none then some (heap, head)
        else (heap.read target).map fun removed ↦
          (heap.write before { cell with next := removed.next }, head)

section Walks

variable {heap : Heap α} {nodes front back : List (ℕ × α)} {last : Option ℕ} {steps p q : ℕ}
  {x y : α}

theorem count_of_segment (h : Segment heap nodes none) (hsteps : nodes.length ≤ steps) :
    count heap steps (first nodes none) = some nodes.length := by
  induction nodes generalizing steps with
  | nil =>
      cases steps <;> rfl
  | cons node nodes ih =>
      obtain ⟨hread, hrest⟩ := h
      cases steps with
      | zero => simp at hsteps
      | succ steps =>
          rw [List.length_cons, Nat.add_le_add_iff_right] at hsteps
          simp [count, hread, ih hrest hsteps]

/-- The walk stops at the cell that links to the target. -/
theorem seek_of_segment {start : ℕ} (h : Segment heap (front ++ [(q, y)]) (some p))
    (hp : p ∉ (front ++ [(q, y)]).map Prod.fst) (hsteps : front.length < steps)
    (hstart : first (front ++ [(q, y)]) none = some start) :
    seek heap p steps start = some q := by
  induction front generalizing steps start with
  | nil =>
      obtain ⟨steps, rfl⟩ : ∃ n, steps = n + 1 := ⟨steps - 1, by omega⟩
      obtain rfl : q = start := by simpa using hstart
      have hread := h.1
      simp only [first_nil] at hread
      simp [seek, hread]
  | cons node front ih =>
      obtain ⟨steps, rfl⟩ : ∃ n, steps = n + 1 := ⟨steps - 1, by omega⟩
      obtain rfl : node.1 = start := by simpa using hstart
      obtain ⟨hread, hrest⟩ := h
      rw [List.cons_append, List.map_cons, List.mem_cons, not_or] at hp
      obtain ⟨next, hmem, hnext⟩ := exists_first front (q, y)
      have hne : next ≠ p := fun heq ↦ hp.2 (heq ▸ hmem)
      have hrec := ih hrest hp.2 (by simpa using hsteps) (hnext [] none)
      rw [List.append_eq, hnext] at hread
      simp [seek, hread, hne, hrec]

/-- A link that is changed cuts the list behind its cell. -/
theorem Segment.write (h : Segment heap (front ++ [(q, y)]) last)
    (hfront : q ∉ front.map Prod.fst) (hback : Segment heap back none)
    (hqback : q ∉ back.map Prod.fst) :
    Segment (heap.write q ⟨y, first back none⟩) (front ++ (q, y) :: back) none := by
  obtain ⟨hbefore, hread, -⟩ := segment_append.mp h
  refine segment_append.mpr ⟨hbefore.frame fun p hp ↦ ?_, Heap.read_write_self hread,
    hback.frame fun p hp ↦ ?_⟩
  · exact Heap.read_write_ne (by rintro rfl; exact hfront hp) _
  · exact Heap.read_write_ne (by rintro rfl; exact hqback hp) _

theorem unlink_first (h : Segment heap ((p, x) :: back) none) :
    unlink heap (some p) p = some (heap, first back none) := by
  simp [unlink, h.1]

theorem unlink_behind (h : Segment heap (front ++ (q, y) :: (p, x) :: back) none) :
    unlink heap (first (front ++ (q, y) :: (p, x) :: back) none) p =
        some (heap.write q ⟨y, first back none⟩, first (front ++ (q, y) :: back) none) ∧
      Segment (heap.write q ⟨y, first back none⟩) (front ++ (q, y) :: back) none := by
  have hsteps : front.length < heap.length := by
    have hlength := h.length_le
    simp only [List.length_append, List.length_cons] at hlength
    omega
  have hnodup := h.nodup
  rw [List.append_cons] at h hnodup
  obtain ⟨hfront, hread, hback⟩ := segment_append.mp h
  have hlink := (segment_append.mp hfront).2.1
  rw [List.map_append, List.nodup_append] at hnodup
  obtain ⟨hdistinct, -, hapart⟩ := hnodup
  have hp : p ∉ (front ++ [(q, y)]).map Prod.fst := fun hmem ↦
    hapart p hmem p List.mem_cons_self rfl
  have hqback : q ∉ back.map Prod.fst := fun hmem ↦
    hapart q (by simp) q (List.mem_cons_of_mem p hmem) rfl
  have hqfront : q ∉ front.map Prod.fst := by
    rw [List.map_append, List.nodup_append] at hdistinct
    exact fun hmem ↦ hdistinct.2.2 q hmem q List.mem_cons_self rfl
  obtain ⟨start, hmem, hstart⟩ := exists_first front (q, y)
  have hne : start ≠ p := fun heq ↦ hp (heq ▸ hmem)
  have hseek := seek_of_segment hfront hp hsteps (hstart [] none)
  refine ⟨?_, hfront.write hqfront hback hqback⟩
  simp only [first_cons, first_nil] at hlink
  simp [unlink, hstart, hne, hseek, hlink, hread]

/-- Taking a cell out of a list leaves the others as they were, and linked. -/
theorem unlink_of_segment (h : Segment heap (front ++ (p, x) :: back) none) :
    ∃ heap', unlink heap (first (front ++ (p, x) :: back) none) p =
        some (heap', first (front ++ back) none) ∧
      Segment heap' (front ++ back) none ∧
      ∀ q, q ∉ front.map Prod.fst → heap'.read q = heap.read q := by
  rcases List.eq_nil_or_concat front with rfl | ⟨front, ⟨q, y⟩, rfl⟩
  · exact ⟨heap, unlink_first h, h.2, fun q _ ↦ rfl⟩
  · rw [List.concat_eq_append, ← List.append_cons] at h
    rw [List.concat_eq_append, ← List.append_cons, ← List.append_cons]
    obtain ⟨hunlink, hsegment⟩ := unlink_behind h
    refine ⟨_, hunlink, hsegment, fun r hr ↦ Heap.read_write_ne ?_ _⟩
    rintro rfl
    simp at hr

end Walks

end LinkedList
