import Edsm.Library.LinkedList
import Edsm.Library.MergeRuns
import Mathlib.Algebra.Group.Nat.Defs

/-!
# `LL_APPEND` and `LL_SORT`

The two macros on cells in memory.  The sort is a merge sort from the bottom up
that relinks the cells where they are: in each pass `p` walks along one run and
`q` along the next, and whichever of their cells comes first is linked behind the
`tail` of the list that is being built.
-/

namespace Edsm.Utlist

open LinkedList

variable {α : Type}

/-! ## The macros -/

/-- The cell without a successor. -/
def lastCell (heap : Heap α) : ℕ → ℕ → Option ℕ
  | 0, _ => none
  | steps + 1, p => (heap.read p).bind fun cell ↦
      match cell.next with
      | none => some p
      | some q => lastCell heap steps q

/-- `LL_APPEND` -/
def llAppend (heap : Heap α) (head : Option ℕ) (add : ℕ) : Option (Heap α × Option ℕ) := do
  let cell ← heap.read add
  let heap := heap.write add { cell with next := none }
  match head with
  | none => return (heap, some add)
  | some first =>
      let tmp ← lastCell heap heap.length first
      let cell ← heap.read tmp
      return (heap.write tmp { cell with next := some add }, head)

/-- `list` and `tail`. -/
structure Built where
  list : Option ℕ
  tail : Option ℕ

def attach (heap : Heap α) (built : Built) (e : ℕ) : Option (Heap α × Built) :=
  match built.tail with
  | none => some (heap, ⟨some e, some e⟩)
  | some tail => (heap.read tail).map fun cell ↦
      (heap.write tail { cell with next := some e }, { built with tail := some e })

/-- The `for` loop: the number of steps of `q`, and where it gets to. -/
def advance (heap : Heap α) : ℕ → ℕ → Option (ℕ × Option ℕ)
  | 0, q => some (0, some q)
  | insize + 1, q => (heap.read q).bind fun cell ↦
      match cell.next with
      | none => some (1, none)
      | some q => (advance heap insize q).map fun r ↦ (r.1 + 1, r.2)

section

variable (cmp : α → α → ℤ)

/-- Whether the next cell is that of `p`. -/
def takesP (heap : Heap α) (p : Option ℕ) (psize : ℕ) (q : Option ℕ) (qsize : ℕ) :
    Option Bool :=
  if psize = 0 then some false
  else if qsize = 0 ∨ q = none then some true
  else do
    let a ← heap.read (← p)
    let b ← heap.read (← q)
    return cmp a.value b.value ≤ 0

/-- The loop that merges two runs, with at most so many rounds; the last result is `q`. -/
def mergeLoop : ℕ → Heap α → Built → Option ℕ → ℕ → Option ℕ → ℕ →
    Option (Heap α × Built × Option ℕ)
  | rounds, heap, built, p, psize, q, qsize =>
    if psize = 0 ∧ (qsize = 0 ∨ q = none) then some (heap, built, q)
    else
      match rounds with
      | 0 => none
      | rounds + 1 => do
          if ← takesP cmp heap p psize q qsize then
            let e ← p
            let cell ← heap.read e
            let (heap, built) ← attach heap built e
            mergeLoop rounds heap built cell.next (psize - 1) q qsize
          else
            let e ← q
            let cell ← heap.read e
            let (heap, built) ← attach heap built e
            mergeLoop rounds heap built p psize cell.next (qsize - 1)

/-- The loop over the runs, with the number of merges. -/
def passLoop (insize : ℕ) : ℕ → Heap α → Built → Option ℕ → ℕ → Option (Heap α × Built × ℕ)
  | _, heap, built, none, nmerges => some (heap, built, nmerges)
  | 0, _, _, some _, _ => none
  | steps + 1, heap, built, some p, nmerges => do
      let (psize, q) ← advance heap insize p
      let (heap, built, q) ← mergeLoop cmp (psize + insize) heap built (some p) psize q insize
      passLoop insize steps heap built q (nmerges + 1)

/-- One round of `while (looping)`, less the doubling of `insize`. -/
def sortPass (heap : Heap α) (list : Option ℕ) (insize : ℕ) :
    Option (Heap α × Option ℕ × ℕ) := do
  let (heap, built, nmerges) ← passLoop cmp insize heap.length heap ⟨none, none⟩ list 0
  match built.tail with
  | none => return (heap, built.list, nmerges)
  | some tail =>
      let cell ← heap.read tail
      return (heap.write tail { cell with next := none }, built.list, nmerges)

/-- There is no result if `insize`, an `int`, overflows. -/
def sortLoop : ℕ → Heap α → Option ℕ → ℕ → Option (Heap α × Option ℕ)
  | 0, _, _, _ => none
  | rounds + 1, heap, list, insize => do
      let (heap, list, nmerges) ← sortPass cmp heap list insize
      if 2 ^ 31 ≤ insize * 2 then none
      else if nmerges ≤ 1 then return (heap, list)
      else sortLoop rounds heap list (insize * 2)

/-- `LL_SORT` -/
def llSort (heap : Heap α) (list : Option ℕ) : Option (Heap α × Option ℕ) :=
  match list with
  | none => some (heap, none)
  | some _ => sortLoop cmp 31 heap list 1

end

/-! ## What they do to a list -/

section Building

variable {heap heap' : Heap α} {built : Built} {done nodes : List (ℕ × α)} {x : ℕ × α}
  {link : Option ℕ}

/-- `done` is what has been linked so far; the last link of it is still the old one. -/
structure Building (heap : Heap α) (done : List (ℕ × α)) (built : Built) : Prop where
  list : built.list = first done none
  tail : built.tail = done.getLast?.map Prod.fst
  linked : ∃ last, Segment heap done last

theorem building_nil (heap : Heap α) : Building heap [] ⟨none, none⟩ :=
  ⟨rfl, rfl, none, trivial⟩

theorem attach_spec (hbuilt : Building heap done built) (hread : heap.read x.1 = some ⟨x.2, link⟩)
    (hnodup : ((done ++ [x]).map Prod.fst).Nodup) :
    ∃ heap' built', attach heap built x.1 = some (heap', built') ∧
      Building heap' (done ++ [x]) built' ∧
      ∀ p, p ∉ done.map Prod.fst → heap'.read p = heap.read p := by
  obtain ⟨hlist, htail, last, hlinked⟩ := hbuilt
  rcases List.eq_nil_or_concat done with rfl | ⟨front, t, rfl⟩
  · have hnone : built.tail = none := htail
    exact ⟨heap, ⟨some x.1, some x.1⟩, by simp [attach, hnone],
      ⟨rfl, rfl, link, hread, trivial⟩, fun p _ ↦ rfl⟩
  · rw [List.concat_eq_append] at hlist htail hlinked hnodup ⊢
    have hsome : built.tail = some t.1 := by simpa using htail
    obtain ⟨hfront, htread, -⟩ := segment_append.mp hlinked
    rw [List.map_append, List.map_append, List.nodup_append, List.nodup_append] at hnodup
    have htfront : t.1 ∉ front.map Prod.fst := fun hmem ↦
      hnodup.1.2.2 t.1 hmem t.1 (by simp) rfl
    have hxt : x.1 ≠ t.1 := fun heq ↦ hnodup.2.2 t.1 (by simp) x.1 (by simp) heq.symm
    refine ⟨heap.write t.1 ⟨t.2, some x.1⟩, ⟨built.list, some x.1⟩, ?_, ⟨?_, by simp, link, ?_⟩, ?_⟩
    · simp [attach, hsome, htread]
    · rw [hlist, List.append_assoc, first_append, first_append]
      rfl
    · rw [List.append_assoc]
      refine segment_append.mpr
        ⟨hfront.frame fun p hp ↦ ?_, Heap.read_write_self htread, ?_, trivial⟩
      · exact Heap.read_write_ne (by rintro rfl; exact htfront hp) _
      · rw [Heap.read_write_ne hxt, hread]
        rfl
    · intro p hp
      exact Heap.read_write_ne (by rintro rfl; simp at hp) _

end Building

section Merging

variable {heap : Heap α} {built : Built} {done P Q R nodes : List (ℕ × α)} {x : ℕ × α}
  {last : Option ℕ} {qsize : ℕ}

/-- Between two rounds: `P` and `Q` are left of the two runs, and `R` comes behind them.
The link behind `P` is stale once cells of `Q` have been taken. -/
structure Merging (heap : Heap α) (built : Built) (done P Q R : List (ℕ × α))
    (last : Option ℕ) (qsize : ℕ) : Prop where
  building : Building heap done built
  linkedP : Segment heap P last
  linkedQ : Segment heap (Q ++ R) none
  distinct : ((done ++ (P ++ (Q ++ R))).map Prod.fst).Nodup
  size : Q.length = qsize ∨ Q.length < qsize ∧ R = []

theorem Merging.finished_iff (h : Merging heap built done P Q R last qsize) :
    P.length = 0 ∧ (qsize = 0 ∨ first (Q ++ R) none = none) ↔ P = [] ∧ Q = [] := by
  rw [List.length_eq_zero_iff, first_eq_none, List.append_eq_nil_iff]
  have hsize := h.size
  cases Q with
  | nil => simp at hsize ⊢; grind
  | cons y Q => simp at hsize ⊢; grind

/-- What comes behind the next cell is kept. -/
theorem attach_kept {link : Option ℕ} (hbuilding : Building heap done built)
    (hread : heap.read x.1 = some ⟨x.2, link⟩)
    (hdistinct : ((done ++ x :: (P ++ nodes)).map Prod.fst).Nodup)
    (hP : Segment heap P last) (hnodes : Segment heap nodes none) :
    ∃ heap' built', attach heap built x.1 = some (heap', built') ∧
      Building heap' (done ++ [x]) built' ∧ Segment heap' P last ∧ Segment heap' nodes none ∧
      ∀ p, p ∉ done.map Prod.fst → heap'.read p = heap.read p := by
  rw [List.append_cons, List.map_append, List.nodup_append] at hdistinct
  obtain ⟨hnodup, -, hapart⟩ := hdistinct
  obtain ⟨heap', built', hattach, hbuilding', hframe⟩ := attach_spec hbuilding hread hnodup
  have hkept (p : ℕ) (hp : p ∈ (P ++ nodes).map Prod.fst) : heap'.read p = heap.read p := by
    refine hframe p fun hmem ↦ hapart p ?_ p hp rfl
    rw [List.map_append]
    exact List.mem_append_left _ hmem
  rw [List.map_append] at hkept
  exact ⟨heap', built', hattach, hbuilding',
    hP.frame fun p hp ↦ hkept p (List.mem_append_left _ hp),
    hnodes.frame fun p hp ↦ hkept p (List.mem_append_right _ hp), hframe⟩

theorem Merging.takeP (h : Merging heap built done (x :: P) Q R last qsize) :
    heap.read x.1 = some ⟨x.2, first P last⟩ ∧
      ∃ heap' built', attach heap built x.1 = some (heap', built') ∧
        Merging heap' built' (done ++ [x]) P Q R last qsize ∧
        ∀ p, p ∉ done.map Prod.fst → heap'.read p = heap.read p := by
  obtain ⟨hbuilding, ⟨hread, hP⟩, hQ, hdistinct, hsize⟩ := h
  obtain ⟨heap', built', hattach, hbuilding', hP', hQ', hframe⟩ :=
    attach_kept hbuilding hread hdistinct hP hQ
  rw [List.cons_append, List.append_cons] at hdistinct
  exact ⟨hread, heap', built', hattach, ⟨hbuilding', hP', hQ', hdistinct, hsize⟩, hframe⟩

theorem Merging.takeQ (h : Merging heap built done P (x :: Q) R last qsize) :
    heap.read x.1 = some ⟨x.2, first (Q ++ R) none⟩ ∧
      ∃ heap' built', attach heap built x.1 = some (heap', built') ∧
        Merging heap' built' (done ++ [x]) P Q R last (qsize - 1) ∧
        ∀ p, p ∉ done.map Prod.fst → heap'.read p = heap.read p := by
  obtain ⟨hbuilding, hP, ⟨hread, hQ⟩, hdistinct, hsize⟩ := h
  have hperm : (done ++ (P ++ (x :: Q ++ R))).Perm (done ++ x :: (P ++ (Q ++ R))) :=
    List.Perm.append_left done List.perm_middle
  replace hdistinct := (hperm.map Prod.fst).nodup_iff.mp hdistinct
  obtain ⟨heap', built', hattach, hbuilding', hP', hQ', hframe⟩ :=
    attach_kept hbuilding hread hdistinct hP hQ
  rw [List.append_cons] at hdistinct
  refine ⟨hread, heap', built', hattach, ⟨hbuilding', hP', hQ', hdistinct, ?_⟩, hframe⟩
  rw [List.length_cons] at hsize
  rcases hsize with hsize | ⟨hsize, hnil⟩
  · exact .inl (by omega)
  · exact .inr ⟨by omega, hnil⟩

variable {cmp : α → α → ℤ}

/-- The order of two cells. -/
def nodeLe (cmp : α → α → ℤ) (a b : ℕ × α) : Bool := cmp a.2 b.2 ≤ 0

variable (cmp) in
theorem Merging.takesP_eq (h : Merging heap built done P Q R last qsize) :
    (Q = [] → P ≠ [] → takesP cmp heap (first P last) P.length (first (Q ++ R) none) qsize =
        some true) ∧
      (P = [] → takesP cmp heap (first P last) P.length (first (Q ++ R) none) qsize =
        some false) ∧
      ∀ x P' y Q', P = x :: P' → Q = y :: Q' →
        takesP cmp heap (first P last) P.length (first (Q ++ R) none) qsize =
          some (nodeLe cmp x y) := by
  refine ⟨fun hQ hP ↦ ?_, fun hP ↦ by simp [takesP, hP], ?_⟩
  · subst hQ
    have hq : qsize = 0 ∨ first R none = none := by
      rcases h.size with hsize | ⟨-, rfl⟩
      · exact .inl hsize.symm
      · exact .inr rfl
    simp [takesP, hP, hq]
  · rintro x P' y Q' rfl rfl
    have hq : qsize ≠ 0 := by
      have hsize := h.size
      rw [List.length_cons] at hsize
      omega
    simp [takesP, hq, h.linkedP.1, h.linkedQ.1, nodeLe]

theorem mergeLoop_takeP {rounds : ℕ} {p q : Option ℕ} {psize : ℕ} {heap' : Heap α}
    {built' : Built} {cell : Cell α} {e : ℕ}
    (hrun : ¬ (psize = 0 ∧ (qsize = 0 ∨ q = none)))
    (htakes : takesP cmp heap p psize q qsize = some true) (hp : p = some e)
    (hread : heap.read e = some cell) (hattach : attach heap built e = some (heap', built')) :
    mergeLoop cmp (rounds + 1) heap built p psize q qsize =
      mergeLoop cmp rounds heap' built' cell.next (psize - 1) q qsize := by
  subst hp
  rw [mergeLoop, if_neg hrun]
  simp [htakes, hread, hattach]

theorem mergeLoop_takeQ {rounds : ℕ} {p q : Option ℕ} {psize : ℕ} {heap' : Heap α}
    {built' : Built} {cell : Cell α} {e : ℕ}
    (hrun : ¬ (psize = 0 ∧ (qsize = 0 ∨ q = none)))
    (htakes : takesP cmp heap p psize q qsize = some false) (hq : q = some e)
    (hread : heap.read e = some cell) (hattach : attach heap built e = some (heap', built')) :
    mergeLoop cmp (rounds + 1) heap built p psize q qsize =
      mergeLoop cmp rounds heap' built' p psize cell.next (qsize - 1) := by
  subst hq
  rw [mergeLoop, if_neg hrun]
  simp [htakes, hread, hattach]

/-- What the loop comes to from where two runs are left: they come out as `List.merge`
has them. -/
def Merges (cmp : α → α → ℤ) (rounds : ℕ) (heap : Heap α) (built : Built)
    (done P Q R : List (ℕ × α)) (last : Option ℕ) (qsize : ℕ) : Prop :=
  ∃ heap' built', mergeLoop cmp rounds heap built (first P last) P.length
      (first (Q ++ R) none) qsize = some (heap', built', first R none) ∧
    Building heap' (done ++ P.merge Q (nodeLe cmp)) built' ∧ Segment heap' R none ∧
    ∀ p, p ∉ (done ++ (P ++ Q)).map Prod.fst → heap'.read p = heap.read p

theorem Merging.mergesP {rounds : ℕ} (h : Merging heap built done (x :: P) Q R last qsize)
    (htakes : takesP cmp heap (first (x :: P) last) (x :: P).length (first (Q ++ R) none) qsize =
      some true)
    (hmerge : (x :: P).merge Q (nodeLe cmp) = x :: P.merge Q (nodeLe cmp))
    (ih : ∀ {heap built}, Merging heap built (done ++ [x]) P Q R last qsize →
      Merges cmp rounds heap built (done ++ [x]) P Q R last qsize) :
    Merges cmp (rounds + 1) heap built done (x :: P) Q R last qsize := by
  obtain ⟨hread, heap', built', hattach, h', hframe⟩ := h.takeP
  obtain ⟨heap'', built'', hloop, hbuilding, hR, hframe'⟩ := ih h'
  have hrun : ¬ ((x :: P).length = 0 ∧ (qsize = 0 ∨ first (Q ++ R) none = none)) := by
    simp
  refine ⟨heap'', built'', ?_, ?_, hR, fun p hp ↦ ?_⟩
  · rw [mergeLoop_takeP hrun htakes rfl hread hattach]
    exact hloop
  · rwa [hmerge, List.append_cons]
  · rw [List.cons_append, List.append_cons] at hp
    rw [hframe' p hp]
    refine hframe p fun hmem ↦ hp ?_
    rw [List.append_assoc, List.map_append]
    exact List.mem_append_left _ hmem

theorem Merging.mergesQ {rounds : ℕ} (h : Merging heap built done P (x :: Q) R last qsize)
    (htakes : takesP cmp heap (first P last) P.length (first (x :: Q ++ R) none) qsize =
      some false)
    (hmerge : P.merge (x :: Q) (nodeLe cmp) = x :: P.merge Q (nodeLe cmp))
    (ih : ∀ {heap built}, Merging heap built (done ++ [x]) P Q R last (qsize - 1) →
      Merges cmp rounds heap built (done ++ [x]) P Q R last (qsize - 1)) :
    Merges cmp (rounds + 1) heap built done P (x :: Q) R last qsize := by
  obtain ⟨hread, heap', built', hattach, h', hframe⟩ := h.takeQ
  obtain ⟨heap'', built'', hloop, hbuilding, hR, hframe'⟩ := ih h'
  have hrun := h.finished_iff.not.mpr (by simp)
  refine ⟨heap'', built'', ?_, ?_, hR, fun p hp ↦ ?_⟩
  · rw [mergeLoop_takeQ hrun htakes rfl hread hattach]
    exact hloop
  · rwa [hmerge, List.append_cons]
  · have hperm : (done ++ (P ++ x :: Q)).Perm (done ++ [x] ++ (P ++ Q)) := by
      rw [← List.append_cons]
      exact List.Perm.append_left done List.perm_middle
    rw [(hperm.map Prod.fst).mem_iff] at hp
    rw [hframe' p hp]
    refine hframe p fun hmem ↦ hp ?_
    rw [List.append_assoc, List.map_append]
    exact List.mem_append_left _ hmem

theorem Merging.merges_nil {rounds : ℕ} (h : Merging heap built done [] [] R last qsize) :
    Merges cmp rounds heap built done [] [] R last qsize := by
  refine ⟨heap, built, ?_, by simpa using h.building, h.linkedQ, fun p _ ↦ rfl⟩
  rw [mergeLoop.eq_def]
  exact if_pos (h.finished_iff.mpr ⟨rfl, rfl⟩)

variable (cmp) in
theorem mergeLoop_spec (h : Merging heap built done P Q R last qsize) (rounds : ℕ)
    (hrounds : P.length + Q.length ≤ rounds) :
    Merges cmp rounds heap built done P Q R last qsize := by
  induction rounds generalizing heap built done P Q qsize with
  | zero =>
      obtain ⟨rfl, rfl⟩ : P = [] ∧ Q = [] := by
        rw [← List.length_eq_zero_iff, ← List.length_eq_zero_iff]
        omega
      exact h.merges_nil
  | succ rounds ih =>
      obtain ⟨honlyP, honlyQ, hboth⟩ := h.takesP_eq cmp
      match P, Q with
      | [], [] => exact h.merges_nil
      | x :: P, [] =>
          rw [List.length_cons] at hrounds
          exact h.mergesP (honlyP rfl (by simp)) (by simp) fun h' ↦ ih h' (by omega)
      | [], y :: Q =>
          rw [List.length_cons] at hrounds
          exact h.mergesQ (honlyQ rfl) (by simp) fun h' ↦ ih h' (by omega)
      | x :: P, y :: Q =>
          rw [List.length_cons, List.length_cons] at hrounds
          have htakes := hboth x P y Q rfl rfl
          cases hle : nodeLe cmp x y with
          | true =>
              exact h.mergesP (htakes.trans (by rw [hle])) (List.cons_merge_cons_pos _ _ _ hle)
                fun h' ↦ ih h' (by rw [List.length_cons]; omega)
          | false =>
              exact h.mergesQ (htakes.trans (by rw [hle]))
                (List.cons_merge_cons_neg _ _ _ (by simp [hle]))
                fun h' ↦ ih h' (by rw [List.length_cons]; omega)

end Merging

section Passes

variable {cmp : α → α → ℤ} {heap : Heap α} {built : Built} {done nodes : List (ℕ × α)}
  {insize : ℕ}

theorem advance_spec {p : ℕ} (h : Segment heap nodes none) (hp : first nodes none = some p) :
    advance heap insize p =
      some ((nodes.take insize).length, first (nodes.drop insize) none) := by
  induction insize generalizing nodes p with
  | zero => simp [advance, hp]
  | succ insize ih =>
      cases nodes with
      | nil => simp at hp
      | cons x nodes =>
          obtain rfl : x.1 = p := by simpa using hp
          obtain ⟨hread, hnodes⟩ := h
          cases hnext : first nodes none with
          | none =>
              rw [first_eq_none.mp hnext] at hread ⊢
              simp [advance, hread]
          | some q =>
              rw [hnext] at hread
              simp [advance, hread, ih hnodes hnext]

variable (insize) in
/-- The next two runs, before the first cell of them is taken. -/
theorem merging_of_segment (hbuilding : Building heap done built)
    (hnodes : Segment heap nodes none) (hdistinct : ((done ++ nodes).map Prod.fst).Nodup) :
    Merging heap built done (nodes.take insize) ((nodes.drop insize).take insize)
      (nodes.drop (2 * insize)) (first (nodes.drop insize) none) insize := by
  have hdrop : (nodes.drop insize).take insize ++ nodes.drop (2 * insize) = nodes.drop insize := by
    rw [Nat.two_mul, ← List.drop_drop, List.take_append_drop]
  rw [← List.take_append_drop insize nodes] at hnodes
  obtain ⟨hP, hQ⟩ := segment_append.mp hnodes
  refine ⟨hbuilding, hP, by rwa [hdrop], by rwa [hdrop, List.take_append_drop], ?_⟩
  by_cases hlong : 2 * insize ≤ nodes.length
  · left
    rw [List.length_take, List.length_drop]
    omega
  · by_cases hfull : ((nodes.drop insize).take insize).length = insize
    · exact .inl hfull
    · refine .inr ⟨lt_of_le_of_ne (List.length_take_le _ _) hfull, List.drop_of_length_le ?_⟩
      omega

theorem merged_perm (le : ℕ × α → ℕ × α → Bool) (insize : ℕ) (done nodes : List (ℕ × α)) :
    (done ++ (nodes.take insize).merge ((nodes.drop insize).take insize) le ++
      nodes.drop (2 * insize)).Perm (done ++ nodes) := by
  rw [List.append_assoc]
  refine List.Perm.append_left done ?_
  have hmerge : ((nodes.take insize).merge ((nodes.drop insize).take insize) le).Perm
      (nodes.take (2 * insize)) := by
    rw [← MergeRuns.take_take_drop]
    exact List.merge_perm_append le
  simpa using hmerge.append_right (nodes.drop (2 * insize))

variable (cmp) in
theorem passLoop_spec {steps : ℕ} (nmerges : ℕ) (hsize : 0 < insize)
    (hbuilding : Building heap done built) (hnodes : Segment heap nodes none)
    (hdistinct : ((done ++ nodes).map Prod.fst).Nodup) (hsteps : nodes.length ≤ steps) :
    ∃ heap' built', passLoop cmp insize steps heap built (first nodes none) nmerges =
        some (heap', built', nmerges + MergeRuns.merges insize nodes) ∧
      Building heap' (done ++ MergeRuns.pass (nodeLe cmp) insize nodes) built' ∧
      ∀ p, p ∉ (done ++ nodes).map Prod.fst → heap'.read p = heap.read p := by
  induction steps generalizing heap built done nodes nmerges with
  | zero =>
      obtain rfl := List.length_eq_zero_iff.mp (Nat.le_zero.mp hsteps)
      refine ⟨heap, built, ?_, by simpa [MergeRuns.pass_nil] using hbuilding, fun p _ ↦ rfl⟩
      rw [MergeRuns.merges_nil hsize]
      rfl
  | succ steps ih =>
      by_cases hnil : nodes = []
      · subst hnil
        refine ⟨heap, built, ?_, by simpa [MergeRuns.pass_nil] using hbuilding, fun p _ ↦ rfl⟩
        rw [MergeRuns.merges_nil hsize]
        rfl
      · obtain ⟨p, hp⟩ : ∃ p, first nodes none = some p :=
          Option.ne_none_iff_exists'.mp (first_eq_none.not.mpr hnil)
        have hmerging := merging_of_segment insize hbuilding hnodes hdistinct
        have hstart : first (nodes.take insize) (first (nodes.drop insize) none) = some p := by
          rw [← first_append, List.take_append_drop, hp]
        have hnext : first ((nodes.drop insize).take insize ++ nodes.drop (2 * insize)) none =
            first (nodes.drop insize) none := by
          rw [Nat.two_mul, ← List.drop_drop, List.take_append_drop]
        obtain ⟨heap', built', hloop, hbuilding', hrest, hframe⟩ :=
          mergeLoop_spec cmp hmerging ((nodes.take insize).length + insize)
            (Nat.add_le_add_left (List.length_take_le _ _) _)
        rw [hstart, hnext] at hloop
        have hpos := List.length_pos_iff.mpr hnil
        have hperm := (merged_perm (nodeLe cmp) insize done nodes).map Prod.fst
        obtain ⟨heap'', built'', hpass, hbuilding'', hframe'⟩ :=
          ih (nmerges + 1) hbuilding' hrest (hperm.nodup_iff.mpr hdistinct) (by
            rw [List.length_drop]
            omega)
        refine ⟨heap'', built'', ?_, ?_, fun q hq ↦ ?_⟩
        · rw [hp, passLoop]
          simp only [advance_spec hnodes hp, hloop, hpass, Option.bind_eq_bind, Option.bind_some,
            MergeRuns.merges_of_ne_nil hsize hnil]
          simp [Nat.add_assoc, Nat.add_comm]
        · rwa [MergeRuns.pass_of_ne_nil hsize hnil, ← List.append_assoc]
        · rw [hframe' q (hperm.mem_iff.not.mpr hq)]
          refine hframe q fun hmem ↦ hq ?_
          rw [MergeRuns.take_take_drop, List.map_append] at hmem
          rw [List.map_append, List.mem_append]
          refine (List.mem_append.mp hmem).imp_right fun hmem ↦ ?_
          exact List.map_subset Prod.fst (List.take_subset _ _) hmem

variable (cmp) in
theorem sortPass_spec (hsize : 0 < insize) (hnodes : Segment heap nodes none) :
    ∃ heap', sortPass cmp heap (first nodes none) insize =
        some (heap', first (MergeRuns.pass (nodeLe cmp) insize nodes) none,
          MergeRuns.merges insize nodes) ∧
      Segment heap' (MergeRuns.pass (nodeLe cmp) insize nodes) none ∧
      ∀ p, p ∉ nodes.map Prod.fst → heap'.read p = heap.read p := by
  obtain ⟨heap', built, hpass, ⟨hlist, htail, last, hlinked⟩, hframe⟩ :=
    passLoop_spec cmp 0 hsize (building_nil heap) hnodes
      (by simpa using hnodes.nodup) hnodes.length_le
  have hperm := MergeRuns.pass_perm (nodeLe cmp) insize nodes
  rw [List.nil_append] at hlist htail hlinked hframe
  generalize MergeRuns.pass (nodeLe cmp) insize nodes = sorted at *
  rw [Nat.zero_add] at hpass
  rcases List.eq_nil_or_concat sorted with rfl | ⟨front, t, rfl⟩
  · refine ⟨heap', ?_, trivial, hframe⟩
    have hnone : built.tail = none := htail
    simp [sortPass, hpass, hnone, hlist]
  · rw [List.concat_eq_append] at *
    have hsome : built.tail = some t.1 := by simpa using htail
    have hread := (segment_append.mp hlinked).2.1
    have hnodup := (hperm.map Prod.fst).nodup_iff.mpr hnodes.nodup
    rw [List.map_append, List.nodup_append] at hnodup
    have htfront : t.1 ∉ front.map Prod.fst := fun hmem ↦
      hnodup.2.2 t.1 hmem t.1 (by simp) rfl
    refine ⟨heap'.write t.1 ⟨t.2, none⟩, ?_, ?_, ?_⟩
    · simp [sortPass, hpass, hsome, hread, hlist]
    · exact hlinked.write htfront (show Segment heap' [] none from trivial) (by simp)
    · intro p hp
      have hmem : t.1 ∈ nodes.map Prod.fst := (hperm.map Prod.fst).mem_iff.mp (by simp)
      rw [Heap.read_write_ne (by rintro rfl; exact hp hmem), hframe p hp]

theorem sortLoop_succ {rounds nmerges : ℕ} {head next : Option ℕ} {heap' : Heap α}
    (hpass : sortPass cmp heap head insize = some (heap', next, nmerges))
    (hsmall : insize * 2 < 2 ^ 31) :
    sortLoop cmp (rounds + 1) heap head insize =
      if nmerges ≤ 1 then some (heap', next) else sortLoop cmp rounds heap' next (insize * 2) := by
  rw [sortLoop, hpass]
  exact if_neg (Nat.not_le.mpr hsmall)

/-- From the pass with runs of `2 ^ k` cells on. -/
theorem sortLoop_spec {rounds k : ℕ} (htrans : ∀ a b c, cmp a b ≤ 0 → cmp b c ≤ 0 → cmp a c ≤ 0)
    (htotal : ∀ a b, cmp a b ≤ 0 ∨ cmp b a ≤ 0) (hnodes : Segment heap nodes none)
    (hruns : MergeRuns.RunsSorted (nodeLe cmp) (2 ^ k) nodes) (hlength : nodes.length ≤ 2 ^ 30)
    (hk : k < 30) (hrounds : rounds + k = 31) :
    ∃ heap' sorted, sortLoop cmp rounds heap (first nodes none) (2 ^ k) =
        some (heap', first sorted none) ∧
      Segment heap' sorted none ∧ sorted.Perm nodes ∧
      sorted.Pairwise (fun a b ↦ cmp a.2 b.2 ≤ 0) ∧
      ∀ p, p ∉ nodes.map Prod.fst → heap'.read p = heap.read p := by
  induction rounds generalizing heap nodes k with
  | zero => omega
  | succ rounds ih =>
      have hpos : 0 < 2 ^ k := Nat.two_pow_pos k
      obtain ⟨heap', hpass, hsegment, hframe⟩ := sortPass_spec cmp hpos hnodes
      have hperm := MergeRuns.pass_perm (nodeLe cmp) (2 ^ k) nodes
      have hsorted := hruns.pass (fun a b c ↦ by simpa [nodeLe] using htrans a.2 b.2 c.2)
        (fun a b ↦ by simpa [nodeLe] using htotal a.2 b.2) hpos
      have hsmall : 2 ^ k * 2 < 2 ^ 31 := by
        rw [← Nat.pow_succ]
        exact Nat.pow_lt_pow_right (by omega) (by omega)
      rw [sortLoop_succ hpass hsmall]
      by_cases hone : MergeRuns.merges (2 ^ k) nodes ≤ 1
      · rw [if_pos hone]
        refine ⟨heap', _, rfl, hsegment, hperm, ?_, hframe⟩
        have hpairwise := hsorted.pairwise (by
          rw [MergeRuns.length_pass]
          exact MergeRuns.length_le_of_merges hpos hone)
        exact hpairwise.imp fun h ↦ by simpa [nodeLe] using h
      · have hlong := MergeRuns.lt_length_of_merges hpos hone
        have hk' : k + 1 < 30 := by
          rw [← Nat.pow_lt_pow_iff_right (a := 2) (by omega), Nat.pow_succ]
          omega
        rw [if_neg hone, ← Nat.pow_succ]
        rw [Nat.mul_comm, ← Nat.pow_succ] at hsorted
        obtain ⟨heap'', sorted, hloop, hlinked, hperm', hpairwise, hframe'⟩ :=
          ih hsegment hsorted (by rwa [MergeRuns.length_pass]) hk' (by omega)
        refine ⟨heap'', sorted, hloop, hlinked, hperm'.trans hperm, hpairwise, fun p hp ↦ ?_⟩
        rw [hframe' p ((hperm.map Prod.fst).mem_iff.not.mpr hp), hframe p hp]

theorem llSort_spec (htrans : ∀ a b c, cmp a b ≤ 0 → cmp b c ≤ 0 → cmp a c ≤ 0)
    (htotal : ∀ a b, cmp a b ≤ 0 ∨ cmp b a ≤ 0) (hnodes : Segment heap nodes none)
    (hlength : nodes.length ≤ 2 ^ 30) :
    ∃ heap' sorted, llSort cmp heap (first nodes none) = some (heap', first sorted none) ∧
      Segment heap' sorted none ∧ sorted.Perm nodes ∧
      sorted.Pairwise (fun a b ↦ cmp a.2 b.2 ≤ 0) ∧
      ∀ p, p ∉ nodes.map Prod.fst → heap'.read p = heap.read p := by
  cases nodes with
  | nil => exact ⟨heap, [], rfl, trivial, .refl _, .nil, fun p _ ↦ rfl⟩
  | cons x nodes =>
      exact sortLoop_spec (k := 0) htrans htotal hnodes (MergeRuns.runsSorted_one _) hlength
        (by omega) rfl

end Passes

section Append

variable {heap : Heap α} {nodes : List (ℕ × α)}

theorem lastCell_spec {front : List (ℕ × α)} {t : ℕ × α} {steps p : ℕ}
    (h : Segment heap (front ++ [t]) none) (hp : first (front ++ [t]) none = some p)
    (hsteps : front.length < steps) : lastCell heap steps p = some t.1 := by
  induction front generalizing steps p with
  | nil =>
      obtain ⟨steps, rfl⟩ : ∃ n, steps = n + 1 := ⟨steps - 1, by omega⟩
      obtain rfl : t.1 = p := by simpa using hp
      have hread : heap.read t.1 = some ⟨t.2, none⟩ := h.1
      simp [lastCell, hread]
  | cons x front ih =>
      obtain ⟨steps, rfl⟩ : ∃ n, steps = n + 1 := ⟨steps - 1, by omega⟩
      obtain rfl : x.1 = p := by simpa using hp
      obtain ⟨hread, hfront⟩ := h
      obtain ⟨q, -, hq⟩ := exists_first front t
      have hrec := ih hfront (hq [] none) (by simpa using hsteps)
      rw [List.append_eq, hq [] none] at hread
      simp [lastCell, hread, hrec]

/-- The cell comes behind all others. -/
theorem llAppend_spec {add : ℕ} {cell : Cell α} (hnodes : Segment heap nodes none)
    (hadd : heap.read add = some cell) (hapart : add ∉ nodes.map Prod.fst) :
    ∃ heap', llAppend heap (first nodes none) add =
        some (heap', first (nodes ++ [(add, cell.value)]) none) ∧
      Segment heap' (nodes ++ [(add, cell.value)]) none ∧
      ∀ p, p ≠ add → p ∉ nodes.map Prod.fst → heap'.read p = heap.read p := by
  have hself : (heap.write add { cell with next := none }).read add = some ⟨cell.value, none⟩ :=
    Heap.read_write_self hadd
  have hkept : Segment (heap.write add { cell with next := none }) nodes none :=
    hnodes.frame fun p hp ↦ Heap.read_write_ne (by rintro rfl; exact hapart hp) _
  rcases List.eq_nil_or_concat nodes with rfl | ⟨front, t, rfl⟩
  · refine ⟨heap.write add { cell with next := none }, ?_, ⟨hself, trivial⟩,
      fun p hp _ ↦ Heap.read_write_ne hp _⟩
    simp [llAppend, hadd]
  · rw [List.concat_eq_append] at *
    have hlength := hkept.length_le
    rw [List.length_append, List.length_singleton] at hlength
    obtain ⟨start, -, hstart⟩ := exists_first front t
    have hlast := lastCell_spec hkept (hstart [] none) (Nat.lt_of_succ_le hlength)
    have hread : (heap.write add { cell with next := none }).read t.1 = some ⟨t.2, none⟩ :=
      (segment_append.mp hkept).2.1
    have hnodup := hkept.nodup
    rw [List.map_append, List.nodup_append] at hnodup
    have htfront : t.1 ∉ front.map Prod.fst := fun hmem ↦
      hnodup.2.2 t.1 hmem t.1 (by simp) rfl
    have hne : add ≠ t.1 := by
      rintro rfl
      simp at hapart
    have hwritten := hkept.write htfront (show Segment _ [(add, cell.value)] none from
      ⟨hself, trivial⟩) (by simpa using hne.symm)
    refine ⟨_, ?_, by simpa using hwritten, fun p hp hmem ↦ ?_⟩
    · simp [llAppend, hadd, hstart, hlast, hread]
    · rw [Heap.read_write_ne (by rintro rfl; simp at hmem), Heap.read_write_ne hp]

end Append

end Edsm.Utlist
