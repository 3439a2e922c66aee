import Edsm.Memory.Decode

/-!
# A diff from one node to another

The diff of one region decoded on another one: a byte that differed from the
twin arrives, every other byte stays.
-/

namespace Edsm.Memory

variable {pagesize : ℕ} {region : Region}

/-! ## The diff on the wire -/

theorem pageDiff_fits {twin : PageTwin} (hhead : twin.originalPageHead < 2 ^ 32)
    (hpagesize : pagesize < 2 ^ 16) : (pageDiff pagesize region twin).Fits := by
  refine pageDiff_fits_of_length hhead hpagesize.le fun x hx ↦ ?_
  have hinside := inside_of_mem_sectionsOf hx
  omega

/-- Each section list is the list of the maximal runs of bytes that differ from the twin. -/
def SectionsAreRuns (pagesize : ℕ) (region : Region) (twin : PageTwin) (d : PageDiff) : Prop :=
  d.pageOffset = twin.originalPageHead ∧
    ∃ rs, MaximalRuns (differs (region.page twin.originalPageHead) twin.twinData) pagesize rs ∧
      d.sections = rs.map (sectionOf (region.page twin.originalPageHead))

theorem sectionsAreRuns_pageDiff (twin : PageTwin) :
    SectionsAreRuns pagesize region twin (pageDiff pagesize region twin) :=
  ⟨rfl, _, maximalRuns_runs _ pagesize, rfl⟩

theorem forall₂_sectionsAreRuns (twins : List PageTwin) :
    List.Forall₂ (SectionsAreRuns pagesize region) twins
      (twins.map (pageDiff pagesize region)) := by
  induction twins with
  | nil => exact .nil
  | cons twin twins ih => exact .cons (sectionsAreRuns_pageDiff twin) ih

/-- What the receiver makes of the diff of a well-formed sender. -/
theorem diff_round_trip {A : Allocator} (hA : A.Succeeds) (hpos : 0 < pagesize)
    (hpagesize : pagesize ≤ 32768) {sender receiver : Region} (hsender : sender.WellFormed pagesize)
    (hreceiver : receiver.WellFormed pagesize) (hsize : receiver.size = sender.size)
    (hoffsets : ∀ twin ∈ sender.twins, twin.originalPageHead < 2 ^ 32)
    (hlength : (encodeDiff (sender.lamportTimestamp + 1) (sender.pageDiffs pagesize)).length <
      2 ^ 29) :
    ∃ msg sender' msg' n, Message.create A 0 300 = some msg ∧
      diffRegion A pagesize sender msg = .ok (sender', msg', n) ∧
      sender'.bytes = sender.bytes ∧ sender'.twins = [] ∧ msg'.WellFormed ∧
      (∃ ds, msg'.bytes = encodeDiff (sender.lamportTimestamp + 1) ds ∧
        List.Forall₂ (SectionsAreRuns pagesize sender) sender.twins ds) ∧
      ∀ received : Message, received.WellFormed → received.bytes = msg'.bytes →
        ∃ receiver' r, handleMessage pagesize receiver (some received) = .ok (receiver', r) ∧
          r.msg.bytes = [] ∧ r.failedReads = 0 ∧
          (∀ twin ∈ sender.twins, ∀ i < pagesize,
            receiver'.page twin.originalPageHead i =
              if sender.page twin.originalPageHead i ≠ twin.twinData i then
                sender.page twin.originalPageHead i
              else receiver.page twin.originalPageHead i) ∧
          ∀ i, (∀ twin ∈ sender.twins,
              ¬ (twin.originalPageHead ≤ i ∧ i < twin.originalPageHead + pagesize)) →
            receiver'.bytes i = receiver.bytes i := by
  obtain ⟨buffer, hmalloc⟩ := Option.isSome_iff_exists.mp (hA (0 + 300 : UInt32).toNat)
  obtain ⟨msg, hcreate⟩ : ∃ msg, Message.create A 0 300 = some msg :=
    ⟨_, congrArg (Option.map _) hmalloc⟩
  obtain ⟨tail, hl, -⟩ := Message.layout_create_tail hcreate
  have hfits : ∀ d ∈ sender.pageDiffs pagesize, d.Fits := by
    intro d hd
    obtain ⟨twin, hmem, rfl⟩ := List.mem_map.mp hd
    exact pageDiff_fits (hoffsets twin hmem) (by omega)
  obtain ⟨_, hdiff, msg', tail', rfl, hl'⟩ :=
    (diffRegion_meets hl (countsFit_of_fits hfits)).exists_ok ⟨hA, by simpa using hlength⟩
  refine ⟨msg, _, msg', _, hcreate, hdiff, ?_, rfl, hl'.wellFormed,
    ⟨sender.pageDiffs pagesize, ?_, ?_⟩,
    fun received hreceived heq ↦ ?_⟩
  · exact Region.diffed_bytes
  · rw [hl'.bytes_eq, List.nil_append]
  · exact forall₂_sectionsAreRuns sender.twins
  · rw [hl'.bytes_eq, List.nil_append] at heq
    rw [length_encodeDiff] at hlength
    have hcount := length_le_flatMap_encode (sender.pageDiffs pagesize)
    have hinside : ∀ d ∈ sender.pageDiffs pagesize, d.Inside pagesize receiver.size := by
      intro d hd
      obtain ⟨twin, hmem, rfl⟩ := List.mem_map.mp hd
      rw [hsize]
      exact pageDiff_inside hsender hmem
    obtain ⟨rest, hhandle, hrest⟩ :=
      handleMessage_spec hreceiver (by omega) hfits hinside hreceived heq
    refine ⟨_, ⟨rest, 0⟩, hhandle, hrest, rfl, fun twin hmem i hi ↦ ?_, fun i hi ↦ ?_⟩
    · rw [Region.page, foldl_applyPage_bytes,
        Region.applyAll_pageDiffs hsender hpos hmem ⟨Nat.le_add_right _ _, by omega⟩,
        Nat.add_sub_cancel_left]
      rfl
    · rw [foldl_applyPage_bytes, Region.applyAll_pageDiffs_of_forall hi]
      rfl

/-- Two pages of 8 bytes, of which the second has a twin and one changed byte. -/
def oneByte : Region where
  size := 16
  bytes i := if i = 13 then 7 else 1
  writable head := head = 8
  twins := [⟨8, fun _ ↦ 1⟩]
  lamportTimestamp := 0

theorem wellFormed_oneByte : oneByte.WellFormed 8 where
  size := by decide
  nodup := List.nodup_singleton 8
  aligned := by simp [Region.heads, oneByte]
  inside := by simp [Region.heads, oneByte]
  writable := by simp [Region.heads, oneByte]

/-- The receiver's other bytes stay 0. -/
theorem diff_round_trip_one_byte :
    ∃ sender msg n receiver r,
      diffRegion .zeroed 8 oneByte ⟨List.replicate 300 0, 0, 300, 0, 0, 300⟩ =
        .ok (sender, msg, n) ∧
      handleMessage 8 Region.twoPages (some msg) = .ok (receiver, r) ∧
      r.failedReads = 0 ∧ receiver.bytes 13 = 7 ∧ receiver.bytes 12 = 0 ∧ receiver.bytes 3 = 0 := by
  obtain ⟨msg, sender, msg', n, hcreate, hdiff, -, -, hwf, -, hreceive⟩ :=
    diff_round_trip Allocator.zeroed_succeeds (by decide) (by decide) wellFormed_oneByte
      (Region.wellFormed_regionGet Region.regionGet_twoPages).1 rfl (by simp [oneByte]) (by decide)
  obtain ⟨receiver, r, hhandle, -, hfailed, hpage, hrest⟩ := hreceive msg' hwf rfl
  obtain rfl := Option.some.inj hcreate
  refine ⟨sender, msg', n, receiver, r, hdiff, hhandle, hfailed, ?_, ?_, ?_⟩
  · exact hpage ⟨8, fun _ ↦ 1⟩ (by simp [oneByte]) 5 (by decide)
  · exact hpage ⟨8, fun _ ↦ 1⟩ (by simp [oneByte]) 4 (by decide)
  · exact hrest 3 (by simp [oneByte])

end Edsm.Memory
