import Edsm.Memory.Decode

/-!
# Which payloads the handler accepts

The handler reads a complete diff to its end.  It has no return value but
`SUCCESS`, so whatever else it is handed is either accepted or stops the node.
-/

namespace Edsm.Memory

variable {pagesize size : ℕ} {region : Region} {msg : Option Message} {ts : UInt32}
variable {ds : List PageDiff}

/-- `edsm_memory_handle_message` with its return value. -/
def handleMessageResult (pagesize : ℕ) (region : Region) (msg : Option Message) :
    Except Fault (Status × Region) :=
  (handleMessage pagesize region msg).map fun (region, _) ↦ (.success, region)

/-- The payload is a complete diff for a region of this size. -/
structure IsDiff (pagesize size : ℕ) (msg : Option Message) (ts : UInt32) (ds : List PageDiff) :
    Prop where
  bytes : msg.map Message.bytes = some (encodeDiff ts ds)
  fits : ∀ d ∈ ds, d.Fits
  inside : ∀ d ∈ ds, d.Inside pagesize size

/-- A diff is applied and reported as a success, anything else changes nothing and is reported
as a failure; the handler never gets to use what it has not read. -/
def HandlesExactly (pagesize : ℕ) (region : Region) (msg : Option Message) : Prop :=
  ∃ status region', handleMessageResult pagesize region msg = .ok (status, region') ∧
    (∀ ts ds, IsDiff pagesize region.size msg ts ds → status = .success ∧
      region' = ds.foldl (Region.applyPage pagesize) (region.setLamportTimestamp ts)) ∧
    ((∀ ts ds, ¬ IsDiff pagesize region.size msg ts ds) → status = .failure ∧
      region'.bytes = region.bytes ∧ region'.twins = region.twins)

theorem handleMessage_of_isDiff (hregion : region.WellFormed pagesize)
    (hmsg : ∀ m ∈ msg, m.WellFormed) (h : IsDiff pagesize region.size msg ts ds) :
    ∃ rest, handleMessage pagesize region msg =
      .ok (ds.foldl (Region.applyPage pagesize) (region.setLamportTimestamp ts), ⟨rest, 0⟩) := by
  obtain ⟨m, rfl, hbytes⟩ := Option.map_eq_some_iff.mp h.bytes
  have hwf := hmsg m rfl
  obtain ⟨head, tail, hl⟩ := hwf.layout
  have hlength : (encodeDiff ts ds).length < 2 ^ 32 := by
    rw [← hbytes, ← hl.dataSize]
    exact m.dataSize.toNat_lt
  have hcount := length_le_flatMap_encode ds
  rw [length_encodeDiff] at hlength
  obtain ⟨rest, hhandle, -⟩ :=
    handleMessage_spec hregion (by omega) h.fits h.inside hwf hbytes
  exact ⟨rest, hhandle⟩

theorem handlesExactly_of_isDiff (hregion : region.WellFormed pagesize)
    (hmsg : ∀ m ∈ msg, m.WellFormed) (h : IsDiff pagesize region.size msg ts ds) :
    HandlesExactly pagesize region msg := by
  obtain ⟨rest, hhandle⟩ := handleMessage_of_isDiff hregion hmsg h
  refine ⟨.success, _, congrArg (Except.map _) hhandle, fun ts' ds' h' ↦ ⟨rfl, ?_⟩,
    fun hnot ↦ absurd h (hnot ts ds)⟩
  obtain ⟨rest', hhandle'⟩ := handleMessage_of_isDiff hregion hmsg h'
  exact congrArg Prod.fst (Except.ok.inj (hhandle.symm.trans hhandle'))

theorem success_of_handleMessageResult {status : Status} {region' : Region}
    (h : handleMessageResult pagesize region msg = .ok (status, region')) : status = .success := by
  unfold handleMessageResult at h
  cases hhandle : handleMessage pagesize region msg with
  | error fault =>
      rw [hhandle] at h
      cases h
  | ok result =>
      rw [hhandle] at h
      cases h
      rfl

theorem exists_isDiff_of_handlesExactly (h : HandlesExactly pagesize region msg) :
    ∃ ts ds, IsDiff pagesize region.size msg ts ds := by
  obtain ⟨status, region', hresult, -, hother⟩ := h
  by_contra hnot
  push Not at hnot
  have hfailure := (hother hnot).1
  rw [success_of_handleMessageResult hresult] at hfailure
  cases hfailure

/-- The handler accepts and rejects as it should exactly if the payload is a complete diff. -/
theorem handles_exactly_iff (hregion : region.WellFormed pagesize)
    (hmsg : ∀ m ∈ msg, m.WellFormed) :
    HandlesExactly pagesize region msg ↔ ∃ ts ds, IsDiff pagesize region.size msg ts ds := by
  constructor
  · exact exists_isDiff_of_handlesExactly
  · rintro ⟨ts, ds, h⟩
    exact handlesExactly_of_isDiff hregion hmsg h

/-- One byte of the second page of two. -/
def secondPage : List UInt8 := encodeDiff 1 [⟨8, [⟨2, [6]⟩]⟩]

theorem isDiff_secondPage :
    IsDiff 8 Region.twoPages.size (some (.ofBytes secondPage)) 1 [⟨8, [⟨2, [6]⟩]⟩] where
  bytes := rfl
  fits := by decide
  inside d hd := by
    obtain rfl := List.mem_singleton.mp hd
    constructor <;> simp [Region.twoPages]

theorem wellFormed_ofBytes {bytes : List UInt8} (h : bytes.length < 2 ^ 32) :
    ∀ m ∈ some (Message.ofBytes bytes), m.WellFormed := by
  intro m hm
  obtain rfl := Option.some.inj hm
  exact (Message.layout_ofBytes h).wellFormed

theorem handles_exactly_second_page :
    HandlesExactly 8 Region.twoPages (some (.ofBytes secondPage)) :=
  (handles_exactly_iff (Region.wellFormed_regionGet Region.regionGet_twoPages).1
    (wellFormed_ofBytes (by decide))).mpr ⟨1, _, isDiff_secondPage⟩

/-- Without its last byte the diff fails at the last read, and is accepted; a message without
bytes is read through `NULL`; and a section that leaves a page without a twin is written behind
the shadow page. -/
theorem not_handlesExactly :
    ¬ HandlesExactly 8 Region.twoPages (some (.ofBytes secondPage.dropLast)) ∧
      (handleMessageResult 8 Region.twoPages (some (.ofBytes secondPage.dropLast))).map Prod.fst =
        .ok .success ∧
      ¬ HandlesExactly 8 Region.twoPages none ∧
      handleMessageResult 8 Region.twoPages none = .error .nullPointer ∧
      ¬ HandlesExactly 8 Region.twoPages
        (some (.ofBytes (encodeDiff 1 [⟨8, [⟨6, [1, 2, 3, 4]⟩]⟩]))) ∧
      handleMessageResult 8 Region.twoPages
        (some (.ofBytes (encodeDiff 1 [⟨8, [⟨6, [1, 2, 3, 4]⟩]⟩]))) = .error .outOfBounds := by
  have hnull : handleMessageResult 8 Region.twoPages none = .error .nullPointer := rfl
  have hbehind : handleMessageResult 8 Region.twoPages
      (some (.ofBytes (encodeDiff 1 [⟨8, [⟨6, [1, 2, 3, 4]⟩]⟩]))) = .error .outOfBounds := rfl
  refine ⟨fun h ↦ ?_, rfl, fun h ↦ ?_, hnull, fun h ↦ ?_, hbehind⟩
  · obtain ⟨ts, ds, hdiff⟩ := exists_isDiff_of_handlesExactly h
    obtain ⟨rest, hhandle⟩ := handleMessage_of_isDiff
      (Region.wellFormed_regionGet Region.regionGet_twoPages).1 (wellFormed_ofBytes (by decide))
      hdiff
    have hfailed : (handleMessage 8 Region.twoPages (some (.ofBytes secondPage.dropLast))).map
        (fun result ↦ result.2.failedReads) = .ok 1 := rfl
    rw [hhandle] at hfailed
    cases hfailed
  · obtain ⟨status, region', hresult, -⟩ := h
    rw [hnull] at hresult
    cases hresult
  · obtain ⟨status, region', hresult, -⟩ := h
    rw [hbehind] at hresult
    cases hresult

end Edsm.Memory
