import Edsm.Library.Decoder
import Edsm.Memory.Decode

/-!
# What the bytes of a diff say

The format of a message read back without a region to apply it to.  The pages
that are read are those that `edsm_memory_handle_message` applies.
-/

namespace Edsm.Memory

/-! ## The format, read back -/

/-- A number in a field of `w` bytes. -/
def word (w : ℕ) : Decoder UInt8 ℕ := LittleEndian.ofBytes <$> Decoder.take w

def Section.decode : Decoder UInt8 Section := do
  let offset ← word 2
  let contiguousBytes ← word 2
  Section.mk offset <$> Decoder.take contiguousBytes

def PageDiff.decode : Decoder UInt8 PageDiff := do
  let pageOffset ← word 4
  let numPageSections ← word 2
  PageDiff.mk pageOffset <$> Decoder.times Section.decode numPageSections

/-- The timestamp and the pages. -/
def decodeMessage : Decoder UInt8 (ℕ × List PageDiff) := do
  let lamportTimestamp ← word 4
  let numDiffPages ← word 4
  Prod.mk lamportTimestamp <$> Decoder.times PageDiff.decode numDiffPages

/-- The pages of a message, if it has all the bytes that its numbers announce. -/
def decodeDiff (bytes : List UInt8) : Option (List PageDiff) :=
  (decodeMessage bytes).map fun result ↦ result.1.2

/-- The pages that `edsm_memory_tx_end` sends, if it sends any. -/
def sentPages (payload : Option (List UInt8)) : List PageDiff := (payload.bind decodeDiff).getD []

theorem inverts_word (w : ℕ) : (word w).Inverts (LittleEndian.toBytes w) (· < 256 ^ w) := by
  refine ((Decoder.inverts_take w).map (LittleEndian.toBytes w) ?_).congr (fun _ ↦ rfl) fun n ↦ ?_
  · rintro bytes rfl
    exact LittleEndian.toBytes_ofBytes bytes
  · rw [LittleEndian.length_toBytes, LittleEndian.ofBytes_toBytes_eq_iff]
    exact (and_iff_right rfl).symm

theorem Section.inverts_decode :
    Section.decode.Inverts Section.encode fun x ↦ x.offset < 2 ^ 16 ∧ x.data.length < 2 ^ 16 := by
  have hdata : ∀ offset n, (Section.mk offset <$> Decoder.take n).Inverts Section.data
      fun x ↦ x.data.length = n ∧ x.offset = offset := fun offset n ↦
    ((Decoder.inverts_take n).map Section.data fun _ _ ↦ rfl).congr (fun _ ↦ rfl) fun x ↦ by
      rw [Section.mk.injEq, and_iff_left (rfl : x.data = x.data), eq_comm (a := offset)]
  have hlength := fun offset ↦
    ((inverts_word 2).bind (fun x : Section ↦ x.data.length) (hdata offset)).congr
      (fun _ ↦ rfl) fun _ ↦ and_comm
  exact ((inverts_word 2).bind Section.offset hlength).congr
    (fun _ ↦ List.append_assoc _ _ _) fun _ ↦ .rfl

theorem PageDiff.inverts_decode : PageDiff.decode.Inverts PageDiff.encode PageDiff.Fits := by
  have hsections : ∀ pageOffset n,
      (PageDiff.mk pageOffset <$> Decoder.times Section.decode n).Inverts
        (fun d ↦ d.sections.flatMap Section.encode) fun d ↦ d.sections.length = n ∧
          (∀ x ∈ d.sections, x.offset < 2 ^ 16 ∧ x.data.length < 2 ^ 16) ∧
            d.pageOffset = pageOffset := fun pageOffset n ↦
    ((Section.inverts_decode.times n).map PageDiff.sections fun _ _ ↦ rfl).congr (fun _ ↦ rfl)
      fun d ↦ by
        rw [PageDiff.mk.injEq, and_iff_left (rfl : d.sections = d.sections), and_assoc,
          eq_comm (a := pageOffset)]
  have hcount := fun pageOffset ↦
    ((inverts_word 2).bind (fun d : PageDiff ↦ d.sections.length) (hsections pageOffset)).congr
      (fun _ ↦ rfl) fun d ↦ (by tauto : (d.pageOffset = pageOffset ∧ d.sections.length < 2 ^ 16 ∧
        ∀ x ∈ d.sections, x.offset < 2 ^ 16 ∧ x.data.length < 2 ^ 16) ↔ _)
  refine ((inverts_word 4).bind PageDiff.pageOffset hcount).congr
    (fun _ ↦ List.append_assoc _ _ _) fun d ↦ ?_
  constructor
  · rintro ⟨hoffset, hcount, hoffsets, hlengths⟩
    exact ⟨hoffset, hcount, fun x hx ↦ ⟨hoffsets x hx, hlengths x hx⟩⟩
  · rintro ⟨hoffset, hcount, hsections⟩
    exact ⟨hoffset, hcount, fun x hx ↦ (hsections x hx).1, fun x hx ↦ (hsections x hx).2⟩

theorem inverts_decodeMessage : decodeMessage.Inverts
    (fun m ↦ u32 m.1 ++ (u32 m.2.length ++ m.2.flatMap PageDiff.encode))
      fun m ↦ m.1 < 2 ^ 32 ∧ m.2.length < 2 ^ 32 ∧ ∀ d ∈ m.2, d.Fits := by
  have hpages : ∀ ts n, (Prod.mk ts <$> Decoder.times PageDiff.decode n).Inverts
      (fun m : ℕ × List PageDiff ↦ m.2.flatMap PageDiff.encode)
        fun m ↦ m.2.length = n ∧ (∀ d ∈ m.2, d.Fits) ∧ m.1 = ts := fun ts n ↦
    ((PageDiff.inverts_decode.times n).map Prod.snd fun _ _ ↦ rfl).congr (fun _ ↦ rfl) fun m ↦ by
      rw [Prod.ext_iff, and_iff_left (rfl : m.2 = m.2), and_assoc, eq_comm (a := ts)]
  have hcount := fun ts ↦
    ((inverts_word 4).bind (fun m : ℕ × List PageDiff ↦ m.2.length) (hpages ts)).congr
      (fun _ ↦ rfl) fun m ↦
        (by tauto : (m.1 = ts ∧ m.2.length < 2 ^ 32 ∧ ∀ d ∈ m.2, d.Fits) ↔ _)
  exact (inverts_word 4).bind Prod.fst hcount

/-- What fits its fields is read back. -/
theorem decodeDiff_encodeDiff (ts : UInt32) {ds : List PageDiff} (hlength : ds.length < 2 ^ 32)
    (hfits : ∀ d ∈ ds, d.Fits) : decodeDiff (encodeDiff ts ds) = some ds := by
  have hread := inverts_decodeMessage.decode_append (a := (ts.toNat, ds))
    ⟨ts.toNat_lt, hlength, hfits⟩ []
  rw [List.append_nil, ← List.append_assoc] at hread
  exact congrArg (Option.map fun result : (ℕ × List PageDiff) × List UInt8 ↦ result.1.2) hread

/-- What is read stands at the front of the bytes. -/
theorem exists_encodeDiff_of_decodeDiff {bytes : List UInt8} {ds : List PageDiff}
    (h : decodeDiff bytes = some ds) :
    ∃ ts rest, bytes = encodeDiff ts ds ++ rest ∧ ds.length < 2 ^ 32 ∧ ∀ d ∈ ds, d.Fits := by
  obtain ⟨⟨⟨n, ds⟩, rest⟩, hread, rfl⟩ := Option.map_eq_some_iff.mp h
  obtain ⟨⟨hn, hlength, hfits⟩, rfl⟩ := inverts_decodeMessage.eq_append hread
  refine ⟨UInt32.ofNat n, rest, ?_, hlength, hfits⟩
  simp only [encodeDiff, UInt32.toNat_ofNat_of_lt' hn, List.append_assoc]

/-! ## The listener -/

variable {pagesize : ℕ} {region : Region} {ds : List PageDiff}

/-- The pages that the bytes say are the pages that the listener applies. -/
theorem handleMessage_of_decodeDiff (hregion : region.WellFormed pagesize) {msg : Message}
    (hwf : msg.WellFormed) (hread : decodeDiff msg.bytes = some ds)
    (hinside : ∀ d ∈ ds, d.Inside pagesize region.size) :
    ∃ ts r, handleMessage pagesize region (some msg) =
      .ok (ds.foldl (Region.applyPage pagesize) (region.setLamportTimestamp ts), r) := by
  obtain ⟨ts, rest, hbytes, hlength, hfits⟩ := exists_encodeDiff_of_decodeDiff hread
  obtain ⟨msg', hhandle, -⟩ := handleMessage_append_spec hregion hlength hfits hinside hwf hbytes
  exact ⟨ts, _, hhandle⟩

/-! ## From one node to another -/

section Sent

variable {A : Allocator} {all : Bool} {region' : Region}
variable (hfits : ∀ d ∈ region.pageDiffs pagesize, d.Fits)
include hfits

theorem payload_of_txEnd {payload : Option (List UInt8)}
    (hend : txEnd A pagesize all region = .ok (region', payload)) :
    payload = region.payload pagesize all ∧
      (encodeDiff (region.lamportTimestamp + 1) (region.pageDiffs pagesize)).length < 2 ^ 32 := by
  obtain ⟨hpayload, hlength⟩ := (txEnd_meets hfits all).of_eq_ok hend
  exact ⟨(Prod.mk.inj hpayload).2, hlength⟩

theorem decodeDiff_of_txEnd {bytes : List UInt8}
    (hend : txEnd A pagesize all region = .ok (region', some bytes)) :
    decodeDiff bytes = some (region.pageDiffs pagesize) := by
  obtain ⟨hpayload, hlength⟩ := payload_of_txEnd hfits hend
  have hcount := length_le_flatMap_encode (region.pageDiffs pagesize)
  rw [length_encodeDiff] at hlength
  unfold Region.payload at hpayload
  split at hpayload
  · cases hpayload
  · rw [Option.some.inj hpayload, decodeDiff_encodeDiff _ (by omega) hfits]

/-- If no field is too narrow the payload says what has changed. -/
theorem sentPages_of_txEnd {payload : Option (List UInt8)}
    (hend : txEnd A pagesize all region = .ok (region', payload)) :
    sentPages payload = region.pageDiffs pagesize := by
  cases payload with
  | some bytes => rw [sentPages, Option.bind_some, decodeDiff_of_txEnd hfits hend, Option.getD_some]
  | none =>
      obtain ⟨hpayload, -⟩ := payload_of_txEnd hfits hend
      unfold Region.payload at hpayload
      split at hpayload
      · next hnone => simp [sentPages, Region.pageDiffs, hnone.2]
      · cases hpayload

/-- The listener of another node makes of its copy what the pages that have changed make of it. -/
theorem handleMessage_of_txEnd (hregion : region.WellFormed pagesize) {bytes : List UInt8}
    (hend : txEnd A pagesize all region = .ok (region', some bytes)) {copy : Region}
    (hcopy : copy.WellFormed pagesize) (hsize : copy.size = region.size) {msg : Message}
    (hmsg : msg.WellFormed) (hbytes : msg.bytes = bytes) :
    ∃ copy' r, handleMessage pagesize copy (some msg) = .ok (copy', r) ∧
      copy'.WellFormed pagesize ∧ copy'.size = copy.size ∧
      copy'.bytes = Patch.applyAll ((region.pageDiffs pagesize).map (PageDiff.patch pagesize))
        copy.bytes := by
  have hread := decodeDiff_of_txEnd hfits hend
  rw [← hbytes] at hread
  obtain ⟨ts, r, hhandle⟩ := handleMessage_of_decodeDiff hcopy hmsg hread fun d hd ↦ by
    obtain ⟨twin, hmem, rfl⟩ := List.mem_map.mp hd
    exact hsize ▸ pageDiff_inside hregion hmem
  exact ⟨_, r, hhandle, foldl_applyPage_wellFormed _ (hcopy.setLamportTimestamp ts),
    foldl_applyPage_size _ _, foldl_applyPage_bytes _ _⟩

end Sent

end Edsm.Memory
