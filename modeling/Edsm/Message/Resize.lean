import Edsm.Message

/-!
# Resizing a message

`edsm_message_resize` copies once between two starts, as many bytes as the smaller buffer has.
The copy lies in both buffers only if the head and the tail do not change in opposite
directions.
-/

namespace Edsm

/-- The part of a copy that a later read takes. -/
theorem drop_take_memcpy {old new : List UInt8} {dstStart srcStart size : ℕ} (k d : ℕ)
    (hdst : dstStart + size ≤ new.length) (hsrc : srcStart + size ≤ old.length)
    (hle : k + d ≤ size) :
    ((new.take dstStart ++ (old.drop srcStart).take size ++
      new.drop (dstStart + size)).drop (dstStart + k)).take d =
        (old.drop (srcStart + k)).take d := by
  refine List.ext_getElem? fun i ↦ ?_
  by_cases hi : i < d
  · have htake : (new.take dstStart).length = dstStart := by
      rw [List.length_take]
      omega
    have hcopied : ((old.drop srcStart).take size).length = size := by
      rw [List.length_take, List.length_drop]
      omega
    rw [List.getElem?_take_of_lt hi, List.getElem?_take_of_lt hi, List.getElem?_drop,
      List.getElem?_drop, List.append_assoc, List.getElem?_append_right (by omega),
      List.getElem?_append_left (by omega), List.getElem?_take_of_lt (by omega),
      List.getElem?_drop, htake]
    congr 1
    omega
  · rw [List.getElem?_eq_none (by rw [List.length_take]; omega),
      List.getElem?_eq_none (by rw [List.length_take]; omega)]

theorem copySize_eq_ok {bytes : UInt32} {n : ℕ} :
    copySize bytes = .ok n ↔ bytes.toNat < 2 ^ 31 ∧ bytes.toNat = n := by
  unfold copySize
  split <;> simp_all

theorem slice_eq_ok {src out : List UInt8} {offset size : ℕ} :
    slice src offset size = .ok out ↔
      offset + size ≤ src.length ∧ (src.drop offset).take size = out := by
  unfold slice
  split <;> simp_all

theorem memcpy_eq_ok {dst src out : List UInt8} {offset : ℕ} :
    memcpy dst offset src = .ok out ↔ offset + src.length ≤ dst.length ∧
      dst.take offset ++ src ++ dst.drop (offset + src.length) = out := by
  unfold memcpy
  split <;> simp_all

theorem intOf_of_lt {bits : UInt32} (h : bits.toNat < 2 ^ 31) : intOf bits = bits.toNat := if_pos h

theorem intOf_of_ge {bits : UInt32} (h : 2 ^ 31 ≤ bits.toNat) :
    intOf bits = bits.toNat - 2 ^ 32 := if_neg (by omega)

namespace Message

variable {A : Allocator} {msg msg' : Message} {newHeadSize newTailSize : UInt32}

/-- The size of the new buffer. -/
def resizedBufferSize (msg : Message) (newHeadSize newTailSize : UInt32) : UInt32 :=
  newHeadSize + msg.dataSize + newTailSize

/-- `cpy_dst_start` -/
def resizeDst (msg : Message) (newHeadSize : UInt32) : UInt32 :=
  if intOf newHeadSize > intOf msg.headSize then newHeadSize - msg.headSize else 0

/-- `cpy_src_start` -/
def resizeSrc (msg : Message) (newHeadSize : UInt32) : UInt32 :=
  if intOf newHeadSize > intOf msg.headSize then 0 else msg.headSize - newHeadSize

/-- `cpy_size` -/
def resizeCount (msg : Message) (newHeadSize newTailSize : UInt32) : UInt32 :=
  if msg.resizedBufferSize newHeadSize newTailSize > msg.bufferSize then msg.bufferSize
  else msg.resizedBufferSize newHeadSize newTailSize

/-- What a resize without a fault does. -/
theorem resize_eq_some : msg.resize A newHeadSize newTailSize = .ok (some msg') ↔
    ∃ buffer, A.malloc (msg.resizedBufferSize newHeadSize newTailSize).toNat = some buffer ∧
      (msg.resizeDst newHeadSize).toNat < 2 ^ 31 ∧ (msg.resizeSrc newHeadSize).toNat < 2 ^ 31 ∧
      (msg.resizeCount newHeadSize newTailSize).toNat < 2 ^ 31 ∧
      (msg.resizeSrc newHeadSize).toNat + (msg.resizeCount newHeadSize newTailSize).toNat ≤
        msg.buffer.length ∧
      (msg.resizeDst newHeadSize).toNat + (msg.resizeCount newHeadSize newTailSize).toNat ≤
        buffer.length ∧
      msg' =
        { buffer := buffer.take (msg.resizeDst newHeadSize).toNat ++
            (msg.buffer.drop (msg.resizeSrc newHeadSize).toNat).take
              (msg.resizeCount newHeadSize newTailSize).toNat ++
            buffer.drop ((msg.resizeDst newHeadSize).toNat +
              (msg.resizeCount newHeadSize newTailSize).toNat)
          data := newHeadSize.toNat
          bufferSize := msg.resizedBufferSize newHeadSize newTailSize
          headSize := newHeadSize
          dataSize := msg.dataSize
          tailSize := newTailSize } := by
  have hlength : ∀ {src count : ℕ}, src + count ≤ msg.buffer.length →
      ((msg.buffer.drop src).take count).length = count := by
    intro src count hle
    rw [List.length_take, List.length_drop]
    omega
  cases hmalloc : A.malloc (msg.resizedBufferSize newHeadSize newTailSize).toNat with
  | none =>
      have hnone : msg.resize A newHeadSize newTailSize = .ok none := by
        simp only [resize, resizedBufferSize] at hmalloc ⊢
        rw [hmalloc]
      simp [hnone]
  | some buffer =>
      have hsome : msg.resize A newHeadSize newTailSize = do
          let dstStart ← copySize (msg.resizeDst newHeadSize)
          let srcStart ← copySize (msg.resizeSrc newHeadSize)
          let size ← copySize (msg.resizeCount newHeadSize newTailSize)
          let copied ← slice msg.buffer srcStart size
          let buffer ← memcpy buffer dstStart copied
          return some
            { buffer
              data := newHeadSize.toNat
              bufferSize := msg.resizedBufferSize newHeadSize newTailSize
              headSize := newHeadSize
              dataSize := msg.dataSize
              tailSize := newTailSize } := by
        simp only [resize, resizedBufferSize] at hmalloc ⊢
        rw [hmalloc]
        rfl
      simp only [hsome, Option.some.injEq, exists_eq_left', Fault.bind_eq_ok, copySize_eq_ok,
        slice_eq_ok, memcpy_eq_ok]
      constructor
      · rintro ⟨_, ⟨hdst, rfl⟩, _, ⟨hsrc, rfl⟩, _, ⟨hcount, rfl⟩, _, ⟨hin, rfl⟩, _, ⟨hout, rfl⟩,
          hret⟩
        rw [hlength hin] at hout hret
        obtain rfl := Option.some.inj (Except.ok.inj hret)
        exact ⟨hdst, hsrc, hcount, hin, hout, rfl⟩
      · rintro ⟨hdst, hsrc, hcount, hin, hout, rfl⟩
        refine ⟨_, ⟨hdst, rfl⟩, _, ⟨hsrc, rfl⟩, _, ⟨hcount, rfl⟩, _, ⟨hin, rfl⟩, _, ⟨?_, rfl⟩, ?_⟩
        · rw [hlength hin]
          exact hout
        · rw [hlength hin]
          rfl

/-- The head and the tail do not change in opposite directions, and no `int` of the computation
is negative. -/
structure Resizable (msg : Message) (newHeadSize newTailSize : UInt32) : Prop where
  grows : msg.headSize < newHeadSize → msg.tailSize ≤ newTailSize
  shrinks : newHeadSize < msg.headSize → newTailSize ≤ msg.tailSize
  headSize : msg.headSize.toNat < 2 ^ 31
  bufferSize : msg.bufferSize.toNat < 2 ^ 31 ∨
    newHeadSize.toNat + msg.dataSize.toNat + newTailSize.toNat < 2 ^ 31

section Sizes

theorem toNat_resizedBufferSize
    (hsum : newHeadSize.toNat + msg.dataSize.toNat + newTailSize.toNat < 2 ^ 32) :
    (msg.resizedBufferSize newHeadSize newTailSize).toNat =
      newHeadSize.toNat + msg.dataSize.toNat + newTailSize.toNat := by
  rw [resizedBufferSize, UInt32.toNat_add, UInt32.toNat_add, Nat.mod_add_mod, Nat.mod_eq_of_lt hsum]

theorem toNat_resizeCount
    (hsum : newHeadSize.toNat + msg.dataSize.toNat + newTailSize.toNat < 2 ^ 32) :
    (msg.resizeCount newHeadSize newTailSize).toNat =
      min msg.bufferSize.toNat (newHeadSize.toNat + msg.dataSize.toNat + newTailSize.toNat) := by
  rw [← toNat_resizedBufferSize hsum, resizeCount]
  split
  · next hlt =>
      rw [gt_iff_lt, UInt32.lt_iff_toNat_lt] at hlt
      exact (min_eq_left hlt.le).symm
  · next hle =>
      rw [gt_iff_lt, UInt32.lt_iff_toNat_lt, not_lt] at hle
      exact (min_eq_right hle).symm

theorem toNat_resizeDst (hhead : msg.headSize.toNat < 2 ^ 31) (hnew : newHeadSize.toNat < 2 ^ 31) :
    (msg.resizeDst newHeadSize).toNat = newHeadSize.toNat - msg.headSize.toNat := by
  rw [resizeDst, intOf_of_lt hhead, intOf_of_lt hnew]
  split
  · exact UInt32.toNat_sub_of_le _ _ (by rw [UInt32.le_iff_toNat_le]; omega)
  · rw [UInt32.toNat_zero]
    omega

theorem toNat_resizeSrc (hhead : msg.headSize.toNat < 2 ^ 31) (hnew : newHeadSize.toNat < 2 ^ 31) :
    (msg.resizeSrc newHeadSize).toNat = msg.headSize.toNat - newHeadSize.toNat := by
  rw [resizeSrc, intOf_of_lt hhead, intOf_of_lt hnew]
  split
  · rw [UInt32.toNat_zero]
    omega
  · exact UInt32.toNat_sub_of_le _ _ (by rw [UInt32.le_iff_toNat_le]; omega)

/-- A head of `2 ^ 31` bytes is a negative `int`, so every new head is larger than it. -/
theorem resizeDst_pos (hhead : 2 ^ 31 ≤ msg.headSize.toNat) (hnew : newHeadSize.toNat < 2 ^ 31) :
    0 < (msg.resizeDst newHeadSize).toNat := by
  have hlt := msg.headSize.toNat_lt
  rw [resizeDst, intOf_of_ge hhead, intOf_of_lt hnew, if_pos (by omega), UInt32.toNat_sub]
  omega

end Sizes

/-- The bounds of the copy. -/
structure CopyFits (msg : Message) (newHeadSize newTailSize : UInt32) : Prop where
  dst : (msg.resizeDst newHeadSize).toNat < 2 ^ 31
  src : (msg.resizeSrc newHeadSize).toNat < 2 ^ 31
  count : (msg.resizeCount newHeadSize newTailSize).toNat < 2 ^ 31
  read : (msg.resizeSrc newHeadSize).toNat + (msg.resizeCount newHeadSize newTailSize).toNat ≤
    msg.bufferSize.toNat
  write : (msg.resizeDst newHeadSize).toNat + (msg.resizeCount newHeadSize newTailSize).toNat ≤
    (msg.resizedBufferSize newHeadSize newTailSize).toNat

theorem copyFits_iff (hwf : msg.WellFormed) (hhead : newHeadSize.toNat < 2 ^ 31)
    (hsum : newHeadSize.toNat + msg.dataSize.toNat + newTailSize.toNat < 2 ^ 32) :
    msg.CopyFits newHeadSize newTailSize ↔ msg.Resizable newHeadSize newTailSize := by
  have hsizes := hwf.sizes
  have hcount := toNat_resizeCount hsum
  have hbuffer := toNat_resizedBufferSize hsum
  constructor
  · intro h
    have hcountLt := h.count
    have hread := h.read
    have hwrite := h.write
    have hheadLt : msg.headSize.toNat < 2 ^ 31 := by
      by_contra hge
      have hpos := resizeDst_pos (not_lt.mp hge) hhead
      omega
    rw [toNat_resizeDst hheadLt hhead] at hwrite
    rw [toNat_resizeSrc hheadLt hhead] at hread
    constructor
    · intro hlt
      rw [UInt32.lt_iff_toNat_lt] at hlt
      rw [UInt32.le_iff_toNat_le]
      omega
    · intro hlt
      rw [UInt32.lt_iff_toNat_lt] at hlt
      rw [UInt32.le_iff_toNat_le]
      omega
    · exact hheadLt
    · omega
  · intro h
    have hgrows := h.grows
    have hshrinks := h.shrinks
    have hsmall := h.bufferSize
    rw [UInt32.lt_iff_toNat_lt, UInt32.le_iff_toNat_le] at hgrows hshrinks
    have hdst := toNat_resizeDst h.headSize hhead
    have hsrc := toNat_resizeSrc h.headSize hhead
    have hheadLt := h.headSize
    constructor <;> omega

/-- A resize keeps the data and its bounds if and only if the head and the tail do not change in
opposite directions and no `int` of the copy is negative. -/
theorem resize_keeps_iff (hwf : msg.WellFormed) (hhead : newHeadSize.toNat < 2 ^ 31)
    (htail : newTailSize.toNat < 2 ^ 31)
    (hsum : newHeadSize.toNat + msg.dataSize.toNat + newTailSize.toNat < 2 ^ 32)
    (hmalloc : (A.malloc (newHeadSize.toNat + msg.dataSize.toNat + newTailSize.toNat)).isSome) :
    (∃ msg', msg.resize A newHeadSize newTailSize = .ok (some msg') ∧ msg'.WellFormed ∧
      msg'.headSize = newHeadSize ∧ msg'.tailSize = newTailSize ∧ msg'.bytes = msg.bytes) ↔
        msg.Resizable newHeadSize newTailSize := by
  rw [← copyFits_iff hwf hhead hsum]
  have hnewSize := toNat_resizedBufferSize hsum
  rw [← hnewSize] at hmalloc
  constructor
  · rintro ⟨msg', hresize, -⟩
    obtain ⟨buffer, hbuffer, hdst, hsrc, hcount, hread, hwrite, -⟩ := resize_eq_some.mp hresize
    rw [hwf.buffer] at hread
    rw [A.length_eq _ _ hbuffer] at hwrite
    exact ⟨hdst, hsrc, hcount, hread, hwrite⟩
  · intro hfits
    obtain ⟨buffer, hbuffer⟩ := Option.isSome_iff_exists.mp hmalloc
    have hlength := A.length_eq _ _ hbuffer
    have hread := hfits.read
    have hwrite := hfits.write
    rw [← hwf.buffer] at hread
    rw [← hlength] at hwrite
    refine ⟨_, resize_eq_some.mpr
      ⟨buffer, hbuffer, hfits.dst, hfits.src, hfits.count, hread, hwrite, rfl⟩,
      ⟨hnewSize.symm, ?_, rfl⟩, rfl, rfl, ?_⟩
    · simp only [List.length_append, List.length_take, List.length_drop]
      omega
    · -- the data start as far behind the copy in the new buffer as in the old one
      have hresizable := (copyFits_iff hwf hhead hsum).mp hfits
      have hdst := toNat_resizeDst hresizable.headSize hhead
      have hsrc := toNat_resizeSrc hresizable.headSize hhead
      have hcount := toNat_resizeCount hsum
      have hsizes := hwf.sizes
      set k := min newHeadSize.toNat msg.headSize.toNat with hk
      have hnew : newHeadSize.toNat = (msg.resizeDst newHeadSize).toNat + k := by omega
      have hold : msg.data = (msg.resizeSrc newHeadSize).toNat + k := by
        rw [hwf.data]
        omega
      have hcopied : ((msg.buffer.drop (msg.resizeSrc newHeadSize).toNat).take
          (msg.resizeCount newHeadSize newTailSize).toNat).length =
            (msg.resizeCount newHeadSize newTailSize).toNat := by
        rw [List.length_take, List.length_drop]
        omega
      simp only [Message.bytes]
      rw [hnew, hold]
      exact drop_take_memcpy k _ hwrite hread (by omega)

/-- A message that holds 8 bytes, with no head and no tail. -/
def eight : Message := ofBytes [1, 2, 3, 4, 5, 6, 7, 8]

theorem eight_wellFormed : eight.WellFormed := ⟨by decide, by decide, by decide⟩

/-- Room for a header is made in front of 8 bytes. -/
theorem resize_keeps_eight :
    ∃ msg', eight.resize Allocator.zeroed 4 0 = .ok (some msg') ∧ msg'.WellFormed ∧
      msg'.headSize = 4 ∧ msg'.tailSize = 0 ∧ msg'.bytes = eight.bytes :=
  (resize_keeps_iff eight_wellFormed (by decide) (by decide) (by decide) rfl).mpr
    ⟨fun _ ↦ by decide, fun h ↦ absurd h (by decide), by decide, .inl (by decide)⟩

/-- A message whose room is all behind the data. -/
def roomBehind : Message where
  buffer := [1, 2, 0, 0]
  data := 0
  bufferSize := 4
  headSize := 0
  dataSize := 2
  tailSize := 2

/-- The room is moved from behind the data to the front, and the copy runs over the end of the
new buffer. -/
theorem resize_moves_room : roomBehind.WellFormed ∧
    roomBehind.resize Allocator.zeroed 2 0 = .error .outOfBounds :=
  ⟨⟨by decide, by decide, by decide⟩, by decide⟩

end Message

end Edsm
