import Edsm.Library.LittleEndian
import Edsm.Library.Outcome
import Mathlib.Algebra.Order.Ring.Int
import Mathlib.Algebra.Order.Ring.Nat

/-!
# Messages

`edsm_message` is a byte queue in one allocation, with room before and behind
the data.  The four sizes are `uint32_t` and wrap; `data` is the offset of the
data pointer in `buffer`.  Every access to memory is checked against the
allocation it goes to.
-/

namespace Edsm

/-- What makes the process stop, or its behaviour undefined. -/
inductive Fault
  | assertion
  | outOfBounds
  | useAfterFree
  | nullPointer
  /-- A local variable is read that a failed `edsm_message_read` has left unset. -/
  | uninitialised
  /-- A write to a read-only page by a thread that holds `region_lock`. -/
  | pageTrap
  deriving DecidableEq, Repr

/-- `SUCCESS` and `FAILURE`. -/
inductive Status
  | success
  | failure
  deriving DecidableEq, Repr

theorem Fault.bind_eq_ok {α β : Type} {x : Except Fault α} {f : α → Except Fault β} {b : β} :
    (x >>= f) = .ok b ↔ ∃ a, x = .ok a ∧ f a = .ok b := by
  cases x <;> simp [bind, Except.bind]

/-- `malloc`; the content of a new allocation is arbitrary. -/
structure Allocator where
  malloc : ℕ → Option (List UInt8)
  length_eq : ∀ size buffer, malloc size = some buffer → buffer.length = size

def Allocator.Succeeds (A : Allocator) : Prop := ∀ size, (A.malloc size).isSome = true

/-- Enough for a message of `n` bytes: no allocation fails and no size wraps. -/
def Allocator.Grants (A : Allocator) (n : ℕ) : Prop := A.Succeeds ∧ n < 2 ^ 29

theorem Allocator.Grants.mono {A : Allocator} {m n : ℕ} (h : A.Grants n) (hle : m ≤ n) :
    A.Grants m :=
  ⟨h.1, hle.trans_lt h.2⟩

/-- `memcpy` into `dst` at an offset. -/
def memcpy (dst : List UInt8) (offset : ℕ) (src : List UInt8) : Except Fault (List UInt8) :=
  if offset + src.length ≤ dst.length then
    .ok (dst.take offset ++ src ++ dst.drop (offset + src.length))
  else .error .outOfBounds

/-- The `size` bytes of `src` from an offset on. -/
def slice (src : List UInt8) (offset size : ℕ) : Except Fault (List UInt8) :=
  if offset + size ≤ src.length then .ok ((src.drop offset).take size) else .error .outOfBounds

/-- The value of an `int` with these bits. -/
def intOf (bits : UInt32) : ℤ := if bits.toNat < 2 ^ 31 then bits.toNat else bits.toNat - 2 ^ 32

/-- An `int` that is the start or the size of a copy: a negative one is out of any bounds. -/
def copySize (bytes : UInt32) : Except Fault ℕ :=
  if bytes.toNat < 2 ^ 31 then .ok bytes.toNat else .error .outOfBounds

/-- `edsm_message`, less the time of its creation and the link of a queue. -/
structure Message where
  buffer : List UInt8
  data : ℕ
  bufferSize : UInt32
  headSize : UInt32
  dataSize : UInt32
  tailSize : UInt32
  deriving DecidableEq

namespace Message

/-- The data of the message. -/
def bytes (msg : Message) : List UInt8 := (msg.buffer.drop msg.data).take msg.dataSize.toNat

def create (A : Allocator) (headSize tailSize : UInt32) : Option Message :=
  (A.malloc (headSize + tailSize).toNat).map fun buffer ↦
    { buffer
      data := headSize.toNat
      bufferSize := headSize + tailSize
      headSize
      dataSize := 0
      tailSize }

/-- `none` is `FAILURE`; the message has been destroyed then. -/
def resize (A : Allocator) (msg : Message) (newHeadSize newTailSize : UInt32) :
    Except Fault (Option Message) :=
  let bufferSize := newHeadSize + msg.dataSize + newTailSize
  match A.malloc bufferSize.toNat with
  | none => .ok none
  | some buffer => do
      let dstStart ← copySize
        (if intOf newHeadSize > intOf msg.headSize then newHeadSize - msg.headSize else 0)
      let srcStart ← copySize
        (if intOf newHeadSize > intOf msg.headSize then 0 else msg.headSize - newHeadSize)
      let size ← copySize (if bufferSize > msg.bufferSize then msg.bufferSize else bufferSize)
      let copied ← slice msg.buffer srcStart size
      let buffer ← memcpy buffer dstStart copied
      return some
        { buffer
          data := newHeadSize.toNat
          bufferSize
          headSize := newHeadSize
          dataSize := msg.dataSize
          tailSize := newTailSize }

/-- The message that `edsm_message_read_message` makes of the bytes it reads. -/
def ofBytes (bytes : List UInt8) : Message where
  buffer := bytes
  data := 0
  bufferSize := UInt32.ofNat bytes.length
  headSize := 0
  dataSize := UInt32.ofNat bytes.length
  tailSize := 0

def put (msg : Message) (bytes : UInt32) : Except Fault Message :=
  if msg.tailSize ≥ bytes then
    .ok { msg with dataSize := msg.dataSize + bytes, tailSize := msg.tailSize - bytes }
  else .error .assertion

def pull (msg : Message) (bytes : UInt32) : Except Fault Message :=
  if msg.dataSize ≥ bytes then
    .ok { msg with
      data := msg.data + bytes.toNat
      headSize := msg.headSize + bytes
      dataSize := msg.dataSize - bytes }
  else .error .assertion

def push (msg : Message) (bytes : UInt32) : Except Fault Message :=
  if msg.headSize ≥ bytes then
    .ok { msg with
      data := msg.data - bytes.toNat
      headSize := msg.headSize - bytes
      dataSize := msg.dataSize + bytes }
  else .error .assertion

def pullTail (msg : Message) (bytes : UInt32) : Except Fault Message :=
  if msg.dataSize ≥ bytes then
    .ok { msg with dataSize := msg.dataSize - bytes, tailSize := msg.tailSize + bytes }
  else .error .assertion

/-- Only the data are copied.  `none` is `NULL`. -/
def clone (A : Allocator) (msg : Message) : Except Fault (Option Message) :=
  match A.malloc msg.bufferSize.toNat with
  | none => .ok none
  | some buffer => do
      let copied ← slice msg.buffer msg.data msg.dataSize.toNat
      let buffer ← memcpy buffer msg.headSize.toNat copied
      return some { msg with buffer, data := msg.headSize.toNat }

/-- Room for `bytes` more; the result of `edsm_message_resize` is not looked at,
so a failed one leaves a message that has been freed. -/
def grow (A : Allocator) (msg : Message) (bytes : UInt32) : Except Fault Message :=
  if msg.tailSize ≥ bytes then .ok msg
  else do
    let newTailSize := if msg.bufferSize > bytes then msg.bufferSize * 2 else bytes * 2
    match ← msg.resize A msg.headSize newTailSize with
    | some msg => .ok msg
    | none => .error .useAfterFree

def write (A : Allocator) (msg : Message) (data : List UInt8) : Except Fault Message := do
  let bytes := UInt32.ofNat data.length
  let _ ← copySize bytes
  let msg ← msg.grow A bytes
  let buffer ← memcpy msg.buffer (msg.data + msg.dataSize.toNat) data
  { msg with buffer }.put bytes

/-- `none` is `FAILURE`. -/
def read (msg : Message) (bytes : UInt32) : Except Fault (Option (List UInt8 × Message)) :=
  if msg.dataSize ≥ bytes then do
    let size ← copySize bytes
    let out ← slice msg.buffer msg.data size
    let msg ← msg.pull bytes
    return some (out, msg)
  else .ok none

/-- An assignment through `msg->data + offset`. -/
def patch (msg : Message) (offset : UInt32) (value : List UInt8) : Except Fault Message := do
  let buffer ← memcpy msg.buffer (msg.data + offset.toNat) value
  return { msg with buffer }

/-! ## Well-formed messages -/

structure WellFormed (msg : Message) : Prop where
  sizes : msg.headSize.toNat + msg.dataSize.toNat + msg.tailSize.toNat = msg.bufferSize.toNat
  buffer : msg.buffer.length = msg.bufferSize.toNat
  data : msg.data = msg.headSize.toNat

/-- The allocation is made of `head`, the data `bytes` and `tail`. -/
structure Layout (msg : Message) (head bytes tail : List UInt8) : Prop where
  buffer : msg.buffer = head ++ bytes ++ tail
  data : msg.data = head.length
  headSize : msg.headSize.toNat = head.length
  dataSize : msg.dataSize.toNat = bytes.length
  tailSize : msg.tailSize.toNat = tail.length
  bufferSize : msg.bufferSize.toNat = head.length + bytes.length + tail.length

end Message

/-- `malloc` that hands out zeroed memory of any size. -/
def Allocator.zeroed : Allocator where
  malloc size := some (List.replicate size 0)
  length_eq size buffer h := by
    obtain rfl := Option.some.inj h
    exact List.length_replicate

theorem Allocator.zeroed_succeeds : Allocator.zeroed.Succeeds := fun _ ↦ rfl

/-- `malloc` that has no memory left. -/
def Allocator.exhausted : Allocator where
  malloc _ := none
  length_eq _ _ h := nomatch h

theorem memcpy_replace {before old after new : List UInt8} {offset : ℕ}
    (hoffset : offset = before.length) (hlength : old.length = new.length) :
    memcpy (before ++ old ++ after) offset new = .ok (before ++ new ++ after) := by
  subst hoffset
  rw [memcpy, if_pos (by simp only [List.length_append]; omega)]
  simp [← hlength]

theorem slice_middle {before middle after : List UInt8} {offset size : ℕ}
    (hoffset : offset = before.length) (hsize : size = middle.length) :
    slice (before ++ middle ++ after) offset size = .ok middle := by
  subst hoffset hsize
  rw [slice, if_pos (by simp)]
  simp

namespace Message

variable {A : Allocator} {msg : Message} {head bytes tail : List UInt8}

theorem Layout.bytes_eq (h : msg.Layout head bytes tail) : msg.bytes = bytes := by
  simp [Message.bytes, h.buffer, h.data, h.dataSize]

theorem Layout.wellFormed (h : msg.Layout head bytes tail) : msg.WellFormed where
  sizes := by rw [h.headSize, h.dataSize, h.tailSize, h.bufferSize]
  buffer := by simp [h.buffer, h.bufferSize, Nat.add_assoc]
  data := h.data.trans h.headSize.symm

theorem WellFormed.layout (h : msg.WellFormed) :
    ∃ head tail, msg.Layout head msg.bytes tail := by
  have hsizes := h.sizes
  have hlength := h.buffer
  have hdata := h.data
  refine ⟨msg.buffer.take msg.data, (msg.buffer.drop msg.data).drop msg.dataSize.toNat, ?_, ?_, ?_,
    ?_, ?_, ?_⟩
  · rw [Message.bytes, List.append_assoc, List.take_append_drop, List.take_append_drop]
  all_goals simp only [Message.bytes, List.length_take, List.length_drop]
  all_goals omega

theorem WellFormed.length_bytes (h : msg.WellFormed) : msg.bytes.length = msg.dataSize.toNat := by
  obtain ⟨head, tail, hl⟩ := h.layout
  exact hl.dataSize.symm

theorem layout_create {headSize tailSize : UInt32}
    (h : create A headSize tailSize = some msg)
    (hsize : headSize.toNat + tailSize.toNat < 2 ^ 32) :
    ∃ head tail, msg.Layout head [] tail ∧ head.length = headSize.toNat ∧
      tail.length = tailSize.toNat := by
  obtain ⟨buffer, hbuffer, rfl⟩ := Option.map_eq_some_iff.mp h
  have hlength := A.length_eq _ _ hbuffer
  rw [UInt32.toNat_add, Nat.mod_eq_of_lt hsize] at hlength
  have hhead : (buffer.take headSize.toNat).length = headSize.toNat := by
    rw [List.length_take]
    omega
  have htail : (buffer.drop headSize.toNat).length = tailSize.toNat := by
    rw [List.length_drop]
    omega
  refine ⟨buffer.take headSize.toNat, buffer.drop headSize.toNat,
    ⟨?_, hhead.symm, hhead.symm, rfl, htail.symm, ?_⟩, hhead, htail⟩
  · simp
  · rw [hhead, htail, List.length_nil, Nat.add_zero]
    change (headSize + tailSize).toNat = _
    rw [UInt32.toNat_add, Nat.mod_eq_of_lt hsize]

/-- Without a head all of the new message is tail. -/
theorem layout_create_tail {size : UInt32} (h : create A 0 size = some msg) :
    ∃ tail, msg.Layout [] [] tail ∧ tail.length = size.toNat := by
  obtain ⟨head, tail, hl, hhead, htail⟩ := layout_create h (by
    rw [UInt32.toNat_zero, Nat.zero_add]
    exact size.toNat_lt)
  obtain rfl := List.length_eq_zero_iff.mp hhead
  exact ⟨tail, hl, htail⟩

theorem create_isSome {size : UInt32} (h : (A.malloc size.toNat).isSome) :
    ∃ msg, create A 0 size = some msg := by
  obtain ⟨buffer, hbuffer⟩ := Option.isSome_iff_exists.mp h
  exact ⟨_, by rw [create, UInt32.zero_add, hbuffer]; rfl⟩

theorem create_eq_none {size : UInt32} (h : A.malloc size.toNat = none) :
    create A 0 size = none := by
  rw [create, UInt32.zero_add, h]
  rfl

theorem exists_create (hA : A.Succeeds) (headSize tailSize : UInt32) :
    ∃ msg, create A headSize tailSize = some msg := by
  obtain ⟨buffer, hbuffer⟩ := Option.isSome_iff_exists.mp (hA (headSize + tailSize).toNat)
  exact ⟨_, by rw [create, hbuffer]; rfl⟩

theorem layout_ofBytes (h : bytes.length < 2 ^ 32) : (ofBytes bytes).Layout [] bytes [] := by
  have hlength : (UInt32.ofNat bytes.length).toNat = bytes.length := by
    rw [UInt32.toNat_ofNat', Nat.mod_eq_of_lt h]
  refine ⟨by simp [ofBytes], rfl, rfl, hlength, rfl, ?_⟩
  simpa [ofBytes] using hlength

/-- What a reallocation behind the same head leaves: the data, unless the new size wraps,
as the new allocation is too small for them then. -/
def Resized (A : Allocator) (head bytes : List UInt8) (newTailSize : UInt32) :
    Option Message → Prop
  | none => ¬ A.Succeeds
  | some msg =>
      if head.length + bytes.length + newTailSize.toNat < 2 ^ 32 then
        ∃ tail, msg.Layout head bytes tail ∧ tail.length = newTailSize.toNat
      else msg.buffer.length < msg.data + msg.dataSize.toNat

theorem resize_meets (h : msg.Layout head bytes tail) (newTailSize : UInt32) :
    (msg.resize A msg.headSize newTailSize).Meets (msg.bufferSize.toNat < 2 ^ 31)
      (Resized A head bytes newTailSize) := by
  have hbufferSize := h.bufferSize
  have hmax := msg.bufferSize.toNat_lt
  have hmaxTail := newTailSize.toNat_lt
  have hnew : (msg.headSize + msg.dataSize + newTailSize).toNat =
      (head.length + bytes.length + newTailSize.toNat) % 2 ^ 32 := by
    rw [UInt32.toNat_add, UInt32.toNat_add, Nat.mod_add_mod, h.headSize, h.dataSize]
  have hzero : copySize 0 = .ok 0 := rfl
  simp only [resize, gt_iff_lt, lt_irrefl, if_false, UInt32.sub_self, hzero, bind, Except.bind]
  set bufferSize := msg.headSize + msg.dataSize + newTailSize
  split
  · next hmalloc =>
      intro hA
      simpa [hmalloc] using hA bufferSize.toNat
  · next buffer hmalloc =>
      have hlength := A.length_eq _ _ hmalloc
      set size := if msg.bufferSize < bufferSize then msg.bufferSize else bufferSize with hsize
      have hsizeNat : size.toNat = min bufferSize.toNat msg.bufferSize.toNat := by
        rw [hsize]
        split
        · next hlt =>
            rw [UInt32.lt_iff_toNat_lt] at hlt
            exact (min_eq_right hlt.le).symm
        · next hle =>
            rw [UInt32.lt_iff_toNat_lt, not_lt] at hle
            exact (min_eq_left hle).symm
      have hslice : slice msg.buffer 0 size.toNat = .ok (msg.buffer.take size.toNat) := by
        rw [slice, if_pos (by rw [h.wellFormed.buffer]; omega), List.drop_zero]
      have hmemcpy : memcpy buffer 0 (msg.buffer.take size.toNat) =
          .ok (msg.buffer.take size.toNat ++ buffer.drop size.toNat) := by
        have htake : (msg.buffer.take size.toNat).length = size.toNat := by
          rw [List.length_take, h.wellFormed.buffer]
          omega
        rw [memcpy, htake, if_pos (by omega), Nat.zero_add, List.take_zero, List.nil_append]
      by_cases hcopy : size.toNat < 2 ^ 31
      · rw [copySize, if_pos hcopy]
        simp only [hslice, hmemcpy, pure, Except.pure, Except.Meets, Resized]
        split
        · next hfits =>
            rw [Nat.mod_eq_of_lt hfits] at hnew
            refine ⟨tail.take (size.toNat - (head.length + bytes.length)) ++
              buffer.drop size.toNat, ⟨?_, h.headSize, h.headSize, h.dataSize, ?_, ?_⟩, ?_⟩
            · have htake : (head ++ bytes).take size.toNat = head ++ bytes :=
                List.take_of_length_le (by rw [List.length_append]; omega)
              change msg.buffer.take size.toNat ++ buffer.drop size.toNat = _
              rw [h.buffer, List.take_append, htake, List.length_append]
              simp only [List.append_assoc]
            all_goals simp only [List.length_append, List.length_take, List.length_drop]
            all_goals omega
        · next hwraps =>
            change (msg.buffer.take size.toNat ++ buffer.drop size.toNat).length <
              msg.headSize.toNat + msg.dataSize.toNat
            have hheadSize := h.headSize
            have hdataSize := h.dataSize
            have hbuffer := h.wellFormed.buffer
            simp only [List.length_append, List.length_take, List.length_drop]
            omega
      · rw [copySize, if_neg hcopy]
        exact fun hold ↦ hcopy (by omega)

/-- Room is made behind the data, or the write that follows faults. -/
theorem grow_meets (h : msg.Layout head bytes tail) (size : UInt32) :
    (msg.grow A size).Meets (A.Grants (head.length + bytes.length + size.toNat)) fun msg' ↦
      (∃ tail', msg'.Layout head bytes tail' ∧
        (A.Grants (head.length + bytes.length + size.toNat) → size.toNat ≤ tail'.length)) ∨
      ¬ A.Grants (head.length + bytes.length + size.toNat) ∧
        msg'.buffer.length < msg'.data + msg'.dataSize.toNat := by
  have hbufferSize := h.bufferSize
  unfold grow
  split
  · next hroom =>
      rw [ge_iff_le, UInt32.le_iff_toNat_le, h.tailSize] at hroom
      exact .inl ⟨tail, h, fun _ ↦ hroom⟩
  · next hroom =>
      rw [ge_iff_le, UInt32.le_iff_toNat_le, not_le, h.tailSize] at hroom
      set newTailSize := if msg.bufferSize > size then msg.bufferSize * 2 else size * 2 with hnew
      -- the old buffer is smaller than what the message needs, so twice its size does not wrap
      have hnewNat : A.Grants (head.length + bytes.length + size.toNat) →
          newTailSize.toNat = 2 * max msg.bufferSize.toNat size.toNat := by
        rintro ⟨-, hlt29⟩
        rw [hnew]
        split
        · next hlt =>
            rw [gt_iff_lt, UInt32.lt_iff_toNat_lt] at hlt
            rw [UInt32.toNat_mul, max_eq_left hlt.le, Nat.mul_comm]
            exact Nat.mod_eq_of_lt (by simp; omega)
        · next hlt =>
            rw [gt_iff_lt, UInt32.lt_iff_toNat_lt, not_lt] at hlt
            rw [UInt32.toNat_mul, max_eq_right hlt, Nat.mul_comm]
            exact Nat.mod_eq_of_lt (by simp; omega)
      refine (resize_meets h newTailSize).bind (fun ⟨_, hlt⟩ ↦ by omega) fun result hresult ↦ ?_
      cases result with
      | none => exact fun hgrants ↦ hresult hgrants.1
      | some msg' =>
          simp only [Resized] at hresult
          split at hresult
          · obtain ⟨tail', hl, htail⟩ := hresult
            exact .inl ⟨tail', hl, fun hgrants ↦ by have := hnewNat hgrants; omega⟩
          · next hwraps =>
              exact .inr ⟨fun hgrants ↦ by
                have hnat := hnewNat hgrants
                have hlt := hgrants.2
                omega, hresult⟩

section Pointers

variable {new front back : List UInt8} {size : UInt32}

/-- The first bytes of the tail become data. -/
theorem put_spec (h : msg.Layout head bytes (new ++ tail)) (hsize : size.toNat = new.length) :
    ∃ msg', msg.put size = .ok msg' ∧ msg'.Layout head (bytes ++ new) tail := by
  have hbufferSize := h.bufferSize
  have htailSize := h.tailSize
  have hmax := msg.bufferSize.toNat_lt
  rw [List.length_append] at hbufferSize htailSize
  have henough : msg.tailSize ≥ size := by
    rw [ge_iff_le, UInt32.le_iff_toNat_le]
    omega
  rw [put, if_pos henough]
  refine ⟨_, rfl, ⟨by simp [h.buffer], h.data, h.headSize, ?_, ?_, ?_⟩⟩
  · change (msg.dataSize + size).toNat = _
    rw [UInt32.toNat_add, hsize, h.dataSize, List.length_append, Nat.mod_eq_of_lt (by omega)]
  · change (msg.tailSize - size).toNat = _
    rw [UInt32.toNat_sub_of_le _ _ henough]
    omega
  · change msg.bufferSize.toNat = _
    rw [hbufferSize, List.length_append]
    omega

/-- The last bytes of the head become data. -/
theorem push_spec (h : msg.Layout (head ++ new) bytes tail) (hsize : size.toNat = new.length) :
    ∃ msg', msg.push size = .ok msg' ∧ msg'.Layout head (new ++ bytes) tail := by
  have hbufferSize := h.bufferSize
  have hheadSize := h.headSize
  have hmax := msg.bufferSize.toNat_lt
  rw [List.length_append] at hbufferSize hheadSize
  have henough : msg.headSize ≥ size := by
    rw [ge_iff_le, UInt32.le_iff_toNat_le]
    omega
  rw [push, if_pos henough]
  refine ⟨_, rfl, ⟨by simp [h.buffer], ?_, ?_, ?_, h.tailSize, ?_⟩⟩
  · change msg.data - size.toNat = _
    rw [h.data, hsize, List.length_append, Nat.add_sub_cancel]
  · change (msg.headSize - size).toNat = _
    rw [UInt32.toNat_sub_of_le _ _ henough]
    omega
  · change (msg.dataSize + size).toNat = _
    rw [UInt32.toNat_add, hsize, h.dataSize, List.length_append, Nat.mod_eq_of_lt (by omega)]
    omega
  · change msg.bufferSize.toNat = _
    rw [hbufferSize, List.length_append]
    omega

/-- The first bytes of the data become head. -/
theorem pull_spec (h : msg.Layout head (front ++ bytes) tail) (hsize : size.toNat = front.length) :
    ∃ msg', msg.pull size = .ok msg' ∧ msg'.Layout (head ++ front) bytes tail := by
  have hbufferSize := h.bufferSize
  have hdataSize := h.dataSize
  have hmax := msg.bufferSize.toNat_lt
  rw [List.length_append] at hbufferSize hdataSize
  have henough : msg.dataSize ≥ size := by
    rw [ge_iff_le, UInt32.le_iff_toNat_le]
    omega
  rw [pull, if_pos henough]
  refine ⟨_, rfl, ⟨by simp [h.buffer], ?_, ?_, ?_, h.tailSize, ?_⟩⟩
  · change msg.data + size.toNat = _
    rw [hsize, h.data, List.length_append]
  · change (msg.headSize + size).toNat = _
    rw [UInt32.toNat_add, hsize, h.headSize, List.length_append, Nat.mod_eq_of_lt (by omega)]
  · change (msg.dataSize - size).toNat = _
    rw [UInt32.toNat_sub_of_le _ _ henough]
    omega
  · change msg.bufferSize.toNat = _
    rw [hbufferSize, List.length_append]
    omega

/-- The last bytes of the data become tail. -/
theorem pullTail_spec (h : msg.Layout head (bytes ++ back) tail)
    (hsize : size.toNat = back.length) :
    ∃ msg', msg.pullTail size = .ok msg' ∧ msg'.Layout head bytes (back ++ tail) := by
  have hbufferSize := h.bufferSize
  have hdataSize := h.dataSize
  have hmax := msg.bufferSize.toNat_lt
  rw [List.length_append] at hbufferSize hdataSize
  have henough : msg.dataSize ≥ size := by
    rw [ge_iff_le, UInt32.le_iff_toNat_le]
    omega
  rw [pullTail, if_pos henough]
  refine ⟨_, rfl, ⟨by simp [h.buffer], h.data, h.headSize, ?_, ?_, ?_⟩⟩
  · change (msg.dataSize - size).toNat = _
    rw [UInt32.toNat_sub_of_le _ _ henough]
    omega
  · change (msg.tailSize + size).toNat = _
    rw [UInt32.toNat_add, hsize, h.tailSize, List.length_append, Nat.mod_eq_of_lt (by omega)]
    omega
  · change msg.bufferSize.toNat = _
    rw [hbufferSize, List.length_append]
    omega

end Pointers

/-- The clone has the same sizes and data; what is around the data may differ. -/
theorem clone_spec (hA : A.Succeeds) (h : msg.Layout head bytes tail) :
    ∃ msg' head' tail', msg.clone A = .ok (some msg') ∧ msg'.Layout head' bytes tail' ∧
      head'.length = head.length ∧ tail'.length = tail.length := by
  obtain ⟨buffer, hbuffer⟩ := Option.isSome_iff_exists.mp (hA msg.bufferSize.toNat)
  have hlength := A.length_eq _ _ hbuffer
  have hbufferSize := h.bufferSize
  have hslice : slice msg.buffer msg.data msg.dataSize.toNat = .ok bytes := by
    rw [h.buffer]
    exact slice_middle h.data h.dataSize
  have hcopy : memcpy buffer msg.headSize.toNat bytes = .ok (buffer.take head.length ++ bytes ++
      buffer.drop (head.length + bytes.length)) := by
    rw [memcpy, h.headSize, if_pos (by omega)]
  simp only [clone, hbuffer, hslice, hcopy, bind, Except.bind, pure, Except.pure]
  refine ⟨_, buffer.take head.length, buffer.drop (head.length + bytes.length), rfl,
    ⟨rfl, ?_, ?_, h.dataSize, ?_, ?_⟩, ?_, ?_⟩
  · change msg.headSize.toNat = _
    rw [h.headSize, List.length_take]
    omega
  · change msg.headSize.toNat = _
    rw [h.headSize, List.length_take]
    omega
  · change msg.tailSize.toNat = _
    rw [h.tailSize, List.length_drop]
    omega
  · change msg.bufferSize.toNat = _
    rw [List.length_take, List.length_drop]
    omega
  · rw [List.length_take]
    omega
  · rw [List.length_drop]
    omega

theorem toNat_ofNat_length {data : List UInt8} (h : data.length < 2 ^ 31) :
    (UInt32.ofNat data.length).toNat = data.length := by
  rw [UInt32.toNat_ofNat', Nat.mod_eq_of_lt (by omega)]

theorem write_of_grow {msg₁ : Message} {data : List UInt8} (hdata : data.length < 2 ^ 31)
    (hgrow : msg.grow A (UInt32.ofNat data.length) = .ok msg₁) :
    msg.write A data = (memcpy msg₁.buffer (msg₁.data + msg₁.dataSize.toNat) data).bind
      fun buffer ↦ { msg₁ with buffer }.put (UInt32.ofNat data.length) := by
  simp only [write, copySize, toNat_ofNat_length hdata, if_pos hdata, hgrow, bind, Except.bind]

theorem write_of_room {msg₁ : Message} {data : List UInt8} (hdata : data.length < 2 ^ 31)
    (hgrow : msg.grow A (UInt32.ofNat data.length) = .ok msg₁) (hl : msg₁.Layout head bytes tail)
    (hroom : data.length ≤ tail.length) :
    ∃ msg', msg.write A data = .ok msg' ∧
      msg'.Layout head (bytes ++ data) (tail.drop data.length) := by
  have hcopy : memcpy msg₁.buffer (msg₁.data + msg₁.dataSize.toNat) data =
      .ok (head ++ bytes ++ data ++ tail.drop data.length) := by
    have hbuffer : msg₁.buffer =
        head ++ bytes ++ tail.take data.length ++ tail.drop data.length := by
      rw [List.append_assoc _ _ (tail.drop _), List.take_append_drop, hl.buffer]
    rw [hbuffer]
    refine memcpy_replace ?_ (by rw [List.length_take]; omega)
    rw [List.length_append, hl.data, hl.dataSize]
  set written : Message :=
    { msg₁ with buffer := head ++ bytes ++ data ++ tail.drop data.length }
  have hwritten : written.Layout head bytes (data ++ tail.drop data.length) := by
    refine ⟨by simp [written], hl.data, hl.headSize, hl.dataSize, ?_, ?_⟩
    · rw [List.length_append, List.length_drop, Nat.add_sub_cancel' hroom]
      exact hl.tailSize
    · rw [List.length_append, List.length_drop, Nat.add_sub_cancel' hroom]
      exact hl.bufferSize
  obtain ⟨msg', hput, hl'⟩ := put_spec hwritten (toNat_ofNat_length hdata)
  refine ⟨msg', ?_, hl'⟩
  rw [write_of_grow hdata hgrow, hcopy]
  exact hput

theorem write_of_short {msg₁ : Message} {data : List UInt8} (hdata : data.length < 2 ^ 31)
    (hgrow : msg.grow A (UInt32.ofNat data.length) = .ok msg₁)
    (hshort : msg₁.buffer.length < msg₁.data + msg₁.dataSize.toNat + data.length) :
    msg.write A data = .error .outOfBounds := by
  rw [write_of_grow hdata hgrow, memcpy, if_neg (by omega)]
  rfl

/-- Whatever reallocation it triggers, a write appends the given bytes. -/
theorem write_meets (h : msg.Layout head bytes tail) (data : List UInt8)
    (hdata : data.length < 2 ^ 31) :
    (msg.write A data).Meets (A.Grants (head.length + bytes.length + data.length)) fun msg' ↦
      ∃ tail', msg'.Layout head (bytes ++ data) tail' := by
  have hgrow := grow_meets (A := A) h (UInt32.ofNat data.length)
  rw [toNat_ofNat_length hdata] at hgrow
  cases hresult : msg.grow A (UInt32.ofNat data.length) with
  | error fault =>
      rw [hresult] at hgrow
      simp only [write, copySize, toNat_ofNat_length hdata, if_pos hdata, hresult, bind,
        Except.bind]
      exact hgrow
  | ok msg₁ =>
      rcases hgrow.of_eq_ok hresult with ⟨tail₁, hl, hroom⟩ | ⟨hgrants, hshort⟩
      · have hlength := hl.wellFormed.buffer
        have hbufferSize := hl.bufferSize
        by_cases hfits : data.length ≤ tail₁.length
        · obtain ⟨msg', hwrite, hl'⟩ := write_of_room hdata hresult hl hfits
          rw [hwrite]
          exact ⟨_, hl'⟩
        · rw [write_of_short hdata hresult (by rw [hl.data, hl.dataSize]; omega)]
          exact fun hgrants ↦ hfits (hroom hgrants)
      · rw [write_of_short hdata hresult (by omega)]
        exact hgrants

theorem read_spec {front : List UInt8} (h : msg.Layout head (front ++ bytes) tail)
    (size : UInt32) (hsize : size.toNat = front.length) (hlt : front.length < 2 ^ 31) :
    ∃ msg', msg.read size = .ok (some (front, msg')) ∧ msg'.Layout (head ++ front) bytes tail := by
  have henough : msg.dataSize ≥ size := by
    rw [ge_iff_le, UInt32.le_iff_toNat_le, hsize, h.dataSize, List.length_append]
    omega
  have hslice : slice msg.buffer msg.data front.length = .ok front := by
    rw [h.buffer, ← List.append_assoc head front bytes, List.append_assoc _ bytes tail]
    exact slice_middle h.data rfl
  obtain ⟨msg', hpull, hl⟩ := pull_spec h hsize
  refine ⟨msg', ?_, hl⟩
  simp only [read, if_pos henough, copySize, hsize, if_pos hlt, bind, Except.bind, hslice, hpull,
    pure, Except.pure]

theorem read_eq_none (h : msg.Layout head bytes tail) {size : UInt32}
    (hsize : bytes.length < size.toNat) : msg.read size = .ok none := by
  rw [read, if_neg]
  rw [ge_iff_le, UInt32.le_iff_toNat_le, h.dataSize]
  omega

theorem patch_spec {before old after : List UInt8}
    (h : msg.Layout head (before ++ old ++ after) tail) (offset : UInt32) (new : List UInt8)
    (hoffset : offset.toNat = before.length) (hlength : old.length = new.length) :
    ∃ msg', msg.patch offset new = .ok msg' ∧
      msg'.Layout head (before ++ new ++ after) tail := by
  have hcopy : memcpy msg.buffer (msg.data + offset.toNat) new =
      .ok (head ++ (before ++ new ++ after) ++ tail) := by
    have hbuffer : msg.buffer = (head ++ before) ++ old ++ (after ++ tail) := by
      simp [h.buffer]
    rw [hbuffer, memcpy_replace (by rw [h.data, hoffset, List.length_append]) hlength]
    simp
  refine ⟨{ msg with buffer := head ++ (before ++ new ++ after) ++ tail }, ?_,
    ⟨rfl, h.data, h.headSize, ?_, h.tailSize, ?_⟩⟩
  · simp only [patch, hcopy, bind, Except.bind, pure, Except.pure]
  · change msg.dataSize.toNat = _
    simp only [h.dataSize, List.length_append, hlength]
  · change msg.bufferSize.toNat = _
    simp only [h.bufferSize, List.length_append, hlength]

end Message

end Edsm
