import Edsm.Message.Fields
import Edsm.Message.Resize

/-!
# When a write can be made

`edsm_message_write` has no return but `SUCCESS`: where the reallocation fails, or wraps, it goes
on with a buffer that is freed or too small.  Whether it comes to that depends on the four sizes
and on `malloc` alone.
-/

namespace Edsm

/-- The sizes of a message as numbers. -/
structure Sizes where
  headSize : ℕ
  dataSize : ℕ
  tailSize : ℕ

namespace Sizes

variable (A : Allocator) (s : Sizes) (n : ℕ)

def bufferSize : ℕ := s.headSize + s.dataSize + s.tailSize

/-- The tail that is asked for when `n` more bytes do not fit. -/
def doubled : ℕ := (if s.bufferSize > n then s.bufferSize * 2 else n * 2) % 2 ^ 32

def grown : Sizes := if n ≤ s.tailSize then s else { s with tailSize := s.doubled n }

theorem grown_of_room {s : Sizes} {n : ℕ} (h : n ≤ s.tailSize) : s.grown n = s := if_pos h

theorem grown_of_full {s : Sizes} {n : ℕ} (h : s.tailSize < n) :
    s.grown n = { s with tailSize := s.doubled n } := if_neg (by omega)

/-- The sizes after `n` bytes have been appended. -/
def written : Sizes :=
  { s with dataSize := s.dataSize + n, tailSize := (s.grown n).tailSize - n }

/-- A new buffer, where one is needed, is there, has its full size, and its copy has a size that
is an `int`. -/
structure Reallocates : Prop where
  malloc : (A.malloc (s.grown n).bufferSize).isSome
  exact : (s.grown n).bufferSize < 2 ^ 32
  copy : min s.bufferSize (s.grown n).bufferSize < 2 ^ 31

/-- `n` bytes can be appended. -/
structure Writable : Prop where
  int : n < 2 ^ 31
  grows : s.tailSize < n → s.Reallocates A n
  room : n ≤ (s.grown n).tailSize

/-- Byte strings of these lengths can be appended one after the other. -/
def WritableAll (A : Allocator) : Sizes → List ℕ → Prop
  | _, [] => True
  | s, n :: rest => s.Writable A n ∧ (s.written n).WritableAll A rest

end Sizes

namespace Message

variable {A : Allocator} {msg msg' : Message} {head bytes tail data : List UInt8}

def sizes (msg : Message) : Sizes where
  headSize := msg.headSize.toNat
  dataSize := msg.dataSize.toNat
  tailSize := msg.tailSize.toNat

@[simp] theorem sizes_headSize : msg.sizes.headSize = msg.headSize.toNat := rfl

@[simp] theorem sizes_dataSize : msg.sizes.dataSize = msg.dataSize.toNat := rfl

@[simp] theorem sizes_tailSize : msg.sizes.tailSize = msg.tailSize.toNat := rfl

/-- The message after `data` have been appended to it. -/
structure Appended (msg : Message) (data : List UInt8) (msg' : Message) : Prop where
  wellFormed : msg'.WellFormed
  bytes : msg'.bytes = msg.bytes ++ data

theorem sizes_bufferSize (hwf : msg.WellFormed) :
    msg.sizes.bufferSize = msg.bufferSize.toNat := hwf.sizes

/-- `new_tail_size` of the reallocation that `edsm_message_write` asks for. -/
def newTailSize (msg : Message) (bytes : UInt32) : UInt32 :=
  if msg.bufferSize > bytes then msg.bufferSize * 2 else bytes * 2

theorem toNat_newTailSize (hwf : msg.WellFormed) (bytes : UInt32) :
    (msg.newTailSize bytes).toNat = msg.sizes.doubled bytes.toNat := by
  rw [newTailSize, Sizes.doubled, sizes_bufferSize hwf]
  simp only [gt_iff_lt, UInt32.lt_iff_toNat_lt]
  split <;> rw [UInt32.toNat_mul] <;> rfl

theorem grow_of_room {size : UInt32} (h : size.toNat ≤ msg.tailSize.toNat) :
    msg.grow A size = .ok msg := by
  rw [grow, if_pos (by rwa [ge_iff_le, UInt32.le_iff_toNat_le])]

theorem grow_eq_ok {size : UInt32} (h : msg.tailSize.toNat < size.toNat) :
    msg.grow A size = .ok msg' ↔
      msg.resize A msg.headSize (msg.newTailSize size) = .ok (some msg') := by
  rw [grow, if_neg (by rw [ge_iff_le, UInt32.le_iff_toNat_le]; omega), Fault.bind_eq_ok]
  constructor
  · rintro ⟨_ | msg₁, hresize, hret⟩
    · cases hret
    · cases hret
      exact hresize
  · intro hresize
    exact ⟨some msg', hresize, rfl⟩

theorem resizeDst_self : msg.resizeDst msg.headSize = 0 := if_neg (by omega)

theorem resizeSrc_self : msg.resizeSrc msg.headSize = 0 := by
  rw [resizeSrc, if_neg (by omega), UInt32.sub_self]

theorem resizeCount_le (msg : Message) (newHeadSize newTailSize : UInt32) :
    (msg.resizeCount newHeadSize newTailSize).toNat ≤ msg.bufferSize.toNat ∧
      (msg.resizeCount newHeadSize newTailSize).toNat ≤
        (msg.resizedBufferSize newHeadSize newTailSize).toNat := by
  rw [resizeCount]
  split
  · next hlt =>
      rw [gt_iff_lt, UInt32.lt_iff_toNat_lt] at hlt
      exact ⟨le_rfl, hlt.le⟩
  · next hge =>
      rw [gt_iff_lt, UInt32.lt_iff_toNat_lt, not_lt] at hge
      exact ⟨hge, le_rfl⟩

/-- A resize behind the same head copies from the start of the old buffer to the start of the
new one. -/
theorem exists_resize_iff (hwf : msg.WellFormed) (newTailSize : UInt32) :
    (∃ msg', msg.resize A msg.headSize newTailSize = .ok (some msg')) ↔
      (A.malloc (msg.resizedBufferSize msg.headSize newTailSize).toNat).isSome ∧
        (msg.resizeCount msg.headSize newTailSize).toNat < 2 ^ 31 := by
  obtain ⟨hold, hnew⟩ := resizeCount_le msg msg.headSize newTailSize
  constructor
  · rintro ⟨msg', hresize⟩
    obtain ⟨buffer, hmalloc, _, _, hcount, _⟩ := resize_eq_some.mp hresize
    exact ⟨Option.isSome_iff_exists.mpr ⟨buffer, hmalloc⟩, hcount⟩
  · rintro ⟨hmalloc, hcount⟩
    obtain ⟨buffer, hbuffer⟩ := Option.isSome_iff_exists.mp hmalloc
    refine ⟨_, resize_eq_some.mpr ⟨buffer, hbuffer, ?_, ?_, hcount, ?_, ?_, rfl⟩⟩
    · rw [resizeDst_self]
      decide
    · rw [resizeSrc_self]
      decide
    · rw [resizeSrc_self, hwf.buffer]
      simpa using hold
    · rw [resizeDst_self, A.length_eq _ _ hbuffer]
      simpa using hnew

theorem grown_bufferSize (hwf : msg.WellFormed) {size : UInt32}
    (h : msg.tailSize.toNat < size.toNat) : (msg.sizes.grown size.toNat).bufferSize =
      msg.headSize.toNat + msg.dataSize.toNat + (msg.newTailSize size).toNat := by
  rw [Sizes.grown_of_full h, toNat_newTailSize hwf]
  rfl

/-- What there is after room has been made: the same data before the room asked for, or a buffer
that is too short for the data. -/
theorem grow_cases (h : msg.Layout head bytes tail) {size : UInt32}
    (hgrow : msg.grow A size = .ok msg') :
    (∃ tail', msg'.Layout head bytes tail' ∧
      tail'.length = (msg.sizes.grown size.toNat).tailSize) ∨
    (msg.tailSize.toNat < size.toNat ∧ 2 ^ 32 ≤ (msg.sizes.grown size.toNat).bufferSize) ∧
      msg'.buffer.length < msg'.data + msg'.dataSize.toNat := by
  by_cases hroom : size.toNat ≤ msg.tailSize.toNat
  · rw [grow_of_room hroom] at hgrow
    cases hgrow
    exact .inl ⟨tail, h, by rw [Sizes.grown_of_room hroom, sizes_tailSize, h.tailSize]⟩
  · rw [not_le] at hroom
    rw [grow_eq_ok hroom] at hgrow
    have hresized := (resize_meets h _).of_eq_ok hgrow
    simp only [Resized] at hresized
    split at hresized
    · obtain ⟨tail', hl, htail⟩ := hresized
      refine .inl ⟨tail', hl, ?_⟩
      rw [Sizes.grown_of_full hroom, htail, toNat_newTailSize h.wellFormed]
    · next hwraps =>
        refine .inr ⟨⟨hroom, ?_⟩, hresized⟩
        rw [grown_bufferSize h.wellFormed hroom, h.headSize, h.dataSize]
        omega

theorem exists_grow (hwf : msg.WellFormed) (size : UInt32)
    (h : msg.tailSize.toNat < size.toNat → msg.sizes.Reallocates A size.toNat) :
    ∃ msg', msg.grow A size = .ok msg' := by
  by_cases hroom : size.toNat ≤ msg.tailSize.toNat
  · exact ⟨msg, grow_of_room hroom⟩
  · rw [not_le] at hroom
    obtain ⟨hmalloc, hexact, hcopy⟩ := h hroom
    rw [sizes_bufferSize hwf, grown_bufferSize hwf hroom] at hcopy
    rw [grown_bufferSize hwf hroom] at hexact hmalloc
    obtain ⟨msg', hresize⟩ := (exists_resize_iff (A := A) hwf (msg.newTailSize size)).mpr
      ⟨by rwa [toNat_resizedBufferSize hexact], by rwa [toNat_resizeCount hexact]⟩
    exact ⟨msg', (grow_eq_ok hroom).mpr hresize⟩

/-- A reallocation that leaves the data in the buffer has been made in full. -/
theorem reallocates_of_grow (h : msg.Layout head bytes tail) {size : UInt32}
    (hgrow : msg.grow A size = .ok msg') (hroom : msg.tailSize.toNat < size.toNat)
    (hlong : msg'.data + msg'.dataSize.toNat ≤ msg'.buffer.length) :
    msg.sizes.Reallocates A size.toNat := by
  rw [grow_eq_ok hroom] at hgrow
  have hwf := h.wellFormed
  have hexact : msg.headSize.toNat + msg.dataSize.toNat + (msg.newTailSize size).toNat <
      2 ^ 32 := by
    by_contra hwraps
    have hresized := (resize_meets h _).of_eq_ok hgrow
    rw [Resized, if_neg (by rwa [← h.headSize, ← h.dataSize])] at hresized
    omega
  obtain ⟨hmalloc, hcount⟩ := (exists_resize_iff hwf _).mp ⟨msg', hgrow⟩
  rw [toNat_resizedBufferSize hexact] at hmalloc
  rw [toNat_resizeCount hexact] at hcount
  rw [← grown_bufferSize hwf hroom] at hexact hmalloc hcount
  exact ⟨hmalloc, hexact, by rwa [sizes_bufferSize hwf]⟩

/-- A write that returns has appended its bytes, and could be made. -/
theorem appended_of_write (hwf : msg.WellFormed) (hdata : data.length < 2 ^ 31)
    (hwrite : msg.write A data = .ok msg') :
    msg.sizes.Writable A data.length ∧ msg.Appended data msg' ∧
      msg'.sizes = msg.sizes.written data.length := by
  obtain ⟨head, tail, hl⟩ := hwf.layout
  have hsize := toNat_ofNat_length hdata
  obtain ⟨msg₁, hgrow⟩ : ∃ msg₁, msg.grow A (UInt32.ofNat data.length) = .ok msg₁ := by
    rw [write, Fault.bind_eq_ok] at hwrite
    obtain ⟨_, -, hwrite⟩ := hwrite
    obtain ⟨msg₁, hgrow, -⟩ := Fault.bind_eq_ok.mp hwrite
    exact ⟨msg₁, hgrow⟩
  have hcases := grow_cases hl hgrow
  rw [hsize] at hcases
  rcases hcases with ⟨tail₁, hl₁, htail₁⟩ | ⟨-, hshort⟩
  · have hlength := hl₁.wellFormed.buffer
    rw [hl₁.bufferSize] at hlength
    have hroom : data.length ≤ tail₁.length := by
      by_contra hlt
      rw [write_of_short hdata hgrow (by rw [hl₁.data, hl₁.dataSize]; omega)] at hwrite
      cases hwrite
    obtain ⟨msg₂, hwrite₂, hl₂⟩ := write_of_room hdata hgrow hl₁ hroom
    cases hwrite.symm.trans hwrite₂
    refine ⟨⟨hdata, fun hlt ↦ ?_, by rwa [← htail₁]⟩, ⟨hl₂.wellFormed, hl₂.bytes_eq⟩, ?_⟩
    · rw [← hsize] at hlt ⊢
      exact reallocates_of_grow hl hgrow hlt (by rw [hl₁.data, hl₁.dataSize]; omega)
    · rw [sizes, Sizes.written, hl₂.headSize, hl₂.dataSize, hl₂.tailSize, sizes_headSize,
        sizes_dataSize, hl.headSize, hl.dataSize, ← htail₁, List.length_append, List.length_drop]
  · rw [write_of_short hdata hgrow (by omega)] at hwrite
    cases hwrite

theorem exists_write (hwf : msg.WellFormed) (h : msg.sizes.Writable A data.length) :
    ∃ msg', msg.write A data = .ok msg' := by
  obtain ⟨head, tail, hl⟩ := hwf.layout
  obtain ⟨hdata, hgrows, hroom⟩ := h
  have hsize := toNat_ofNat_length hdata
  rw [← hsize] at hgrows
  obtain ⟨msg₁, hgrow⟩ := exists_grow hwf (UInt32.ofNat data.length) hgrows
  have hcases := grow_cases hl hgrow
  rw [hsize] at hcases hgrows
  rcases hcases with ⟨tail₁, hl₁, htail₁⟩ | ⟨⟨hfull, hwraps⟩, -⟩
  · obtain ⟨msg₂, hwrite, -⟩ := write_of_room hdata hgrow hl₁ (by rwa [htail₁])
    exact ⟨msg₂, hwrite⟩
  · exact absurd hwraps (not_le.mpr (hgrows hfull).exact)

theorem write_iff (hwf : msg.WellFormed) (hdata : data.length < 2 ^ 31) :
    (∃ msg', msg.write A data = .ok msg' ∧ msg.Appended data msg') ↔
      msg.sizes.Writable A data.length := by
  constructor
  · rintro ⟨msg', hwrite, -⟩
    exact (appended_of_write hwf hdata hwrite).1
  · intro h
    obtain ⟨msg', hwrite⟩ := exists_write hwf h
    exact ⟨msg', hwrite, (appended_of_write hwf hdata hwrite).2.1⟩

/-- A negative byte count is out of any bounds. -/
theorem write_of_negative (hdata : 2 ^ 31 ≤ data.length) (hlt : data.length < 2 ^ 32) :
    msg.write A data = .error .outOfBounds := by
  have hsize : (UInt32.ofNat data.length).toNat = data.length := by
    rw [UInt32.toNat_ofNat', Nat.mod_eq_of_lt hlt]
  simp only [write, copySize, hsize, if_neg (not_lt.mpr hdata), bind, Except.bind]

/-- Writes one after the other. -/
def writeAll (A : Allocator) (msg : Message) (datas : List (List UInt8)) : Except Fault Message :=
  datas.foldlM (write A) msg

theorem writeAll_iff (datas : List (List UInt8)) (hwf : msg.WellFormed)
    (hdatas : ∀ data ∈ datas, data.length < 2 ^ 32) :
    (∃ msg', msg.writeAll A datas = .ok msg' ∧ msg.Appended datas.flatten msg') ↔
      msg.sizes.WritableAll A (datas.map List.length) := by
  induction datas generalizing msg with
  | nil => exact iff_of_true ⟨msg, rfl, hwf, by simp⟩ trivial
  | cons data datas ih =>
      rw [List.forall_mem_cons] at hdatas
      simp only [writeAll, List.foldlM_cons, List.map_cons, Sizes.WritableAll]
      constructor
      · rintro ⟨msg', hwrites, happended⟩
        obtain ⟨msg₁, hwrite, hrest⟩ := Fault.bind_eq_ok.mp hwrites
        have hdata : data.length < 2 ^ 31 := by
          by_contra hge
          rw [write_of_negative (not_lt.mp hge) hdatas.1] at hwrite
          cases hwrite
        obtain ⟨hwritable, hmsg₁, hsizes⟩ := appended_of_write hwf hdata hwrite
        refine ⟨hwritable, ?_⟩
        rw [← hsizes, ← ih hmsg₁.wellFormed hdatas.2]
        refine ⟨msg', hrest, happended.wellFormed, ?_⟩
        rw [happended.bytes, hmsg₁.bytes, List.flatten_cons, List.append_assoc]
      · rintro ⟨hwritable, hrest⟩
        obtain ⟨msg₁, hwrite⟩ := exists_write hwf hwritable
        obtain ⟨-, hmsg₁, hsizes⟩ := appended_of_write hwf hwritable.int hwrite
        rw [← hsizes, ← ih hmsg₁.wellFormed hdatas.2] at hrest
        obtain ⟨msg', hwrites, happended⟩ := hrest
        refine ⟨msg', Fault.bind_eq_ok.mpr ⟨msg₁, hwrite, hwrites⟩, happended.wellFormed, ?_⟩
        rw [happended.bytes, hmsg₁.bytes, List.flatten_cons, List.append_assoc]

/-- What `edsm_message_write_message` writes. -/
def messageParts : Option Message → List (List UInt8)
  | none => [word 0]
  | some val => [word val.dataSize, val.bytes]

/-- What `edsm_message_write_string` writes. -/
def stringParts (str : List UInt8) : List (List UInt8) :=
  let size := UInt32.ofNat (cString str).length
  [word size, str.take size.toNat]

theorem writeMessage_eq {val : Option Message} (hval : ∀ v ∈ val, v.WellFormed) :
    msg.writeMessage A val = msg.writeAll A (messageParts val) := by
  cases val with
  | none =>
      simp only [writeMessage, writeAll, messageParts, List.foldlM_cons, List.foldlM_nil, bind_pure]
  | some val =>
      obtain ⟨_, _, hl⟩ := (hval val rfl).layout
      simp only [writeMessage, writeAll, messageParts, List.foldlM_cons, List.foldlM_nil,
        bind_pure, hl.content_eq]
      rfl

theorem writeString_eq (str : List UInt8) :
    msg.writeString A str = msg.writeAll A (stringParts str) := by
  simp only [writeString, writeAll, stringParts, List.foldlM_cons, List.foldlM_nil, bind_pure]

theorem length_messageParts {val : Option Message} (hval : ∀ v ∈ val, v.WellFormed) :
    ∀ data ∈ messageParts val, data.length < 2 ^ 32 := by
  intro data hdata
  cases val with
  | none =>
      obtain rfl := List.mem_singleton.mp hdata
      rw [length_word]
      omega
  | some val =>
      rcases List.mem_pair.mp hdata with rfl | rfl
      · rw [length_word]
        omega
      · rw [(hval val rfl).length_bytes]
        exact val.dataSize.toNat_lt

theorem length_stringParts (str : List UInt8) :
    ∀ data ∈ stringParts str, data.length < 2 ^ 32 := by
  intro data hdata
  rcases List.mem_pair.mp hdata with rfl | rfl
  · rw [length_word]
    omega
  · have hlt := (UInt32.ofNat (cString str).length).toNat_lt
    rw [List.length_take]
    omega

/-- A write appends its bytes if and only if there is room for them or room can be made; a
sub-message or a string is written if and only if this holds of its prefix and then of its data.
There is no other return. -/
theorem writes_append_iff (hwf : msg.WellFormed) :
    (∀ data, data.length < 2 ^ 31 →
      ((∃ msg', msg.write A data = .ok msg' ∧ msg.Appended data msg') ↔
        msg.sizes.Writable A data.length)) ∧
    (∀ val : Option Message, (∀ v ∈ val, v.WellFormed) →
      ((∃ msg', msg.writeMessage A val = .ok msg' ∧
          msg.Appended (messageParts val).flatten msg') ↔
        msg.sizes.WritableAll A ((messageParts val).map List.length))) ∧
    ∀ str, (∃ msg', msg.writeString A str = .ok msg' ∧
        msg.Appended (stringParts str).flatten msg') ↔
      msg.sizes.WritableAll A ((stringParts str).map List.length) := by
  refine ⟨fun data hdata ↦ write_iff hwf hdata, fun val hval ↦ ?_, fun str ↦ ?_⟩
  · rw [writeMessage_eq hval]
    exact writeAll_iff _ hwf (length_messageParts hval)
  · rw [writeString_eq]
    exact writeAll_iff _ hwf (length_stringParts str)

/-- The three kinds of write append to 8 bytes without room behind them. -/
theorem writes_append_eight :
    (∃ msg', eight.write Allocator.zeroed [9] = .ok msg' ∧ eight.Appended [9] msg') ∧
    (∃ msg', eight.writeMessage Allocator.zeroed (some eight) = .ok msg' ∧
      eight.Appended (messageParts (some eight)).flatten msg') ∧
    ∃ msg', eight.writeString Allocator.zeroed [65, 66] = .ok msg' ∧
      eight.Appended (stringParts [65, 66]).flatten msg' := by
  obtain ⟨hwrite, hmessage, hstring⟩ :=
    writes_append_iff (A := Allocator.zeroed) eight_wellFormed
  refine ⟨(hwrite [9] (by decide)).mpr ?_, (hmessage (some eight) ?_).mpr ?_,
    (hstring [65, 66]).mpr ?_⟩
  · exact ⟨by decide, fun _ ↦ ⟨rfl, by decide, by decide⟩, by decide⟩
  · rintro _ ⟨⟩
    exact eight_wellFormed
  · exact And.intro ⟨by decide, fun _ ↦ ⟨rfl, by decide, by decide⟩, by decide⟩ <|
      And.intro ⟨by decide, fun h ↦ absurd h (by decide), by decide⟩ trivial
  · exact And.intro ⟨by decide, fun _ ↦ ⟨rfl, by decide, by decide⟩, by decide⟩ <|
      And.intro ⟨by decide, fun h ↦ absurd h (by decide), by decide⟩ trivial

/-- The failed reallocation has freed the message, and the write goes on with it. -/
theorem write_exhausted : eight.WellFormed ∧
    eight.write Allocator.exhausted [9] = .error .useAfterFree ∧
    eight.writeMessage Allocator.exhausted none = .error .useAfterFree ∧
    eight.writeString Allocator.exhausted [65] = .error .useAfterFree :=
  ⟨eight_wellFormed, by decide, by decide, by decide⟩

end Message

end Edsm
