import Edsm.Message
import Mathlib.Data.List.TakeWhile

/-!
# Fields of a message

Numbers, sub-messages and strings are written one after the other and read back
in the same order.  Sub-messages and strings carry a prefix with their length.
-/

namespace Edsm

/-- The characters before the terminating NUL. -/
def cString (str : List UInt8) : List UInt8 := str.takeWhile (· ≠ 0)

namespace Message

/-- The four bytes of a `uint32_t`. -/
def word (n : UInt32) : List UInt8 := LittleEndian.toBytes 4 n.toNat

def ofWord (bytes : List UInt8) : UInt32 := UInt32.ofNat (LittleEndian.ofBytes bytes)

/-- The data that another message has at its data pointer. -/
def content (val : Message) : Except Fault (List UInt8) :=
  slice val.buffer val.data val.dataSize.toNat

/-- The data of a sub-message, none for `NULL`. -/
def payload : Option Message → List UInt8
  | none => []
  | some val => val.bytes

/-- The sub-message that is read back: one without data is `NULL`. -/
def ofPayload (data : List UInt8) : Option Message :=
  if data = [] then none else some (ofBytes data)

/-- `edsm_message_write_message`; the value `none` is `NULL`. -/
def writeMessage (A : Allocator) (dst : Message) : Option Message → Except Fault Message
  | none => dst.write A (word 0)
  | some val => do
      let dst ← dst.write A (word val.dataSize)
      let data ← val.content
      dst.write A data

/-- `edsm_message_read_message`; `none` is `FAILURE`, and the value `none` is `NULL`. -/
def readMessage (A : Allocator) (msg : Message) :
    Except Fault (Option (Option Message × Message)) := do
  match ← msg.read 4 with
  | none => return none
  | some (out, msg) =>
      let size := ofWord out
      if size = 0 then return some (none, msg)
      else match create A 0 size with
      | none => throw .nullPointer
      | some dst => do
          let dst ← dst.put size
          match ← msg.read dst.dataSize with
          | none => return none
          | some (out, msg) => do
              let buffer ← memcpy dst.buffer dst.data out
              return some (some { dst with buffer }, msg)

/-- `edsm_message_write_string` -/
def writeString (A : Allocator) (dst : Message) (str : List UInt8) : Except Fault Message := do
  let size := UInt32.ofNat (cString str).length
  let dst ← dst.write A (word size)
  dst.write A (str.take size.toNat)

/-- `edsm_message_read_string`, with the allocated characters; `none` is `NULL`. -/
def readString (A : Allocator) (msg : Message) :
    Except Fault (Option (List UInt8 × Message)) := do
  match ← msg.read 4 with
  | none => return none
  | some (out, msg) =>
      let size := ofWord out
      match A.malloc (size + 1).toNat with
      | none => throw .nullPointer
      | some str => do
          let str ← memcpy str size.toNat [0]
          match ← msg.read size with
          | none => return none
          | some (out, msg) => return some (← memcpy str 0 out, msg)

/-! ## Lists of fields -/

inductive Field
  /-- A number or a structure, written as its bytes. -/
  | raw (value : List UInt8)
  | message (value : Option Message)
  | string (value : List UInt8)

/-- What a reader asks for. -/
inductive Shape
  | raw (size : ℕ)
  | message
  | string
  deriving DecidableEq, Repr

namespace Field

def shape : Field → Shape
  | raw value => .raw value.length
  | message _ => .message
  | string _ => .string

/-- A sub-message is one, and a string has no NUL inside. -/
def Valid : Field → Prop
  | raw _ | message none => True
  | message (some val) => val.WellFormed
  | string value => 0 ∉ value

def encode : Field → List UInt8
  | raw value => value
  | message value => word (UInt32.ofNat (payload value).length) ++ payload value
  | string value => word (UInt32.ofNat value.length) ++ value

/-- The value that is read back. -/
def received : Field → Field
  | raw value => raw value
  | message value => message (ofPayload (payload value))
  | string value => string value

end Field

def writeField (A : Allocator) (msg : Message) : Field → Except Fault Message
  | .raw value => msg.write A value
  | .message value => msg.writeMessage A value
  | .string value => msg.writeString A value

def readField (A : Allocator) (msg : Message) : Shape → Except Fault (Option (Field × Message))
  | .raw size => do
      return (← msg.read (UInt32.ofNat size)).map fun (out, msg) ↦ (.raw out, msg)
  | .message => do
      return (← msg.readMessage A).map fun (value, msg) ↦ (.message value, msg)
  | .string => do
      return (← msg.readString A).map fun (str, msg) ↦ (.string (cString str), msg)

def writeFields (A : Allocator) (msg : Message) (fields : List Field) : Except Fault Message :=
  fields.foldlM (writeField A) msg

def readFields (A : Allocator) (msg : Message) :
    List Shape → Except Fault (Option (List Field × Message))
  | [] => .ok (some ([], msg))
  | shape :: rest => do
      match ← msg.readField A shape with
      | none => return none
      | some (field, msg) =>
          return (← msg.readFields A rest).map fun (fields, msg) ↦ (field :: fields, msg)

/-! ## Writing -/

variable {A : Allocator} {msg : Message} {head bytes tail : List UInt8}

theorem ofWord_word (n : UInt32) : ofWord (word n) = n := LittleEndian.uint32_ofBytes_toBytes n

theorem word_ofWord {bytes : List UInt8} (h : bytes.length = 4) : word (ofWord bytes) = bytes := by
  have hlt := LittleEndian.ofBytes_lt bytes
  have hbytes := LittleEndian.toBytes_ofBytes bytes
  rw [h] at hlt hbytes
  rw [word, ofWord, UInt32.toNat_ofNat', Nat.mod_eq_of_lt (b := 2 ^ 32) hlt, hbytes]

@[simp] theorem length_word (n : UInt32) : (word n).length = 4 := LittleEndian.length_toBytes 4 _

theorem Layout.content_eq (h : msg.Layout head bytes tail) : msg.content = .ok bytes := by
  rw [content, h.buffer]
  exact slice_middle h.data h.dataSize

theorem Layout.dataSize_eq (h : msg.Layout head bytes tail) :
    msg.dataSize = UInt32.ofNat bytes.length := by
  rw [← h.dataSize, UInt32.ofNat_toNat]

theorem cString_of_notMem {str : List UInt8} (h : 0 ∉ str) : cString str = str := by
  refine List.takeWhile_eq_self_iff.mpr fun b hb ↦ decide_eq_true ?_
  rintro rfl
  exact h hb

theorem cString_append_nul {str : List UInt8} (h : 0 ∉ str) : cString (str ++ [0]) = str := by
  rw [cString, List.takeWhile_append_of_pos]
  · simp
  · intro b hb
    refine decide_eq_true ?_
    rintro rfl
    exact h hb

theorem write_write (h : msg.Layout head bytes tail) (data data' : List UInt8)
    (hgrants : A.Grants (head.length + bytes.length + (data ++ data').length)) :
    ∃ msg₁ msg₂ tail', msg.write A data = .ok msg₁ ∧ msg₁.write A data' = .ok msg₂ ∧
      msg₂.Layout head (bytes ++ (data ++ data')) tail' := by
  have hlt := hgrants.2
  rw [List.length_append] at hgrants hlt
  obtain ⟨msg₁, hwrite₁, tail₁, hl₁⟩ :=
    (write_meets h data (by omega)).exists_ok (hgrants.mono (by omega))
  obtain ⟨msg₂, hwrite₂, tail₂, hl₂⟩ := (write_meets hl₁ data' (by omega)).exists_ok
    (hgrants.mono (by rw [List.length_append]; omega))
  rw [List.append_assoc] at hl₂
  exact ⟨msg₁, msg₂, tail₂, hwrite₁, hwrite₂, hl₂⟩

theorem writeField_spec (h : msg.Layout head bytes tail) {field : Field} (hvalid : field.Valid)
    (hgrants : A.Grants (head.length + bytes.length + field.encode.length)) :
    ∃ msg' tail', msg.writeField A field = .ok msg' ∧
      msg'.Layout head (bytes ++ field.encode) tail' := by
  have hlt := hgrants.2
  cases field with
  | raw value =>
      obtain ⟨msg', hwrite, tail', hl⟩ :=
        (write_meets h value (by simp only [Field.encode] at hlt; omega)).exists_ok hgrants
      exact ⟨msg', tail', hwrite, hl⟩
  | message value =>
      cases value with
      | none =>
          have hnull : (Field.message none).encode = word 0 := by
            simp [Field.encode, payload]
          rw [hnull] at hgrants ⊢
          obtain ⟨msg', hwrite, tail', hl⟩ :=
            (write_meets h (word 0) (by simp)).exists_ok hgrants
          exact ⟨msg', tail', hwrite, hl⟩
      | some val =>
          obtain ⟨_, _, hval⟩ := WellFormed.layout hvalid
          obtain ⟨msg₁, msg₂, tail', hwrite₁, hwrite₂, hl⟩ := write_write h _ _ hgrants
          refine ⟨msg₂, tail', ?_, hl⟩
          rw [payload, ← hval.dataSize_eq] at hwrite₁
          rw [payload] at hwrite₂
          simp only [writeField, writeMessage, hwrite₁, hval.content_eq, hwrite₂, bind, Except.bind]
  | string value =>
      obtain ⟨msg₁, msg₂, tail', hwrite₁, hwrite₂, hl⟩ := write_write h _ _ hgrants
      refine ⟨msg₂, tail', ?_, hl⟩
      have hsize : (UInt32.ofNat value.length).toNat = value.length := by
        simp only [Field.encode, List.length_append] at hlt
        rw [UInt32.toNat_ofNat', Nat.mod_eq_of_lt (by omega)]
      simp only [writeField, writeString, cString_of_notMem hvalid, hwrite₁, hsize,
        List.take_length, hwrite₂, bind, Except.bind]

theorem writeFields_spec (fields : List Field) (h : msg.Layout head bytes tail)
    (hvalid : ∀ field ∈ fields, field.Valid)
    (hgrants : A.Grants (head.length + bytes.length + (fields.flatMap Field.encode).length)) :
    ∃ msg' tail', msg.writeFields A fields = .ok msg' ∧
      msg'.Layout head (bytes ++ fields.flatMap Field.encode) tail' := by
  induction fields generalizing msg bytes tail with
  | nil => exact ⟨msg, tail, rfl, by simpa using h⟩
  | cons field fields ih =>
      rw [List.flatMap_cons, List.length_append] at hgrants
      obtain ⟨msg₁, tail₁, hfield, hl₁⟩ := writeField_spec h (hvalid field List.mem_cons_self)
        (hgrants.mono (by omega))
      obtain ⟨msg₂, tail₂, hrest, hl₂⟩ := ih hl₁
        (fun f hf ↦ hvalid f (List.mem_cons_of_mem field hf))
        (hgrants.mono (by rw [List.length_append]; omega))
      rw [List.append_assoc, ← List.flatMap_cons] at hl₂
      refine ⟨msg₂, tail₂, ?_, hl₂⟩
      rw [writeFields, List.foldlM_cons, hfield]
      exact hrest

/-! ## Reading -/

theorem readWord_spec {n : UInt32} (h : msg.Layout head (word n ++ bytes) tail) :
    ∃ msg', msg.read 4 = .ok (some (word n, msg')) ∧
      msg'.Layout (head ++ word n) bytes tail :=
  read_spec h 4 (by simp) (by simp)

theorem Layout.eq_ofBytes (h : msg.Layout [] bytes []) : msg = ofBytes bytes := by
  have hbufferSize := h.bufferSize
  obtain ⟨buffer, data, bufferSize, headSize, dataSize, tailSize⟩ := msg
  simp only [List.length_nil, Nat.zero_add, Nat.add_zero] at hbufferSize
  simp only [ofBytes, Message.mk.injEq]
  refine ⟨by simpa using h.buffer, h.data, ?_, UInt32.toNat_inj.mp h.headSize, h.dataSize_eq,
    UInt32.toNat_inj.mp h.tailSize⟩
  rw [← hbufferSize, UInt32.ofNat_toNat]

theorem memcpy_all {dst src : List UInt8} (hlength : src.length = dst.length) :
    memcpy dst 0 src = .ok src := by
  rw [memcpy, if_pos (by omega), Nat.zero_add, hlength]
  simp

theorem put_of_create {size : UInt32} {dst : Message} (h : create A 0 size = some dst) :
    ∃ dst' room, dst.put size = .ok dst' ∧ dst'.Layout [] room [] ∧ room.length = size.toNat := by
  obtain ⟨room, hl, hroom⟩ := layout_create_tail h
  rw [← List.append_nil room] at hl
  obtain ⟨dst', hput, hl'⟩ := put_spec hl hroom.symm
  exact ⟨dst', room, hput, hl', hroom⟩

theorem Layout.refill {dst : Message} {room out : List UInt8} (h : dst.Layout [] room [])
    (hlength : out.length = room.length) :
    Layout { dst with buffer := out } [] out [] := by
  refine ⟨by simp, h.data, h.headSize, ?_, h.tailSize, ?_⟩
  · rw [hlength]
    exact h.dataSize
  · rw [hlength]
    exact h.bufferSize

theorem readMessage_spec (hA : A.Succeeds) (data : List UInt8) (hdata : data.length < 2 ^ 31)
    (h : msg.Layout head (word (UInt32.ofNat data.length) ++ (data ++ bytes)) tail) :
    ∃ msg' head', msg.readMessage A =
        .ok (some (ofPayload data, msg')) ∧
      msg'.Layout head' bytes tail := by
  have hsize : (UInt32.ofNat data.length).toNat = data.length := by
    rw [UInt32.toNat_ofNat', Nat.mod_eq_of_lt (by omega)]
  obtain ⟨msg₁, hread₁, hl₁⟩ := readWord_spec h
  by_cases hnil : data = []
  · subst hnil
    refine ⟨msg₁, _, ?_, hl₁⟩
    simp only [readMessage, hread₁, bind, Except.bind, ofWord_word]
    rfl
  · have hne : UInt32.ofNat data.length ≠ 0 := by
      intro heq
      rw [heq] at hsize
      exact hnil (List.length_eq_zero_iff.mp hsize.symm)
    obtain ⟨dst, hcreate⟩ := exists_create hA 0 (UInt32.ofNat data.length)
    obtain ⟨dst', room, hput, hl', hroom⟩ := put_of_create hcreate
    have hlength : data.length = room.length := hsize.symm.trans hroom.symm
    have hdataSize : dst'.dataSize = UInt32.ofNat data.length := by
      rw [hl'.dataSize_eq, hlength]
    obtain ⟨msg₂, hread₂, hl₂⟩ := read_spec hl₁ dst'.dataSize (by rw [hdataSize, hsize]) hdata
    have hcopy : memcpy dst'.buffer dst'.data data = .ok data := by
      rw [hl'.data]
      exact memcpy_all (by simpa [hl'.buffer] using hlength)
    have hdst : ({ dst' with buffer := data } : Message) = ofBytes data :=
      (hl'.refill hlength).eq_ofBytes
    refine ⟨msg₂, _, ?_, hl₂⟩
    simp only [readMessage, hread₁, bind, Except.bind, ofWord_word, if_neg hne, hcreate, hput,
      hread₂, hcopy, pure, Except.pure, hdst, ofPayload, if_neg hnil]

theorem toNat_size_add_one {size : UInt32} (h : size.toNat ≠ 2 ^ 32 - 1) :
    (size + 1).toNat = size.toNat + 1 := by
  have hlt := size.toNat_lt
  rw [UInt32.toNat_add, UInt32.toNat_one, Nat.mod_eq_of_lt (by omega)]

theorem memcpy_terminator {str : List UInt8} {size : ℕ} (h : str.length = size + 1) :
    memcpy str size [0] = .ok (str.take size ++ [0]) := by
  have hdrop : str.drop (size + ([0] : List UInt8).length) = [] :=
    List.drop_of_length_le (by simp [h])
  rw [memcpy, if_pos (by simp [h]), hdrop, List.append_nil]

theorem memcpy_front {old new after : List UInt8} (h : old.length = new.length) :
    memcpy (old ++ after) 0 new = .ok (new ++ after) :=
  @memcpy_replace [] old after new 0 rfl h

theorem readString_spec (hA : A.Succeeds) {str : List UInt8} (hstr : str.length < 2 ^ 31)
    (h : msg.Layout head (word (UInt32.ofNat str.length) ++ (str ++ bytes)) tail) :
    ∃ msg' head', msg.readString A = .ok (some (str ++ [0], msg')) ∧
      msg'.Layout head' bytes tail := by
  have hsize : (UInt32.ofNat str.length).toNat = str.length := by
    rw [UInt32.toNat_ofNat', Nat.mod_eq_of_lt (by omega)]
  have hroom : (UInt32.ofNat str.length + 1).toNat = str.length + 1 := by
    rw [toNat_size_add_one (by omega), hsize]
  obtain ⟨msg₁, hread₁, hl₁⟩ := readWord_spec h
  obtain ⟨msg₂, hread₂, hl₂⟩ := read_spec hl₁ (UInt32.ofNat str.length) hsize hstr
  obtain ⟨room, hmalloc⟩ := Option.isSome_iff_exists.mp (hA (UInt32.ofNat str.length + 1).toNat)
  have hlength := A.length_eq _ _ hmalloc
  rw [hroom] at hlength
  have hcopy : memcpy (room.take str.length ++ [0]) 0 str = .ok (str ++ [0]) := by
    refine memcpy_front ?_
    rw [List.length_take]
    omega
  refine ⟨msg₂, _, ?_, hl₂⟩
  simp only [readString, hread₁, bind, Except.bind, ofWord_word, hmalloc, hsize,
    memcpy_terminator hlength, hread₂, hcopy, pure, Except.pure]

theorem readField_spec (hA : A.Succeeds) {field : Field} (hvalid : field.Valid)
    (hlt : field.encode.length < 2 ^ 31) (h : msg.Layout head (field.encode ++ bytes) tail) :
    ∃ msg' head', msg.readField A field.shape = .ok (some (field.received, msg')) ∧
      msg'.Layout head' bytes tail := by
  cases field with
  | raw value =>
      simp only [Field.encode] at hlt h
      obtain ⟨msg', hread, hl⟩ := read_spec h (UInt32.ofNat value.length)
        (by rw [UInt32.toNat_ofNat', Nat.mod_eq_of_lt (by omega)]) hlt
      refine ⟨msg', _, ?_, hl⟩
      simp only [readField, Field.shape, hread, bind, Except.bind, pure, Except.pure,
        Option.map_some, Field.received]
  | message value =>
      simp only [Field.encode, List.length_append, length_word] at hlt
      rw [Field.encode, List.append_assoc] at h
      obtain ⟨msg', head', hread, hl⟩ := readMessage_spec hA _ (by omega) h
      refine ⟨msg', head', ?_, hl⟩
      simp only [readField, Field.shape, hread, bind, Except.bind, pure, Except.pure,
        Option.map_some, Field.received]
  | string value =>
      simp only [Field.encode, List.length_append, length_word] at hlt
      rw [Field.encode, List.append_assoc] at h
      obtain ⟨msg', head', hread, hl⟩ := readString_spec hA (by omega) h
      refine ⟨msg', head', ?_, hl⟩
      simp only [readField, Field.shape, hread, bind, Except.bind, pure, Except.pure,
        Option.map_some, cString_append_nul hvalid, Field.received]

theorem readFields_spec (hA : A.Succeeds) {fields : List Field}
    (hvalid : ∀ field ∈ fields, field.Valid)
    (hlt : (fields.flatMap Field.encode).length < 2 ^ 31)
    (h : msg.Layout head (fields.flatMap Field.encode ++ bytes) tail) :
    ∃ msg' head', msg.readFields A (fields.map Field.shape) =
        .ok (some (fields.map Field.received, msg')) ∧
      msg'.Layout head' bytes tail := by
  induction fields generalizing msg head with
  | nil => exact ⟨msg, head, rfl, by simpa using h⟩
  | cons field fields ih =>
      rw [List.flatMap_cons, List.length_append] at hlt
      rw [List.flatMap_cons, List.append_assoc] at h
      obtain ⟨msg₁, head₁, hfield, hl₁⟩ :=
        readField_spec hA (hvalid field List.mem_cons_self) (by omega) h
      obtain ⟨msg₂, head₂, hrest, hl₂⟩ :=
        ih (fun f hf ↦ hvalid f (List.mem_cons_of_mem field hf)) (by omega) hl₁
      refine ⟨msg₂, head₂, ?_, hl₂⟩
      simp only [List.map_cons, readFields, hfield, hrest, bind, Except.bind, pure, Except.pure,
        Option.map_some]

end Message

end Edsm
