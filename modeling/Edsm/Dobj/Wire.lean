import Edsm.Message.Fields

/-!
# Messages about distributed objects

How the messages of `MSG_TYPE_DOBJ` are laid out, and what
`edsm_dobj_handle_message` finds in them.
-/

namespace Edsm.Dobj

def msgTypeCreate : UInt32 := 1

def msgTypeGet : UInt32 := 2

def msgTypeGetReply : UInt32 := 3

def msgTypeObjMsg : UInt32 := 4

/-- The room that `edsm_dobj_send` asks for. -/
def sendSize : Option Message → UInt32
  | none => 8
  | some dobjMsg => 8 + dobjMsg.dataSize

/-- The message that `edsm_dobj_send` hands to `edsm_proto_send` for each peer. -/
def send (A : Allocator) (id : UInt32) (dobjMsg : Option Message) : Except Fault Message :=
  match Message.create A 0 (sendSize dobjMsg) with
  | none => .error .nullPointer
  | some msg => do
      let msg ← msg.write A (Message.word msgTypeObjMsg)
      let msg ← msg.write A (Message.word id)
      msg.writeMessage A dobjMsg

/-- A message of `uint32_t`s, written to the new `edsm_message_create(0, room)`. -/
def wordsMessage (A : Allocator) (room : UInt32) (words : List UInt32) : Except Fault Message :=
  match Message.create A 0 room with
  | none => .error .nullPointer
  | some msg => words.foldlM (fun msg n ↦ msg.write A (Message.word n)) msg

/-- The message of `edsm_dobj_create`. -/
def createMessage (A : Allocator) (maxObjId : UInt32) : Except Fault Message :=
  wordsMessage A 8 [msgTypeCreate, maxObjId]

/-- The message of `edsm_dobj_send_get`. -/
def getMessage (A : Allocator) (id : UInt32) : Except Fault Message :=
  wordsMessage A 8 [msgTypeGet, id]

/-- The message of `edsm_dobj_send_get_reply`, which asks for less room than it needs. -/
def getReplyMessage (A : Allocator) (id haveReference : UInt32) : Except Fault Message :=
  wordsMessage A 8 [msgTypeGetReply, id, haveReference]

/-- The call that a message leads to. -/
inductive Call
  /-- `edsm_dobj_handle_create`; `none` if the counter could not be read. -/
  | create (maxObjId : Option UInt32)
  | get (id : UInt32)
  | getReply (id haveReference : UInt32)
  /-- The handler of the object. -/
  | handler (id : UInt32) (dobjMsg : Option Message)

/-- A read of a number whose result is not looked at. -/
def readNumber (msg : Message) : Except Fault (UInt32 × Message) := do
  match ← msg.read 4 with
  | some (out, msg) => return (Message.ofWord out, msg)
  | none => throw .uninitialised

/-- `edsm_dobj_handle_message` up to the call; `accepts` tells for which ids the object is known
and initialised. -/
def handleMessage (A : Allocator) (accepts : UInt32 → Bool) (msg : Message) :
    Except Fault (Option Call) := do
  let (msgType, msg) ← readNumber msg
  if msgType = msgTypeCreate then
    return some (.create ((← msg.read 4).map fun (out, _) ↦ Message.ofWord out))
  else if msgType = msgTypeGet then
    let (id, _) ← readNumber msg
    return some (.get id)
  else if msgType = msgTypeGetReply then
    let (id, msg) ← readNumber msg
    let (haveReference, _) ← readNumber msg
    return some (.getReply id haveReference)
  else if msgType = msgTypeObjMsg then
    let (id, msg) ← readNumber msg
    if accepts id then
      return (← msg.readMessage A).map fun (dobjMsg, _) ↦ .handler id dobjMsg
    else return none
  else return none

/-- The message of an object as a list of fields. -/
def objMsgFields (id : UInt32) (dobjMsg : Option Message) : List Message.Field :=
  [.raw (Message.word msgTypeObjMsg), .raw (Message.word id), .message dobjMsg]

variable {A : Allocator} {id : UInt32} {dobjMsg : Option Message}

theorem objMsgFields_valid (hdobjMsg : ∀ val ∈ dobjMsg, val.WellFormed) :
    ∀ field ∈ objMsgFields id dobjMsg, field.Valid := by
  intro field hfield
  simp only [objMsgFields, List.mem_cons, List.not_mem_nil, or_false] at hfield
  rcases hfield with rfl | rfl | rfl
  · trivial
  · trivial
  · cases dobjMsg with
    | none => trivial
    | some val => exact hdobjMsg val rfl

theorem send_spec (id : UInt32) (hdobjMsg : ∀ val ∈ dobjMsg, val.WellFormed)
    (hgrants : A.Grants ((objMsgFields id dobjMsg).flatMap Message.Field.encode).length) :
    ∃ msg, send A id dobjMsg = .ok msg ∧ msg.WellFormed ∧
      msg.bytes = (objMsgFields id dobjMsg).flatMap Message.Field.encode := by
  obtain ⟨msg₀, hcreate⟩ := Message.exists_create hgrants.1 0 (sendSize dobjMsg)
  obtain ⟨tail, hl₀, -⟩ := Message.layout_create_tail hcreate
  obtain ⟨msg, tail', hwrite, hl⟩ := Message.writeFields_spec (objMsgFields id dobjMsg) hl₀
    (objMsgFields_valid hdobjMsg) (hgrants.mono (by simp))
  refine ⟨msg, ?_, hl.wellFormed, by simpa using hl.bytes_eq⟩
  rw [← hwrite, send, hcreate]
  simp only [Message.writeFields, objMsgFields, List.foldlM_cons, List.foldlM_nil,
    Message.writeField, bind_pure]

theorem wordsMessage_spec (hA : A.Succeeds) (room : UInt32) (words : List UInt32)
    (hlt : words.length < 2 ^ 26) :
    ∃ msg, wordsMessage A room words = .ok msg ∧ msg.WellFormed ∧
      msg.bytes = words.flatMap Message.word := by
  obtain ⟨msg₀, hcreate⟩ := Message.exists_create hA 0 room
  obtain ⟨tail, hl₀, -⟩ := Message.layout_create_tail hcreate
  have hencode : (words.map fun n ↦ Message.Field.raw (Message.word n)).flatMap
      Message.Field.encode = words.flatMap Message.word := by
    rw [List.flatMap_map]
    rfl
  have hlength : (words.flatMap Message.word).length = 4 * words.length := by
    rw [List.length_flatMap]
    simp [Nat.mul_comm]
  obtain ⟨msg, tail', hwrite, hl⟩ := Message.writeFields_spec
    (words.map fun n ↦ Message.Field.raw (Message.word n)) hl₀ (by simp [Message.Field.Valid])
    (A := A) ⟨hA, by simp only [hencode, hlength, List.length_nil]; omega⟩
  refine ⟨msg, ?_, hl.wellFormed, ?_⟩
  · rw [Message.writeFields, List.foldlM_map] at hwrite
    rw [wordsMessage, hcreate]
    exact hwrite
  · rw [hl.bytes_eq, hencode]
    rfl

theorem readNumber_spec {n : UInt32} {msg : Message} {head bytes tail : List UInt8}
    (h : msg.Layout head (Message.word n ++ bytes) tail) :
    ∃ msg', readNumber msg = .ok (n, msg') ∧ msg'.Layout (head ++ Message.word n) bytes tail := by
  obtain ⟨msg', hread, hl⟩ := Message.readWord_spec h
  refine ⟨msg', ?_, hl⟩
  simp only [readNumber, hread, bind, Except.bind, pure, Except.pure, Message.ofWord_word]

theorem handleMessage_spec (hA : A.Succeeds) {accepts : UInt32 → Bool}
    (haccepts : accepts id = true) {msg : Message} (hwf : msg.WellFormed)
    (hlt : msg.bytes.length < 2 ^ 31)
    (hbytes : msg.bytes = (objMsgFields id dobjMsg).flatMap Message.Field.encode) :
    handleMessage A accepts msg =
      .ok (some (.handler id (Message.ofPayload (Message.payload dobjMsg)))) := by
  obtain ⟨head, tail, hl⟩ := hwf.layout
  rw [hbytes] at hl hlt
  simp only [objMsgFields, List.flatMap_cons, List.flatMap_nil, Message.Field.encode,
    List.length_append, Message.length_word, List.append_assoc] at hl hlt
  obtain ⟨msg₁, hread₁, hl₁⟩ := readNumber_spec hl
  obtain ⟨msg₂, hread₂, hl₂⟩ := readNumber_spec hl₁
  obtain ⟨msg₃, head₃, hread₃, -⟩ := Message.readMessage_spec hA _ (by omega) hl₂
  simp only [handleMessage, hread₁, hread₂, haccepts, hread₃, bind, Except.bind, pure, Except.pure,
    Option.map_some, if_true]
  rfl

end Edsm.Dobj
