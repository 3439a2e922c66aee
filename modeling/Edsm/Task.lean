import Edsm.Message.Fields

/-!
# Up calls of tasks

The message that asks a peer to run the `up_call` function of a task.
-/

namespace Edsm.Task

/-- The message that `edsm_task_send_up_call` hands to `edsm_proto_send`. -/
def sendUpCall (A : Allocator) (taskName : List UInt8) (event : UInt32)
    (params : Option Message) : Except Fault Message :=
  match Message.create A 0 100 with
  | none => .error .nullPointer
  | some msg => do
      let msg ← msg.writeString A taskName
      let msg ← msg.write A (Message.word event)
      msg.writeMessage A params

/-- What `edsm_task_handle_up_call` passes to `_edsm_task_do_up_call`: the name, the event and
the parameters; `none` is `FAILURE`. -/
def handleUpCall (A : Allocator) (msg : Message) :
    Except Fault (Option (List UInt8 × UInt32 × Option Message)) := do
  match ← msg.readString A with
  | none => return none
  | some (taskName, msg) =>
      match ← msg.read 4 with
      | none => return none
      | some (event, msg) =>
          match ← msg.readMessage A with
          | none => return none
          | some (params, _) => return some (cString taskName, Message.ofWord event, params)

/-- The message of an up call as a list of fields. -/
def upCallFields (taskName : List UInt8) (event : UInt32) (params : Option Message) :
    List Message.Field :=
  [.string taskName, .raw (Message.word event), .message params]

variable {A : Allocator} {taskName : List UInt8} {event : UInt32} {params : Option Message}

theorem upCallFields_valid (hname : 0 ∉ taskName) (hparams : ∀ val ∈ params, val.WellFormed) :
    ∀ field ∈ upCallFields taskName event params, field.Valid := by
  intro field hfield
  simp only [upCallFields, List.mem_cons, List.not_mem_nil, or_false] at hfield
  rcases hfield with rfl | rfl | rfl
  · exact hname
  · trivial
  · cases params with
    | none => trivial
    | some val => exact hparams val rfl

theorem sendUpCall_spec (event : UInt32) (hname : 0 ∉ taskName)
    (hparams : ∀ val ∈ params, val.WellFormed)
    (hgrants :
      A.Grants ((upCallFields taskName event params).flatMap Message.Field.encode).length) :
    ∃ msg, sendUpCall A taskName event params = .ok msg ∧ msg.WellFormed ∧
      msg.bytes = (upCallFields taskName event params).flatMap Message.Field.encode := by
  obtain ⟨msg₀, hcreate⟩ := Message.exists_create hgrants.1 0 100
  obtain ⟨tail, hl₀, -⟩ := Message.layout_create_tail hcreate
  obtain ⟨msg, tail', hwrite, hl⟩ := Message.writeFields_spec
    (upCallFields taskName event params) hl₀ (upCallFields_valid hname hparams)
    (hgrants.mono (by simp))
  refine ⟨msg, ?_, hl.wellFormed, by simpa using hl.bytes_eq⟩
  rw [← hwrite, sendUpCall, hcreate]
  simp only [Message.writeFields, upCallFields, List.foldlM_cons, List.foldlM_nil,
    Message.writeField, bind_pure]

theorem handleUpCall_spec (hA : A.Succeeds) (hname : 0 ∉ taskName) {msg : Message}
    (hwf : msg.WellFormed) (hlt : msg.bytes.length < 2 ^ 31)
    (hbytes : msg.bytes = (upCallFields taskName event params).flatMap Message.Field.encode) :
    handleUpCall A msg =
      .ok (some (taskName, event, Message.ofPayload (Message.payload params))) := by
  obtain ⟨head, tail, hl⟩ := hwf.layout
  rw [hbytes] at hl hlt
  simp only [upCallFields, List.flatMap_cons, List.flatMap_nil, Message.Field.encode,
    List.length_append, Message.length_word, List.append_assoc] at hl hlt
  obtain ⟨msg₁, head₁, hread₁, hl₁⟩ := Message.readString_spec hA (by omega) hl
  obtain ⟨msg₂, hread₂, hl₂⟩ := Message.readWord_spec hl₁
  obtain ⟨msg₃, head₃, hread₃, -⟩ := Message.readMessage_spec hA _ (by omega) hl₂
  simp only [handleUpCall, hread₁, hread₂, hread₃, bind, Except.bind, pure, Except.pure,
    Message.cString_append_nul hname, Message.ofWord_word]

end Edsm.Task
