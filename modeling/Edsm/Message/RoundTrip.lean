import Edsm.Dobj.Wire
import Edsm.Task

/-!
# Fields survive the encoding

Whatever is written to a message comes out again in the same order, up calls and
messages of distributed objects included.
-/

namespace Edsm.Message

theorem wellFormed_ofPayload {data : List UInt8} (hdata : data.length < 2 ^ 32) :
    ∀ val ∈ ofPayload data, val.WellFormed ∧ val.bytes = data := by
  intro val hval
  unfold ofPayload at hval
  split at hval
  · cases hval
  · obtain rfl := Option.some.inj hval
    have hl := layout_ofBytes hdata
    exact ⟨hl.wellFormed, hl.bytes_eq⟩

/-- Fields are read back as they were written, from the message they were written to, from a
sub-message that holds them, and by the handlers of up calls and objects. -/
theorem fields_survive {A : Allocator} (hA : A.Succeeds) :
    (∀ (fields : List Field) (rest : List UInt8) (msg : Message),
      (∀ field ∈ fields, field.Valid) → msg.WellFormed →
      msg.headSize.toNat + msg.dataSize.toNat + (fields.flatMap Field.encode).length +
        rest.length < 2 ^ 29 →
      ∃ msg₁ msg₂ msg₃, msg.writeFields A fields = .ok msg₁ ∧ msg₁.write A rest = .ok msg₂ ∧
        msg₂.read msg.dataSize = .ok (some (msg.bytes, msg₃)) ∧ msg₃.WellFormed ∧
        msg₃.bytes = fields.flatMap Field.encode ++ rest) ∧
    (∀ (fields : List Field) (rest : List UInt8) (msg : Message),
      (∀ field ∈ fields, field.Valid) → msg.WellFormed →
      (fields.flatMap Field.encode).length < 2 ^ 29 →
      msg.bytes = fields.flatMap Field.encode ++ rest →
      ∃ msg', msg.readFields A (fields.map Field.shape) =
          .ok (some (fields.map Field.received, msg')) ∧
        msg'.WellFormed ∧ msg'.bytes = rest) ∧
    (∀ data : List UInt8, data.length < 2 ^ 29 →
      ∀ val ∈ ofPayload data, val.WellFormed ∧ val.bytes = data) ∧
    (∀ (taskName : List UInt8) (event : UInt32) (params : Option Message),
      0 ∉ taskName → (∀ val ∈ params, val.WellFormed) →
      12 + taskName.length + (payload params).length < 2 ^ 29 →
      ∃ msg, Task.sendUpCall A taskName event params = .ok msg ∧ msg.WellFormed ∧
        ∀ received : Message, received.WellFormed → received.bytes = msg.bytes →
          Task.handleUpCall A received =
            .ok (some (taskName, event, ofPayload (payload params)))) ∧
    ∀ (id : UInt32) (dobjMsg : Option Message) (accepts : UInt32 → Bool),
      (∀ val ∈ dobjMsg, val.WellFormed) → accepts id = true →
      12 + (payload dobjMsg).length < 2 ^ 29 →
      ∃ msg, Dobj.send A id dobjMsg = .ok msg ∧ msg.WellFormed ∧
        ∀ received : Message, received.WellFormed → received.bytes = msg.bytes →
          Dobj.handleMessage A accepts received =
            .ok (some (.handler id (ofPayload (payload dobjMsg)))) := by
  refine ⟨fun fields rest msg hvalid hwf hsize ↦ ?_,
    fun fields rest msg hvalid hwf hsize hbytes ↦ ?_,
    fun data hdata ↦ wellFormed_ofPayload (by omega),
    fun taskName event params hname hparams hsize ↦ ?_,
    fun id dobjMsg accepts hdobjMsg haccepts hsize ↦ ?_⟩
  · obtain ⟨head, tail, hl⟩ := hwf.layout
    rw [hl.headSize, hl.dataSize] at hsize
    obtain ⟨msg₁, tail₁, hwrite₁, hl₁⟩ :=
      writeFields_spec fields hl hvalid ⟨hA, by omega⟩
    obtain ⟨msg₂, hwrite₂, tail₂, hl₂⟩ := (write_meets hl₁ rest (by omega)).exists_ok
      ⟨hA, by rw [List.length_append]; omega⟩
    rw [List.append_assoc] at hl₂
    obtain ⟨msg₃, hread, hl₃⟩ := read_spec hl₂ msg.dataSize hl.dataSize (by omega)
    exact ⟨msg₁, msg₂, msg₃, hwrite₁, hwrite₂, hread, hl₃.wellFormed, hl₃.bytes_eq⟩
  · obtain ⟨head, tail, hl⟩ := hwf.layout
    rw [hbytes] at hl
    obtain ⟨msg', head', hread, hl'⟩ := readFields_spec hA hvalid (by omega) hl
    exact ⟨msg', hread, hl'.wellFormed, hl'.bytes_eq⟩
  · have hlength : ((Task.upCallFields taskName event params).flatMap Field.encode).length =
        12 + taskName.length + (payload params).length := by
      simp [Task.upCallFields, Field.encode]
      omega
    obtain ⟨msg, hsend, hwf, hbytes⟩ := Task.sendUpCall_spec event hname hparams
      ⟨hA, by rw [hlength]; exact hsize⟩
    refine ⟨msg, hsend, hwf, fun received hreceived heq ↦ ?_⟩
    rw [hbytes] at heq
    exact Task.handleUpCall_spec hA hname hreceived (by rw [heq, hlength]; omega) heq
  · have hlength : ((Dobj.objMsgFields id dobjMsg).flatMap Field.encode).length =
        12 + (payload dobjMsg).length := by
      simp [Dobj.objMsgFields, Field.encode]
      omega
    obtain ⟨msg, hsend, hwf, hbytes⟩ := Dobj.send_spec id hdobjMsg
      ⟨hA, by rw [hlength]; exact hsize⟩
    refine ⟨msg, hsend, hwf, fun received hreceived heq ↦ ?_⟩
    rw [hbytes] at heq
    exact Dobj.handleMessage_spec hA haccepts hreceived (by rw [heq, hlength]; omega) heq

/-- A string, `NULL`, a message without data and a number behind two earlier bytes. -/
theorem fields_survive_four :
    ∃ msg₁ msg₂ msg₃ msg₄, (ofBytes [7, 8]).writeFields .zeroed
        [.string [97, 98], .message none, .message (some (ofBytes [])), .raw (word 5)] =
          .ok msg₁ ∧
      msg₁.write .zeroed [9] = .ok msg₂ ∧ msg₂.read 2 = .ok (some ([7, 8], msg₃)) ∧
      msg₃.readFields .zeroed [.string, .message, .message, .raw 4] =
        .ok (some ([.string [97, 98], .message none, .message none, .raw (word 5)], msg₄)) ∧
      msg₄.bytes = [9] := by
  obtain ⟨hwrite, hread, -⟩ := fields_survive Allocator.zeroed_succeeds
  let fields : List Field :=
    [.string [97, 98], .message none, .message (some (ofBytes [])), .raw (word 5)]
  have hvalid : ∀ field ∈ fields, field.Valid := by
    intro field hfield
    simp only [fields, List.mem_cons, List.not_mem_nil, or_false] at hfield
    rcases hfield with rfl | rfl | rfl | rfl
    · exact (by decide : (0 : UInt8) ∉ [97, 98])
    · trivial
    · exact (layout_ofBytes (by decide)).wellFormed
    · trivial
  obtain ⟨msg₁, msg₂, msg₃, h₁, h₂, h₃, hwf, hbytes⟩ := hwrite fields [9] (ofBytes [7, 8]) hvalid
    (layout_ofBytes (by decide)).wellFormed (by decide)
  obtain ⟨msg₄, h₄, -, hrest⟩ := hread fields [9] msg₃ hvalid hwf (by decide) hbytes
  exact ⟨msg₁, msg₂, msg₃, msg₄, h₁, h₂, h₃, h₄, hrest⟩

end Edsm.Message
