import Edsm.Message.Prefixed
import Edsm.Proto.Socket

/-!
# The frame reader on any stream

The size of a frame comes from the other side.  `edsm_message_create` and `edsm_message_put` take
it as an unsigned number in the end, but for `edsm_socket_read` a size from `2 ^ 31` on is
negative, and it reads nothing.
-/

namespace Edsm.Proto

namespace Socket

variable {A : Allocator} {s s' : Socket}

/-- `msg_size` of the next frame. -/
def msgSize (s : Socket) : UInt32 := Message.ofWord (s.incoming.take 4)

/-- What follows it. -/
def afterSize (s : Socket) : List UInt8 := s.incoming.drop 4

/-- The bytes that it counts. -/
def content (s : Socket) : List UInt8 := s.afterSize.take s.msgSize.toNat

/-- The next frame is in the stream as a whole. -/
def Complete (s : Socket) : Prop :=
  4 ≤ s.incoming.length ∧ s.msgSize.toNat ≤ s.afterSize.length

/-- `read_message_from_socket` returns a message exactly if there are a complete frame and memory
for it; the message's data are the bytes read behind the size. -/
def ReadsFrame (A : Allocator) (s : Socket) : Prop :=
  ∃ result, s.readMessage A = .ok result ∧
    (result.isSome ↔ s.Complete ∧ (A.malloc s.msgSize.toNat).isSome) ∧
    ∀ msg s', result = some (msg, s') →
      msg.WellFormed ∧ msg.bytes = s.content ∧ s'.incoming = s.afterSize.drop s.msgSize.toNat

/-- `handle_message` is called with a type that was in the frame and with the rest of the frame,
and the stream goes on behind it. -/
def CallsHandler (A : Allocator) (s : Socket) : Prop :=
  ∃ result, s.receive A = .ok result ∧
    ∀ msgType msg s', result = some ((msgType, msg), s') →
      s.Complete ∧ 4 ≤ s.content.length ∧ msgType = Message.ofWord (s.content.take 4) ∧
        msg.bytes = s.content.drop 4 ∧ s'.incoming = s.afterSize.drop s.msgSize.toNat

/-- The size is a positive `int`, and a complete frame has room for the type. -/
structure Readable (s : Socket) : Prop where
  int : s.msgSize.toNat < 2 ^ 31
  type : s.msgSize.toNat ≤ s.afterSize.length → 4 ≤ s.msgSize.toNat

/-! ## What a read takes -/

theorem readSize_of_le {size : UInt32} (hint : size.toNat < 2 ^ 31)
    (h : size.toNat ≤ s.incoming.length) :
    ∃ s', s.readSize size = some (s.incoming.take size.toNat, s') ∧
      s'.incoming = s.incoming.drop size.toNat := by
  have htake : (s.incoming.take size.toNat).length = size.toNat := List.length_take_of_le h
  obtain ⟨chunk, hread⟩ := readSize_append (s.incoming.take size.toNat)
    (s.incoming.drop size.toNat) s.chunk size htake.symm (by rwa [htake])
  rw [List.take_append_drop] at hread
  exact ⟨_, hread, rfl⟩

/-- Nothing is read for a negative `int`, and this counts as a success. -/
theorem readSize_of_negative {size : UInt32} (hint : 2 ^ 31 ≤ size.toNat) :
    s.readSize size = some ([], s) := by
  rw [readSize, if_neg (not_lt.mpr hint), readLoop, if_pos rfl]

theorem readMessage_of_no_size (h : s.incoming.length < 4) : s.readMessage A = .ok none := by
  have hread : s.readSize 4 = none := readSize_short s.incoming s.chunk 4 (by decide) h
  rw [readMessage, hread]

section Size

variable (h4 : 4 ≤ s.incoming.length)
include h4

theorem readMessage_of_size : ∃ s₁ : Socket, s₁.incoming = s.afterSize ∧
    s.readMessage A =
      match Message.create A 0 s.msgSize with
      | none => .ok none
      | some msg =>
          match s₁.readSize s.msgSize with
          | none => .ok none
          | some (out, s₂) => do
              let buffer ← memcpy msg.buffer msg.data out
              let msg ← { msg with buffer }.put s.msgSize
              return some (msg, s₂) := by
  obtain ⟨s₁, hread, hrest⟩ : ∃ s₁, s.readSize 4 = some (s.incoming.take 4, s₁) ∧
      s₁.incoming = s.incoming.drop 4 := readSize_of_le (by decide) h4
  refine ⟨s₁, hrest, ?_⟩
  rw [readMessage, hread]
  rfl

theorem readMessage_of_exhausted (hmalloc : A.malloc s.msgSize.toNat = none) :
    s.readMessage A = .ok none := by
  obtain ⟨s₁, -, hmessage⟩ := readMessage_of_size (A := A) h4
  rw [hmessage, Message.create_eq_none hmalloc]

theorem readMessage_of_complete (hmalloc : (A.malloc s.msgSize.toNat).isSome)
    (hint : s.msgSize.toNat < 2 ^ 31) (hle : s.msgSize.toNat ≤ s.afterSize.length) :
    ∃ msg s', s.readMessage A = .ok (some (msg, s')) ∧ msg.WellFormed ∧
      msg.bytes = s.content ∧ s'.incoming = s.afterSize.drop s.msgSize.toNat := by
  have hlength : s.content.length = s.msgSize.toNat := List.length_take_of_le hle
  have hword : Message.word (UInt32.ofNat s.content.length) = s.incoming.take 4 := by
    rw [hlength, UInt32.ofNat_toNat]
    exact Message.word_ofWord (List.length_take_of_le h4)
  have hstream : Message.word (UInt32.ofNat s.content.length) ++
      (s.content ++ s.afterSize.drop s.msgSize.toNat) = s.incoming := by
    rw [hword, content, List.take_append_drop, afterSize, List.take_append_drop]
  obtain ⟨msg, chunk, hread, hl⟩ := readMessage_append (A := A) (hlength ▸ hmalloc)
    (hlength ▸ hint) (s.afterSize.drop s.msgSize.toNat) s.chunk
  rw [hstream] at hread
  exact ⟨msg, _, hread, hl.wellFormed, hl.bytes_eq, rfl⟩

theorem readMessage_of_short (hint : s.msgSize.toNat < 2 ^ 31)
    (hshort : s.afterSize.length < s.msgSize.toNat) : s.readMessage A = .ok none := by
  obtain ⟨s₁, hrest, hmessage⟩ := readMessage_of_size (A := A) h4
  have hread : s₁.readSize s.msgSize = none :=
    readSize_short s₁.incoming s₁.chunk s.msgSize hint (by rwa [hrest])
  rw [hmessage, hread]
  cases Message.create A 0 s.msgSize <;> rfl

/-- A negative size leaves what `malloc` returned as the data. -/
theorem readMessage_of_negative (hmalloc : (A.malloc s.msgSize.toNat).isSome)
    (hint : 2 ^ 31 ≤ s.msgSize.toNat) :
    ∃ msg s', s.readMessage A = .ok (some (msg, s')) ∧ msg.WellFormed ∧
      msg.bytes.length = s.msgSize.toNat ∧ s'.incoming = s.afterSize := by
  obtain ⟨s₁, hrest, hmessage⟩ := readMessage_of_size (A := A) h4
  obtain ⟨msg, hcreate⟩ := Message.create_isSome hmalloc
  obtain ⟨msg', room, hput, hl, hroom⟩ := Message.put_of_create hcreate
  have hcopy : memcpy msg.buffer msg.data [] = .ok msg.buffer := by
    obtain ⟨_, hlayout, -⟩ := Message.layout_create_tail hcreate
    rw [hlayout.data]
    simp [memcpy]
  rw [hcreate] at hmessage
  simp only [readSize_of_negative hint, hcopy, hput, bind, Except.bind, pure, Except.pure]
    at hmessage
  exact ⟨msg', s₁, hmessage, hl.wellFormed, by rw [hl.bytes_eq, hroom], hrest⟩

end Size

/-- A frame is read as it should be unless its size is negative and there is memory for it. -/
theorem readsFrame_iff : s.ReadsFrame A ↔
    (4 ≤ s.incoming.length → (A.malloc s.msgSize.toNat).isSome → s.msgSize.toNat < 2 ^ 31) := by
  constructor
  · rintro ⟨result, hresult, hcomplete, hsome⟩ h4 hmalloc
    by_contra hge
    rw [not_lt] at hge
    obtain ⟨msg, s', hread, -, -, hrest⟩ := readMessage_of_negative h4 hmalloc hge
    cases hresult.symm.trans hread
    obtain ⟨⟨-, hle⟩, -⟩ := hcomplete.mp rfl
    -- nothing has been read of a body that is not empty
    have hleft := congrArg List.length (hsome msg s' rfl).2.2
    rw [hrest, List.length_drop] at hleft
    omega
  · intro h
    by_cases h4 : 4 ≤ s.incoming.length
    · cases hmalloc : A.malloc s.msgSize.toNat with
      | none =>
          refine ⟨none, readMessage_of_exhausted h4 hmalloc, ?_, ?_⟩
          · exact iff_of_false Bool.false_ne_true fun hboth ↦ by simp [hmalloc] at hboth
          · rintro _ _ ⟨⟩
      | some buffer =>
          have hisSome : (A.malloc s.msgSize.toNat).isSome := by
            rw [hmalloc]
            rfl
          have hint := h h4 hisSome
          by_cases hle : s.msgSize.toNat ≤ s.afterSize.length
          · obtain ⟨msg, s', hread, hmsg⟩ := readMessage_of_complete h4 hisSome hint hle
            refine ⟨_, hread, iff_of_true rfl ⟨⟨h4, hle⟩, hmalloc ▸ hisSome⟩, ?_⟩
            rintro _ _ ⟨⟩
            exact hmsg
          · refine ⟨none, readMessage_of_short h4 hint (not_le.mp hle), ?_, ?_⟩
            · exact iff_of_false Bool.false_ne_true fun hboth ↦ hle hboth.1.2
            · rintro _ _ ⟨⟩
    · refine ⟨none, readMessage_of_no_size (not_le.mp h4), ?_, ?_⟩
      · exact iff_of_false Bool.false_ne_true fun hboth ↦ h4 hboth.1.1
      · rintro _ _ ⟨⟩

/-! ## What the listener makes of it -/

theorem receive_of_none (h : s.readMessage A = .ok none) : s.receive A = .ok none := by
  rw [receive, h]
  rfl

section Frame

variable {msg : Message} (hread : s.readMessage A = .ok (some (msg, s'))) (hwf : msg.WellFormed)
include hread hwf

theorem receive_of_message (h4 : 4 ≤ msg.bytes.length) :
    ∃ msg', s.receive A = .ok (some ((Message.ofWord (msg.bytes.take 4), msg'), s')) ∧
      msg'.bytes = msg.bytes.drop 4 := by
  obtain ⟨msg', htype, hmsg'⟩ := Message.readPrefix hwf h4
  refine ⟨msg', ?_, hmsg'.bytes⟩
  rw [receive, hread]
  simp only [htype, bind, Except.bind, pure, Except.pure]

/-- The result of `edsm_message_read` is not looked at. -/
theorem receive_of_no_type (hlt : msg.bytes.length < 4) :
    s.receive A = .error .uninitialised := by
  have hnone : msg.read 4 = .ok none := Message.read_of_short hwf hlt
  rw [receive, hread]
  simp only [hnone, bind, Except.bind]
  rfl

end Frame

theorem callsHandler_iff : s.CallsHandler A ↔
    (4 ≤ s.incoming.length → (A.malloc s.msgSize.toNat).isSome → s.Readable) := by
  have hlength : s.msgSize.toNat ≤ s.afterSize.length → s.content.length = s.msgSize.toNat :=
    List.length_take_of_le
  constructor
  · rintro ⟨result, hresult, hcalls⟩ h4 hmalloc
    constructor
    · by_contra hge
      rw [not_lt] at hge
      obtain ⟨msg, s', hread, hwf, hbytes, hrest⟩ := readMessage_of_negative h4 hmalloc hge
      obtain ⟨msg', hreceive, -⟩ := receive_of_message hread hwf (by omega)
      cases hresult.symm.trans hreceive
      obtain ⟨⟨-, hle⟩, -, -, -, hbehind⟩ := hcalls _ _ _ rfl
      have hleft := congrArg List.length hbehind
      rw [hrest, List.length_drop] at hleft
      omega
    · intro hle
      by_contra hlt
      obtain ⟨msg, s', hread, hwf, hbytes, -⟩ :=
        readMessage_of_complete h4 hmalloc (by omega) hle
      rw [receive_of_no_type hread hwf (by rw [hbytes, hlength hle]; omega)] at hresult
      cases hresult
  · intro h
    have hnone : s.readMessage A = .ok none → s.CallsHandler A := by
      intro hread
      refine ⟨none, receive_of_none hread, ?_⟩
      rintro _ _ _ ⟨⟩
    by_cases h4 : 4 ≤ s.incoming.length
    · cases hmalloc : A.malloc s.msgSize.toNat with
      | none => exact hnone (readMessage_of_exhausted h4 hmalloc)
      | some buffer =>
          have hisSome : (A.malloc s.msgSize.toNat).isSome := by
            rw [hmalloc]
            rfl
          obtain ⟨hint, htype⟩ := h h4 (hmalloc ▸ hisSome)
          by_cases hle : s.msgSize.toNat ≤ s.afterSize.length
          · have hcontent : 4 ≤ s.content.length := by
              rw [hlength hle]
              exact htype hle
            obtain ⟨msg, s', hread, hwf, hbytes, hrest⟩ :=
              readMessage_of_complete h4 hisSome hint hle
            obtain ⟨msg', hreceive, hbody⟩ := receive_of_message hread hwf (hbytes ▸ hcontent)
            refine ⟨_, hreceive, ?_⟩
            rintro _ _ _ ⟨⟩
            rw [hbytes] at hbody ⊢
            exact ⟨⟨h4, hle⟩, hcontent, rfl, hbody, hrest⟩
          · exact hnone (readMessage_of_short h4 hint (not_le.mp hle))
    · exact hnone (readMessage_of_no_size (not_le.mp h4))

/-- On any stream the next frame is read, and handled, as it should be if and only if there is
no size or no memory, or the size is a positive `int` that leaves room for the type. -/
theorem reader_safe_iff (A : Allocator) (s : Socket) :
    (s.ReadsFrame A ∧ s.CallsHandler A) ↔
      (4 ≤ s.incoming.length → (A.malloc s.msgSize.toNat).isSome → s.Readable) := by
  rw [readsFrame_iff, callsHandler_iff]
  exact ⟨fun h ↦ h.2, fun h ↦ ⟨fun h4 hmalloc ↦ (h h4 hmalloc).int, h⟩⟩

/-- A frame of two bytes, the type of which is cut off. -/
def shortFrame : Socket := ⟨[2, 0, 0, 0, 7, 0], fun _ ↦ 0⟩

/-- A size of 2 GiB, and no further byte. -/
def negativeFrame : Socket := ⟨[0, 0, 0, 128], fun _ ↦ 0⟩

/-- A message is returned for the second, and the first gets to a handler without a type. -/
theorem not_reader_safe : ¬ negativeFrame.ReadsFrame Allocator.zeroed ∧
    ¬ shortFrame.CallsHandler Allocator.zeroed := by
  constructor
  · intro h
    exact absurd (readsFrame_iff.mp h (by decide) rfl) (by decide)
  · intro h
    exact absurd ((callsHandler_iff.mp h (by decide) rfl).type (by decide)) (by decide)

end Socket

end Edsm.Proto
