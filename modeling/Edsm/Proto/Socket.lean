import Edsm.Message.Fields

/-!
# Reading frames from a socket

`read` returns some of the bytes that have come, as many as the system likes but
at least one, and nothing at the end of the stream.  A frame is the size of the
rest, the message type, and the body.
-/

namespace Edsm.Proto

/-- The bytes still to come before the end of the stream, and a bound for each call of `read`,
which returns one byte more than that at most. -/
structure Socket where
  incoming : List UInt8
  chunk : ℕ → ℕ

namespace Socket

/-- `read` with room for `n` bytes. -/
def read (s : Socket) (n : ℕ) : List UInt8 × Socket :=
  (s.incoming.take (min n (s.chunk 0 + 1)),
    ⟨s.incoming.drop (min n (s.chunk 0 + 1)), fun i ↦ s.chunk (i + 1)⟩)

/-- The loop of `edsm_socket_read` with `missing` bytes to go; `none` is the result `-1`. -/
def readLoop (s : Socket) (missing : ℕ) : Option (List UInt8 × Socket) :=
  if missing = 0 then some ([], s)
  else if (s.read missing).1.length < 1 then none
  else
    ((s.read missing).2.readLoop (missing - (s.read missing).1.length)).map fun rest ↦
      ((s.read missing).1 ++ rest.1, rest.2)
termination_by missing
decreasing_by omega

/-- `edsm_socket_read`: nothing is read for a size that is a negative `int`. -/
def readSize (s : Socket) (size : UInt32) : Option (List UInt8 × Socket) :=
  s.readLoop (if size.toNat < 2 ^ 31 then size.toNat else 0)

/-- `read_message_from_socket`; `none` is `NULL`. -/
def readMessage (A : Allocator) (s : Socket) : Except Fault (Option (Message × Socket)) :=
  match s.readSize 4 with
  | none => .ok none
  | some (out, s) =>
      let size := Message.ofWord out
      match Message.create A 0 size with
      | none => .ok none
      | some msg =>
          match s.readSize size with
          | none => .ok none
          | some (out, s) => do
              let buffer ← memcpy msg.buffer msg.data out
              let msg ← { msg with buffer }.put size
              return some (msg, s)

/-- What `listen_thread` takes from a socket that is ready: the type, and the message that
`handle_message` gets. -/
def receive (A : Allocator) (s : Socket) : Except Fault (Option ((UInt32 × Message) × Socket)) := do
  match ← s.readMessage A with
  | none => return none
  | some (msg, s) =>
      match ← msg.read 4 with
      | none => throw .uninitialised
      | some (out, msg) => return some ((Message.ofWord out, msg), s)

/-- The first `n` messages, or fewer if the stream ends before. -/
def receiveAll (A : Allocator) : ℕ → Socket → Except Fault (List (UInt32 × Message) × Socket)
  | 0, s => .ok ([], s)
  | n + 1, s => do
      match ← s.receive A with
      | none => return ([], s)
      | some (msg, s) =>
          let (msgs, s) ← receiveAll A n s
          return (msg :: msgs, s)

end Socket

/-- The bytes of a frame. -/
def frame (msgType : UInt32) (body : List UInt8) : List UInt8 :=
  Message.word (UInt32.ofNat (body.length + 4)) ++ (Message.word msgType ++ body)

namespace Socket

variable {A : Allocator} {bytes rest : List UInt8}

/-- However the bytes are cut into chunks, the loop collects them all. -/
theorem readLoop_append (bytes rest : List UInt8) (chunk : ℕ → ℕ) :
    ∃ chunk', readLoop ⟨bytes ++ rest, chunk⟩ bytes.length = some (bytes, ⟨rest, chunk'⟩) := by
  induction hn : bytes.length using Nat.strong_induction_on generalizing bytes chunk with
  | _ n ih =>
      subst hn
      rw [readLoop]
      by_cases hnil : bytes = []
      · subst hnil
        exact ⟨chunk, rfl⟩
      · have hpos : 0 < bytes.length := List.length_pos_iff.mpr hnil
        set k := min bytes.length (chunk 0 + 1) with hk
        have hout : (bytes ++ rest).take k = bytes.take k :=
          List.take_append_of_le_length (by omega)
        have hleft : (bytes ++ rest).drop k = bytes.drop k ++ rest :=
          List.drop_append_of_le_length (by omega)
        have htake : (bytes.take k).length = k := by
          rw [List.length_take]
          omega
        obtain ⟨chunk', hrest⟩ := ih (bytes.drop k).length
          (by rw [List.length_drop]; omega) (bytes.drop k) (fun i ↦ chunk (i + 1)) rfl
        refine ⟨chunk', ?_⟩
        rw [List.length_drop] at hrest
        simp only [read, ← hk, hout, hleft, htake, if_neg (Nat.pos_iff_ne_zero.mp hpos)]
        rw [if_neg (by omega), hrest, Option.map_some, List.take_append_drop]

theorem readLoop_short {n : ℕ} (chunk : ℕ → ℕ) (hshort : bytes.length < n) :
    readLoop ⟨bytes, chunk⟩ n = none := by
  induction n using Nat.strong_induction_on generalizing bytes chunk with
  | _ n ih =>
      rw [readLoop, if_neg (by omega)]
      set k := min n (chunk 0 + 1) with hk
      simp only [read, ← hk]
      split
      · rfl
      · next hsome =>
          rw [ih (n - (bytes.take k).length) (by omega) _ ?_, Option.map_none]
          rw [List.length_drop, List.length_take]
          omega

theorem readSize_append (bytes rest : List UInt8) (chunk : ℕ → ℕ) (size : UInt32)
    (hsize : size.toNat = bytes.length) (hlt : bytes.length < 2 ^ 31) :
    ∃ chunk', readSize ⟨bytes ++ rest, chunk⟩ size = some (bytes, ⟨rest, chunk'⟩) := by
  rw [readSize, hsize, if_pos hlt]
  exact readLoop_append bytes rest chunk

theorem readSize_short (bytes : List UInt8) (chunk : ℕ → ℕ) (size : UInt32)
    (hlt : size.toNat < 2 ^ 31) (hshort : bytes.length < size.toNat) :
    readSize ⟨bytes, chunk⟩ size = none := by
  rw [readSize, if_pos hlt]
  exact readLoop_short chunk hshort

theorem readMessage_append {content : List UInt8} (hmalloc : (A.malloc content.length).isSome)
    (hlt : content.length < 2 ^ 31) (rest : List UInt8) (chunk : ℕ → ℕ) :
    ∃ msg chunk', readMessage A
        ⟨Message.word (UInt32.ofNat content.length) ++ (content ++ rest), chunk⟩ =
          .ok (some (msg, ⟨rest, chunk'⟩)) ∧ msg.Layout [] content [] := by
  have hsize : (UInt32.ofNat content.length).toNat = content.length := by
    rw [UInt32.toNat_ofNat', Nat.mod_eq_of_lt (by omega)]
  obtain ⟨chunk₁, hstart⟩ := readSize_append (Message.word (UInt32.ofNat content.length))
    (content ++ rest) chunk 4 (by simp) (by simp)
  obtain ⟨chunk₂, hcontent⟩ := readSize_append content rest chunk₁ _ hsize hlt
  obtain ⟨msg, hcreate⟩ := Message.create_isSome (hsize ▸ hmalloc)
  obtain ⟨room, hl, hroom⟩ := Message.layout_create_tail hcreate
  have hlength : room.length = content.length := hroom.trans hsize
  have hcopy : memcpy msg.buffer msg.data content = .ok content := by
    rw [hl.data]
    exact Message.memcpy_all (by rw [hl.buffer]; simpa using hlength.symm)
  have hl' : ({ msg with buffer := content } : Message).Layout [] [] (content ++ []) := by
    refine ⟨by simp, hl.data, hl.headSize, hl.dataSize, ?_, ?_⟩
    · rw [List.append_nil, ← hlength]
      exact hl.tailSize
    · rw [List.append_nil, ← hlength]
      exact hl.bufferSize
  obtain ⟨msg', hput, hl''⟩ := Message.put_spec hl' hsize
  refine ⟨msg', chunk₂, ?_, hl''⟩
  simp only [readMessage, hstart, Message.ofWord_word, hcreate, hcontent, hcopy, hput, bind,
    Except.bind, pure, Except.pure]

theorem readMessage_short {content cut : List UInt8} (hlt : content.length < 2 ^ 31)
    (hcut : cut <+: Message.word (UInt32.ofNat content.length) ++ content)
    (hshort : cut.length < content.length + 4) (hA : A.Succeeds) (chunk : ℕ → ℕ) :
    readMessage A ⟨cut, chunk⟩ = .ok none := by
  have hsize : (UInt32.ofNat content.length).toNat = content.length := by
    rw [UInt32.toNat_ofNat', Nat.mod_eq_of_lt (by omega)]
  rcases Nat.lt_or_ge cut.length 4 with hlt4 | hge4
  · rw [readMessage, readSize_short cut chunk 4 (by decide) hlt4]
  · obtain ⟨rest, rfl⟩ : ∃ rest, Message.word (UInt32.ofNat content.length) ++ rest = cut :=
      List.prefix_of_prefix_length_le (List.prefix_append _ _) hcut (by simpa using hge4)
    rw [List.length_append, Message.length_word] at hshort
    obtain ⟨chunk₁, hstart⟩ := readSize_append (Message.word (UInt32.ofNat content.length))
      rest chunk 4 (by simp) (by simp)
    obtain ⟨msg, hcreate⟩ := Message.exists_create hA 0 (UInt32.ofNat content.length)
    have hnone := readSize_short rest chunk₁ _ (by rw [hsize]; exact hlt)
      (by rw [hsize]; omega)
    simp only [readMessage, hstart, Message.ofWord_word, hcreate, hnone]

theorem receive_frame (hA : A.Succeeds) (msgType : UInt32) {body : List UInt8}
    (hlt : body.length + 4 < 2 ^ 31) (rest : List UInt8) (chunk : ℕ → ℕ) :
    ∃ msg chunk', receive A ⟨frame msgType body ++ rest, chunk⟩ =
        .ok (some ((msgType, msg), ⟨rest, chunk'⟩)) ∧
      msg.WellFormed ∧ msg.bytes = body := by
  have hlength : (Message.word msgType ++ body).length = body.length + 4 := by
    rw [List.length_append, Message.length_word, Nat.add_comm]
  obtain ⟨msg, chunk', hread, hl⟩ := readMessage_append (hA _) (hlength ▸ hlt) rest chunk
  obtain ⟨msg', hread', hl'⟩ := Message.readWord_spec hl
  refine ⟨msg', chunk', ?_, hl'.wellFormed, hl'.bytes_eq⟩
  rw [hlength] at hread
  rw [frame, List.append_assoc]
  simp only [receive, hread, hread', bind, Except.bind, pure, Except.pure, Message.ofWord_word]

theorem receive_short (hA : A.Succeeds) (msgType : UInt32) {body cut : List UInt8}
    (hlt : body.length + 4 < 2 ^ 31) (hcut : cut <+: frame msgType body)
    (hshort : cut.length < (frame msgType body).length) (chunk : ℕ → ℕ) :
    receive A ⟨cut, chunk⟩ = .ok none := by
  have hlength : (Message.word msgType ++ body).length = body.length + 4 := by
    rw [List.length_append, Message.length_word, Nat.add_comm]
  rw [frame, ← hlength] at hcut hshort
  rw [List.length_append, Message.length_word, Nat.add_comm] at hshort
  have hnone := readMessage_short (hlength ▸ hlt) hcut hshort hA chunk
  simp only [receive, hnone, bind, Except.bind, pure, Except.pure]

/-- What is received for a frame: the type as it is, and a message with the body. -/
def Carries (sent : UInt32 × List UInt8) (received : UInt32 × Message) : Prop :=
  received.1 = sent.1 ∧ received.2.WellFormed ∧ received.2.bytes = sent.2

/-- A stream of frames, the last of which may be cut off, gives the complete ones in order and
then `NULL`. -/
theorem receiveAll_frames (hA : A.Succeeds) {sent : List (UInt32 × List UInt8)}
    (hlt : ∀ m ∈ sent, m.2.length + 4 < 2 ^ 31) {cut : List UInt8}
    (hcut : cut = [] ∨ ∃ m : UInt32 × List UInt8, m.2.length + 4 < 2 ^ 31 ∧
      cut <+: frame m.1 m.2 ∧ cut.length < (frame m.1 m.2).length) (chunk : ℕ → ℕ) :
    ∃ msgs s, receiveAll A sent.length
        ⟨(sent.flatMap fun m ↦ frame m.1 m.2) ++ cut, chunk⟩ = .ok (msgs, s) ∧
      List.Forall₂ Carries sent msgs ∧ receive A s = .ok none := by
  induction sent generalizing chunk with
  | nil =>
      refine ⟨[], ⟨cut, chunk⟩, rfl, .nil, ?_⟩
      rcases hcut with rfl | ⟨m, hm, hstart, hshort⟩
      · exact receive_short hA 0 (show ([] : List UInt8).length + 4 < 2 ^ 31 by decide)
          List.nil_prefix (by simp [frame]) chunk
      · exact receive_short hA m.1 hm hstart hshort chunk
  | cons m sent ih =>
      obtain ⟨msg, chunk', hreceive, hwf, hbytes⟩ := receive_frame hA m.1
        (hlt m List.mem_cons_self) ((sent.flatMap fun m ↦ frame m.1 m.2) ++ cut) chunk
      obtain ⟨msgs, s, hrest, hall, hnone⟩ :=
        ih (fun m' hm' ↦ hlt m' (List.mem_cons_of_mem m hm')) chunk'
      refine ⟨(m.1, msg) :: msgs, s, ?_, .cons ⟨rfl, hwf, hbytes⟩ hall, hnone⟩
      rw [List.flatMap_cons, List.append_assoc]
      simp only [List.length_cons, receiveAll, hreceive, hrest, bind, Except.bind, pure,
        Except.pure]

end Socket

end Edsm.Proto
