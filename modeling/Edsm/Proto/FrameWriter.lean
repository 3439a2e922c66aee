import Edsm.Proto.Framing

/-!
# Writing a frame

`fd_send_message` looks at the sign of what `write` returns and not at its size, so a short write
counts as a whole one, and the write of an empty body as a failure.
-/

namespace Edsm.Proto

/-- `write`, with the value it returns and the bytes that get to the stream.  The system decides:
`none` is an error, and no more bytes are accepted than there are. -/
def write (accept : Option ℕ) (buffer : List UInt8) : ℤ × List UInt8 :=
  match accept with
  | none => (-1, [])
  | some n => (min n buffer.length, buffer.take n)

/-- The buffers of a frame one after the other, up to one that fails. -/
def writeBuffers (accept : ℕ → Option ℕ) : List (List UInt8) → Status × List UInt8
  | [] => (.success, [])
  | buffer :: rest =>
      if (write (accept 0) buffer).1 ≤ 0 then (.failure, (write (accept 0) buffer).2)
      else
        ((writeBuffers (fun i ↦ accept (i + 1)) rest).1,
          (write (accept 0) buffer).2 ++ (writeBuffers (fun i ↦ accept (i + 1)) rest).2)

/-- `fd_send_message`, with what it puts on the stream. -/
def fdSendMessage (accept : ℕ → Option ℕ) (msgType : UInt32) (msg : Message) :
    Except Fault (Status × List UInt8) := do
  return writeBuffers accept (← buffers msgType msg)

/-- A call of `fd_send_message` and the behaviour of its writes. -/
structure SendCall where
  accept : ℕ → Option ℕ
  msgType : UInt32
  msg : Message

/-- The sends on one connection, which `send_lock` puts in a row. -/
def sendAll (calls : List SendCall) : Except Fault (List (Status × List UInt8)) :=
  calls.mapM fun call ↦ fdSendMessage call.accept call.msgType call.msg

namespace SendCall

/-- The sizes of the three writes. -/
def size (call : SendCall) : ℕ → ℕ
  | 0 | 1 => 4
  | _ => call.msg.dataSize.toNat

/-- How many bytes of the `i`-th write are accepted. -/
def taken (call : SendCall) (i : ℕ) : ℕ := min ((call.accept i).getD 0) (call.size i)

/-- No write is short unless one accepts nothing, and an empty body does not come behind a header
that is whole. -/
structure Tells (call : SendCall) : Prop where
  short : (∃ i < 3, call.taken i = 0) ∨ ∀ i < 3, call.taken i = call.size i
  empty : call.size 2 = 0 → ¬ (call.taken 0 = 4 ∧ call.taken 1 = 4)

/-- `SUCCESS` is returned exactly if the frame is on the stream as a whole. -/
def Reports (call : SendCall) : Prop :=
  ∃ status out, fdSendMessage call.accept call.msgType call.msg = .ok (status, out) ∧
    (status = .success ↔ out = frame call.msgType call.msg.bytes)

end SendCall

theorem write_of_none {accept : Option ℕ} {buffer : List UInt8}
    (h : min (accept.getD 0) buffer.length = 0) :
    (write accept buffer).1 ≤ 0 ∧ (write accept buffer).2 = [] := by
  cases accept with
  | none => exact ⟨by simp [write], rfl⟩
  | some n =>
      have hmin : min n buffer.length = 0 := h
      refine ⟨by simp only [write]; omega, List.length_eq_zero_iff.mp ?_⟩
      rw [write, List.length_take, hmin]

theorem write_of_some {accept : Option ℕ} {buffer : List UInt8}
    (h : 0 < min (accept.getD 0) buffer.length) :
    0 < (write accept buffer).1 ∧
      (write accept buffer).2.length = min (accept.getD 0) buffer.length := by
  cases accept with
  | none => simp at h
  | some n =>
      have hmin : 0 < min n buffer.length := h
      refine ⟨by simp only [write]; omega, ?_⟩
      rw [write, List.length_take]
      rfl

theorem write_whole {accept : Option ℕ} {buffer : List UInt8}
    (h : min (accept.getD 0) buffer.length = buffer.length) : (write accept buffer).2 = buffer := by
  cases accept with
  | none => exact (List.length_eq_zero_iff.mp (by simpa using h.symm)).symm
  | some n => exact List.take_of_length_le (min_eq_right_iff.mp h)

theorem writeBuffers_of_none {accept : ℕ → Option ℕ} {buffer : List UInt8}
    (rest : List (List UInt8)) (h : min ((accept 0).getD 0) buffer.length = 0) :
    writeBuffers accept (buffer :: rest) = (.failure, []) := by
  obtain ⟨hret, hout⟩ := write_of_none h
  rw [writeBuffers, if_pos hret, hout]

theorem writeBuffers_of_some {accept : ℕ → Option ℕ} {buffer : List UInt8}
    (rest : List (List UInt8)) (h : 0 < min ((accept 0).getD 0) buffer.length) :
    writeBuffers accept (buffer :: rest) =
      ((writeBuffers (fun i ↦ accept (i + 1)) rest).1,
        (write (accept 0) buffer).2 ++ (writeBuffers (fun i ↦ accept (i + 1)) rest).2) := by
  rw [writeBuffers, if_neg (not_le.mpr (write_of_some h).1)]

/-- Three writes: which of them accept something decides on the status, which of them accept all
they are given on the stream. -/
theorem writeBuffers_three (accept : ℕ → Option ℕ) (first second body : List UInt8)
    (hfirst : 0 < first.length) (hsecond : 0 < second.length) :
    ((writeBuffers accept [first, second, body]).1 = .success ↔
      0 < min ((accept 0).getD 0) first.length ∧ 0 < min ((accept 1).getD 0) second.length ∧
        0 < min ((accept 2).getD 0) body.length) ∧
    ((writeBuffers accept [first, second, body]).2 = first ++ (second ++ body) ↔
      min ((accept 0).getD 0) first.length = first.length ∧
        min ((accept 1).getD 0) second.length = second.length ∧
        min ((accept 2).getD 0) body.length = body.length) := by
  -- where bytes are missing the length says so
  have hlength : ∀ {out : List UInt8}, out = first ++ (second ++ body) →
      out.length = first.length + (second.length + body.length) := by
    rintro out rfl
    rw [List.length_append, List.length_append]
  rcases Nat.eq_zero_or_pos (min ((accept 0).getD 0) first.length) with hzero0 | hpos0
  · rw [writeBuffers_of_none _ hzero0]
    refine ⟨iff_of_false Status.noConfusion (by omega), iff_of_false (fun hout ↦ ?_) (by omega)⟩
    have hnil := hlength hout
    rw [List.length_nil] at hnil
    omega
  rw [writeBuffers_of_some _ hpos0]
  dsimp only
  have hout0 := (write_of_some hpos0).2
  rcases Nat.eq_zero_or_pos (min ((accept 1).getD 0) second.length) with hzero1 | hpos1
  · rw [writeBuffers_of_none _ hzero1]
    simp only [List.append_nil]
    refine ⟨iff_of_false Status.noConfusion (by omega), iff_of_false (fun hout ↦ ?_) (by omega)⟩
    have hfew := hlength hout
    omega
  rw [writeBuffers_of_some _ hpos1]
  simp only [Nat.zero_add]
  have hout1 := (write_of_some hpos1).2
  rcases Nat.eq_zero_or_pos (min ((accept 2).getD 0) body.length) with hzero2 | hpos2
  · rw [writeBuffers_of_none _ hzero2]
    simp only [List.append_nil]
    refine ⟨iff_of_false Status.noConfusion (by omega), fun hout ↦ ?_, ?_⟩
    · have hfew := hlength hout
      rw [List.length_append] at hfew
      omega
    · rintro ⟨hwhole0, hwhole1, hwhole2⟩
      obtain rfl : body = [] := List.length_eq_zero_iff.mp (by omega)
      rw [List.append_nil]
      exact congrArg₂ _ (write_whole hwhole0) (write_whole hwhole1)
  · rw [writeBuffers_of_some _ hpos2, writeBuffers]
    simp only [List.append_nil, Nat.zero_add, Nat.reduceAdd]
    have hout2 := (write_of_some hpos2).2
    refine ⟨iff_of_true trivial ⟨hpos0, hpos1, hpos2⟩, fun hout ↦ ?_, ?_⟩
    · have hall := hlength hout
      rw [List.length_append, List.length_append] at hall
      omega
    · rintro ⟨hwhole0, hwhole1, hwhole2⟩
      exact congrArg₂ _ (write_whole hwhole0)
        (congrArg₂ _ (write_whole hwhole1) (write_whole hwhole2))

namespace SendCall

variable {call : SendCall}

theorem buffers_eq (hwf : call.msg.WellFormed) : buffers call.msgType call.msg =
    .ok [Message.word (call.msg.dataSize + 4), Message.word call.msgType, call.msg.bytes] := by
  obtain ⟨_, _, hl⟩ := hwf.layout
  rw [buffers, hl.content_eq]
  rfl

theorem frame_eq (hwf : call.msg.WellFormed) : frame call.msgType call.msg.bytes =
    Message.word (call.msg.dataSize + 4) ++ (Message.word call.msgType ++ call.msg.bytes) := by
  have hsize : call.msg.dataSize + 4 = UInt32.ofNat (call.msg.bytes.length + 4) := by
    rw [hwf.length_bytes, UInt32.ofNat_add, UInt32.ofNat_toNat]
    rfl
  rw [frame, ← hsize]

theorem forall_lt_three {P : ℕ → Prop} : (∀ i < 3, P i) ↔ P 0 ∧ P 1 ∧ P 2 := by
  refine ⟨fun h ↦ ⟨h 0 (by decide), h 1 (by decide), h 2 (by decide)⟩, ?_⟩
  rintro ⟨h0, h1, h2⟩ i hi
  match i, hi with
  | 0, _ => exact h0
  | 1, _ => exact h1
  | 2, _ => exact h2

theorem fdSendMessage_eq (hwf : call.msg.WellFormed) :
    fdSendMessage call.accept call.msgType call.msg =
      .ok (writeBuffers call.accept
        [Message.word (call.msg.dataSize + 4), Message.word call.msgType, call.msg.bytes]) := by
  rw [fdSendMessage, buffers_eq hwf]
  rfl

theorem exists_send (hwf : call.msg.WellFormed) :
    ∃ status out, fdSendMessage call.accept call.msgType call.msg = .ok (status, out) ∧
      (status = .success ↔ ∀ i < 3, 0 < call.taken i) ∧
      (out = frame call.msgType call.msg.bytes ↔ ∀ i < 3, call.taken i = call.size i) := by
  have hbody : call.msg.bytes.length = call.size 2 := hwf.length_bytes
  have hthree := writeBuffers_three call.accept (Message.word (call.msg.dataSize + 4))
    (Message.word call.msgType) call.msg.bytes (by simp) (by simp)
  rw [Message.length_word, Message.length_word, hbody] at hthree
  rw [frame_eq hwf, forall_lt_three, forall_lt_three]
  exact ⟨_, _, fdSendMessage_eq hwf, hthree⟩

/-- The status tells the truth if and only if no short write is taken for a whole one and no
empty body for a failure. -/
theorem reports_iff (hwf : call.msg.WellFormed) : call.Reports ↔ call.Tells := by
  obtain ⟨status, out, hsend, hstatus, hout⟩ := exists_send hwf
  have hreports : call.Reports ↔
      ((∀ i < 3, 0 < call.taken i) ↔ ∀ i < 3, call.taken i = call.size i) := by
    rw [← hstatus, ← hout]
    constructor
    · rintro ⟨_, _, hsend', h⟩
      cases hsend.symm.trans hsend'
      exact h
    · exact fun h ↦ ⟨status, out, hsend, h⟩
  rw [hreports]
  have hle : call.taken 2 ≤ call.size 2 := min_le_right _ _
  constructor
  · intro h
    constructor
    · by_cases hzero : ∃ i < 3, call.taken i = 0
      · exact .inl hzero
      · exact .inr (h.mp fun i hi ↦ Nat.pos_of_ne_zero fun hi0 ↦ hzero ⟨i, hi, hi0⟩)
    · rintro hempty ⟨hwhole0, hwhole1⟩
      have hall := h.mpr (forall_lt_three.mpr ⟨hwhole0, hwhole1, by omega⟩)
      have hpos := hall 2 (by decide)
      omega
  · rintro ⟨hshort, hempty⟩
    constructor
    · intro hpos
      rcases hshort with ⟨i, hi, hzero⟩ | hwhole
      · exact absurd hzero (Nat.pos_iff_ne_zero.mp (hpos i hi))
      · exact hwhole
    · intro hwhole
      rw [forall_lt_three] at hwhole ⊢
      obtain ⟨hwhole0, hwhole1, hwhole2⟩ := hwhole
      have hsize : call.size 2 ≠ 0 := fun hzero ↦ hempty hzero ⟨hwhole0, hwhole1⟩
      have hsize0 : call.size 0 = 4 := rfl
      have hsize1 : call.size 1 = 4 := rfl
      omega

/-- The frame of a send. -/
def frameOf (call : SendCall) : List UInt8 := frame call.msgType call.msg.bytes

/-- What sends that all report a success put on the stream. -/
theorem frames_of_sendAll {calls : List SendCall} {results : List (Status × List UInt8)}
    (hcalls : ∀ call ∈ calls, call.msg.WellFormed ∧ call.Tells)
    (hsend : sendAll calls = .ok results) (hall : ∀ r ∈ results, r.1 = .success) :
    results.flatMap Prod.snd = calls.flatMap frameOf := by
  induction calls generalizing results with
  | nil =>
      cases hsend
      rfl
  | cons call calls ih =>
      rw [sendAll, List.mapM_cons, Fault.bind_eq_ok] at hsend
      obtain ⟨result, hresult, hsend⟩ := hsend
      obtain ⟨rest, hrest, hret⟩ := Fault.bind_eq_ok.mp hsend
      cases hret
      rw [List.forall_mem_cons] at hcalls hall
      obtain ⟨status, out, hsend', hreports⟩ := (reports_iff hcalls.1.1).mpr hcalls.1.2
      cases hresult.symm.trans hsend'
      rw [List.flatMap_cons, List.flatMap_cons, hreports.mp hall.1, ih hcalls.2 hrest hall.2]
      rfl

/-- Of the sends of a row each reports `SUCCESS` exactly if its frame is on the stream, if and only
if it `Tells`; if they all do and all report `SUCCESS`, one frame is behind the other. -/
theorem sends_report_iff (calls : List SendCall) (hwf : ∀ call ∈ calls, call.msg.WellFormed) :
    (∀ call ∈ calls, call.Reports ↔ call.Tells) ∧
      ((∀ call ∈ calls, call.Tells) → ∀ results, sendAll calls = .ok results →
        (∀ r ∈ results, r.1 = .success) → results.flatMap Prod.snd = calls.flatMap frameOf) := by
  constructor
  · intro call hcall
    exact reports_iff (hwf call hcall)
  · intro htells results hsend hall
    exact frames_of_sendAll (fun call hcall ↦ ⟨hwf call hcall, htells call hcall⟩) hsend hall

/-- All writes of a message of two bytes are accepted whole. -/
def wholeCall : SendCall := ⟨fun _ ↦ some 4, 5, .ofBytes [1, 2]⟩

theorem wholeCall_wellFormed : wholeCall.msg.WellFormed := ⟨by decide, by decide, by decide⟩

theorem wholeCall_tells : wholeCall.Tells where
  short := .inr (by decide)
  empty := by decide

theorem sends_report_whole : wholeCall.Reports ∧
    [frame 5 [1, 2], frame 5 [1, 2]].flatten = [wholeCall, wholeCall].flatMap frameOf := by
  obtain ⟨hreports, hframes⟩ := sends_report_iff [wholeCall, wholeCall]
    (by simp [wholeCall_wellFormed])
  constructor
  · exact (hreports wholeCall List.mem_cons_self).mpr wholeCall_tells
  · exact hframes (by simp [wholeCall_tells])
      [(.success, frame 5 [1, 2]), (.success, frame 5 [1, 2])] (by decide) (by decide)

/-- The frame of an empty body, all of it accepted. -/
def emptyCall : SendCall := ⟨fun _ ↦ some 4, 5, .ofBytes []⟩

/-- Of each write two bytes are accepted. -/
def shortCall : SendCall := ⟨fun _ ↦ some 2, 5, .ofBytes [1, 2]⟩

/-- The first is on the stream and reports `FAILURE`; the second is not and reports `SUCCESS`. -/
theorem not_reports :
    (emptyCall.msg.WellFormed ∧ fdSendMessage emptyCall.accept 5 emptyCall.msg =
      .ok (.failure, emptyCall.frameOf)) ∧
    shortCall.msg.WellFormed ∧ fdSendMessage shortCall.accept 5 shortCall.msg =
      .ok (.success, [6, 0, 5, 0, 1, 2]) ∧ shortCall.frameOf ≠ [6, 0, 5, 0, 1, 2] :=
  ⟨⟨⟨by decide, by decide, by decide⟩, by decide⟩, ⟨by decide, by decide, by decide⟩,
    by decide, by decide⟩

end SendCall

end Edsm.Proto
