import Edsm.Library.Reachability
import Edsm.Proto.Socket
import Mathlib.Data.List.Forall2

/-!
# Sending to one peer

The threads of a node send to one peer.  A frame goes out in three writes under
the peer's `send_lock`, and each write is accepted whole.
-/

namespace Edsm.Proto

inductive SendPc
  | idle
  /-- In `edsm_proto_send`, before the lock. -/
  | locking (msgType : UInt32) (msg : Message)
  /-- In `fd_send_message`, with these buffers to be written. -/
  | writing (buffers : List (List UInt8))

/-- The last field records the sends in the order in which they took the lock. -/
structure Sender (T : Type*) where
  sendLock : Option T
  pc : T → SendPc
  stream : List UInt8
  sent : List (UInt32 × Message)

/-- What `fd_send_message` writes: the size of the rest, the type, and the data. -/
def buffers (msgType : UInt32) (msg : Message) : Except Fault (List (List UInt8)) := do
  let data ← msg.content
  return [Message.word (msg.dataSize + 4), Message.word msgType, data]

namespace Sender

inductive Action (T : Type*)
  | call (t : T) (msgType : UInt32) (msg : Message)
  | lock (t : T)
  | write (t : T)
  | unlock (t : T)

variable {T : Type*} [DecidableEq T]

def moveTo (s : Sender T) (t : T) (pc : SendPc) : Sender T :=
  { s with pc := Function.update s.pc t pc }

/-- A write of no bytes returns 0, which ends `fd_send_message` with `FAILURE`. -/
def step (s : Sender T) : Action T → Option (Sender T)
  | .call t msgType msg =>
      match s.pc t with
      | .idle => some (s.moveTo t (.locking msgType msg))
      | _ => none
  | .lock t =>
      match s.pc t, s.sendLock with
      | .locking msgType msg, none =>
          (buffers msgType msg).toOption.map fun buffers ↦
            { s.moveTo t (.writing buffers) with
              sendLock := some t
              sent := s.sent ++ [(msgType, msg)] }
      | _, _ => none
  | .write t =>
      match s.pc t with
      | .writing (buffer :: rest) =>
          some { s.moveTo t (.writing (if buffer = [] then [] else rest)) with
            stream := s.stream ++ buffer }
      | _ => none
  | .unlock t =>
      match s.pc t with
      | .writing [] => some { s.moveTo t .idle with sendLock := none }
      | _ => none

end Sender

def sender (T : Type*) [DecidableEq T] : LabelledSystem (Sender T) (Sender.Action T) where
  init := { sendLock := none, pc := fun _ ↦ .idle, stream := [], sent := [] }
  step := Sender.step

/-- What `handle_message` gets in the branch of `edsm_proto_send` for the node's own id; a failed
`edsm_message_clone` gives the handler `NULL`. -/
def loopBack (A : Allocator) (msgType : UInt32) (msg : Message) :
    Except Fault (UInt32 × Message) := do
  match ← msg.clone A with
  | none => throw .nullPointer
  | some clone => return (msgType, clone)

/-- A message with a body whose frame size is a positive `int`. -/
def Sendable (msg : Message) : Prop :=
  msg.WellFormed ∧ msg.bytes ≠ [] ∧ msg.bytes.length + 4 < 2 ^ 31

namespace Sender

/-- Only such messages are sent. -/
def SendsBodies {T : Type*} (_ : Sender T) : Action T → Prop
  | .call _ _ msg => Sendable msg
  | _ => True

/-- The frame of a send. -/
def frameOf (m : UInt32 × Message) : List UInt8 := frame m.1 m.2.bytes

/-- What the owner of the lock has still to write. -/
def pending {T : Type*} (s : Sender T) : List UInt8 :=
  match s.sendLock with
  | none => []
  | some t =>
      match s.pc t with
      | .writing buffers => buffers.flatten
      | _ => []

structure Inv {T : Type*} (s : Sender T) : Prop where
  locking : ∀ t msgType msg, s.pc t = .locking msgType msg → Sendable msg
  writing : ∀ t buffers, s.pc t = .writing buffers →
    s.sendLock = some t ∧ ∀ buffer ∈ buffers, buffer ≠ []
  sent : ∀ m ∈ s.sent, Sendable m.2
  stream : s.stream ++ s.pending = s.sent.flatMap frameOf

variable {T : Type*} [DecidableEq T] {s s' : Sender T} {t : T}

theorem buffers_spec (msgType : UInt32) {msg : Message} (h : Sendable msg) :
    ∃ bufs, buffers msgType msg = .ok bufs ∧ bufs.flatten = frameOf (msgType, msg) ∧
      ∀ buffer ∈ bufs, buffer ≠ [] := by
  obtain ⟨hwf, hne, hlt⟩ := h
  obtain ⟨head, tail, hl⟩ := hwf.layout
  have hsize : msg.dataSize + 4 = UInt32.ofNat (msg.bytes.length + 4) := by
    rw [hl.dataSize_eq, UInt32.ofNat_add]
    rfl
  refine ⟨_, by rw [buffers, hl.content_eq]; rfl, ?_, ?_⟩
  · simp [frameOf, frame, hsize]
  · intro buffer hbuffer
    simp only [List.mem_cons, List.not_mem_nil, or_false] at hbuffer
    rcases hbuffer with rfl | rfl | rfl
    · exact List.ne_nil_of_length_pos (by simp)
    · exact List.ne_nil_of_length_pos (by simp)
    · exact hne

omit [DecidableEq T] in
theorem pending_of_none (h : s.sendLock = none) : s.pending = [] := by
  simp [pending, h]

omit [DecidableEq T] in
theorem pending_of_writing {buffers : List (List UInt8)} (hlock : s.sendLock = some t)
    (hpc : s.pc t = .writing buffers) : s.pending = buffers.flatten := by
  simp [pending, hlock, hpc]

@[simp] theorem moveTo_sendLock (pc : SendPc) : (s.moveTo t pc).sendLock = s.sendLock := rfl

@[simp] theorem moveTo_stream (pc : SendPc) : (s.moveTo t pc).stream = s.stream := rfl

@[simp] theorem moveTo_sent (pc : SendPc) : (s.moveTo t pc).sent = s.sent := rfl

@[simp] theorem moveTo_pc_self (pc : SendPc) : (s.moveTo t pc).pc t = pc := by simp [moveTo]

theorem moveTo_pc_of_ne {u : T} (pc : SendPc) (h : u ≠ t) : (s.moveTo t pc).pc u = s.pc u := by
  simp [moveTo, h]

/-- A thread that does not own the lock has nothing to do with the bytes to come. -/
theorem pending_moveTo (pc : SendPc) (h : s.sendLock ≠ some t) :
    (s.moveTo t pc).pending = s.pending := by
  cases hlock : s.sendLock with
  | none => rw [pending_of_none hlock, pending_of_none (by simpa using hlock)]
  | some u =>
      have hu : u ≠ t := fun heq ↦ h (heq ▸ hlock)
      simp [pending, hlock, moveTo_pc_of_ne _ hu]

theorem step_cases {a : Action T} (hst : s.step a = some s') :
    (∃ t msgType msg, a = .call t msgType msg ∧ s.pc t = .idle ∧
      s' = s.moveTo t (.locking msgType msg)) ∨
    (∃ t msgType msg bufs, a = .lock t ∧ s.pc t = .locking msgType msg ∧ s.sendLock = none ∧
      buffers msgType msg = .ok bufs ∧
      s' = { s.moveTo t (.writing bufs) with
        sendLock := some t
        sent := s.sent ++ [(msgType, msg)] }) ∨
    (∃ t buffer rest, a = .write t ∧ s.pc t = .writing (buffer :: rest) ∧
      s' = { s.moveTo t (.writing (if buffer = [] then [] else rest)) with
        stream := s.stream ++ buffer }) ∨
    (∃ t, a = .unlock t ∧ s.pc t = .writing [] ∧
      s' = { s.moveTo t .idle with sendLock := none }) := by
  cases a with
  | call t msgType msg =>
      simp only [step] at hst
      split at hst
      · next hpc => exact .inl ⟨t, msgType, msg, rfl, hpc, (Option.some.inj hst).symm⟩
      · cases hst
  | lock t =>
      simp only [step] at hst
      split at hst
      · next msgType msg hpc hlock =>
          cases hbufs : buffers msgType msg with
          | error fault => simp [hbufs, Except.toOption] at hst
          | ok bufs =>
              simp only [hbufs, Except.toOption, Option.map_some, Option.some.injEq] at hst
              exact .inr (.inl ⟨t, msgType, msg, bufs, rfl, hpc, hlock, hbufs, hst.symm⟩)
      · cases hst
  | write t =>
      simp only [step] at hst
      split at hst
      · next buffer rest hpc =>
          exact .inr (.inr (.inl ⟨t, buffer, rest, rfl, hpc, (Option.some.inj hst).symm⟩))
      · cases hst
  | unlock t =>
      simp only [step] at hst
      split at hst
      · next hpc => exact .inr (.inr (.inr ⟨t, rfl, hpc, (Option.some.inj hst).symm⟩))
      · cases hst

theorem inv_init : Inv (sender T).init where
  locking _ _ _ h := by cases h
  writing _ _ h := by cases h
  sent _ h := by cases h
  stream := rfl

theorem Inv.locking_moveTo (h : Inv s) {pc : SendPc}
    (hpc : ∀ msgType msg, pc = .locking msgType msg → Sendable msg) :
    ∀ u msgType msg, (s.moveTo t pc).pc u = .locking msgType msg → Sendable msg := by
  intro u msgType msg hu
  by_cases hut : u = t
  · subst hut
    exact hpc msgType msg ((moveTo_pc_self pc).symm.trans hu)
  · exact h.locking u msgType msg ((moveTo_pc_of_ne pc hut).symm.trans hu)

theorem Inv.call (h : Inv s) {msgType : UInt32} {msg : Message} (hmsg : Sendable msg)
    (hpc : s.pc t = .idle) : Inv (s.moveTo t (.locking msgType msg)) := by
  have hne : s.sendLock ≠ some t ∨ s.pending = [] := by
    by_cases hlock : s.sendLock = some t
    · exact .inr (by simp [pending, hlock, hpc])
    · exact .inl hlock
  refine ⟨h.locking_moveTo ?_, ?_, h.sent, ?_⟩
  · rintro msgType' msg' ⟨⟩
    exact hmsg
  · intro u bufs hu
    by_cases hut : u = t
    · subst hut
      rw [moveTo_pc_self] at hu
      cases hu
    · rw [moveTo_pc_of_ne _ hut] at hu
      exact h.writing u bufs hu
  · rw [moveTo_stream, moveTo_sent, ← h.stream]
    rcases hne with hne | hnil
    · rw [pending_moveTo _ hne]
    · by_cases hlock : s.sendLock = some t
      · simp [pending, hlock, hpc]
      · rw [pending_moveTo _ hlock]

theorem Inv.lock (h : Inv s) {msgType : UInt32} {msg : Message} {bufs : List (List UInt8)}
    (hpc : s.pc t = .locking msgType msg) (hlock : s.sendLock = none)
    (hbufs : buffers msgType msg = .ok bufs) :
    Inv { s.moveTo t (.writing bufs) with
      sendLock := some t
      sent := s.sent ++ [(msgType, msg)] } := by
  have hmsg := h.locking t msgType msg hpc
  obtain ⟨bufs', hbufs', hflat, hne⟩ := buffers_spec msgType hmsg
  obtain rfl : bufs' = bufs := by simpa [hbufs'] using hbufs
  have hstream := h.stream
  rw [pending_of_none hlock, List.append_nil] at hstream
  refine ⟨h.locking_moveTo (by simp), ?_, ?_, ?_⟩
  · intro u bufs hu
    by_cases hut : u = t
    · subst hut
      simp only [moveTo_pc_self, SendPc.writing.injEq] at hu
      exact ⟨rfl, hu ▸ hne⟩
    · have hwriting := (h.writing u bufs ((moveTo_pc_of_ne _ hut).symm.trans hu)).1
      simp [hlock] at hwriting
  · intro m hm
    rcases List.mem_append.mp hm with hm | hm
    · exact h.sent m hm
    · obtain rfl := List.mem_singleton.mp hm
      exact hmsg
  · have hpending : pending { s.moveTo t (.writing bufs') with
        sendLock := some t, sent := s.sent ++ [(msgType, msg)] } = bufs'.flatten :=
      pending_of_writing (t := t) rfl (moveTo_pc_self _)
    refine (congrArg (s.stream ++ ·) hpending).trans ?_
    simp [hstream, hflat]

theorem Inv.write (h : Inv s) {buffer : List UInt8} {rest : List (List UInt8)}
    (hpc : s.pc t = .writing (buffer :: rest)) :
    Inv { s.moveTo t (.writing (if buffer = [] then [] else rest)) with
      stream := s.stream ++ buffer } := by
  obtain ⟨hlock, hne⟩ := h.writing t _ hpc
  have hstream := h.stream
  rw [pending_of_writing hlock hpc] at hstream
  rw [if_neg (hne buffer List.mem_cons_self)]
  refine ⟨h.locking_moveTo (by simp), ?_, h.sent, ?_⟩
  · intro u bufs hu
    by_cases hut : u = t
    · subst hut
      simp only [moveTo_pc_self, SendPc.writing.injEq] at hu
      exact ⟨hlock, hu ▸ fun b hb ↦ hne b (List.mem_cons_of_mem buffer hb)⟩
    · exact h.writing u bufs ((moveTo_pc_of_ne _ hut).symm.trans hu)
  · have hpending : pending { s.moveTo t (.writing rest) with
        stream := s.stream ++ buffer } = rest.flatten :=
      pending_of_writing (t := t) hlock (moveTo_pc_self _)
    refine (congrArg (s.stream ++ buffer ++ ·) hpending).trans ?_
    simpa using hstream

theorem Inv.unlock (h : Inv s) (hpc : s.pc t = .writing []) :
    Inv { s.moveTo t .idle with sendLock := none } := by
  have hlock := (h.writing t _ hpc).1
  have hstream := h.stream
  rw [pending_of_writing hlock hpc] at hstream
  refine ⟨h.locking_moveTo (by simp), ?_, h.sent, ?_⟩
  · intro u bufs hu
    by_cases hut : u = t
    · subst hut
      simp at hu
    · have hwriting := (h.writing u bufs ((moveTo_pc_of_ne _ hut).symm.trans hu)).1
      exact absurd (Option.some.inj (hwriting.symm.trans hlock)) hut
  · rw [pending_of_none rfl]
    simpa using hstream

theorem inv_step {a : Action T} (h : Inv s) (ha : s.SendsBodies a) (hst : s.step a = some s') :
    Inv s' := by
  rcases step_cases hst with ⟨t, msgType, msg, rfl, hpc, rfl⟩ |
    ⟨t, msgType, msg, bufs, rfl, hpc, hlock, hbufs, rfl⟩ | ⟨t, buffer, rest, rfl, hpc, rfl⟩ |
    ⟨t, rfl, hpc, rfl⟩
  · exact h.call ha hpc
  · exact h.lock hpc hlock hbufs
  · exact h.write hpc
  · exact h.unlock hpc

theorem inv_of_reach (h : (sender T).Reach SendsBodies s) : Inv s :=
  h.invariant Inv inv_init fun _ hs ha hst ↦ inv_step hs ha hst

/-- A prefix of a row of pieces is some whole pieces and the start of the next one. -/
theorem exists_cut {ι α : Type*} {f : ι → List α} {items : List ι} {bytes : List α}
    (hstart : bytes <+: items.flatMap f) :
    ∃ whole rest cut, items = whole ++ rest ∧ bytes = whole.flatMap f ++ cut ∧
      (cut = [] ∨ ∃ m ∈ rest.head?, cut <+: f m ∧ cut.length < (f m).length) := by
  induction items generalizing bytes with
  | nil =>
      obtain rfl := List.prefix_nil.mp hstart
      exact ⟨[], [], [], rfl, rfl, .inl rfl⟩
  | cons m items ih =>
      rw [List.flatMap_cons] at hstart
      rcases Nat.lt_or_ge bytes.length (f m).length with hlt | hge
      · have hcut := List.prefix_of_prefix_length_le hstart (List.prefix_append _ _) hlt.le
        exact ⟨[], m :: items, bytes, rfl, rfl, .inr ⟨m, rfl, hcut, hlt⟩⟩
      · obtain ⟨bytes, rfl⟩ := List.prefix_of_prefix_length_le (List.prefix_append _ _) hstart hge
        obtain ⟨whole, rest, cut, rfl, rfl, hcut⟩ :=
          ih ((List.prefix_append_right_inj (f m)).mp hstart)
        exact ⟨m :: whole, rest, cut, rfl, by simp, hcut⟩

/-- The listener hands on the type and the body of the send, and the node's own handler gets the
same from the loop-back branch. -/
def Handled (A : Allocator) (sent : UInt32 × Message) (received : UInt32 × Message) : Prop :=
  Socket.Carries (sent.1, sent.2.bytes) received ∧
    ∃ clone, loopBack A sent.1 sent.2 = .ok (received.1, clone) ∧ clone.WellFormed ∧
      clone.bytes = received.2.bytes

theorem loopBack_spec {A : Allocator} (hA : A.Succeeds) (msgType : UInt32) {msg : Message}
    (h : Sendable msg) :
    ∃ clone, loopBack A msgType msg = .ok (msgType, clone) ∧ clone.WellFormed ∧
      clone.bytes = msg.bytes := by
  obtain ⟨head, tail, hl⟩ := h.1.layout
  obtain ⟨clone, head', tail', hclone, hl', -, -⟩ := Message.clone_spec hA hl
  refine ⟨clone, ?_, hl'.wellFormed, hl'.bytes_eq⟩
  simp only [loopBack, hclone, bind, Except.bind, pure, Except.pure]

/-- The frames of some sends, and possibly the start of one more, give a message for each of the
sends and then `NULL`. -/
theorem receiveAll_sent {A : Allocator} (hA : A.Succeeds) {sent : List (UInt32 × Message)}
    (hsent : ∀ m ∈ sent, Sendable m.2) {cut : List UInt8}
    (hcut : cut = [] ∨ ∃ m : UInt32 × Message, Sendable m.2 ∧ cut <+: frameOf m ∧
      cut.length < (frameOf m).length) (chunk : ℕ → ℕ) :
    ∃ msgs socket, Socket.receiveAll A sent.length ⟨sent.flatMap frameOf ++ cut, chunk⟩ =
        .ok (msgs, socket) ∧
      List.Forall₂ (Handled A) sent msgs ∧ socket.receive A = .ok none := by
  let bodies := sent.map fun m ↦ (m.1, m.2.bytes)
  have hbodies : ∀ m ∈ bodies, m.2.length + 4 < 2 ^ 31 := by
    intro m hm
    obtain ⟨m', hm', rfl⟩ := List.mem_map.mp hm
    exact (hsent m' hm').2.2
  have hcut' : cut = [] ∨ ∃ m : UInt32 × List UInt8, m.2.length + 4 < 2 ^ 31 ∧
      cut <+: frame m.1 m.2 ∧ cut.length < (frame m.1 m.2).length := by
    rcases hcut with hnil | ⟨m, hm, hstart, hshort⟩
    · exact .inl hnil
    · exact .inr ⟨(m.1, m.2.bytes), hm.2.2, hstart, hshort⟩
  obtain ⟨msgs, socket, hall, hcarries, hnone⟩ :=
    Socket.receiveAll_frames hA hbodies hcut' chunk
  have hframes : (bodies.flatMap fun m ↦ frame m.1 m.2) = sent.flatMap frameOf := by
    rw [List.flatMap_map]
    rfl
  rw [List.length_map, hframes] at hall
  refine ⟨msgs, socket, hall, ?_, hnone⟩
  rw [List.forall₂_map_left_iff] at hcarries
  refine List.forall₂_iff_get.mpr ⟨hcarries.length_eq, fun i hi hi' ↦ ?_⟩
  have hcarry := (List.forall₂_iff_get.mp hcarries).2 i hi hi'
  obtain ⟨clone, hclone, hwf, hbytes⟩ :=
    loopBack_spec hA (sent.get ⟨i, hi⟩).1 (hsent _ (List.get_mem sent ⟨i, hi⟩))
  exact ⟨hcarry, clone, by rw [hcarry.1]; exact hclone, hwf, hbytes.trans hcarry.2.2.symm⟩

end Sender

/-- Whatever way the threads take turns and the stream is cut into chunks, the listener gets one
message for each send, in the order in which they held the lock; if the stream ends early it gets
the messages that are complete and then `NULL`. -/
theorem framing_round_trip {T : Type*} [DecidableEq T] {A : Allocator} (hA : A.Succeeds)
    {s : Sender T} (h : (sender T).Reach Sender.SendsBodies s) :
    (s.sendLock = none → ∀ chunk, ∃ msgs socket,
      Socket.receiveAll A s.sent.length ⟨s.stream, chunk⟩ = .ok (msgs, socket) ∧
        List.Forall₂ (Sender.Handled A) s.sent msgs ∧ socket.receive A = .ok none) ∧
    ∀ stream, stream <+: s.stream → ∃ whole rest cut, s.sent = whole ++ rest ∧
      stream = whole.flatMap Sender.frameOf ++ cut ∧
      (cut = [] ∨ ∃ m ∈ rest.head?, cut <+: Sender.frameOf m ∧
        cut.length < (Sender.frameOf m).length) ∧
      ∀ chunk, ∃ msgs socket,
        Socket.receiveAll A whole.length ⟨stream, chunk⟩ = .ok (msgs, socket) ∧
          List.Forall₂ (Sender.Handled A) whole msgs ∧ socket.receive A = .ok none := by
  have hinv := Sender.inv_of_reach h
  refine ⟨fun hlock chunk ↦ ?_, fun stream hstream ↦ ?_⟩
  · have hframes := hinv.stream
    rw [Sender.pending_of_none hlock, List.append_nil] at hframes
    simpa [hframes] using Sender.receiveAll_sent hA hinv.sent (.inl rfl) chunk
  · have hstart : stream <+: s.sent.flatMap Sender.frameOf := by
      rw [← hinv.stream]
      exact hstream.trans (List.prefix_append _ _)
    obtain ⟨whole, rest, cut, hsent, rfl, hcut⟩ := Sender.exists_cut hstart
    refine ⟨whole, rest, cut, hsent, rfl, hcut, fun chunk ↦ ?_⟩
    refine Sender.receiveAll_sent hA (fun m hm ↦ hinv.sent m ?_) ?_ chunk
    · rw [hsent]
      exact List.mem_append_left rest hm
    · rcases hcut with hnil | ⟨m, hm, hstart, hshort⟩
      · exact .inl hnil
      · refine .inr ⟨m, hinv.sent m ?_, hstart, hshort⟩
        rw [hsent]
        exact List.mem_append_right whole (List.mem_of_mem_head? hm)

instance (msg : Message) : Decidable (Sendable msg) :=
  decidable_of_iff
    ((msg.headSize.toNat + msg.dataSize.toNat + msg.tailSize.toNat = msg.bufferSize.toNat ∧
      msg.buffer.length = msg.bufferSize.toNat ∧ msg.data = msg.headSize.toNat) ∧
      msg.bytes ≠ [] ∧ msg.bytes.length + 4 < 2 ^ 31)
    ⟨fun ⟨⟨hsizes, hbuffer, hdata⟩, hbytes⟩ ↦ ⟨⟨hsizes, hbuffer, hdata⟩, hbytes⟩,
      fun ⟨hwf, hbytes⟩ ↦ ⟨⟨hwf.sizes, hwf.buffer, hwf.data⟩, hbytes⟩⟩

instance {T : Type*} (s : Sender T) (a : Sender.Action T) : Decidable (s.SendsBodies a) :=
  match a with
  | .call _ _ msg => inferInstanceAs (Decidable (Sendable msg))
  | .lock _ => .isTrue trivial
  | .write _ => .isTrue trivial
  | .unlock _ => .isTrue trivial

/-- Two threads call at the same time; the second takes the lock first. -/
theorem framing_round_trip_two_threads :
    ∃ s : Sender Bool, (sender Bool).Reach Sender.SendsBodies s ∧ ∀ chunk, ∃ msgs socket,
      Socket.receiveAll .zeroed 2 ⟨s.stream, chunk⟩ = .ok (msgs, socket) ∧
        msgs.map (fun m ↦ (m.1, m.2.bytes)) = [(6, [98, 99]), (5, [97])] ∧
        socket.receive .zeroed = .ok none := by
  obtain ⟨s, hs, hend⟩ := (sender Bool).exists_reach_of_exec Sender.SendsBodies
    [.call false 5 (.ofBytes [97]), .call true 6 (.ofBytes [98, 99]), .lock true, .write true,
      .write true, .write true, .unlock true, .lock false, .write false, .write false,
      .write false, .unlock false]
    (fun s ↦ s.sendLock.isNone &&
      s.sent == [(6, .ofBytes [98, 99]), (5, .ofBytes [97])])
    (by decide +kernel)
  obtain ⟨hlock, hsent⟩ : s.sendLock = none ∧
      s.sent = [(6, .ofBytes [98, 99]), (5, .ofBytes [97])] := by simpa using hend
  refine ⟨s, hs, fun chunk ↦ ?_⟩
  obtain ⟨msgs, socket, hall, hhandled, hnone⟩ :=
    (framing_round_trip Allocator.zeroed_succeeds hs).1 hlock chunk
  rw [hsent] at hall hhandled
  refine ⟨msgs, socket, hall, ?_, hnone⟩
  obtain _ | ⟨⟨⟨htype, -, hbytes⟩, -⟩, _ | ⟨⟨⟨htype', -, hbytes'⟩, -⟩, _ | _⟩⟩ := hhandled
  simp only [List.map_cons, List.map_nil, htype, hbytes, htype', hbytes']
  decide

end Edsm.Proto
