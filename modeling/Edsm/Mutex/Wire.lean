import Edsm.Library.Wire
import Edsm.Mutex.Exclusion
import Edsm.Proto.Dispatch

/-!
# The mutex over the sockets

The messages of `mutex.c` are packed by `edsm_dobj_send`, framed by
`fd_send_message`, read back piece by piece by the listener and handed through
`handle_message` and `edsm_dobj_handle_message` to the handler of the mutex.  A
second object has its messages on the same connections.
-/

namespace Edsm.Mutex

open Proto

/-- The data of a message that is not empty and small enough for its frame. -/
abbrev Payload := { data : List UInt8 // data ≠ [] ∧ data.length < 2 ^ 28 }

/-- The ids of the mutex and of the other object. -/
structure ObjectIds where
  mutex : UInt32
  other : UInt32
  ne : other ≠ mutex

/-- The message of `edsm_mutex_lock` and `edsm_mutex_send_reply`. -/
def Msg.message (A : Allocator) (msg : Msg) : Except Fault Message :=
  Dobj.wordsMessage A 8 [msg.msgType, msg.lTime]

/-- The two reads at the start of `edsm_mutex_handle_message`. -/
def Msg.read : Option Message → Except Fault Msg
  | none => throw .nullPointer
  | some msg => do
      let (msgType, msg) ← Dobj.readNumber msg
      let (lTime, _) ← Dobj.readNumber msg
      return ⟨msgType, lTime, 0⟩

/-- What makes a listener stop. -/
inductive Stop
  | fault (fault : Fault)
  /-- `read_message_from_socket` returns `NULL`. -/
  | disconnected

namespace Frame

/-- `edsm_dobj_send` for the object that the frame is about, with its message. -/
def request (A : Allocator) (ids : ObjectIds) : Frame Payload → Except Fault Request
  | .mutex msg => do return .objMsg ids.mutex (some (← msg.message A))
  | .data d => .ok (.objMsg ids.other (some (.ofBytes d.1)))

def encode (A : Allocator) (ids : ObjectIds) (f : Frame Payload) : Except Stop (List UInt8) :=
  (do (← f.request A ids).encode A).mapError .fault

/-- The call of an object's handler, as what the object gets. -/
def ofCall (ids : ObjectIds) : Option Call → Except Fault (Option (Frame Payload))
  | some (.dobj (.handler id dobjMsg)) =>
      if id = ids.mutex then do return some (.mutex (← Msg.read dobjMsg))
      else if id = ids.other then
        if h : Message.payload dobjMsg ≠ [] ∧ (Message.payload dobjMsg).length < 2 ^ 28 then
          .ok (some (.data ⟨Message.payload dobjMsg, h⟩))
        else .ok none
      else .ok none
  | _ => .ok none

/-- What a listener makes of the bytes of a frame, read in pieces of any sizes. -/
def decode (A : Allocator) (ids : ObjectIds) (chunk : ℕ → ℕ) (got : List UInt8) :
    Except Stop (Option (Frame Payload)) :=
  match Socket.receive A ⟨got, chunk⟩ with
  | .error fault => .error (.fault fault)
  | .ok none => .error .disconnected
  | .ok (some (msg, _)) =>
      (do ofCall ids (← Proto.handleMessage A initHandlers
        (fun id ↦ id = ids.mutex || id = ids.other) msg).2).mapError .fault

def codec (A : Allocator) (ids : ObjectIds) (chunk : ℕ → ℕ) :
    Codec (Frame Payload) UInt8 Stop where
  encode := encode A ids
  missing := Socket.missing
  decode := decode A ids chunk

def objId (ids : ObjectIds) : Frame Payload → UInt32
  | .mutex _ => ids.mutex
  | .data _ => ids.other

/-- The data of the object's own message. -/
def objData : Frame Payload → List UInt8
  | .mutex msg => [msg.msgType, msg.lTime].flatMap Message.word
  | .data d => d.1

def bytes (ids : ObjectIds) (f : Frame Payload) : List UInt8 :=
  frame msgTypeDobj (Message.word Dobj.msgTypeObjMsg ++ (Message.word (f.objId ids) ++
    (Message.word (UInt32.ofNat f.objData.length) ++ f.objData)))

/-- The code drops whom a reply was meant for. -/
def Same {D : Type*} : Frame D → Frame D → Prop
  | .mutex msg, .mutex msg' => msg.msgType = msg'.msgType ∧ msg.lTime = msg'.lTime
  | .data d, .data d' => d = d'
  | _, _ => False

variable {A : Allocator} {ids : ObjectIds}

theorem objData_ne_nil (f : Frame Payload) : f.objData ≠ [] := by
  cases f with
  | mutex msg => exact List.ne_nil_of_length_pos (by simp [objData])
  | data d => exact d.2.1

theorem length_objData_lt (f : Frame Payload) : f.objData.length < 2 ^ 28 := by
  cases f with
  | mutex msg => simp [objData]
  | data d => exact d.2.2

variable (ids) in
/-- The call of `edsm_dobj_send`, with a message that has the data of the frame. -/
theorem request_spec (hA : A.Succeeds) (f : Frame Payload) :
    ∃ dobjMsg : Message, f.request A ids = .ok (.objMsg (f.objId ids) (some dobjMsg)) ∧
      dobjMsg.WellFormed ∧ dobjMsg.bytes = f.objData := by
  cases f with
  | mutex msg =>
      obtain ⟨dobjMsg, hmsg, hwf, hbytes⟩ :=
        Dobj.wordsMessage_spec hA 8 [msg.msgType, msg.lTime] (by simp)
      refine ⟨dobjMsg, ?_, hwf, hbytes⟩
      simp only [request, Msg.message, hmsg, bind, Except.bind, pure, Except.pure]
      rfl
  | data d =>
      have hl := Message.layout_ofBytes (by have := d.2.2; omega : d.1.length < 2 ^ 32)
      exact ⟨.ofBytes d.1, rfl, hl.wellFormed, hl.bytes_eq⟩

theorem body_eq (f : Frame Payload) {dobjMsg : Message} (hbytes : dobjMsg.bytes = f.objData) :
    (Request.objMsg (f.objId ids) (some dobjMsg)).body =
      Message.word Dobj.msgTypeObjMsg ++ (Message.word (f.objId ids) ++
        (Message.word (UInt32.ofNat f.objData.length) ++ f.objData)) := by
  simp [Request.body, Dobj.objMsgFields, Message.Field.encode, Message.payload, hbytes]

variable (ids) in
theorem request_valid (f : Frame Payload) {dobjMsg : Message} (hwf : dobjMsg.WellFormed)
    (hbytes : dobjMsg.bytes = f.objData) : (Request.objMsg (f.objId ids) (some dobjMsg)).Valid := by
  refine ⟨?_, ?_⟩
  · rintro val ⟨⟩
    exact hwf
  · rw [body_eq f hbytes]
    have hlt := f.length_objData_lt
    simp only [List.length_append, Message.length_word]
    omega

theorem encode_spec (hA : A.Succeeds) (f : Frame Payload) :
    f.encode A ids = .ok (f.bytes ids) := by
  obtain ⟨dobjMsg, hrequest, hwf, hbytes⟩ := f.request_spec ids hA
  have hencode := Request.encode_spec hA (f.request_valid ids hwf hbytes)
  rw [body_eq f hbytes] at hencode
  simp only [encode, hrequest, hencode, bind, Except.bind, Except.mapError]
  rfl

theorem read_spec {msg : Msg} {dobjMsg : Message} (hwf : dobjMsg.WellFormed)
    (hbytes : dobjMsg.bytes = [msg.msgType, msg.lTime].flatMap Message.word) :
    Msg.read (some dobjMsg) = .ok ⟨msg.msgType, msg.lTime, 0⟩ := by
  obtain ⟨head, tail, hl⟩ := hwf.layout
  rw [hbytes] at hl
  simp only [List.flatMap_cons, List.flatMap_nil] at hl
  obtain ⟨msg₁, hread₁, hl₁⟩ := Dobj.readNumber_spec hl
  obtain ⟨msg₂, hread₂, -⟩ := Dobj.readNumber_spec hl₁
  simp only [Msg.read, hread₁, hread₂, bind, Except.bind, pure, Except.pure]

variable (ids) in
theorem ofCall_spec (f : Frame Payload) :
    ∃ f', ofCall ids (some (.dobj (.handler (f.objId ids) (Message.ofPayload f.objData)))) =
      .ok (some f') ∧ Same f f' := by
  have hpayload : Message.ofPayload f.objData = some (.ofBytes f.objData) :=
    if_neg f.objData_ne_nil
  have hl := Message.layout_ofBytes
    (by have := f.length_objData_lt; omega : f.objData.length < 2 ^ 32)
  rw [hpayload]
  cases f with
  | mutex msg =>
      refine ⟨.mutex ⟨msg.msgType, msg.lTime, 0⟩, ?_, rfl, rfl⟩
      have hread : Msg.read (some (.ofBytes (objData (.mutex msg)))) = _ :=
        read_spec hl.wellFormed hl.bytes_eq
      simp only [ofCall, objId, if_true, hread, bind, Except.bind, pure, Except.pure]
  | data d =>
      refine ⟨.data d, ?_, rfl⟩
      have hbytes : (Message.ofBytes d.1).bytes = d.1 := hl.bytes_eq
      simp only [ofCall, objId, if_neg ids.ne, if_true, Message.payload, objData, hbytes,
        dif_pos d.2]

variable (ids) in
theorem decode_spec (hA : A.Succeeds) (chunk : ℕ → ℕ) (f : Frame Payload) :
    ∃ f', decode A ids chunk (f.bytes ids) = .ok (some f') ∧ Same f f' := by
  obtain ⟨dobjMsg, hrequest, hwf, hbytes⟩ := f.request_spec ids hA
  have hvalid := f.request_valid ids hwf hbytes
  have hlt := hvalid.2
  rw [body_eq f hbytes] at hlt
  obtain ⟨msg, chunk', hreceive, hmsg, hbody⟩ :=
    Socket.receive_frame hA msgTypeDobj (lt_of_le_of_lt (Nat.add_le_add_right hlt.le 4)
      (by decide)) [] chunk
  rw [List.append_nil] at hreceive
  have haccepted : (Request.objMsg (f.objId ids) (some dobjMsg)).Accepted
      fun id ↦ id = ids.mutex || id = ids.other := by
    cases f with
    | mutex m => simp [Request.Accepted, objId]
    | data d => simp [Request.Accepted, objId]
  have hhandled := Request.handleMessage_spec hA hvalid haccepted hmsg
    (hbody.trans (body_eq f hbytes).symm)
  obtain ⟨f', hcall, hsame⟩ := ofCall_spec ids f
  refine ⟨f', ?_, hsame⟩
  have hpayload : Message.payload (some dobjMsg) = f.objData := hbytes
  simp only [Request.msgType, Request.call, hpayload] at hhandled
  simp only [decode, bytes, hreceive, hhandled, hcall, bind, Except.bind, Except.mapError]

/-- The codec does what the wire asks of it, for all frames. -/
theorem codec_frames (hA : A.Succeeds) (ids : ObjectIds) (chunk : ℕ → ℕ) :
    (codec A ids chunk).Frames (fun _ ↦ True) Same (bytes ids) where
  encode f _ := f.encode_spec hA
  ne_nil f _ := List.ne_nil_of_length_pos (by rw [bytes, Socket.length_frame]; omega)
  missing_le f _ got rest h := (Socket.missing_frame _ (by
    have hlt := f.length_objData_lt
    simp only [List.length_append, Message.length_word]
    omega) h).1
  missing_pos f _ got rest h := (Socket.missing_frame _ (by
    have hlt := f.length_objData_lt
    simp only [List.length_append, Message.length_word]
    omega) h).2
  decode f _ := f.decode_spec ids hA chunk

end Frame

/-! ## The group -/

/-- Each frame to every peer, as `edsm_dobj_send` does. -/
def toPeers {D : Type*} (peers : List UInt32) (frames : List (Frame D)) :
    List (UInt32 × Frame D) :=
  frames.flatMap fun f ↦ peers.map fun q ↦ (q, f)

variable {T D : Type*} [DecidableEq T]

/-- The nodes of the group; a node's own steps are those of its threads and the messages of the
other object that a thread sends while it holds the mutex. -/
def protocol (T D : Type*) [DecidableEq T] (G : Group) :
    Protocol UInt32 (Node T) (ThreadAction T ⊕ T × D) (Frame D) where
  ids := G.ids
  init := initialNode G
  act p nd
    | .inl a => (nd.threadStep p a).map fun sent ↦
        (sent.1, toPeers sent.1.mutex.peers (sent.2.map .mutex))
    | .inr (t, d) =>
        if nd.pc t = .critical then some (nd, toPeers nd.mutex.peers [.data d]) else none
  handle _ nd q
    | .mutex msg => ((nd.handle q msg).1,
        toPeers (nd.handle q msg).1.mutex.peers ((nd.handle q msg).2.map .mutex))
    | .data _ => (nd, [])

def ofProtocol (s : Protocol.State UInt32 (Node T) (Frame D)) : State T D where
  node := s.node
  net := s.net

def ofAction : Protocol.Action UInt32 (ThreadAction T ⊕ T × D) → Action T D
  | .act p (.inl a) => .thread p a
  | .act p (.inr (t, d)) => .publish p t d
  | .deliver q p => .deliver q p

variable {G : Group}

omit [DecidableEq T] in
theorem ofProtocol_after (s : Protocol.State UInt32 (Node T) (Frame D)) (p : UInt32)
    (nd : Node T) (frames : List (Frame D)) :
    ofProtocol (s.after p (nd, toPeers nd.mutex.peers frames)) =
      { node := Function.update s.node p nd
        net := s.net.multicast p nd.mutex.peers frames } := by
  rw [Channels.multicast_eq_sendAll]
  rfl

/-- The protocol has the steps of the group. -/
theorem step_ofProtocol (s : Protocol.State UInt32 (Node T) (Frame D))
    (a : Protocol.Action UInt32 (ThreadAction T ⊕ T × D)) :
    step G (ofProtocol s) (ofAction a) = ((protocol T D G).step s a).map ofProtocol := by
  cases a with
  | act p a =>
      by_cases hp : p ∈ G.ids
      · cases a with
        | inl a =>
            simp only [ofAction, step, Protocol.step, protocol, if_pos hp, Option.map_map]
            congr 1
            funext sent
            exact (ofProtocol_after s p sent.1 (sent.2.map .mutex)).symm
        | inr a =>
            obtain ⟨t, d⟩ := a
            by_cases hpc : (s.node p).pc t = .critical
            · have hafter := ofProtocol_after s p (s.node p) [.data d]
              rw [Function.update_eq_self] at hafter
              have hguard : p ∈ G.ids ∧ ((ofProtocol s).node p).pc t = .critical := ⟨hp, hpc⟩
              simp only [ofAction, step, Protocol.step, protocol, if_pos hp, if_pos hpc,
                if_pos hguard, Option.map_some, hafter]
              rfl
            · have hguard : ¬ (p ∈ G.ids ∧ ((ofProtocol s).node p).pc t = .critical) :=
                fun h ↦ hpc h.2
              simp only [ofAction, step, Protocol.step, protocol, if_pos hp, if_neg hpc,
                if_neg hguard, Option.map_none]
      · cases a with
        | inl a => simp [ofAction, step, Protocol.step, protocol, hp]
        | inr a => simp [ofAction, step, Protocol.step, protocol, hp]
  | deliver q p =>
      by_cases hqp : q ∈ G.ids ∧ p ∈ G.ids
      · simp only [ofAction, step, Protocol.step, if_pos hqp]
        rw [if_pos (show q ∈ (protocol T D G).ids ∧ p ∈ (protocol T D G).ids from hqp)]
        cases hnet : s.net q p with
        | nil => simp [ofProtocol, hnet]
        | cons f rest =>
            cases f with
            | mutex msg =>
                have hafter := ofProtocol_after (s.takeFrame q p rest) p
                  ((s.node p).handle q msg).1 (((s.node p).handle q msg).2.map .mutex)
                simp only [ofProtocol, hnet, Option.map_some, Option.some.injEq]
                exact hafter.symm
            | data d =>
                have hupdate := Function.update_eq_self p s.node
                simp only [ofProtocol, hnet, Option.map_some, Option.some.injEq, State.takeFrame,
                  Protocol.State.after, Protocol.State.takeFrame, protocol, hupdate]
                rfl
      · simp only [ofAction, step, Protocol.step, if_neg hqp]
        rw [if_neg (show ¬ (q ∈ (protocol T D G).ids ∧ p ∈ (protocol T D G).ids) from hqp)]
        rfl

omit [DecidableEq T] in
theorem exists_ofAction (a : Action T D) :
    ∃ b : Protocol.Action UInt32 (ThreadAction T ⊕ T × D), ofAction b = a := by
  cases a with
  | thread p a => exact ⟨.act p (.inl a), rfl⟩
  | publish p t d => exact ⟨.act p (.inr (t, d)), rfl⟩
  | deliver q p => exact ⟨.deliver q p, rfl⟩

theorem reach_ofProtocol {ok : State T D → Action T D → Prop}
    {s : Protocol.State UInt32 (Node T) (Frame D)}
    (h : (protocol T D G).system.Reach (fun s a ↦ ok (ofProtocol s) (ofAction a)) s) :
    (system T D G).Reach ok (ofProtocol s) := by
  induction h with
  | init => exact .init
  | @step s s' a _ ha hst ih =>
      refine ih.step (a := ofAction a) ha ?_
      change step G (ofProtocol s) (ofAction a) = some (ofProtocol s')
      rw [step_ofProtocol, show (protocol T D G).step s a = some s' from hst, Option.map_some]

theorem exists_reach_of_system {ok : State T D → Action T D → Prop} {s : State T D}
    (h : (system T D G).Reach ok s) :
    ∃ s', ofProtocol s' = s ∧
      (protocol T D G).system.Reach (fun s a ↦ ok (ofProtocol s) (ofAction a)) s' := by
  refine h.invariant (fun s ↦ ∃ s', ofProtocol s' = s ∧
    (protocol T D G).system.Reach (fun s a ↦ ok (ofProtocol s) (ofAction a)) s')
    ⟨_, rfl, .init⟩ ?_
  rintro s a t - ⟨s', rfl, hs'⟩ ha hst
  obtain ⟨b, rfl⟩ := exists_ofAction a
  have hstep : step G (ofProtocol s') (ofAction b) = some t := hst
  rw [step_ofProtocol] at hstep
  obtain ⟨t', ht', rfl⟩ := Option.map_eq_some_iff.mp hstep
  exact ⟨t', rfl, hs'.step ha ht'⟩

/-- A handler reads nothing of a message but its two words. -/
theorem uses_same : (protocol T D G).Uses (fun _ ↦ True) Frame.Same where
  act _ _ _ _ _ _ _ := trivial
  handle _ _ _ _ _ _ _ := trivial
  handle_congr p nd q f f' h := by
    cases f with
    | mutex msg =>
        cases f' with
        | mutex msg' =>
            obtain ⟨htype, htime⟩ : msg.msgType = msg'.msgType ∧ msg.lTime = msg'.lTime := h
            have hhandle : nd.handle q msg' = nd.handle q msg := by
              simp only [Node.handle, handleMessage, receiveClock, htype, htime]
            simp only [protocol, hhandle]
        | data d => exact h.elim
    | data d =>
        cases f' with
        | mutex msg' => exact h.elim
        | data d' => rfl

/-! ## Runs on the wire -/

/-- The nodes of the group and the bytes between them. -/
abbrev Wire (T : Type*) := Protocol.Wire UInt32 (Node T) UInt8

/-- The group with the code's own frames.  A step fails if a function of the code does. -/
def wire (T : Type*) [DecidableEq T] (G : Group) (A : Allocator) (ids : ObjectIds)
    (chunk : ℕ → ℕ) : LabelledSystem (Except Stop (Wire T))
      (Protocol.WireAction UInt32 (ThreadAction T ⊕ T × Payload)) :=
  (protocol T Payload G).wire (Frame.codec A ids chunk)

/-- The nodes are those of a state of the group, and what has been written and not yet handled are
the frames of its messages. -/
def Shows (ids : ObjectIds) (w : Wire T) (s : State T Payload) : Prop :=
  w.node = s.node ∧
    ∀ q p, w.collected q p ++ w.stream q p = (s.net q p).flatMap (Frame.bytes ids)

/-- The step of the group that a step on the wire stands for meets the condition. -/
def OnWire (G : Group) (ids : ObjectIds) (ok : State T Payload → Action T Payload → Prop) :
    Except Stop (Wire T) → Protocol.WireAction UInt32 (ThreadAction T ⊕ T × Payload) → Prop :=
  Protocol.OnWire (protocol T Payload G) (fun _ ↦ True) (Frame.bytes ids)
    fun s a ↦ ok (ofProtocol s) (ofAction a)

/-! ### What the frames tell -/

theorem Frame.same_of_bytes {ids : ObjectIds} {f f' : Frame Payload}
    (h : f.bytes ids = f'.bytes ids) : Frame.Same f f' := by
  obtain ⟨g, hg, hsame⟩ := f.decode_spec ids Allocator.zeroed_succeeds id
  obtain ⟨g', hg', hsame'⟩ := f'.decode_spec ids Allocator.zeroed_succeeds id
  rw [h, hg'] at hg
  obtain rfl : g' = g := by simpa using hg
  cases f <;> cases f' <;> cases g' <;> simp_all [Frame.Same]

theorem handleMessage_same (mutex : Mutex) (peerId : UInt32) {msg msg' : Msg}
    (h : msg.msgType = msg'.msgType ∧ msg.lTime = msg'.lTime) :
    mutex.handleMessage peerId msg' = mutex.handleMessage peerId msg := by
  simp only [handleMessage, receiveClock, h.1, h.2]

section Same

variable {D : Type*} {frames frames' : List (Frame D)}

theorem ReceiveFits.of_same {mutex : Mutex} {peerId : UInt32}
    (hsame : List.Forall₂ Frame.Same frames frames') (h : ReceiveFits mutex peerId frames) :
    ReceiveFits mutex peerId frames' := by
  cases hsame with
  | nil => exact h
  | @cons f f' _ _ hf _ =>
      cases f with
      | mutex msg =>
          cases f' with
          | mutex msg' =>
              have hsent := handleMessage_same mutex peerId hf
              simp only [ReceiveFits, hsent, ← hf.2] at h ⊢
              exact h
          | data d => trivial
      | data d =>
          cases f' with
          | mutex msg' => exact hf.elim
          | data d' => trivial

/-- A message with the same two words is on its way. -/
theorem exists_mem_of_same (hsame : List.Forall₂ Frame.Same frames frames') {msg' : Msg}
    (h : .mutex msg' ∈ frames') :
    ∃ msg : Msg, msg.msgType = msg'.msgType ∧ msg.lTime = msg'.lTime ∧ .mutex msg ∈ frames := by
  induction hsame with
  | nil => cases h
  | @cons f f' frames frames' hf _ ih =>
      rcases List.mem_cons.mp h with rfl | h
      · cases f with
        | mutex msg => exact ⟨msg, hf.1, hf.2, List.mem_cons_self⟩
        | data d => exact hf.elim
      · obtain ⟨msg, htype, htime, hmem⟩ := ih h
        exact ⟨msg, htype, htime, List.mem_cons_of_mem f hmem⟩

theorem Outstanding.of_same {T : Type*} {s s' : State T D} {p q : UInt32} {entry : RequestEntry}
    (hnode : s'.node = s.node) (hsame : List.Forall₂ Frame.Same (s.net p q) (s'.net p q))
    (h : Outstanding s' p q entry) : Outstanding s p q entry := by
  rcases h with ⟨msg', htype, htime, hmem⟩ | hmem
  · obtain ⟨msg, htype', htime', hmem'⟩ := exists_mem_of_same hsame hmem
    exact .inl ⟨msg, htype'.trans htype, htime'.trans htime, hmem'⟩
  · exact .inr (hnode ▸ hmem)

theorem CountsAnswer.of_same {T : Type*} {s s' : State T D} {q p : UInt32}
    (hnode : s'.node = s.node) (hnet : List.Forall₂ Frame.Same (s.net p q) (s'.net p q))
    (hsame : List.Forall₂ Frame.Same frames frames') (h : CountsAnswer s q p frames) :
    CountsAnswer s' q p frames' := by
  cases hsame with
  | nil => trivial
  | @cons f f' _ _ hf _ =>
      cases f' with
      | data d => trivial
      | mutex msg' =>
          cases f with
          | data d => exact hf.elim
          | mutex msg =>
              intro htype hwaiter entry hentry hout
              rw [hnode] at hwaiter hentry
              exact h (hf.1.trans htype) hwaiter entry hentry (hout.of_same hnode hnet)

end Same

omit [DecidableEq T] in
/-- Whether a step is orderly can be told from the nodes and the frames. -/
theorem reads_orderly {ids : ObjectIds} :
    Protocol.Reads (Frame.bytes ids) fun (s : Protocol.State UInt32 (Node T) (Frame Payload))
      (a : Protocol.Action UInt32 (ThreadAction T ⊕ T × Payload)) ↦
        Orderly (ofProtocol s) (ofAction a) := by
  intro s s' a hnode hframes hok
  have hsame : ∀ q p, List.Forall₂ Frame.Same (s.net q p) (s'.net q p) :=
    fun q p ↦ (hframes q p).imp fun _ _ ↦ Frame.same_of_bytes
  have hnode' : (ofProtocol s').node = (ofProtocol s).node := hnode
  obtain ⟨hfits, hcounts⟩ := hok
  cases a with
  | act p a =>
      refine ⟨?_, by cases a <;> trivial⟩
      cases a with
      | inl a =>
          cases a with
          | request t =>
              rw [ofAction, NoWrap, hnode']
              exact hfits
          | unlock t =>
              rw [ofAction, NoWrap, hnode']
              exact hfits
          | acquire t => trivial
          | enter t => trivial
          | release t => trivial
      | inr a => trivial
  | deliver q p =>
      refine ⟨?_, CountsAnswer.of_same hnode' (hsame p q) (hsame q p) hcounts⟩
      have hfits' : ReceiveFits ((ofProtocol s').node p).mutex q (s.net q p) := hnode' ▸ hfits
      exact hfits'.of_same (hsame q p)

section Wire

variable {A : Allocator} {ids : ObjectIds} {chunk : ℕ → ℕ}

theorem shows_of_reach (hA : A.Succeeds) {ok : State T Payload → Action T Payload → Prop}
    {x : Except Stop (Wire T)} (h : (wire T G A ids chunk).Reach (OnWire G ids ok) x) :
    ∃ w s, x = .ok w ∧ (system T Payload G).Reach ok s ∧ Shows ids w s := by
  obtain ⟨w, s, hx, hs, hw⟩ :=
    Protocol.carries_of_reach (Frame.codec_frames hA ids chunk) uses_same h
  exact ⟨w, ofProtocol s, hx, reach_ofProtocol hs, hw.node, hw.stream⟩

/-- Between the functions of the sender and those of the receiver nothing goes wrong: a run on the
wire, with frames read in pieces of any sizes, is a run of the group and meets no fault and no
`NULL`; every run of the group is one on the wire; and a listener in the middle of a frame reads
the rest of it, with nobody else taking a step, and has then the frame of the oldest message. -/
theorem wire_refines (hA : A.Succeeds) (G : Group) (ids : ObjectIds) (chunk : ℕ → ℕ) :
    (∀ x, (wire T G A ids chunk).Reachable x →
      ∃ w s, x = .ok w ∧ (system T Payload G).Reachable s ∧ Shows ids w s ∧
        ∀ q p got, w.reading p = some (q, got) →
          ∃ (ns : List ℕ) (w' : Wire T) (f : Frame Payload) (rest : List (Frame Payload)),
          (wire T G A ids chunk).exec LabelledSystem.anyStep (.ok w) (ns.map (.read p)) =
            some (.ok w') ∧
          Shows ids w' s ∧ s.net q p = f :: rest ∧ w'.reading p = some (q, f.bytes ids) ∧
          Socket.missing (f.bytes ids) = 0) ∧
    ∀ s, (system T Payload G).Reachable s → ∃ w, (wire T G A ids chunk).Reachable (.ok w) ∧
      Shows ids w s ∧ ∀ p, w.reading p = none := by
  have hC := Frame.codec_frames hA ids chunk
  refine ⟨fun x hx ↦ ?_, fun s hs ↦ ?_⟩
  · have hrun : (wire T G A ids chunk).Reach (Protocol.OnWire (protocol T Payload G)
        (fun _ ↦ True) (Frame.bytes ids) LabelledSystem.anyStep) x :=
      hx.mono fun _ _ _ _ _ _ _ ↦ trivial
    obtain ⟨w, s, rfl, hs, hw⟩ := Protocol.carries_of_reach hC uses_same hrun
    refine ⟨w, ofProtocol s, rfl, reach_ofProtocol hs, ⟨hw.node, hw.stream⟩,
      fun q p got hgot ↦ ?_⟩
    obtain ⟨ns, w', f, rest, hexec, hw', hnet, hf, hall, -⟩ :=
      Protocol.exists_read_all hC hw hgot
    exact ⟨ns, w', f, rest, hexec, ⟨hw'.node, hw'.stream⟩, hnet, hall, hC.missing_bytes hf⟩
  · obtain ⟨s', rfl, hs'⟩ := exists_reach_of_system hs
    obtain ⟨w, hw, hcarries, hquiet⟩ :=
      Protocol.exists_wire_of_reach hC uses_same (fun _ _ _ _ _ _ ↦ trivial) hs'
    exact ⟨w, hw.reachable, ⟨hcarries.node, hcarries.stream⟩, hquiet⟩

/-- The listener of node 2 has three bytes of the request of node 1, and reads on. -/
theorem wire_refines_two_nodes : ∃ (w w' : Wire Unit) (f : Frame Payload),
    (w.reading 2).map (fun r ↦ (r.1, r.2.length)) = some (1, 3) ∧
      w'.node = w.node ∧ w'.reading 2 = some (1, f.bytes ⟨7, 8, by decide⟩) := by
  let G : Group := .ofIds [1, 2] (by decide) (by decide)
  let ids : ObjectIds := ⟨7, 8, by decide⟩
  obtain ⟨x, hx, hp⟩ := LabelledSystem.exists_reach_of_exec (wire Unit G .zeroed ids fun _ ↦ 0)
    LabelledSystem.anyStep [.act 1 (.inl (.acquire ())), .act 1 (.inl (.request ())),
      .select 1 2, .read 2 2]
    (fun
      | .ok w => (w.reading 2).map (fun r ↦ (r.1, r.2.length)) = some (1, 3)
      | .error _ => false) (by decide +kernel)
  obtain ⟨w, s, rfl, -, ⟨hnode, -⟩, hread⟩ :=
    (wire_refines Allocator.zeroed_succeeds G ids fun _ ↦ 0).1 x hx
  have hthree : (w.reading 2).map (fun r ↦ (r.1, r.2.length)) = some (1, 3) := by simpa using hp
  obtain ⟨⟨q, got⟩, hgot, hq⟩ := Option.map_eq_some_iff.mp hthree
  obtain rfl : q = 1 := congrArg Prod.fst hq
  obtain ⟨-, w', f, -, -, ⟨hnode', -⟩, -, hall, -⟩ := hread 1 2 got hgot
  exact ⟨w, w', f, hthree, hnode'.trans hnode.symm, hall⟩

/-- Mutual exclusion between the threads of processes that exchange bytes. -/
theorem exclusive_on_wire (hA : A.Succeeds) {x : Except Stop (Wire T)}
    (h : (wire T G A ids chunk).Reach (OnWire G ids Orderly) x) :
    ∃ w, x = .ok w ∧ ∀ p ∈ G.ids, ∀ q ∈ G.ids, ∀ t u, (w.node p).pc t = .critical →
      (w.node q).pc u = .critical → p = q ∧ t = u := by
  obtain ⟨w, s, rfl, hs, hnode, -⟩ := shows_of_reach hA h
  refine ⟨w, rfl, ?_⟩
  rw [hnode]
  exact exclusive_of_safeInv (wellFormed_of_reach hs) (safeInv_of_reach hs)

theorem exists_wire_of_orderly (hA : A.Succeeds) (ids : ObjectIds) (chunk : ℕ → ℕ)
    {s : State T Payload} (h : (system T Payload G).Reach Orderly s) :
    ∃ w, (wire T G A ids chunk).Reach (OnWire G ids Orderly) (.ok w) ∧ w.node = s.node := by
  obtain ⟨s', rfl, hs'⟩ := exists_reach_of_system h
  obtain ⟨w, hw, hcarries, -⟩ := Protocol.exists_wire_of_reach
    (Frame.codec_frames hA ids chunk) uses_same reads_orderly hs'
  exact ⟨w, hw, hcarries.node⟩

/-- Node 1 has the mutex; the request of node 2 has come. -/
theorem exclusive_on_wire_two_nodes :
    ∃ w : Wire Unit, (w.node 1).pc () = .critical ∧ (w.node 2).pc () = .waiting ∧
      ∀ p ∈ [1, 2], ∀ q ∈ [1, 2], ∀ t u, (w.node p).pc t = .critical →
        (w.node q).pc u = .critical → p = q ∧ t = u := by
  let G : Group := .ofIds [1, 2] (by decide) (by decide)
  obtain ⟨s, hs, hp⟩ := LabelledSystem.exists_reach_of_exec (system Unit Payload G) Orderly
    [.thread 1 (.acquire ()), .thread 1 (.request ()), .deliver 1 2, .deliver 2 1,
      .thread 2 (.acquire ()), .thread 2 (.request ()), .deliver 2 1, .thread 1 (.enter ())]
    (fun s ↦ (s.node 1).pc () = .critical ∧ (s.node 2).pc () = .waiting) (by decide)
  obtain ⟨h1, h2⟩ : (s.node 1).pc () = .critical ∧ (s.node 2).pc () = .waiting := by
    simpa using hp
  obtain ⟨w, hw, hnode⟩ :=
    exists_wire_of_orderly Allocator.zeroed_succeeds ⟨7, 8, by decide⟩ (fun _ ↦ 0) hs
  obtain ⟨w', hw', hexclusive⟩ := exclusive_on_wire Allocator.zeroed_succeeds hw
  obtain rfl : w = w' := Except.ok.inj hw'
  exact ⟨w, hnode ▸ h1, hnode ▸ h2, hexclusive⟩

end Wire

end Edsm.Mutex
