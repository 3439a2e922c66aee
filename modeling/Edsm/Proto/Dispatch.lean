import Edsm.Dobj.Wire
import Edsm.Proto.FrameWriter
import Edsm.Task

/-!
# From a call to the handler on the other side

Up calls and the four messages about objects share one connection.  Each is made
into a message, framed, read back by the listener of the peer and handed to the
function that is registered for its type.
-/

namespace Edsm.Proto

def msgTypeTask : UInt32 := 2

def msgTypeDobj : UInt32 := 3

/-- The functions that the program registers. -/
inductive HandlerFunc
  | taskHandleUpCall
  | dobjHandleMessage
  deriving DecidableEq, Repr

/-- `message_handlers`, the one that `HASH_FIND_INT` finds first at the front. -/
abbrev Handlers := List (UInt32 × HandlerFunc)

def registerHandler (handlers : Handlers) (messageType : UInt32) (handlerFunc : HandlerFunc) :
    Handlers :=
  (messageType, handlerFunc) :: handlers

/-- After `edsm_task_init` and `edsm_dobj_init`. -/
def initHandlers : Handlers :=
  registerHandler (registerHandler [] msgTypeTask .taskHandleUpCall) msgTypeDobj .dobjHandleMessage

/-- What a handler does with a message. -/
inductive Call
  /-- `_edsm_task_do_up_call` -/
  | upCall (taskName : List UInt8) (event : UInt32) (params : Option Message)
  | dobj (call : Dobj.Call)

def HandlerFunc.run (A : Allocator) (accepts : UInt32 → Bool) (msg : Message) :
    HandlerFunc → Except Fault (Option Call)
  | .taskHandleUpCall => do
      return (← Task.handleUpCall A msg).map fun (taskName, event, params) ↦
        .upCall taskName event params
  | .dobjHandleMessage => do
      return (← Dobj.handleMessage A accepts msg).map .dobj

/-- `handle_message`, which returns `FAILURE` for a type without a handler. -/
def handleMessage (A : Allocator) (handlers : Handlers) (accepts : UInt32 → Bool)
    (msg : UInt32 × Message) : Except Fault (Status × Option Call) :=
  match handlers.lookup msg.1 with
  | none => .ok (.failure, none)
  | some handlerFunc => do
      return (.success, ← handlerFunc.run A accepts msg.2)

/-! ## The senders -/

/-- The calls that send a message. -/
inductive Request
  /-- `edsm_task_send_up_call` -/
  | upCall (taskName : List UInt8) (event : UInt32) (params : Option Message)
  /-- `edsm_dobj_create` -/
  | create (maxObjId : UInt32)
  /-- `edsm_dobj_send_get` -/
  | get (id : UInt32)
  /-- `edsm_dobj_send_get_reply` -/
  | getReply (id haveReference : UInt32)
  /-- `edsm_dobj_send` -/
  | objMsg (id : UInt32) (dobjMsg : Option Message)

namespace Request

def msgType : Request → UInt32
  | .upCall _ _ _ => msgTypeTask
  | _ => msgTypeDobj

/-- What is handed to `edsm_proto_send`. -/
def message (A : Allocator) : Request → Except Fault Message
  | .upCall taskName event params => Task.sendUpCall A taskName event params
  | .create maxObjId => Dobj.createMessage A maxObjId
  | .get id => Dobj.getMessage A id
  | .getReply id haveReference => Dobj.getReplyMessage A id haveReference
  | .objMsg id dobjMsg => Dobj.send A id dobjMsg

/-- The body of the message. -/
def body : Request → List UInt8
  | .upCall taskName event params =>
      (Task.upCallFields taskName event params).flatMap Message.Field.encode
  | .create maxObjId => [Dobj.msgTypeCreate, maxObjId].flatMap Message.word
  | .get id => [Dobj.msgTypeGet, id].flatMap Message.word
  | .getReply id haveReference => [Dobj.msgTypeGetReply, id, haveReference].flatMap Message.word
  | .objMsg id dobjMsg => (Dobj.objMsgFields id dobjMsg).flatMap Message.Field.encode

/-- A task name is a C string, parameters and object messages are messages, and no size wraps. -/
def Valid (request : Request) : Prop :=
  (match request with
    | .upCall taskName _ params => 0 ∉ taskName ∧ ∀ val ∈ params, val.WellFormed
    | .objMsg _ dobjMsg => ∀ val ∈ dobjMsg, val.WellFormed
    | _ => True) ∧ request.body.length < 2 ^ 29

/-- The call that the peer's handler makes; a message without data arrives as `NULL`. -/
def call : Request → Call
  | .upCall taskName event params =>
      .upCall taskName event (Message.ofPayload (Message.payload params))
  | .create maxObjId => .dobj (.create (some maxObjId))
  | .get id => .dobj (.get id)
  | .getReply id haveReference => .dobj (.getReply id haveReference)
  | .objMsg id dobjMsg =>
      .dobj (.handler id (Message.ofPayload (Message.payload dobjMsg)))

/-- The object of a message is known and initialised where it arrives. -/
def Accepted (accepts : UInt32 → Bool) : Request → Prop
  | .objMsg id _ => accepts id = true
  | _ => True

variable {A : Allocator} {request : Request}

theorem message_spec (hA : A.Succeeds) (h : request.Valid) :
    ∃ msg, request.message A = .ok msg ∧ msg.WellFormed ∧ msg.bytes = request.body := by
  obtain ⟨hvalid, hlt⟩ := h
  cases request with
  | upCall taskName event params =>
      exact Task.sendUpCall_spec event hvalid.1 hvalid.2 ⟨hA, hlt⟩
  | create maxObjId => exact Dobj.wordsMessage_spec hA 8 _ (by simp)
  | get id => exact Dobj.wordsMessage_spec hA 8 _ (by simp)
  | getReply id haveReference => exact Dobj.wordsMessage_spec hA 8 _ (by simp)
  | objMsg id dobjMsg => exact Dobj.send_spec id hvalid ⟨hA, hlt⟩

theorem body_ne_nil (request : Request) : request.body ≠ [] := by
  apply List.ne_nil_of_length_pos
  cases request <;>
    simp [body, Task.upCallFields, Dobj.objMsgFields, Message.Field.encode]

theorem sendable (hA : A.Succeeds) (h : request.Valid) :
    ∃ msg, request.message A = .ok msg ∧ Sendable msg ∧ msg.bytes = request.body := by
  obtain ⟨msg, hmsg, hwf, hbytes⟩ := message_spec hA h
  have hlt := h.2
  refine ⟨msg, hmsg, ⟨hwf, hbytes ▸ request.body_ne_nil, ?_⟩, hbytes⟩
  rw [hbytes]
  omega

theorem handleDobj_spec (hA : A.Succeeds) {accepts : UInt32 → Bool} {msg : Message}
    (hwf : msg.WellFormed) (hlt : msg.bytes.length < 2 ^ 31) (hbytes : msg.bytes = request.body)
    (haccepted : request.Accepted accepts) (htype : request.msgType = msgTypeDobj) :
    ∃ call, Dobj.handleMessage A accepts msg = .ok (some call) ∧ request.call = .dobj call := by
  obtain ⟨head, tail, hl⟩ := hwf.layout
  rw [hbytes] at hl
  cases request with
  | upCall taskName event params =>
      exact absurd (show msgTypeTask = msgTypeDobj from htype) (by decide)
  | create maxObjId =>
      simp only [body, List.flatMap_cons, List.flatMap_nil] at hl
      obtain ⟨msg₁, hread₁, hl₁⟩ := Dobj.readNumber_spec hl
      obtain ⟨msg₂, hread₂, -⟩ := Message.readWord_spec hl₁
      refine ⟨_, ?_, rfl⟩
      simp only [Dobj.handleMessage, hread₁, hread₂, bind, Except.bind, pure, Except.pure, if_true,
        Option.map_some, Message.ofWord_word]
  | get id =>
      simp only [body, List.flatMap_cons, List.flatMap_nil] at hl
      obtain ⟨msg₁, hread₁, hl₁⟩ := Dobj.readNumber_spec hl
      obtain ⟨msg₂, hread₂, -⟩ := Dobj.readNumber_spec hl₁
      refine ⟨_, ?_, rfl⟩
      simp only [Dobj.handleMessage, hread₁, hread₂, bind, Except.bind, pure, Except.pure]
      rfl
  | getReply id haveReference =>
      simp only [body, List.flatMap_cons, List.flatMap_nil] at hl
      obtain ⟨msg₁, hread₁, hl₁⟩ := Dobj.readNumber_spec hl
      obtain ⟨msg₂, hread₂, hl₂⟩ := Dobj.readNumber_spec hl₁
      obtain ⟨msg₃, hread₃, -⟩ := Dobj.readNumber_spec hl₂
      refine ⟨_, ?_, rfl⟩
      simp only [Dobj.handleMessage, hread₁, hread₂, hread₃, bind, Except.bind, pure, Except.pure]
      rfl
  | objMsg id dobjMsg =>
      exact ⟨_, Dobj.handleMessage_spec hA haccepted hwf hlt hbytes, rfl⟩

/-- The message reaches its own handler, with the arguments of the sending call. -/
theorem handleMessage_spec (hA : A.Succeeds) (h : request.Valid) {accepts : UInt32 → Bool}
    (haccepted : request.Accepted accepts) {msg : Message} (hwf : msg.WellFormed)
    (hbytes : msg.bytes = request.body) :
    handleMessage A initHandlers accepts (request.msgType, msg) =
      .ok (.success, some request.call) := by
  have hlt : msg.bytes.length < 2 ^ 31 := by
    have hbody := h.2
    rw [hbytes]
    omega
  by_cases htype : request.msgType = msgTypeDobj
  · obtain ⟨call, hcall, heq⟩ := handleDobj_spec hA hwf hlt hbytes haccepted htype
    have hlookup : initHandlers.lookup request.msgType = some .dobjHandleMessage := by
      rw [htype]
      rfl
    simp only [handleMessage, hlookup, HandlerFunc.run, hcall, heq, bind, Except.bind, pure,
      Except.pure, Option.map_some]
  · cases request with
    | upCall taskName event params =>
        have hcall := Task.handleUpCall_spec hA h.1.1 hwf hlt hbytes
        have hlookup : initHandlers.lookup msgTypeTask = some .taskHandleUpCall := rfl
        simp only [handleMessage, msgType, hlookup, HandlerFunc.run, hcall, call, bind,
          Except.bind, pure, Except.pure, Option.map_some]
    | create maxObjId => exact absurd rfl htype
    | get id => exact absurd rfl htype
    | getReply id haveReference => exact absurd rfl htype
    | objMsg id dobjMsg => exact absurd rfl htype

/-- What `fd_send_message` puts on the stream, all in all. -/
def encode (A : Allocator) (request : Request) : Except Fault (List UInt8) := do
  let msg ← request.message A
  return (← buffers request.msgType msg).flatten

theorem encode_spec (hA : A.Succeeds) (h : request.Valid) :
    request.encode A = .ok (frame request.msgType request.body) := by
  obtain ⟨msg, hmsg, hsendable, hbytes⟩ := sendable hA h
  obtain ⟨bufs, hbufs, hflatten, -⟩ := Sender.buffers_spec request.msgType hsendable
  simp only [encode, hmsg, hbufs, hflatten, Sender.frameOf, hbytes, bind, Except.bind, pure,
    Except.pure]

end Request

namespace Socket

/-- How many bytes the two calls of `edsm_socket_read` still ask for. -/
def missing (got : List UInt8) : ℕ :=
  if got.length < 4 then 4 - got.length
  else (if (Message.ofWord (got.take 4)).toNat < 2 ^ 31 then (Message.ofWord (got.take 4)).toNat
    else 0) + 4 - got.length

theorem length_frame (msgType : UInt32) (body : List UInt8) :
    (frame msgType body).length = body.length + 8 := by
  simp only [frame, List.length_append, Message.length_word]
  omega

/-- The size at the front of a frame tells how much of it is still to come. -/
theorem missing_frame (msgType : UInt32) {body : List UInt8} (hlt : body.length + 4 < 2 ^ 31)
    {got rest : List UInt8} (h : frame msgType body = got ++ rest) :
    missing got ≤ rest.length ∧ (rest ≠ [] → 0 < missing got) := by
  have hlength := congrArg List.length h
  rw [length_frame, List.length_append] at hlength
  unfold missing
  split
  · omega
  · next hge =>
      have htake : got.take 4 = Message.word (UInt32.ofNat (body.length + 4)) := by
        have hfour := congrArg (List.take 4) h
        rw [List.take_append_of_le_length (by omega), frame,
          List.take_append_of_le_length (by simp)] at hfour
        rw [← hfour, List.take_of_length_le (by simp)]
      have hsize : (UInt32.ofNat (body.length + 4)).toNat = body.length + 4 := by
        rw [UInt32.toNat_ofNat', Nat.mod_eq_of_lt (by omega)]
      rw [htake, Message.ofWord_word, hsize, if_pos hlt]
      refine ⟨by omega, fun hrest ↦ ?_⟩
      have hpos := List.length_pos_iff.mpr hrest
      omega

end Socket

/-- What the listener does with the messages that it takes from a socket, one after the other. -/
def listen (A : Allocator) (handlers : Handlers) (accepts : UInt32 → Bool) (n : ℕ)
    (socket : Socket) : Except Fault (List (Status × Option Call) × Socket) := do
  let (msgs, socket) ← socket.receiveAll A n
  let calls ← msgs.mapM (handleMessage A handlers accepts)
  return (calls, socket)

/-- What a call hands to `edsm_proto_send`. -/
def Request.send (A : Allocator) (request : Request) : Except Fault (UInt32 × Message) := do
  return (request.msgType, ← request.message A)

/-- The message of a call, about an object that the peer knows. -/
def Requested (A : Allocator) (accepts : UInt32 → Bool) (m : UInt32 × Message) : Prop :=
  ∃ request : Request, request.Valid ∧ request.Accepted accepts ∧ request.send A = .ok m

/-- Only such messages are sent. -/
def SendsRequests {T : Type*} (A : Allocator) (accepts : UInt32 → Bool) (_ : Sender T) :
    Sender.Action T → Prop
  | .call _ msgType msg => Requested A accepts (msgType, msg)
  | _ => True

/-- What has been sent is the message of a call, and the handler of the peer, or of the node itself
if the message was for it, has been called with the arguments of that call. -/
def Answers (A : Allocator) (accepts : UInt32 → Bool) (sent : UInt32 × Message)
    (handled : Status × Option Call) : Prop :=
  ∃ request : Request, request.send A = .ok sent ∧ handled = (.success, some request.call) ∧
    ∃ own, loopBack A sent.1 sent.2 = .ok own ∧
      handleMessage A initHandlers accepts own = .ok (.success, some request.call)

section Runs

variable {T : Type*} [DecidableEq T] {A : Allocator} {accepts : UInt32 → Bool} {s : Sender T}

theorem Request.send_spec (hA : A.Succeeds) {request : Request} (h : request.Valid)
    {sent : UInt32 × Message} (hsent : request.send A = .ok sent) :
    sent.1 = request.msgType ∧ Sendable sent.2 ∧ sent.2.bytes = request.body := by
  obtain ⟨msg, hmsg, hsendable, hbytes⟩ := request.sendable hA h
  simp only [Request.send, hmsg, bind, Except.bind, pure, Except.pure, Except.ok.injEq] at hsent
  subst hsent
  exact ⟨rfl, hsendable, hbytes⟩

theorem sent_of_reach (h : (sender T).Reach (SendsRequests A accepts) s) :
    ∀ m ∈ s.sent, Requested A accepts m := by
  let Inv (s : Sender T) : Prop :=
    (∀ t msgType msg, s.pc t = .locking msgType msg → Requested A accepts (msgType, msg)) ∧
      ∀ m ∈ s.sent, Requested A accepts m
  suffices hinv : Inv s from hinv.2
  refine h.invariant Inv ⟨fun _ _ _ hpc ↦ SendPc.noConfusion hpc, List.forall_mem_nil _⟩ ?_
  rintro s a s' - ⟨hlocking, hsent⟩ ha hst
  have hmoved : ∀ (t : T) (pc : SendPc),
      (∀ msgType msg, pc = .locking msgType msg → Requested A accepts (msgType, msg)) →
      ∀ u msgType msg, (s.moveTo t pc).pc u = .locking msgType msg →
        Requested A accepts (msgType, msg) := by
    intro t pc hpc u msgType msg hu
    by_cases hut : u = t
    · subst hut
      exact hpc msgType msg ((Sender.moveTo_pc_self pc).symm.trans hu)
    · exact hlocking u msgType msg ((Sender.moveTo_pc_of_ne pc hut).symm.trans hu)
  rcases Sender.step_cases hst with ⟨t, msgType, msg, rfl, -, rfl⟩ |
    ⟨t, msgType, msg, bufs, rfl, hpc, -, -, rfl⟩ | ⟨t, buffer, rest, rfl, -, rfl⟩ |
    ⟨t, rfl, -, rfl⟩
  · refine ⟨hmoved t _ ?_, hsent⟩
    rintro _ _ ⟨⟩
    exact ha
  · refine ⟨hmoved t _ nofun, fun m hm ↦ ?_⟩
    rcases List.mem_append.mp hm with hm | hm
    · exact hsent m hm
    · obtain rfl := List.mem_singleton.mp hm
      exact hlocking t msgType msg hpc
  · exact ⟨hmoved t _ nofun, hsent⟩
  · exact ⟨hmoved t _ nofun, hsent⟩

/-- However the threads of a node take turns with their sends to one peer, and however the stream
is cut, each message reaches its own handler, once, in the order of the sends and with the
arguments of the sending call. -/
theorem answers_of_reach (hA : A.Succeeds) (h : (sender T).Reach (SendsRequests A accepts) s)
    (hlock : s.sendLock = none) (chunk : ℕ → ℕ) :
    ∃ handled socket, listen A initHandlers accepts s.sent.length ⟨s.stream, chunk⟩ =
        .ok (handled, socket) ∧
      List.Forall₂ (Answers A accepts) s.sent handled ∧ socket.receive A = .ok none := by
  have hsent := sent_of_reach h
  have hbodies : (sender T).Reach Sender.SendsBodies s := h.mono fun {s a} ha ↦ by
    cases a with
    | call t msgType msg =>
        obtain ⟨request, hvalid, -, hrequest⟩ := ha
        exact (Request.send_spec hA hvalid hrequest).2.1
    | lock t => trivial
    | write t => trivial
    | unlock t => trivial
  have hinv := Sender.inv_of_reach hbodies
  have hstream := hinv.stream
  rw [Sender.pending_of_none hlock, List.append_nil] at hstream
  obtain ⟨msgs, socket, hall, hhandled, hnone⟩ :=
    Sender.receiveAll_sent hA hinv.sent (.inl rfl) chunk
  rw [List.append_nil, ← hstream] at hall
  have hone : ∀ m msg, Requested A accepts m ∧ Sender.Handled A m msg →
      ∃ handled, handleMessage A initHandlers accepts msg = .ok handled ∧
        Answers A accepts m handled := by
    rintro m ⟨msgType, msg⟩ ⟨⟨request, hvalid, haccepted, hrequest⟩, ⟨htype, hwf, hbytes⟩, clone,
      hclone, hcwf, hcbytes⟩
    obtain ⟨hmtype, -, hmbytes⟩ := Request.send_spec hA hvalid hrequest
    obtain rfl : msgType = request.msgType := htype.trans hmtype
    have hbody : msg.bytes = request.body := hbytes.trans hmbytes
    exact ⟨_, request.handleMessage_spec hA hvalid haccepted hwf hbody, request, hrequest, rfl,
      _, hclone, request.handleMessage_spec hA hvalid haccepted hcwf (hcbytes.trans hbody)⟩
  obtain ⟨handled, hmap, hanswers⟩ :=
    Except.exists_mapM_of_forall₂ hone ((List.forall₂_and_left s.sent msgs).mpr ⟨hsent, hhandled⟩)
  refine ⟨handled, socket, ?_, hanswers, hnone⟩
  simp only [listen, hall, hmap, bind, Except.bind, pure, Except.pure]

/-- Only messages of the list are sent. -/
def SendsListed {T : Type*} (msgs : List (UInt32 × Message)) (_ : Sender T) :
    Sender.Action T → Prop
  | .call _ msgType msg => (msgType, msg) ∈ msgs
  | _ => True

instance {T : Type*} (msgs : List (UInt32 × Message)) (s : Sender T) :
    (a : Sender.Action T) → Decidable (SendsListed msgs s a)
  | .call _ _ _ => inferInstanceAs (Decidable (_ ∈ _))
  | .lock _ => .isTrue trivial
  | .write _ => .isTrue trivial
  | .unlock _ => .isTrue trivial

/-- An up call and the answer to a `GET`. -/
def upCallAndReply : List (UInt32 × Message) :=
  [Request.upCall [106] 7 none, .getReply 5 1].filterMap fun request ↦
    (request.send .zeroed).toOption

theorem requested_upCallAndReply :
    ∀ m ∈ upCallAndReply, Requested .zeroed (fun _ ↦ true) m := by
  intro m hm
  obtain ⟨request, hrequest, hsend⟩ := List.mem_filterMap.mp hm
  refine ⟨request, ?_, ?_, ?_⟩
  · rcases List.mem_cons.mp hrequest with rfl | hrequest
    · exact ⟨⟨by decide, nofun⟩, by decide⟩
    · obtain rfl := List.mem_singleton.mp hrequest
      exact ⟨trivial, by decide⟩
  · rcases List.mem_cons.mp hrequest with rfl | hrequest
    · trivial
    · obtain rfl := List.mem_singleton.mp hrequest
      trivial
  · cases hresult : request.send .zeroed with
    | error fault =>
        rw [hresult] at hsend
        cases hsend
    | ok m' =>
        rw [hresult] at hsend
        exact congrArg Except.ok (Option.some.inj hsend)

/-- One thread makes an up call while another answers a `GET`. -/
theorem answers_of_reach_two_threads :
    ∃ s : Sender Bool, s.sent = upCallAndReply.reverse ∧ ∀ chunk, ∃ handled socket,
      listen .zeroed initHandlers (fun _ ↦ true) s.sent.length ⟨s.stream, chunk⟩ =
        .ok (handled, socket) ∧
      List.Forall₂ (Answers .zeroed fun _ ↦ true) s.sent handled := by
  let call (t : Bool) (i : ℕ) : Sender.Action Bool :=
    .call t (upCallAndReply.getD i (0, .ofBytes [])).1 (upCallAndReply.getD i (0, .ofBytes [])).2
  obtain ⟨s, hs, hend⟩ := (sender Bool).exists_reach_of_exec (SendsListed upCallAndReply)
    [call false 0, call true 1, .lock true, .write true, .write true, .write true, .unlock true,
      .lock false, .write false, .write false, .write false, .unlock false]
    (fun s ↦ s.sendLock.isNone && s.sent == upCallAndReply.reverse) (by decide +kernel)
  obtain ⟨hlock, hsent⟩ : s.sendLock = none ∧ s.sent = upCallAndReply.reverse := by
    simpa using hend
  have hreach : (sender Bool).Reach (SendsRequests .zeroed fun _ ↦ true) s :=
    hs.mono fun {s a} ha ↦ by
      cases a with
      | call t msgType msg => exact requested_upCallAndReply _ ha
      | lock t => trivial
      | write t => trivial
      | unlock t => trivial
  refine ⟨s, hsent, fun chunk ↦ ?_⟩
  obtain ⟨handled, socket, hlisten, hall, -⟩ :=
    answers_of_reach Allocator.zeroed_succeeds hreach hlock chunk
  exact ⟨handled, socket, hlisten, hall⟩

end Runs

end Edsm.Proto
