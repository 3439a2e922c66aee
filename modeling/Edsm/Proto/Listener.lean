import Edsm.Library.Reachability
import Edsm.Proto.Handshake
import Mathlib.Logic.Function.Basic

/-!
# The two threads of a joining node

The main thread runs `edsm_proto_group_join`, the listener thread `listen_thread`,
and both read frames from the sockets of the same table.  To read a frame is one
step.
-/

namespace Edsm.Proto.Listener

abbrev Frame := UInt32 × List UInt8

/-- Who reads a frame: `read_and_handle_init_response` or `listen_thread`. -/
inductive Reader
  | handshake
  | listener
  deriving DecidableEq

/-- Where the main thread is; `listed` tells whether the peer is an entry of the table. -/
inductive Main
  | idle
  /-- `sock_fd` is set, and the init message is not sent yet. -/
  | sending (peer : PeerInformation) (listed : Bool) (fd : Fd)
  /-- In `read_and_handle_init_response`. -/
  | waiting (peer : PeerInformation) (listed : Bool) (fd : Fd)
  /-- In `connect_to_new_peers`, or through with it. -/
  | connecting
  /-- `edsm_proto_group_join` has failed. -/
  | failed

namespace Main

/-- The socket on which the main thread is in a handshake. -/
def socket : Main → Option Fd
  | sending _ _ fd | waiting _ _ fd => some fd
  | idle | connecting | failed => none

/-- The socket of the node given to `edsm_proto_group_join`, which is not in the table yet. -/
def entrySocket : Main → Option Fd
  | sending _ false fd | waiting _ false fd => some fd
  | sending _ true _ | waiting _ true _ | idle | connecting | failed => none

/-- The socket to which nothing has been sent yet. -/
def silentSocket : Main → Option Fd
  | sending _ _ fd => some fd
  | waiting .. | idle | connecting | failed => none

/-- The socket of an entry of the table on which the response is awaited. -/
def exposedSocket : Main → Option Fd
  | waiting _ true fd => some fd
  | waiting _ false _ | sending .. | idle | connecting | failed => none

/-- The socket on which the response is awaited. -/
def waitingSocket : Main → Option Fd
  | waiting _ _ fd => some fd
  | sending .. | idle | connecting | failed => none

end Main

/-- Where the listener thread is. -/
inductive Listen
  /-- At the top of the loop. -/
  | building
  /-- In `pselect`, with these descriptors in `read_set`. -/
  | selecting (set : List Fd)
  /-- In `handle_new_connection`. -/
  | accepting (ready : List Fd)
  /-- In the loop over the table, at a position. -/
  | scanning (ready : List Fd) (pos : ℕ)

namespace Listen

def selected : Listen → List Fd
  | selecting set => set
  | building | accepting _ | scanning .. => []

/-- What `pselect` has left in `read_set`. -/
def ready : Listen → List Fd
  | accepting ready | scanning ready _ => ready
  | building | selecting _ => []

end Listen

/-- `owing` are the sockets on which the other side has still to respond, `used` are the descriptors
that have been returned so far, and `reads` records the reads of the two threads. -/
structure State where
  myId : UInt32
  peers : List PeerInformation
  main : Main
  listen : Listen
  incoming : Fd → List Frame
  owing : List Fd
  used : List Fd
  reads : List (Reader × Fd × UInt32)

inductive Action
  | join (addr : SockAddr) (fd : Fd)
  | send
  | respond
  | connect (fd : Fd)
  | build
  | wake (newConnection : Bool)
  | accept (fd : Fd) (addr : SockAddr) (msg : Frame)
  | scan
  | arrive (fd : Fd) (frame : Frame)

namespace State

/-- The first frame is taken from a socket. -/
def take (s : State) (reader : Reader) (fd : Fd) (frame : Frame) (rest : List Frame) : State :=
  { s with
    incoming := Function.update s.incoming fd rest
    reads := (reader, fd, frame.1) :: s.reads }

/-- The call of `peer_connect` by `edsm_proto_group_join`, up to the result of `connect`. -/
def stepJoin (s : State) (addr : SockAddr) (fd : Fd) : Option State :=
  match s.main with
  | .idle =>
      if fd ∈ s.used then none
      else
        let peer := { initializePeer with sockFd := some fd, addr }
        some { s with myId := 0, main := .sending peer false fd, used := fd :: s.used }
  | .sending .. | .waiting .. | .connecting | .failed => none

def stepSend (s : State) : Option State :=
  match s.main with
  | .sending peer listed fd =>
      some { s with main := .waiting peer listed fd, owing := fd :: s.owing }
  | .idle | .waiting .. | .connecting | .failed => none

/-- `read_and_handle_init_response` -/
def stepRespond (s : State) : Option State :=
  match s.main with
  | .waiting peer _ fd =>
      match s.incoming fd with
      | [] => none
      | frame :: rest =>
          match readAndHandleInitResponse s.myId peer s.peers frame with
          | .ok (some (myId, _, peers)) =>
              some { s.take .handshake fd frame rest with myId, peers, main := .connecting }
          | .ok none | .error _ => some { s.take .handshake fd frame rest with main := .failed }
  | .idle | .sending .. | .connecting | .failed => none

/-- The call of `peer_connect` for the first peer without a socket, up to the result of
`connect`. -/
def stepConnect (s : State) (fd : Fd) : Option State :=
  match s.main, s.peers.find? (·.sockFd = none) with
  | .connecting, some peer =>
      if fd ∈ s.used then none
      else
        let peer := { peer with sockFd := some fd }
        some { s with
          peers := s.peers.map fun t ↦ if t.id = peer.id then peer else t
          main := .sending peer true fd
          used := fd :: s.used }
  | _, _ => none

/-- `fdset_add_peers`; the descriptor -1 adds nothing. -/
def stepBuild (s : State) : Option State :=
  match s.listen with
  | .building => some { s with listen := .selecting (s.peers.filterMap PeerInformation.sockFd) }
  | .selecting _ | .accepting _ | .scanning .. => none

/-- `pselect` returns. -/
def stepWake (s : State) (newConnection : Bool) : Option State :=
  match s.listen with
  | .selecting set =>
      let ready := set.filter fun fd ↦ s.incoming fd ≠ []
      some { s with listen := if newConnection then .accepting ready else .scanning ready 0 }
  | .building | .accepting _ | .scanning .. => none

/-- `handle_new_connection`, unless its assertion fails. -/
def stepAccept (s : State) (fd : Fd) (addr : SockAddr) (msg : Frame) : Option State :=
  match s.listen with
  | .accepting ready =>
      if fd ∈ s.used then none
      else
        match readAndHandleInitMessage s.myId s.peers
          { initializePeer with sockFd := some fd, addr } msg with
        | .error _ => none
        | .ok none => some { s with listen := .scanning ready 0 }
        | .ok (some (peer, _)) =>
            match hashFind s.peers peer.id with
            | some _ => none
            | none => some { s with
                listen := .scanning ready 0
                peers := s.peers ++ [peer]
                used := fd :: s.used }
  | .building | .selecting _ | .scanning .. => none

/-- One round of the loop over the table; the next entry is taken before the frame is handled. -/
def stepScan (s : State) : Option State :=
  match s.listen with
  | .scanning ready pos =>
      match s.peers[pos]? with
      | none => some { s with listen := .building }
      | some peer =>
          let next := if pos + 1 = s.peers.length then .building else .scanning ready (pos + 1)
          match peer.sockFd.filter (· ∈ ready) with
          | none => some { s with listen := next }
          | some fd =>
              match s.incoming fd with
              | [] => none
              | frame :: rest => some { s.take .listener fd frame rest with listen := next }
  | .building | .selecting _ | .accepting _ => none

/-- A frame comes.  The other side sends its response to the init message before anything else,
because it enters this node into its table after that, and it sends one response. -/
def stepArrive (s : State) (fd : Fd) (frame : Frame) : Option State :=
  if fd ∈ s.used ∧ s.main.silentSocket ≠ some fd ∧
    (fd ∈ s.owing ↔ frame.1 = msgTypeProtoInit) then
    some { s with
      incoming := Function.update s.incoming fd (s.incoming fd ++ [frame])
      owing := s.owing.filter (· ≠ fd) }
  else none

def step (s : State) : Action → Option State
  | .join addr fd => s.stepJoin addr fd
  | .send => s.stepSend
  | .respond => s.stepRespond
  | .connect fd => s.stepConnect fd
  | .build => s.stepBuild
  | .wake newConnection => s.stepWake newConnection
  | .accept fd addr msg => s.stepAccept fd addr msg
  | .scan => s.stepScan
  | .arrive fd frame => s.stepArrive fd frame

/-- Responses are what the handshake reads, and the only frames that it reads. -/
def Delivered (s : State) : Prop :=
  ∀ reader fd msgType, (reader, fd, msgType) ∈ s.reads →
    (msgType = msgTypeProtoInit ↔ reader = .handshake)

/-- `pselect` does not report the socket of a listed peer on which the main thread waits for the
response. -/
def Timely (s : State) : Action → Prop
  | .wake _ => ∀ fd ∈ s.main.exposedSocket, fd ∈ s.listen.selected → s.incoming fd = []
  | .join .. | .send | .respond | .connect _ | .build | .accept .. | .scan | .arrive .. => True

end State

/-- A process that has started its listener. -/
def system : LabelledSystem State Action where
  init :=
    { myId := 1, peers := [], main := .idle, listen := .building, incoming := fun _ ↦ []
      owing := [], used := [], reads := [] }
  step := State.step

namespace State

variable {s s' : State} {fd : Fd}

/-- The response is the first frame on its socket, and the listener has not selected the socket. -/
structure Inv (s : State) : Prop where
  peersUsed : ∀ t ∈ s.peers, ∀ fd, t.sockFd = some fd → fd ∈ s.used
  selectedUsed : ∀ fd ∈ s.listen.selected, fd ∈ s.used
  readyUsed : ∀ fd ∈ s.listen.ready, fd ∈ s.used
  socketUsed : ∀ fd, s.main.socket = some fd → fd ∈ s.used
  peerFd : ∀ peer listed fd, s.main = .sending peer listed fd ∨ s.main = .waiting peer listed fd →
    peer.sockFd = some fd
  apart : ∀ fd, s.main.socket = some fd → fd ∉ s.listen.ready
  hidden : ∀ fd, s.main.entrySocket = some fd →
    fd ∉ s.listen.selected ∧ ∀ t ∈ s.peers, t.sockFd ≠ some fd
  owing : ∀ fd ∈ s.owing, s.main.waitingSocket = some fd
  silent : ∀ fd, s.main.silentSocket = some fd → s.incoming fd = []
  awaited : ∀ fd, s.main.waitingSocket = some fd → fd ∈ s.owing ∧ s.incoming fd = [] ∨
    fd ∉ s.owing ∧ ∃ frame rest, s.incoming fd = frame :: rest ∧
      frame.1 = msgTypeProtoInit ∧ ∀ f ∈ rest, f.1 ≠ msgTypeProtoInit
  quiet : ∀ fd, s.main.socket ≠ some fd → ∀ f ∈ s.incoming fd, f.1 ≠ msgTypeProtoInit
  unused : ∀ fd, fd ∉ s.used → s.incoming fd = []
  delivered : s.Delivered

theorem inv_init : Inv system.init := by
  constructor <;> simp [system, Listen.selected, Listen.ready, Main.socket, Main.entrySocket,
    Main.silentSocket, Main.waitingSocket, Delivered]

theorem Main.waitingSocket_of_socket {main : Main} (h : main.socket = none) :
    main.waitingSocket = none := by
  cases main with
  | sending | waiting => cases h
  | idle | connecting | failed => rfl

theorem Inv.owing_eq_nil (h : s.Inv) (hmain : s.main.waitingSocket = none) : s.owing = [] := by
  refine List.eq_nil_iff_forall_not_mem.mpr fun fd hfd ↦ ?_
  rw [h.owing fd hfd] at hmain
  cases hmain

theorem Inv.dial (h : s.Inv) (hmain : s.main.socket = none) (hfresh : fd ∉ s.used)
    {peer : PeerInformation} {listed : Bool} {peers : List PeerInformation} {myId : UInt32}
    (hpeer : peer.sockFd = some fd)
    (hpeers : ∀ t ∈ peers, t ∈ s.peers ∨ listed = true ∧ t.sockFd = some fd) :
    Inv { s with myId, peers, main := .sending peer listed fd, used := fd :: s.used } := by
  have hold : ∀ t ∈ s.peers, t.sockFd ≠ some fd :=
    fun t ht heq ↦ hfresh (h.peersUsed t ht fd heq)
  have howing := h.owing_eq_nil (Main.waitingSocket_of_socket hmain)
  refine ⟨fun t ht fd' hfd' ↦ ?_, fun fd' hfd' ↦ List.mem_cons_of_mem _ (h.selectedUsed fd' hfd'),
    fun fd' hfd' ↦ List.mem_cons_of_mem _ (h.readyUsed fd' hfd'), fun fd' hfd' ↦ ?_,
    fun peer' listed' fd' heq ↦ ?_, fun fd' hfd' hready ↦ ?_, fun fd' hfd' ↦ ?_,
    fun fd' hfd' ↦ ?_, fun fd' hfd' ↦ ?_, fun fd' hfd' ↦ ?_, fun fd' _ ↦ ?_, fun fd' hfd' ↦ ?_,
    h.delivered⟩
  · rcases hpeers t ht with ht | ⟨-, heq⟩
    · exact List.mem_cons_of_mem _ (h.peersUsed t ht fd' hfd')
    · exact Option.some.inj (heq.symm.trans hfd') ▸ List.mem_cons_self
  · exact Option.some.inj hfd' ▸ List.mem_cons_self
  · rcases heq with heq | heq
    · obtain ⟨rfl, -, rfl⟩ := Main.sending.inj heq
      exact hpeer
    · cases heq
  · exact hfresh (h.readyUsed fd (Option.some.inj hfd' ▸ hready))
  · cases listed with
    | true => cases hfd'
    | false =>
        obtain rfl := Option.some.inj hfd'
        refine ⟨fun hselected ↦ hfresh (h.selectedUsed _ hselected), fun t ht ↦ ?_⟩
        rcases hpeers t ht with ht | ⟨hlisted, -⟩
        · exact hold t ht
        · cases hlisted
  · simp [howing] at hfd'
  · exact Option.some.inj hfd' ▸ h.unused fd hfresh
  · cases hfd'
  · exact h.quiet fd' (by rw [hmain]; exact (Option.some_ne_none fd').symm)
  · exact h.unused fd' fun hused ↦ hfd' (List.mem_cons_of_mem _ hused)

theorem inv_join (h : s.Inv) {addr : SockAddr} (hst : s.stepJoin addr fd = some s') : s'.Inv := by
  rw [stepJoin] at hst
  cases hmain : s.main with
  | idle =>
      simp only [hmain] at hst
      split at hst
      · cases hst
      · next hfresh =>
          obtain rfl := Option.some.inj hst
          exact h.dial (by rw [hmain, Main.socket]) hfresh rfl fun t ht ↦ .inl ht
  | sending | waiting | connecting | failed => simp [hmain] at hst

theorem inv_connect (h : s.Inv) (hst : s.stepConnect fd = some s') : s'.Inv := by
  rw [stepConnect] at hst
  split at hst
  · next peer hmain hfind =>
      split at hst
      · cases hst
      · next hfresh =>
          obtain rfl := Option.some.inj hst
          refine h.dial (by rw [hmain, Main.socket]) hfresh rfl fun t ht ↦ ?_
          obtain ⟨u, hu, rfl⟩ := List.mem_map.mp ht
          split
          · exact .inr ⟨rfl, rfl⟩
          · exact .inl hu
  · cases hst

theorem inv_send (h : s.Inv) (hst : s.stepSend = some s') : s'.Inv := by
  rw [stepSend] at hst
  cases hmain : s.main with
  | sending peer listed fd =>
      simp only [hmain] at hst
      obtain rfl := Option.some.inj hst
      have howing := h.owing_eq_nil (by rw [hmain, Main.waitingSocket])
      refine ⟨h.peersUsed, h.selectedUsed, h.readyUsed, fun fd' hfd' ↦ ?_,
        fun peer' listed' fd' heq ↦ ?_, fun fd' hfd' ↦ ?_, fun fd' hfd' ↦ ?_, fun fd' hfd' ↦ ?_,
        fun fd' hfd' ↦ ?_, fun fd' hfd' ↦ ?_, fun fd' hfd' ↦ ?_, h.unused, h.delivered⟩
      · exact h.socketUsed fd' (by rw [hmain]; exact hfd')
      · rcases heq with heq | heq
        · cases heq
        · obtain ⟨rfl, rfl, rfl⟩ := Main.waiting.inj heq
          exact h.peerFd _ _ _ (.inl hmain)
      · exact h.apart fd' (by rw [hmain]; exact hfd')
      · refine h.hidden fd' ?_
        rw [hmain]
        cases listed with
        | true => cases hfd'
        | false => exact hfd'
      · obtain rfl : fd' = fd := by simpa [howing] using hfd'
        rfl
      · cases hfd'
      · obtain rfl := Option.some.inj hfd'
        exact .inl ⟨List.mem_cons_self, h.silent fd (by rw [hmain, Main.silentSocket])⟩
      · exact h.quiet fd' (by rw [hmain]; exact hfd')
  | idle | waiting | connecting | failed => simp [hmain] at hst

/-- A frame is taken from a socket that is not in a handshake any more. -/
theorem Delivered.take (h : s.Delivered) {reader : Reader} {frame : Frame} (rest : List Frame)
    (hframe : frame.1 = msgTypeProtoInit ↔ reader = .handshake) :
    (s.take reader fd frame rest).Delivered := by
  intro reader' fd' msgType hmem
  rcases List.mem_cons.mp hmem with heq | hmem
  · obtain ⟨rfl, hrest⟩ := Prod.mk.inj heq
    obtain ⟨-, rfl⟩ := Prod.mk.inj hrest
    exact hframe
  · exact h reader' fd' msgType hmem

theorem Inv.handshake (h : s.Inv) {peer : PeerInformation} {listed : Bool} {main : Main}
    {frame : Frame} {rest : List Frame} {peers : List PeerInformation} {myId : UInt32}
    (hmain : s.main = .waiting peer listed fd) (hincoming : s.incoming fd = frame :: rest)
    (hpeers : ∀ t ∈ peers, t ∈ s.peers ∨ t.sockFd = none ∨ t.sockFd = peer.sockFd)
    (hdone : main = .connecting ∨ main = .failed) :
    Inv { s.take .handshake fd frame rest with myId, peers, main } := by
  have hwaiting : s.main.waitingSocket = some fd := by rw [hmain, Main.waitingSocket]
  have hsocket : s.main.socket = some fd := by rw [hmain, Main.socket]
  obtain ⟨hnotOwing, hframe, hrest⟩ : fd ∉ s.owing ∧ frame.1 = msgTypeProtoInit ∧
      ∀ f ∈ rest, f.1 ≠ msgTypeProtoInit := by
    rcases h.awaited fd hwaiting with ⟨-, hnil⟩ | ⟨hnotOwing, frame', rest', heq, hframe, hrest⟩
    · rw [hincoming] at hnil
      cases hnil
    · obtain ⟨rfl, rfl⟩ := List.cons.inj (hincoming.symm.trans heq)
      exact ⟨hnotOwing, hframe, hrest⟩
  have hnone : main.socket = none ∧ main.entrySocket = none ∧ main.silentSocket = none ∧
      main.waitingSocket = none := by
    rcases hdone with rfl | rfl <;> exact ⟨rfl, rfl, rfl, rfl⟩
  obtain ⟨hno, hnoEntry, hnoSilent, hnoWaiting⟩ := hnone
  refine ⟨fun t ht fd' hfd' ↦ ?_, h.selectedUsed, h.readyUsed, fun fd' hfd' ↦ ?_,
    fun peer' listed' fd' heq ↦ ?_, fun fd' hfd' ↦ ?_, fun fd' hfd' ↦ ?_, fun fd' hfd' ↦ ?_,
    fun fd' hfd' ↦ ?_, fun fd' hfd' ↦ ?_, fun fd' _ ↦ ?_, fun fd' hfd' ↦ ?_,
    h.delivered.take rest (iff_of_true hframe rfl)⟩
  · rcases hpeers t ht with ht | hnone | heq
    · exact h.peersUsed t ht fd' hfd'
    · rw [hnone] at hfd'
      cases hfd'
    · rw [heq, h.peerFd _ _ _ (.inr hmain)] at hfd'
      exact Option.some.inj hfd' ▸ h.socketUsed fd hsocket
  · rw [hno] at hfd'
    cases hfd'
  · rcases hdone with rfl | rfl <;> rcases heq with heq | heq <;> cases heq
  · rw [hno] at hfd'
    cases hfd'
  · rw [hnoEntry] at hfd'
    cases hfd'
  · have heq := (h.owing fd' hfd').symm.trans hwaiting
    exact absurd (Option.some.inj heq ▸ hfd') hnotOwing
  · rw [hnoSilent] at hfd'
    cases hfd'
  · rw [hnoWaiting] at hfd'
    cases hfd'
  · by_cases hne : fd' = fd
    · subst hne
      simpa [State.take] using hrest
    · have hquiet := h.quiet fd' (by rw [hsocket]; exact fun heq ↦ hne (Option.some.inj heq).symm)
      simpa [State.take, hne] using hquiet
  · have hne : fd' ≠ fd := fun heq ↦ hfd' (heq ▸ h.socketUsed fd hsocket)
    simpa [State.take, hne] using h.unused fd' hfd'

theorem inv_respond (h : s.Inv) (hst : s.stepRespond = some s') : s'.Inv := by
  rw [stepRespond] at hst
  cases hmain : s.main with
  | waiting peer listed fd =>
      simp only [hmain] at hst
      cases hincoming : s.incoming fd with
      | nil => simp [hincoming] at hst
      | cons frame rest =>
          simp only [hincoming] at hst
          split at hst
          · next hread =>
              obtain rfl := Option.some.inj hst
              exact h.handshake hmain hincoming (mem_readAndHandleInitResponse hread) (.inl rfl)
          · obtain rfl := Option.some.inj hst
            exact h.handshake hmain hincoming (fun t ht ↦ .inl ht) (.inr rfl)
          · obtain rfl := Option.some.inj hst
            exact h.handshake hmain hincoming (fun t ht ↦ .inl ht) (.inr rfl)
  | idle | sending | connecting | failed => simp [hmain] at hst

/-! ## The listener thread -/

theorem Main.socket_of_silent {main : Main} (h : main.silentSocket = some fd) :
    main.socket = some fd := by
  cases main with
  | sending => exact h
  | waiting | idle | connecting | failed => cases h

theorem Main.socket_of_waiting {main : Main} (h : main.waitingSocket = some fd) :
    main.socket = some fd := by
  cases main with
  | waiting => exact h
  | sending | idle | connecting | failed => cases h

theorem Main.socket_of_entry {main : Main} (h : main.entrySocket = some fd) :
    main.socket = some fd := by
  cases main with
  | sending _ listed _ | waiting _ listed _ =>
      cases listed with
      | true => cases h
      | false => exact h
  | idle | connecting | failed => cases h

theorem Inv.setListen (h : s.Inv) {listen : Listen}
    (hselected : ∀ fd ∈ listen.selected, fd ∈ s.used ∧ s.main.entrySocket ≠ some fd)
    (hready : ∀ fd ∈ listen.ready, fd ∈ s.used ∧ s.main.socket ≠ some fd) :
    Inv { s with listen } :=
  { h with
    selectedUsed := fun fd hfd ↦ (hselected fd hfd).1
    readyUsed := fun fd hfd ↦ (hready fd hfd).1
    apart := fun fd hfd hmem ↦ (hready fd hmem).2 hfd
    hidden := fun fd hfd ↦ ⟨fun hmem ↦ (hselected fd hmem).2 hfd, (h.hidden fd hfd).2⟩ }

theorem Inv.ready_spec (h : s.Inv) : ∀ fd ∈ s.listen.ready, fd ∈ s.used ∧ s.main.socket ≠ some fd :=
  fun fd hfd ↦ ⟨h.readyUsed fd hfd, fun heq ↦ h.apart fd heq hfd⟩

theorem inv_build (h : s.Inv) (hst : s.stepBuild = some s') : s'.Inv := by
  rw [stepBuild] at hst
  cases hlisten : s.listen with
  | building =>
      simp only [hlisten] at hst
      obtain rfl := Option.some.inj hst
      refine h.setListen (fun fd hfd ↦ ?_) fun fd hfd ↦ absurd hfd List.not_mem_nil
      obtain ⟨t, ht, heq⟩ := List.mem_filterMap.mp hfd
      exact ⟨h.peersUsed t ht fd heq, fun hentry ↦ (h.hidden fd hentry).2 t ht heq⟩
  | selecting | accepting | scanning => simp [hlisten] at hst

/-- The sockets that are reported have a frame, and no response is awaited there. -/
theorem inv_wake (h : s.Inv) {newConnection : Bool} (ha : s.Timely (.wake newConnection))
    (hst : s.stepWake newConnection = some s') : s'.Inv := by
  rw [stepWake] at hst
  cases hlisten : s.listen with
  | selecting set =>
      simp only [hlisten] at hst
      obtain rfl := Option.some.inj hst
      have hready : ∀ fd ∈ set.filter (fun fd ↦ s.incoming fd ≠ []),
          fd ∈ s.used ∧ s.main.socket ≠ some fd := by
        intro fd hfd
        obtain ⟨hset, hframe⟩ := List.mem_filter.mp hfd
        have hselected : fd ∈ s.listen.selected := by rwa [hlisten]
        have hframe' : s.incoming fd ≠ [] := by simpa using hframe
        refine ⟨h.selectedUsed fd hselected, fun hsocket ↦ ?_⟩
        cases hmain : s.main with
        | sending peer listed fd' =>
            rw [hmain] at hsocket
            exact hframe' (h.silent fd (by rw [hmain]; exact hsocket))
        | waiting peer listed fd' =>
            rw [hmain] at hsocket
            cases listed with
            | true => exact hframe' (ha fd (by rw [hmain]; exact hsocket) hselected)
            | false => exact (h.hidden fd (by rw [hmain]; exact hsocket)).1 hselected
        | idle | connecting | failed =>
            rw [hmain] at hsocket
            cases hsocket
      cases newConnection with
      | true => exact h.setListen (fun fd hfd ↦ absurd hfd List.not_mem_nil) hready
      | false => exact h.setListen (fun fd hfd ↦ absurd hfd List.not_mem_nil) hready
  | building | accepting | scanning => simp [hlisten] at hst

theorem sockFd_readAndHandleInitMessage {localId : UInt32} {peers : List PeerInformation}
    {peer peer' : PeerInformation} {msg : Frame} {response : List UInt8}
    (h : readAndHandleInitMessage localId peers peer msg = .ok (some (peer', response))) :
    peer'.sockFd = peer.sockFd := by
  rw [readAndHandleInitMessage] at h
  split at h
  · cases h
  · split at h
    · cases h
    · simp only at h
      split at h
      · cases h
      · simp only [Except.ok.injEq, Option.some.injEq, Prod.mk.injEq] at h
        rw [← h.1]

theorem inv_accept (h : s.Inv) {addr : SockAddr} {msg : Frame}
    (hst : s.stepAccept fd addr msg = some s') : s'.Inv := by
  rw [stepAccept] at hst
  cases hlisten : s.listen with
  | accepting ready =>
      simp only [hlisten] at hst
      have hready : ∀ fd ∈ ready, fd ∈ s.used ∧ s.main.socket ≠ some fd := by
        have hspec := h.ready_spec
        rwa [hlisten] at hspec
      have hscan : Inv { s with listen := .scanning ready 0 } :=
        h.setListen (fun fd hfd ↦ absurd hfd List.not_mem_nil) hready
      split at hst
      · cases hst
      · next hfresh =>
          split at hst
          · cases hst
          · obtain rfl := Option.some.inj hst
            exact hscan
          · next peer response hread =>
              split at hst
              · cases hst
              · obtain rfl := Option.some.inj hst
                have hfd := sockFd_readAndHandleInitMessage hread
                have hmem : ∀ t ∈ s.peers ++ [peer], t ∈ s.peers ∨ t.sockFd = some fd := by
                  intro t ht
                  rcases List.mem_append.mp ht with ht | ht
                  · exact .inl ht
                  · exact .inr (List.mem_singleton.mp ht ▸ hfd)
                exact { hscan with
                  peersUsed := fun t ht fd' hfd' ↦ by
                    rcases hmem t ht with ht | heq
                    · exact List.mem_cons_of_mem _ (h.peersUsed t ht fd' hfd')
                    · exact Option.some.inj (heq.symm.trans hfd') ▸ List.mem_cons_self
                  selectedUsed := fun fd' hfd' ↦ absurd hfd' List.not_mem_nil
                  readyUsed := fun fd' hfd' ↦ List.mem_cons_of_mem _ (hready fd' hfd').1
                  socketUsed := fun fd' hfd' ↦ List.mem_cons_of_mem _ (h.socketUsed fd' hfd')
                  hidden := fun fd' hfd' ↦ ⟨List.not_mem_nil, fun t ht heq ↦ by
                    rcases hmem t ht with ht | heq'
                    · exact (h.hidden fd' hfd').2 t ht heq
                    · obtain rfl := Option.some.inj (heq'.symm.trans heq)
                      exact hfresh (h.socketUsed _ (Main.socket_of_entry hfd'))⟩
                  unused := fun fd' hfd' ↦
                    h.unused fd' fun hused ↦ hfd' (List.mem_cons_of_mem _ hused) }
  | building | selecting | scanning => simp [hlisten] at hst

/-- The listener takes a frame where no handshake is going on. -/
theorem Inv.takeListener (h : s.Inv) {frame : Frame} {rest : List Frame}
    (hfd : s.main.socket ≠ some fd) (hused : fd ∈ s.used)
    (hincoming : s.incoming fd = frame :: rest) : (s.take .listener fd frame rest).Inv := by
  have hquiet := h.quiet fd hfd
  rw [hincoming] at hquiet
  have hother : ∀ fd', s.main.socket = some fd' → (s.take .listener fd frame rest).incoming fd' =
      s.incoming fd' := by
    intro fd' hfd'
    have hne : fd' ≠ fd := fun heq ↦ hfd (heq ▸ hfd')
    simp [take, hne]
  exact { h with
    silent := fun fd' hfd' ↦
      (hother fd' (Main.socket_of_silent hfd')).trans (h.silent fd' hfd')
    awaited := fun fd' hfd' ↦ by
      rw [hother fd' (Main.socket_of_waiting hfd')]
      exact h.awaited fd' hfd'
    quiet := fun fd' hfd' ↦ by
      by_cases hne : fd' = fd
      · subst hne
        simpa [take] using fun f hf ↦ hquiet f (List.mem_cons_of_mem _ hf)
      · simpa [take, hne] using h.quiet fd' hfd'
    unused := fun fd' hfd' ↦ by
      have hne : fd' ≠ fd := fun heq ↦ hfd' (heq ▸ hused)
      simpa [take, hne] using h.unused fd' hfd'
    delivered := h.delivered.take rest
      (iff_of_false (hquiet frame List.mem_cons_self) fun heq ↦ by cases heq) }

theorem inv_scan (h : s.Inv) (hst : s.stepScan = some s') : s'.Inv := by
  rw [stepScan] at hst
  cases hlisten : s.listen with
  | scanning ready pos =>
      simp only [hlisten] at hst
      have hready : ∀ fd ∈ ready, fd ∈ s.used ∧ s.main.socket ≠ some fd := by
        have hspec := h.ready_spec
        rwa [hlisten] at hspec
      have hnext : ∀ {last : Prop} [Decidable last], ∀ fd ∈
          (if last then Listen.building else .scanning ready (pos + 1)).ready,
            fd ∈ s.used ∧ s.main.socket ≠ some fd := by
        intro last _ fd hfd
        split at hfd
        · cases hfd
        · exact hready fd hfd
      have hnone : ∀ {last : Prop} [Decidable last],
          (if last then Listen.building else .scanning ready (pos + 1)).selected = [] := by
        intro last _
        split <;> rfl
      split at hst
      · obtain rfl := Option.some.inj hst
        exact h.setListen (fun fd hfd ↦ absurd hfd List.not_mem_nil)
          fun fd hfd ↦ absurd hfd List.not_mem_nil
      · split at hst
        · obtain rfl := Option.some.inj hst
          exact h.setListen (fun fd hfd ↦ by rw [hnone] at hfd; cases hfd) hnext
        · next fd hfilter =>
            have hmem : fd ∈ ready := by simpa using (Option.filter_eq_some_iff.mp hfilter).2
            obtain ⟨hused, hsocket⟩ := hready fd hmem
            split at hst
            · cases hst
            · next frame rest hincoming =>
                obtain rfl := Option.some.inj hst
                exact (h.takeListener hsocket hused hincoming).setListen
                  (fun fd hfd ↦ by rw [hnone] at hfd; cases hfd) hnext
  | building | selecting | accepting => simp [hlisten] at hst

/-! ## Frames that come -/

theorem inv_arrive (h : s.Inv) {frame : Frame} (hst : s.stepArrive fd frame = some s') :
    s'.Inv := by
  rw [stepArrive] at hst
  split at hst
  · next hguard =>
      obtain ⟨hused, hsilent, howing⟩ := hguard
      obtain rfl := Option.some.inj hst
      have hother : ∀ fd', fd' ≠ fd →
          Function.update s.incoming fd (s.incoming fd ++ [frame]) fd' = s.incoming fd' :=
        fun fd' hne ↦ Function.update_of_ne hne _ _
      exact { h with
        owing := fun fd' hfd' ↦ h.owing fd' (List.mem_of_mem_filter hfd')
        silent := fun fd' hfd' ↦
          (hother fd' fun heq ↦ hsilent (heq ▸ hfd')).trans (h.silent fd' hfd')
        awaited := fun fd' hfd' ↦ by
          by_cases hne : fd' = fd
          · subst hne
            refine .inr ⟨by simp, ?_⟩
            rcases h.awaited fd' hfd' with ⟨hmem, hnil⟩ | ⟨hnot, first, rest, heq, hfirst, hrest⟩
            · exact ⟨frame, [], by simp [hnil], howing.mp hmem, by simp⟩
            · refine ⟨first, rest ++ [frame], by simp [heq], hfirst, fun f hf ↦ ?_⟩
              rcases List.mem_append.mp hf with hf | hf
              · exact hrest f hf
              · obtain rfl := List.mem_singleton.mp hf
                exact fun htype ↦ hnot (howing.mpr htype)
          · simpa [hne] using h.awaited fd' hfd'
        quiet := fun fd' hfd' f hf ↦ by
          by_cases hne : fd' = fd
          · subst hne
            have hf' : f ∈ s.incoming fd' ++ [frame] := by simpa using hf
            rcases List.mem_append.mp hf' with hf | hf
            · exact h.quiet fd' hfd' f hf
            · obtain rfl := List.mem_singleton.mp hf
              exact fun htype ↦ hfd' (Main.socket_of_waiting (h.owing fd' (howing.mpr htype)))
          · exact h.quiet fd' hfd' f (by simpa [hne] using hf)
        unused := fun fd' hfd' ↦
          (hother fd' fun heq ↦ hfd' (heq ▸ hused)).trans (h.unused fd' hfd') }
  · cases hst

theorem inv_step (h : s.Inv) {a : Action} (ha : s.Timely a) (hst : s.step a = some s') :
    s'.Inv := by
  cases a with
  | join addr fd => exact inv_join h hst
  | send => exact inv_send h hst
  | respond => exact inv_respond h hst
  | connect fd => exact inv_connect h hst
  | build => exact inv_build h hst
  | wake newConnection => exact inv_wake h ha hst
  | accept fd addr msg => exact inv_accept h hst
  | scan => exact inv_scan h hst
  | arrive fd frame => exact inv_arrive h hst

end State

/-- In every run in which `pselect` never reports the socket of a listed peer while the main thread
waits for the response there, every response reaches the handshake, and is the first frame that the
handshake reads. -/
theorem delivered_of_timely {s : State} (h : system.Reach State.Timely s) : s.Delivered := by
  have hinv : s.Inv := h.invariant State.Inv State.inv_init
    fun _ hs ha hst ↦ State.inv_step hs ha hst
  exact hinv.delivered

instance (s : State) (a : Action) : Decidable (s.Timely a) :=
  match a with
  | .wake _ => Option.decidableForallMem s.main.exposedSocket
  | .join .. | .send | .respond | .connect _ | .build | .accept .. | .scan | .arrive .. =>
      .isTrue trivial

/-- The response of node 1 to a node that becomes node 3 and has still to connect to node 2. -/
def firstResponse : Frame :=
  (msgTypeProtoInit, Message.word 1 ++ (Message.word 3 ++ peerlist [⟨2, some 9, .zero⟩]))

def listedResponse : Frame := (msgTypeProtoInit, Message.word 2)

/-- The listener selects the socket after the handshake, and takes a message of type 3 from it. -/
theorem delivered_of_timely_two : ∃ s, system.Reach State.Timely s ∧
    s.reads = [(.listener, 5, 3), (.handshake, 5, 1), (.handshake, 4, 1)] ∧ s.Delivered := by
  obtain ⟨s, hs, hend⟩ := system.exists_reach_of_exec State.Timely
    [.join .zero 4, .send, .arrive 4 firstResponse, .respond, .connect 5, .send,
      .arrive 5 listedResponse, .respond, .build, .arrive 5 (3, []), .wake false, .scan]
    (fun s ↦ s.reads == [(.listener, 5, 3), (.handshake, 5, 1), (.handshake, 4, 1)])
    (by decide +kernel)
  exact ⟨s, hs, by simpa using hend, delivered_of_timely hs⟩

/-- The listener selects the socket of the listed peer as soon as it is connected, and takes the
response; the handshake then reads a message of type 3. -/
theorem not_delivered : ∃ s, system.Reachable s ∧ (.listener, 5, msgTypeProtoInit) ∈ s.reads ∧
    (.handshake, 5, 3) ∈ s.reads := by
  obtain ⟨s, hs, hend⟩ := system.exists_reach_of_exec LabelledSystem.anyStep
    [.join .zero 4, .send, .arrive 4 firstResponse, .respond, .connect 5, .build, .send,
      .arrive 5 listedResponse, .wake false, .scan, .arrive 5 (3, []), .respond]
    (fun s ↦ s.reads == [(.handshake, 5, 3), (.listener, 5, 1), (.handshake, 4, 1)])
    (by decide +kernel)
  have hreads : s.reads = [(.handshake, 5, 3), (.listener, 5, 1), (.handshake, 4, 1)] := by
    simpa using hend
  refine ⟨s, hs, ?_, ?_⟩
  · rw [hreads]
    exact List.mem_cons_of_mem _ List.mem_cons_self
  · rw [hreads]
    exact List.mem_cons_self

end Edsm.Proto.Listener
