import Edsm.Library.Channels
import Edsm.Library.Reachability

/-!
# Protocols over byte streams

A protocol exchanges messages over FIFO channels.  On the wire the channels are
streams of bytes: a step appends the frames of its messages whole, and the
listener of a node reads from one stream at a time, some bytes with each call,
until the frame is complete.  A codec whose frames say where they end lets every run on the wire be
seen as a run of the protocol, and the other way round.
-/

namespace Channels

variable {ι μ : Type*} [DecidableEq ι]

/-- The messages to one receiver. -/
def sentTo (sends : List (ι × μ)) (q : ι) : List μ := (sends.filter (·.1 = q)).map Prod.snd

/-- Messages to some receivers, one after the other. -/
def sendAll (net : Channels ι μ) (p : ι) (sends : List (ι × μ)) : Channels ι μ :=
  sends.foldl (fun net m ↦ net.send p m.1 m.2) net

theorem sentTo_cons (m : ι × μ) (sends : List (ι × μ)) (q : ι) :
    sentTo (m :: sends) q = if m.1 = q then m.2 :: sentTo sends q else sentTo sends q := by
  unfold sentTo
  split <;> simp_all

theorem mem_sentTo {sends : List (ι × μ)} {q : ι} {m : μ} :
    m ∈ sentTo sends q ↔ (q, m) ∈ sends := by
  constructor
  · intro hm
    obtain ⟨send, hsend, rfl⟩ := List.mem_map.mp hm
    obtain ⟨hmem, hq⟩ := List.mem_filter.mp hsend
    obtain rfl : send.1 = q := by simpa using hq
    exact hmem
  · intro hm
    exact List.mem_map.mpr ⟨(q, m), List.mem_filter.mpr ⟨hm, by simp⟩, rfl⟩

theorem sendAll_apply (net : Channels ι μ) (p : ι) (sends : List (ι × μ)) (a b : ι) :
    net.sendAll p sends a b = if a = p then net a b ++ sentTo sends b else net a b := by
  induction sends generalizing net with
  | nil => simp [sendAll, sentTo]
  | cons m sends ih =>
      have hrest := ih (net.send p m.1 m.2)
      change (net.send p m.1 m.2).sendAll p sends a b = _
      rw [hrest, send_apply, sentTo_cons]
      by_cases ha : a = p
      · by_cases hb : m.1 = b
        · simp [ha, hb]
        · simp [ha, hb, Ne.symm hb]
      · simp [ha]

theorem multicast_eq_sendAll (net : Channels ι μ) (p : ι) (qs : List ι) (ms : List μ) :
    net.multicast p qs ms = net.sendAll p (ms.flatMap fun m ↦ qs.map fun q ↦ (q, m)) := by
  induction ms generalizing net with
  | nil => rfl
  | cons m ms ih =>
      have hrest := ih (net.sendEach p qs m)
      change (net.sendEach p qs m).multicast p qs ms = _
      rw [hrest]
      simp only [sendAll, sendEach, List.flatMap_cons, List.foldl_append, List.foldl_map]

end Channels

/-- The nodes of a group: their own steps and how they handle a message, with the messages that
these send. -/
structure Protocol (ι σ α μ : Type*) where
  ids : List ι
  init : ι → σ
  act : ι → σ → α → Option (σ × List (ι × μ))
  handle : ι → σ → ι → μ → σ × List (ι × μ)

/-- How a message is written, how many bytes a reader of a part of a frame still waits for, and
what it makes of the whole frame, if anything. -/
structure Codec (μ β ε : Type*) where
  encode : μ → Except ε (List β)
  missing : List β → ℕ
  decode : List β → Except ε (Option μ)

/-- A codec on the messages that are `Valid`.  A frame says where it ends, and what is read back
is the `Same` to the protocol. -/
structure Codec.Frames {μ β ε : Type*} (C : Codec μ β ε) (Valid : μ → Prop) (Same : μ → μ → Prop)
    (bytes : μ → List β) : Prop where
  encode : ∀ m, Valid m → C.encode m = .ok (bytes m)
  ne_nil : ∀ m, Valid m → bytes m ≠ []
  missing_le : ∀ m, Valid m → ∀ got rest, bytes m = got ++ rest → C.missing got ≤ rest.length
  missing_pos : ∀ m, Valid m → ∀ got rest, bytes m = got ++ rest → rest ≠ [] →
    0 < C.missing got
  decode : ∀ m, Valid m → ∃ m', C.decode (bytes m) = .ok (some m') ∧ Same m m'

namespace Codec.Frames

variable {μ β ε : Type*} {C : Codec μ β ε} {Valid : μ → Prop} {Same : μ → μ → Prop}
  {bytes : μ → List β}

theorem missing_bytes (hC : C.Frames Valid Same bytes) {m : μ} (hm : Valid m) :
    C.missing (bytes m) = 0 :=
  Nat.le_zero.mp (hC.missing_le m hm (bytes m) [] (List.append_nil _).symm)

/-- A reader that misses nothing has the whole frame. -/
theorem eq_nil_of_missing (hC : C.Frames Valid Same bytes) {m : μ} (hm : Valid m)
    {got rest : List β} (h : bytes m = got ++ rest) (hmissing : C.missing got = 0) :
    rest = [] := by
  by_contra hne
  have hpos := hC.missing_pos m hm got rest h hne
  omega

/-- No frame is the start of a longer one. -/
theorem eq_nil_of_append (hC : C.Frames Valid Same bytes) {m m' : μ} (hm : Valid m)
    (hm' : Valid m') {rest : List β} (h : bytes m' = bytes m ++ rest) : rest = [] :=
  hC.eq_nil_of_missing hm' h (hC.missing_bytes hm)

/-- A row of frames can be cut in one way only. -/
theorem forall₂_of_flatMap_eq (hC : C.Frames Valid Same bytes) {ms ms' : List μ}
    (hms : ∀ m ∈ ms, Valid m) (hms' : ∀ m ∈ ms', Valid m)
    (h : ms.flatMap bytes = ms'.flatMap bytes) :
    List.Forall₂ (fun m m' ↦ bytes m = bytes m') ms ms' := by
  induction ms generalizing ms' with
  | nil =>
      cases ms' with
      | nil => exact .nil
      | cons m' ms' =>
          rw [List.flatMap_nil, List.flatMap_cons] at h
          have hm' := hms' m' List.mem_cons_self
          exact absurd (List.append_eq_nil_iff.mp h.symm).1 (hC.ne_nil m' hm')
  | cons m ms ih =>
      have hm := hms m List.mem_cons_self
      cases ms' with
      | nil =>
          rw [List.flatMap_nil, List.flatMap_cons] at h
          exact absurd (List.append_eq_nil_iff.mp h).1 (hC.ne_nil m hm)
      | cons m' ms' =>
          have hm' := hms' m' List.mem_cons_self
          rw [List.flatMap_cons, List.flatMap_cons] at h
          have hbytes : bytes m = bytes m' := by
            rcases List.append_eq_append_iff.mp h with ⟨rest, hrest, -⟩ | ⟨rest, hrest, -⟩
            · rw [hrest, hC.eq_nil_of_append hm hm' hrest, List.append_nil]
            · rw [hrest, hC.eq_nil_of_append hm' hm hrest, List.append_nil]
          rw [hbytes] at h
          exact .cons hbytes (ih (fun x hx ↦ hms x (List.mem_cons_of_mem m hx))
            (fun x hx ↦ hms' x (List.mem_cons_of_mem m' hx)) (List.append_cancel_left h))

end Codec.Frames

namespace Protocol

/-! ## Messages -/

structure State (ι σ μ : Type*) where
  node : ι → σ
  net : Channels ι μ

inductive Action (ι α : Type*)
  | act (p : ι) (a : α)
  /-- Node `p` handles the oldest message from `q`. -/
  | deliver (q p : ι)

variable {ι σ α μ : Type*} [DecidableEq ι]

def State.after (s : State ι σ μ) (p : ι) (sent : σ × List (ι × μ)) : State ι σ μ where
  node := Function.update s.node p sent.1
  net := s.net.sendAll p sent.2

def State.takeFrame (s : State ι σ μ) (q p : ι) (rest : List μ) : State ι σ μ :=
  { s with net := s.net.set q p rest }

def step (P : Protocol ι σ α μ) (s : State ι σ μ) : Action ι α → Option (State ι σ μ)
  | .act p a => if p ∈ P.ids then (P.act p (s.node p) a).map (s.after p) else none
  | .deliver q p =>
      if q ∈ P.ids ∧ p ∈ P.ids then
        match s.net q p with
        | [] => none
        | m :: rest => some ((s.takeFrame q p rest).after p (P.handle p (s.node p) q m))
      else none

def system (P : Protocol ι σ α μ) : LabelledSystem (State ι σ μ) (Action ι α) where
  init := { node := P.init, net := .empty }
  step := P.step

/-! ## Bytes -/

/-- The nodes, the bytes on their way, and for each node the peer its listener reads from, with
what it has of the frame. -/
structure Wire (ι σ β : Type*) where
  node : ι → σ
  stream : Channels ι β
  reading : ι → Option (ι × List β)

inductive WireAction (ι α : Type*)
  | act (p : ι) (a : α)
  /-- The listener of `p` finds that there is something to read from `q`. -/
  | select (q p : ι)
  /-- A call of `read` that returns `n + 1` bytes, or as many as are asked for or have come. -/
  | read (p : ι) (n : ℕ)
  /-- The frame is complete. -/
  | handle (p : ι)

variable {β ε : Type*}

def Wire.append (w : Wire ι σ β) (p q : ι) (bytes : List β) : Wire ι σ β :=
  { w with stream := w.stream.set p q (w.stream p q ++ bytes) }

/-- Node `p` writes the frames of its messages. -/
def Wire.write (C : Codec μ β ε) (w : Wire ι σ β) (p : ι) :
    List (ι × μ) → Except ε (Wire ι σ β)
  | [] => .ok w
  | m :: sends =>
      (C.encode m.2).bind fun bytes ↦ (w.append p m.1 bytes).write C p sends

def Wire.after (C : Codec μ β ε) (w : Wire ι σ β) (p : ι) (sent : σ × List (ι × μ)) :
    Except ε (Wire ι σ β) :=
  Wire.write C { w with node := Function.update w.node p sent.1 } p sent.2

def Wire.moveTo (w : Wire ι σ β) (p : ι) (reading : Option (ι × List β)) : Wire ι σ β :=
  { w with reading := Function.update w.reading p reading }

/-- A frame that nobody handles is dropped. -/
def wireStep (P : Protocol ι σ α μ) (C : Codec μ β ε) (w : Wire ι σ β) :
    WireAction ι α → Option (Except ε (Wire ι σ β))
  | .act p a => if p ∈ P.ids then (P.act p (w.node p) a).map (w.after C p) else none
  | .select q p =>
      if q ∈ P.ids ∧ p ∈ P.ids ∧ (w.reading p).isNone ∧ ¬ (w.stream q p).isEmpty then
        some (.ok (w.moveTo p (some (q, []))))
      else none
  | .read p n =>
      match w.reading p with
      | none => none
      | some (q, got) =>
          if C.missing got = 0 ∨ (w.stream q p).isEmpty then none
          else
            let k := min (C.missing got) (n + 1)
            some (.ok (Wire.moveTo
              { w with stream := w.stream.set q p ((w.stream q p).drop k) } p
              (some (q, got ++ (w.stream q p).take k))))
  | .handle p =>
      match w.reading p with
      | none => none
      | some (q, got) =>
          if C.missing got = 0 then
            some ((C.decode got).bind fun
              | none => .ok (w.moveTo p none)
              | some m => (w.moveTo p none).after C p (P.handle p (w.node p) q m))
          else none

/-- After a fault there are no more steps. -/
def wire (P : Protocol ι σ α μ) (C : Codec μ β ε) :
    LabelledSystem (Except ε (Wire ι σ β)) (WireAction ι α) where
  init := .ok { node := P.init, stream := .empty, reading := fun _ ↦ none }
  step
    | .ok w, a => P.wireStep C w a
    | .error _, _ => none

/-! ## The wire carries the messages -/

/-- The protocol sends messages of one kind and does not tell the same ones apart. -/
structure Uses (P : Protocol ι σ α μ) (Valid : μ → Prop) (Same : μ → μ → Prop) : Prop where
  act : ∀ p nd a sent, P.act p nd a = some sent → ∀ m ∈ sent.2, Valid m.2
  handle : ∀ p nd q m, Valid m → ∀ m' ∈ (P.handle p nd q m).2, Valid m'.2
  handle_congr : ∀ p nd q m m', Same m m' → P.handle p nd q m' = P.handle p nd q m

/-- What the listener of `p` has of a frame of `q`. -/
def Wire.collected (w : Wire ι σ β) (q p : ι) : List β :=
  match w.reading p with
  | none => []
  | some (r, got) => if r = q then got else []

/-- The streams hold the frames of the messages on their way, less what the listeners have read
already. -/
structure Carries (P : Protocol ι σ α μ) (Valid : μ → Prop) (bytes : μ → List β)
    (w : Wire ι σ β) (s : State ι σ μ) : Prop where
  node : w.node = s.node
  valid : ∀ q p, ∀ m ∈ s.net q p, Valid m
  stream : ∀ q p, w.collected q p ++ w.stream q p = (s.net q p).flatMap bytes
  reading : ∀ q p got, w.reading p = some (q, got) →
    q ∈ P.ids ∧ p ∈ P.ids ∧ ∃ m rest, s.net q p = m :: rest ∧ got <+: bytes m

/-- The step of the protocol that a step on the wire stands for, if any. -/
def Wire.shadow (w : Wire ι σ β) : WireAction ι α → Option (Action ι α)
  | .act p a => some (.act p a)
  | .handle p => (w.reading p).map fun r ↦ .deliver r.1 p
  | .select _ _ | .read _ _ => none

/-- A condition on the steps of the protocol, as one on the steps of the wire. -/
def OnWire (P : Protocol ι σ α μ) (Valid : μ → Prop) (bytes : μ → List β)
    (ok : State ι σ μ → Action ι α → Prop) (x : Except ε (Wire ι σ β)) (a : WireAction ι α) :
    Prop :=
  ∀ w s, x = .ok w → Carries P Valid bytes w s → ∀ b ∈ w.shadow a, ok s b

variable {P : Protocol ι σ α μ} {C : Codec μ β ε} {Valid : μ → Prop} {Same : μ → μ → Prop}
  {bytes : μ → List β} {w : Wire ι σ β} {s : State ι σ μ}

theorem takeFrame_net (q p : ι) (rest : List μ) (a b : ι) :
    (s.takeFrame q p rest).net a b = if a = q ∧ b = p then rest else s.net a b := rfl

theorem Wire.collected_of_reading {q p : ι} {got : List β} (h : w.reading p = some (q, got)) :
    w.collected q p = got := by
  simp [Wire.collected, h]

theorem Wire.collected_of_none {p : ι} (h : w.reading p = none) (q : ι) :
    w.collected q p = [] := by
  simp [Wire.collected, h]

theorem Wire.collected_of_ne {q r p : ι} {got : List β} (h : w.reading p = some (r, got))
    (hq : q ≠ r) : w.collected q p = [] := by
  simp [Wire.collected, h, Ne.symm hq]

theorem Wire.collected_congr {w' : Wire ι σ β} {p : ι} (h : w'.reading p = w.reading p) (q : ι) :
    w'.collected q p = w.collected q p := by
  simp only [Wire.collected, h]

theorem Wire.moveTo_reading_self (p : ι) (reading : Option (ι × List β)) :
    (w.moveTo p reading).reading p = reading := by
  simp [Wire.moveTo]

theorem Wire.moveTo_reading_of_ne {p x : ι} (reading : Option (ι × List β)) (h : x ≠ p) :
    (w.moveTo p reading).reading x = w.reading x := by
  simp [Wire.moveTo, h]

/-- Every frame gets to the end of its stream. -/
theorem write_spec (hC : C.Frames Valid Same bytes) (w : Wire ι σ β) (p : ι)
    {sends : List (ι × μ)} (hvalid : ∀ m ∈ sends, Valid m.2) :
    ∃ w', w.write C p sends = .ok w' ∧ w'.node = w.node ∧ w'.reading = w.reading ∧
      ∀ a b, w'.stream a b =
        if a = p then w.stream a b ++ (Channels.sentTo sends b).flatMap bytes
        else w.stream a b := by
  induction sends generalizing w with
  | nil => exact ⟨w, rfl, rfl, rfl, fun a b ↦ by simp [Channels.sentTo]⟩
  | cons m sends ih =>
      have hm := hC.encode m.2 (hvalid m List.mem_cons_self)
      obtain ⟨w', hwrite, hnode, hreading, hstream⟩ :=
        ih (w.append p m.1 (bytes m.2)) fun m' hm' ↦ hvalid m' (List.mem_cons_of_mem m hm')
      refine ⟨w', ?_, hnode, hreading, fun a b ↦ ?_⟩
      · rw [Wire.write, hm]
        exact hwrite
      · rw [hstream, Channels.sentTo_cons]
        by_cases ha : a = p
        · by_cases hb : m.1 = b
          · simp [Wire.append, ha, hb]
          · simp [Wire.append, Channels.set_apply, ha, hb, Ne.symm hb]
        · simp [Wire.append, Channels.set_apply, ha]

theorem Carries.after (hC : C.Frames Valid Same bytes) (h : Carries P Valid bytes w s) (p : ι)
    {sent : σ × List (ι × μ)} (hvalid : ∀ m ∈ sent.2, Valid m.2) :
    ∃ w', w.after C p sent = .ok w' ∧ w'.reading = w.reading ∧
      Carries P Valid bytes w' (s.after p sent) := by
  obtain ⟨w', hwrite, hnode, hreading, hstream⟩ :=
    write_spec hC { w with node := Function.update w.node p sent.1 } p hvalid
  have hnet : ∀ a b, (s.after p sent).net a b =
      if a = p then s.net a b ++ Channels.sentTo sent.2 b else s.net a b :=
    Channels.sendAll_apply s.net p sent.2
  refine ⟨w', hwrite, hreading, ?_, fun a b m hm ↦ ?_, fun a b ↦ ?_, fun a b got hgot ↦ ?_⟩
  · rw [hnode, h.node]
    rfl
  · rw [hnet] at hm
    split at hm
    · rcases List.mem_append.mp hm with hm | hm
      · exact h.valid a b m hm
      · exact hvalid _ (Channels.mem_sentTo.mp hm)
    · exact h.valid a b m hm
  · have hcollected : w'.collected a b = w.collected a b :=
      Wire.collected_congr (congrFun hreading b) a
    rw [hcollected, hstream, hnet]
    split
    · rw [← List.append_assoc, List.flatMap_append]
      exact congrArg (· ++ _) (h.stream a b)
    · exact h.stream a b
  · rw [hreading] at hgot
    obtain ⟨ha, hb, m, rest, hm, hstart⟩ := h.reading a b got hgot
    refine ⟨ha, hb, m, if a = p then rest ++ Channels.sentTo sent.2 b else rest, ?_, hstart⟩
    rw [hnet, hm]
    split <;> rfl

theorem Carries.select (h : Carries P Valid bytes w s) {q p : ι} (hq : q ∈ P.ids)
    (hp : p ∈ P.ids) (hnone : w.reading p = none) (hstream : w.stream q p ≠ []) :
    Carries P Valid bytes (w.moveTo p (some (q, []))) s := by
  have hframes := h.stream q p
  rw [Wire.collected_of_none hnone, List.nil_append] at hframes
  refine ⟨h.node, h.valid, fun a b ↦ ?_, fun a b got hgot ↦ ?_⟩
  · refine (congrArg (· ++ _) ?_).trans (h.stream a b)
    by_cases hb : b = p
    · subst hb
      rw [Wire.collected_of_none hnone]
      by_cases ha : a = q
      · exact ha ▸ Wire.collected_of_reading (Wire.moveTo_reading_self b _)
      · exact Wire.collected_of_ne (Wire.moveTo_reading_self b _) ha
    · exact Wire.collected_congr (Wire.moveTo_reading_of_ne _ hb) a
  · by_cases hb : b = p
    · subst hb
      rw [Wire.moveTo_reading_self] at hgot
      obtain ⟨rfl, rfl⟩ : q = a ∧ [] = got := by simpa using hgot
      cases hnet : s.net q b with
      | nil =>
          rw [hnet] at hframes
          exact absurd hframes hstream
      | cons m rest => exact ⟨hq, hp, m, rest, rfl, List.nil_prefix⟩
    · rw [Wire.moveTo_reading_of_ne _ hb] at hgot
      exact h.reading a b got hgot

/-- The frame that a listener is reading, cut where it has got to. -/
theorem Carries.exists_cut (h : Carries P Valid bytes w s) {q p : ι} {got : List β}
    (hgot : w.reading p = some (q, got)) :
    q ∈ P.ids ∧ p ∈ P.ids ∧ ∃ m rest cut, s.net q p = m :: rest ∧ Valid m ∧
      bytes m = got ++ cut ∧ w.stream q p = cut ++ rest.flatMap bytes := by
  obtain ⟨hq, hp, m, rest, hnet, cut, hcut⟩ := h.reading q p got hgot
  have hstream := h.stream q p
  rw [Wire.collected_of_reading hgot, hnet, List.flatMap_cons, ← hcut, List.append_assoc] at hstream
  refine ⟨hq, hp, m, rest, cut, hnet, h.valid q p m ?_, hcut.symm, List.append_cancel_left hstream⟩
  rw [hnet]
  exact List.mem_cons_self

/-- The state after a call of `read` that returns `k` bytes. -/
def Wire.take (w : Wire ι σ β) (q p : ι) (got : List β) (k : ℕ) : Wire ι σ β :=
  Wire.moveTo { w with stream := w.stream.set q p ((w.stream q p).drop k) } p
    (some (q, got ++ (w.stream q p).take k))

theorem Wire.take_reading_self (q p : ι) (got : List β) (k : ℕ) :
    (w.take q p got k).reading p = some (q, got ++ (w.stream q p).take k) :=
  Wire.moveTo_reading_self p _

theorem Wire.take_reading_of_ne {p x : ι} (q : ι) (got : List β) (k : ℕ) (h : x ≠ p) :
    (w.take q p got k).reading x = w.reading x :=
  Wire.moveTo_reading_of_ne _ h

theorem Wire.take_stream (q p : ι) (got : List β) (k : ℕ) (a b : ι) :
    (w.take q p got k).stream a b =
      if a = q ∧ b = p then (w.stream q p).drop k else w.stream a b := rfl

theorem Carries.read (hC : C.Frames Valid Same bytes) (h : Carries P Valid bytes w s) {q p : ι}
    {got : List β} (hgot : w.reading p = some (q, got)) {k : ℕ} (hk : k ≤ C.missing got) :
    Carries P Valid bytes (w.take q p got k) s := by
  obtain ⟨hq, hp, m, rest, cut, hnet, hm, hcut, hstream⟩ := h.exists_cut hgot
  have hle : k ≤ cut.length := Nat.le_trans hk (hC.missing_le m hm got cut hcut)
  have htake : (w.stream q p).take k = cut.take k := by
    rw [hstream, List.take_append_of_le_length hle]
  refine ⟨h.node, h.valid, fun a b ↦ ?_, fun a b got' hgot' ↦ ?_⟩
  · by_cases hb : b = p
    · subst hb
      by_cases ha : a = q
      · subst ha
        have hbefore := h.stream a b
        rw [Wire.collected_of_reading hgot] at hbefore
        rw [← hbefore, Wire.collected_of_reading (Wire.take_reading_self a b got k),
          Wire.take_stream, if_pos ⟨rfl, rfl⟩, List.append_assoc, List.take_append_drop]
      · have hbefore := h.stream a b
        rw [Wire.collected_of_ne hgot ha] at hbefore
        rw [← hbefore, Wire.collected_of_ne (Wire.take_reading_self q b got k) ha,
          Wire.take_stream, if_neg fun hab ↦ ha hab.1]
    · rw [← h.stream a b, Wire.collected_congr (Wire.take_reading_of_ne q got k hb) a,
        Wire.take_stream, if_neg fun hab ↦ hb hab.2]
  · by_cases hb : b = p
    · subst hb
      rw [Wire.take_reading_self] at hgot'
      obtain ⟨rfl, rfl⟩ : q = a ∧ got ++ (w.stream q b).take k = got' := by simpa using hgot'
      refine ⟨hq, hp, m, rest, hnet, cut.drop k, ?_⟩
      rw [htake, hcut, List.append_assoc, List.take_append_drop]
    · rw [Wire.take_reading_of_ne q got k hb] at hgot'
      exact h.reading a b got' hgot'

/-- When nothing is missing the frame is complete, and the node does what it would do with the
message. -/
theorem Carries.handle (hC : C.Frames Valid Same bytes) (hP : P.Uses Valid Same)
    (h : Carries P Valid bytes w s) {q p : ι} {got : List β}
    (hgot : w.reading p = some (q, got)) (hmissing : C.missing got = 0) :
    ∃ m' w' s', C.decode got = .ok (some m') ∧
      (w.moveTo p none).after C p (P.handle p (w.node p) q m') = .ok w' ∧
      w'.reading = (w.moveTo p none).reading ∧ P.step s (.deliver q p) = some s' ∧
      Carries P Valid bytes w' s' := by
  obtain ⟨hq, hp, m, rest, cut, hnet, hm, hcut, hstream⟩ := h.exists_cut hgot
  obtain rfl := hC.eq_nil_of_missing hm hcut hmissing
  obtain ⟨m', hdecode, hsame⟩ := hC.decode m hm
  rw [hcut, List.append_nil] at hdecode
  rw [List.nil_append] at hstream
  have htaken : Carries P Valid bytes (w.moveTo p none) (s.takeFrame q p rest) := by
    refine ⟨h.node, fun a b m₁ hm₁ ↦ ?_, fun a b ↦ ?_, fun a b got' hgot' ↦ ?_⟩
    · rw [takeFrame_net] at hm₁
      split at hm₁
      · next hab =>
          refine h.valid a b m₁ ?_
          rw [hab.1, hab.2, hnet]
          exact List.mem_cons_of_mem m hm₁
      · exact h.valid a b m₁ hm₁
    · have hbefore := h.stream a b
      rw [takeFrame_net]
      by_cases hb : b = p
      · subst hb
        rw [Wire.collected_of_none (Wire.moveTo_reading_self b none), List.nil_append]
        by_cases ha : a = q
        · subst ha
          simpa [Wire.moveTo] using hstream
        · rw [Wire.collected_of_ne hgot ha] at hbefore
          simpa [Wire.moveTo, ha] using hbefore
      · rw [if_neg fun hab ↦ hb hab.2, ← hbefore,
          Wire.collected_congr (Wire.moveTo_reading_of_ne none hb) a]
        rfl
    · by_cases hb : b = p
      · subst hb
        rw [Wire.moveTo_reading_self] at hgot'
        cases hgot'
      · rw [Wire.moveTo_reading_of_ne none hb] at hgot'
        obtain ⟨ha, hb', m₁, rest₁, hnet₁, hstart₁⟩ := h.reading a b got' hgot'
        refine ⟨ha, hb', m₁, rest₁, ?_, hstart₁⟩
        rw [takeFrame_net, if_neg fun hab ↦ hb hab.2]
        exact hnet₁
  have hvalid : ∀ m₁ ∈ (P.handle p (w.node p) q m).2, Valid m₁.2 := fun m₁ hm₁ ↦
    hP.handle _ _ _ m hm m₁ hm₁
  obtain ⟨w', hafter, hreading, hw'⟩ := htaken.after hC p hvalid
  refine ⟨m', w', _, hdecode, ?_, hreading, ?_, hw'⟩
  · rw [hP.handle_congr p (w.node p) q m m' hsame]
    exact hafter
  · rw [step, if_pos ⟨hq, hp⟩, hnet, h.node]

/-! ## Runs -/

/-- What a step on the wire does: nothing that the protocol sees, or the step it stands for. -/
theorem Carries.step (hC : C.Frames Valid Same bytes) (hP : P.Uses Valid Same)
    (h : Carries P Valid bytes w s) {a : WireAction ι α} {x : Except ε (Wire ι σ β)}
    (hst : P.wireStep C w a = some x) :
    ∃ w', x = .ok w' ∧ (Carries P Valid bytes w' s ∨
      ∃ b s', w.shadow a = some b ∧ P.step s b = some s' ∧ Carries P Valid bytes w' s') := by
  cases a with
  | act p a =>
      simp only [wireStep] at hst
      split at hst
      · next hp =>
          obtain ⟨sent, hact, rfl⟩ := Option.map_eq_some_iff.mp hst
          obtain ⟨w', hafter, -, hw'⟩ := h.after hC p (hP.act p _ a sent hact)
          refine ⟨w', hafter, .inr ⟨.act p a, _, rfl, ?_, hw'⟩⟩
          rw [Protocol.step, if_pos hp, ← h.node, hact]
          rfl
      · cases hst
  | select q p =>
      obtain ⟨⟨hq, hp, hnone, hstream⟩, rfl⟩ := by simpa [wireStep] using hst
      exact ⟨_, rfl, .inl (h.select hq hp (by simpa using hnone) hstream)⟩
  | read p n =>
      simp only [wireStep] at hst
      split at hst
      · cases hst
      · next q got hgot =>
          split at hst
          · cases hst
          · exact ⟨_, (Option.some.inj hst).symm, .inl (h.read hC hgot (Nat.min_le_left _ _))⟩
  | handle p =>
      simp only [wireStep] at hst
      split at hst
      · cases hst
      · next q got hgot =>
          split at hst
          · next hmissing =>
              obtain ⟨m', w', s', hdecode, hafter, -, hs', hw'⟩ := h.handle hC hP hgot hmissing
              refine ⟨w', ?_, .inr ⟨.deliver q p, s', by simp [Wire.shadow, hgot], hs', hw'⟩⟩
              rw [← Option.some.inj hst, hdecode]
              exact hafter
          · cases hst

theorem carries_init :
    Carries P Valid bytes { node := P.init, stream := .empty, reading := fun _ ↦ none }
      P.system.init := by
  refine ⟨rfl, fun _ _ m hm ↦ ?_, fun _ _ ↦ rfl, fun _ _ _ hgot ↦ ?_⟩
  · cases hm
  · cases hgot

/-- A run on the wire meets no fault, and the protocol has a run with the same nodes, whose
messages on their way are what the streams hold. -/
theorem carries_of_reach (hC : C.Frames Valid Same bytes) (hP : P.Uses Valid Same)
    {ok : State ι σ μ → Action ι α → Prop} {x : Except ε (Wire ι σ β)}
    (h : (P.wire C).Reach (OnWire P Valid bytes ok) x) :
    ∃ w s, x = .ok w ∧ P.system.Reach ok s ∧ Carries P Valid bytes w s := by
  refine h.invariant (fun x ↦ ∃ w s, x = .ok w ∧ P.system.Reach ok s ∧
    Carries P Valid bytes w s) ⟨_, _, rfl, .init, carries_init⟩ ?_
  rintro x a y - ⟨w, s, rfl, hs, hw⟩ ha hst
  obtain ⟨w', rfl, hquiet | ⟨b, s', hb, hs', hw'⟩⟩ := hw.step hC hP hst
  · exact ⟨w', s, rfl, hs, hquiet⟩
  · exact ⟨w', s', rfl, hs.step (ha w s rfl hw b hb) hs', hw'⟩

/-- A call of `read` in the middle of a frame does not wait. -/
theorem Carries.wireStep_read (hC : C.Frames Valid Same bytes) (h : Carries P Valid bytes w s)
    {q p : ι} {got : List β} (hgot : w.reading p = some (q, got)) (hmissing : C.missing got ≠ 0)
    (n : ℕ) :
    P.wireStep C w (.read p n) = some (.ok (w.take q p got (min (C.missing got) (n + 1)))) := by
  obtain ⟨-, -, m, rest, cut, -, hm, hcut, hstream⟩ := h.exists_cut hgot
  have hne : ¬ (w.stream q p).isEmpty := by
    rw [hstream, List.isEmpty_iff, List.append_eq_nil_iff]
    rintro ⟨rfl, -⟩
    exact hmissing (Nat.le_zero.mp (hC.missing_le m hm got [] hcut))
  simp only [wireStep, hgot, if_neg (not_or.mpr ⟨hmissing, hne⟩)]
  rfl

/-- A listener in the middle of a frame reads the rest of it, with nobody else taking a step. -/
theorem exists_read_all (hC : C.Frames Valid Same bytes) (h : Carries P Valid bytes w s) {q p : ι}
    {got : List β} (hgot : w.reading p = some (q, got)) :
    ∃ (ns : List ℕ) (w' : Wire ι σ β) (m : μ) (rest : List μ),
      (P.wire C).exec LabelledSystem.anyStep (.ok w) (ns.map (.read p)) = some (.ok w') ∧
      Carries P Valid bytes w' s ∧ s.net q p = m :: rest ∧ Valid m ∧
      w'.reading p = some (q, bytes m) ∧ ∀ x, x ≠ p → w'.reading x = w.reading x := by
  obtain ⟨-, -, m, rest, cut, hnet, hm, hcut, hstream⟩ := h.exists_cut hgot
  induction hn : cut.length using Nat.strongRecOn generalizing w got cut with
  | _ n ih =>
      subst hn
      by_cases hzero : C.missing got = 0
      · obtain rfl := hC.eq_nil_of_missing hm hcut hzero
        rw [List.append_nil] at hcut
        exact ⟨[], w, m, rest, rfl, h, hnet, hm, hcut ▸ hgot, fun _ _ ↦ rfl⟩
      · -- one call that returns all that is asked for
        set k := C.missing got with hk
        have hle : k ≤ cut.length := hC.missing_le m hm got cut hcut
        have hst := h.wireStep_read hC hgot hzero (k - 1)
        rw [show min (C.missing got) (k - 1 + 1) = k by omega] at hst
        have hgot' : (w.take q p got k).reading p = some (q, got ++ cut.take k) := by
          rw [Wire.take_reading_self, hstream, List.take_append_of_le_length hle]
        have hstream' : (w.take q p got k).stream q p = cut.drop k ++ rest.flatMap bytes := by
          rw [Wire.take_stream, if_pos ⟨rfl, rfl⟩, hstream, List.drop_append_of_le_length hle]
        obtain ⟨ns, w', m', rest', hexec, hs', hnet', hm', hall, hothers⟩ :=
          ih (cut.drop k).length (by rw [List.length_drop]; omega)
            (h.read hC hgot (Nat.le_refl k)) hgot' (cut.drop k)
            (by rw [hcut, List.append_assoc, List.take_append_drop]) hstream' rfl
        refine ⟨(k - 1) :: ns, w', m', rest', ?_, hs', hnet', hm', hall, fun x hx ↦ ?_⟩
        · rw [List.map_cons, LabelledSystem.exec_cons]
          exact Option.bind_eq_some_iff.mpr ⟨_, hst, hexec⟩
        · rw [hothers x hx, Wire.take_reading_of_ne q got k hx]

/-- The condition reads the nodes and the frames, and no more of the messages. -/
def Reads (bytes : μ → List β) (ok : State ι σ μ → Action ι α → Prop) : Prop :=
  ∀ (s s' : State ι σ μ) (a : Action ι α), s'.node = s.node →
    (∀ q p, List.Forall₂ (fun m m' ↦ bytes m = bytes m') (s.net q p) (s'.net q p)) →
    ok s a → ok s' a

/-- The messages that a wire carries are determined up to their frames. -/
theorem Carries.onWire (hC : C.Frames Valid Same bytes) (h : Carries P Valid bytes w s)
    {ok : State ι σ μ → Action ι α → Prop} (hreads : Reads bytes ok) {a : WireAction ι α}
    (hok : ∀ b ∈ w.shadow a, ok s b) : OnWire P Valid bytes ok (.ok w : Except ε _) a := by
  rintro w' s' ⟨⟩ hs' b hb
  refine hreads s s' b (hs'.node.symm.trans h.node) (fun q p ↦ ?_) (hok b hb)
  exact hC.forall₂_of_flatMap_eq (h.valid q p) (hs'.valid q p)
    ((h.stream q p).symm.trans (hs'.stream q p))

/-- Every run of the protocol is that of a run on the wire. -/
theorem exists_wire_of_reach (hC : C.Frames Valid Same bytes) (hP : P.Uses Valid Same)
    {ok : State ι σ μ → Action ι α → Prop} (hreads : Reads bytes ok) (h : P.system.Reach ok s) :
    ∃ w, (P.wire C).Reach (OnWire P Valid bytes ok) (.ok w) ∧ Carries P Valid bytes w s ∧
      ∀ p, w.reading p = none := by
  refine h.invariant (fun s ↦ ∃ w, (P.wire C).Reach (OnWire P Valid bytes ok) (.ok w) ∧
    Carries P Valid bytes w s ∧ ∀ p, w.reading p = none)
    ⟨_, .init, carries_init, fun _ ↦ rfl⟩ ?_
  rintro s b s' - ⟨w, hreach, hw, hquiet⟩ hb hst
  cases b with
  | act p a =>
      obtain ⟨hp, sent, hact, rfl⟩ :
          p ∈ P.ids ∧ ∃ sent, P.act p (s.node p) a = some sent ∧ s.after p sent = s' := by
        simpa only [system, step, Option.ite_none_right_eq_some, Option.map_eq_some_iff] using hst
      obtain ⟨w', hafter, hreading, hw'⟩ := hw.after hC p (hP.act p _ a sent hact)
      have hact' : OnWire P Valid bytes ok (.ok w : Except ε _) (.act p a) :=
        hw.onWire hC hreads fun b' hb' ↦ (Option.some.inj hb') ▸ hb
      refine ⟨w', hreach.step hact' ?_, hw', fun x ↦ ?_⟩
      · change P.wireStep C w (.act p a) = _
        rw [wireStep, if_pos hp, hw.node, hact]
        exact congrArg some hafter
      · rw [hreading, hquiet]
  | deliver q p =>
      have hmem : q ∈ P.ids ∧ p ∈ P.ids := by
        by_contra hno
        simp [system, step, hno] at hst
      obtain ⟨m, rest, hnet⟩ : ∃ m rest, s.net q p = m :: rest := by
        cases hnet : s.net q p with
        | nil => simp [system, step, hnet] at hst
        | cons m rest => exact ⟨m, rest, rfl⟩
      have hm : Valid m := hw.valid q p m (hnet ▸ List.mem_cons_self)
      have hne : w.stream q p ≠ [] := by
        have hframes := hw.stream q p
        rw [Wire.collected_of_none (hquiet p), List.nil_append, hnet, List.flatMap_cons] at hframes
        intro hnil
        rw [hnil] at hframes
        obtain ⟨hbytes, -⟩ := List.append_eq_nil_iff.mp hframes.symm
        exact hC.ne_nil m hm hbytes
      have hselect : P.wireStep C w (.select q p) = some (.ok (w.moveTo p (some (q, [])))) := by
        rw [wireStep, if_pos ⟨hmem.1, hmem.2, by simp [hquiet p], by simpa using hne⟩]
      have hquietly : ∀ (x : Except ε (Wire ι σ β)) (a : WireAction ι α),
          (∀ w : Wire ι σ β, w.shadow a = none) → OnWire P Valid bytes ok x a := by
        intro x a ha w s _ _ b hb
        rw [ha w] at hb
        cases hb
      have hreach₀ := hreach.step (hquietly _ (.select q p) fun _ ↦ rfl) hselect
      obtain ⟨ns, w₁, m₁, -, hexec, hw₁, -, hm₁, hall, hothers⟩ := exists_read_all hC
        (hw.select hmem.1 hmem.2 (hquiet p) hne) (Wire.moveTo_reading_self p _)
      have hreach₁ := hreach₀.exec_of_forall (fun x a ha ↦ by
        obtain ⟨n, -, rfl⟩ := List.mem_map.mp ha
        exact hquietly x (.read p n) fun _ ↦ rfl) hexec
      have hdone := hC.missing_bytes hm₁
      obtain ⟨m', w₂, s₂, hdecode, hafter, hreading, hs₂, hw₂⟩ := hw₁.handle hC hP hall hdone
      obtain rfl : s₂ = s' := Option.some.inj (hs₂.symm.trans hst)
      have hhandle : OnWire P Valid bytes ok (.ok w₁ : Except ε _) (.handle p) := by
        refine hw₁.onWire hC hreads fun b' hb' ↦ ?_
        obtain rfl : .deliver q p = b' := by simpa [Wire.shadow, hall] using hb'
        exact hb
      refine ⟨w₂, hreach₁.step hhandle ?_, hw₂, fun x ↦ ?_⟩
      · change P.wireStep C w₁ (.handle p) = _
        simp only [wireStep, hall, if_pos hdone, hdecode, Except.bind, hafter]
      · rw [hreading]
        by_cases hx : x = p
        · rw [hx, Wire.moveTo_reading_self]
        · rw [Wire.moveTo_reading_of_ne _ hx, hothers x hx, Wire.moveTo_reading_of_ne _ hx, hquiet]

end Protocol
