import Edsm.Library.Reachability
import Edsm.Message

/-!
# A message is a byte queue

Runs of the operations on one message, and what they do to its data.  Every
operation comes with the allocator it uses, so that no two allocations need
have the same content.
-/

namespace Edsm.Message

inductive Op
  | put (bytes : UInt32)
  | push (bytes : UInt32)
  | pull (bytes : UInt32)
  | pullTail (bytes : UInt32)
  | write (data : List UInt8)
  | read (bytes : UInt32)
  /-- The run goes on with the clone. -/
  | clone
  /-- `edsm_message_resize` with the head size that the message has. -/
  | resize (newTailSize : UInt32)

/-- A read that fails leaves the message as it is. -/
def apply (A : Allocator) (msg : Message) : Op → Except Fault Message
  | .put bytes => msg.put bytes
  | .push bytes => msg.push bytes
  | .pull bytes => msg.pull bytes
  | .pullTail bytes => msg.pullTail bytes
  | .write data => msg.write A data
  | .read bytes => do
      match ← msg.read bytes with
      | some (_, msg) => return msg
      | none => return msg
  | .clone => do
      match ← msg.clone A with
      | some msg => return msg
      | none => throw .nullPointer
  | .resize newTailSize => do
      match ← msg.resize A msg.headSize newTailSize with
      | some msg => return msg
      | none => throw .useAfterFree

/-- The arguments pass the assertions, and the sizes stay small. -/
def Op.Fits (msg : Message) : Op → Prop
  | .put bytes => bytes ≤ msg.tailSize
  | .push bytes => bytes ≤ msg.headSize
  | .pull bytes | .pullTail bytes => bytes ≤ msg.dataSize
  | .write data => msg.headSize.toNat + msg.dataSize.toNat + data.length < 2 ^ 29
  | .read _ | .clone => True
  | .resize newTailSize => msg.headSize.toNat + msg.dataSize.toNat + newTailSize.toNat < 2 ^ 29

/-- No allocation fails and no sum of sizes wraps. -/
def Op.Allowed (msg : Message) (a : Allocator × Op) : Prop :=
  a.1.Succeeds ∧ msg.bufferSize.toNat < 2 ^ 29 ∧ a.2.Fits msg

/-- What an operation does to the data: `put` and `push` uncover bytes of any value. -/
def Op.Effect (before after : List UInt8) : Op → Prop
  | .put bytes => ∃ new, new.length = bytes.toNat ∧ after = before ++ new
  | .push bytes => ∃ new, new.length = bytes.toNat ∧ after = new ++ before
  | .pull bytes => after = before.drop bytes.toNat
  | .pullTail bytes => after = before.take (before.length - bytes.toNat)
  | .write data => after = before ++ data
  | .read bytes => after = if bytes.toNat ≤ before.length then before.drop bytes.toNat else before
  | .clone | .resize _ => after = before

/-- The runs of operations on a message. -/
def runs (msg : Message) : LabelledSystem Message (Allocator × Op) where
  init := msg
  step msg a := (msg.apply a.1 a.2).toOption

/-! ## Writes and reads -/

inductive Access
  | write (data : List UInt8)
  | read (bytes : UInt32)

/-- The bytes of a successful read, `none` for `FAILURE`; a write answers nothing. -/
def access (A : Allocator) (msg : Message) : Access → Except Fault (Option (List UInt8) × Message)
  | .write data => do return (some [], ← msg.write A data)
  | .read bytes => do
      match ← msg.read bytes with
      | some (out, msg) => return (some out, msg)
      | none => return (none, msg)

def accessAll (msg : Message) :
    List (Allocator × Access) → Except Fault (List (Option (List UInt8)) × Message)
  | [] => .ok ([], msg)
  | (A, a) :: rest => do
      let (out, msg) ← msg.access A a
      let (outs, msg) ← msg.accessAll rest
      return (out :: outs, msg)

/-- A queue of bytes: what an access answers and what it leaves. -/
def Access.onQueue (queue : List UInt8) : Access → Option (List UInt8) × List UInt8
  | .write data => (some [], queue ++ data)
  | .read bytes =>
      if bytes.toNat ≤ queue.length then (some (queue.take bytes.toNat), queue.drop bytes.toNat)
      else (none, queue)

def Access.allOnQueue (queue : List UInt8) :
    List Access → List (Option (List UInt8)) × List UInt8
  | [] => ([], queue)
  | a :: rest =>
      ((a.onQueue queue).1 :: (allOnQueue (a.onQueue queue).2 rest).1,
        (allOnQueue (a.onQueue queue).2 rest).2)

/-- The number of bytes that an access adds. -/
def Access.added : Access → ℕ
  | .write data => data.length
  | .read _ => 0

variable {A : Allocator} {msg : Message} {head bytes tail : List UInt8}

/-- A read takes the first bytes if there are enough, and leaves the message alone if not. -/
theorem read_eq (h : msg.Layout head bytes tail) (hlt : bytes.length < 2 ^ 31)
    (size : UInt32) :
    (size.toNat ≤ bytes.length ∧ ∃ msg',
      msg.read size = .ok (some (bytes.take size.toNat, msg')) ∧
        msg'.Layout (head ++ bytes.take size.toNat) (bytes.drop size.toNat) tail) ∨
    bytes.length < size.toNat ∧ msg.read size = .ok none := by
  rcases Nat.lt_or_ge bytes.length size.toNat with hgt | hle
  · exact .inr ⟨hgt, read_eq_none h hgt⟩
  · have hfront : (bytes.take size.toNat).length = size.toNat := by
      rw [List.length_take]
      omega
    rw [← List.take_append_drop size.toNat bytes] at h
    obtain ⟨msg', hread, hl⟩ := read_spec h size hfront.symm (by omega)
    exact .inl ⟨hle, msg', hread, hl⟩

/-- A write or a read does to the data what it does to a queue. -/
theorem access_spec (hA : A.Succeeds) (h : msg.Layout head bytes tail) (a : Access)
    (hsize : head.length + bytes.length + a.added < 2 ^ 29) :
    ∃ msg' head' tail', msg.access A a = .ok ((a.onQueue bytes).1, msg') ∧
      msg'.Layout head' (a.onQueue bytes).2 tail' ∧
      head'.length + (a.onQueue bytes).2.length = head.length + bytes.length + a.added := by
  cases a with
  | write data =>
      obtain ⟨msg', hwrite, tail', hl⟩ :=
        (write_meets (A := A) h data (by simp only [Access.added] at hsize; omega)).exists_ok
          ⟨hA, hsize⟩
      refine ⟨msg', head, tail', ?_, hl, ?_⟩
      · simp only [access, hwrite, bind, Except.bind, pure, Except.pure, Access.onQueue]
      · simp only [Access.onQueue, Access.added, List.length_append]
        omega
  | read size =>
      rcases read_eq h (by omega) size with ⟨hle, msg', hread, hl⟩ | ⟨hgt, hread⟩
      · refine ⟨msg', head ++ bytes.take size.toNat, tail, ?_, ?_, ?_⟩
        · simp only [access, hread, bind, Except.bind, pure, Except.pure, Access.onQueue,
            if_pos hle]
        · simpa only [Access.onQueue, if_pos hle] using hl
        · simp only [Access.onQueue, if_pos hle, Access.added, List.length_append,
            List.length_take, List.length_drop]
          omega
      · refine ⟨msg, head, tail, ?_, ?_, ?_⟩
        · simp only [access, hread, bind, Except.bind, pure, Except.pure, Access.onQueue,
            if_neg (not_le.mpr hgt)]
        · simpa only [Access.onQueue, if_neg (not_le.mpr hgt)] using h
        · simp only [Access.onQueue, if_neg (not_le.mpr hgt), Access.added, Nat.add_zero]

theorem accessAll_spec (as : List (Allocator × Access)) (hA : ∀ a ∈ as, a.1.Succeeds)
    (h : msg.Layout head bytes tail)
    (hsize : head.length + bytes.length + (as.map fun a ↦ a.2.added).sum < 2 ^ 29) :
    ∃ msg', msg.accessAll as = .ok ((Access.allOnQueue bytes (as.map Prod.snd)).1, msg') ∧
      msg'.bytes = (Access.allOnQueue bytes (as.map Prod.snd)).2 := by
  induction as generalizing msg head bytes tail with
  | nil => exact ⟨msg, rfl, h.bytes_eq⟩
  | cons a as ih =>
      obtain ⟨A, a⟩ := a
      simp only [List.map_cons, List.sum_cons] at hsize
      obtain ⟨msg₁, head₁, tail₁, haccess, hl₁, hlength⟩ :=
        access_spec (hA (A, a) List.mem_cons_self) h a (by omega)
      obtain ⟨msg₂, hrest, hbytes⟩ :=
        ih (fun b hb ↦ hA b (List.mem_cons_of_mem _ hb)) hl₁ (by omega)
      refine ⟨msg₂, ?_, hbytes⟩
      simp only [accessAll, haccess, bind, Except.bind, hrest, pure, Except.pure, List.map_cons,
        Access.allOnQueue]

/-! ## All operations -/

/-- The pointers and sizes stay consistent, and no access leaves its allocation. -/
theorem apply_spec (h : msg.WellFormed) {op : Op} (hop : Op.Allowed msg (A, op)) :
    ∃ msg', msg.apply A op = .ok msg' ∧ msg'.WellFormed ∧ op.Effect msg.bytes msg'.bytes := by
  obtain ⟨hA, hlt, hop⟩ := hop
  obtain ⟨head, tail, hl⟩ := h.layout
  have hbufferSize := hl.bufferSize
  cases op with
  | put size =>
      change size ≤ msg.tailSize at hop
      rw [UInt32.le_iff_toNat_le, hl.tailSize] at hop
      have hnew : (tail.take size.toNat).length = size.toNat := by
        rw [List.length_take]
        omega
      rw [← List.take_append_drop size.toNat tail] at hl
      obtain ⟨msg', hput, hl'⟩ := put_spec hl hnew.symm
      exact ⟨msg', hput, hl'.wellFormed, _, hnew, hl'.bytes_eq⟩
  | push size =>
      change size ≤ msg.headSize at hop
      rw [UInt32.le_iff_toNat_le, hl.headSize] at hop
      have hnew : (head.drop (head.length - size.toNat)).length = size.toNat := by
        rw [List.length_drop]
        omega
      rw [← List.take_append_drop (head.length - size.toNat) head] at hl
      obtain ⟨msg', hpush, hl'⟩ := push_spec hl hnew.symm
      exact ⟨msg', hpush, hl'.wellFormed, _, hnew, hl'.bytes_eq⟩
  | pull size =>
      change size ≤ msg.dataSize at hop
      rw [UInt32.le_iff_toNat_le, hl.dataSize] at hop
      have hfront : (msg.bytes.take size.toNat).length = size.toNat := by
        rw [List.length_take]
        omega
      have hsplit := hl
      rw [← List.take_append_drop size.toNat msg.bytes] at hsplit
      obtain ⟨msg', hpull, hl'⟩ := pull_spec hsplit hfront.symm
      exact ⟨msg', hpull, hl'.wellFormed, hl'.bytes_eq⟩
  | pullTail size =>
      change size ≤ msg.dataSize at hop
      rw [UInt32.le_iff_toNat_le, hl.dataSize] at hop
      have hback : (msg.bytes.drop (msg.bytes.length - size.toNat)).length = size.toNat := by
        rw [List.length_drop]
        omega
      have hsplit := hl
      rw [← List.take_append_drop (msg.bytes.length - size.toNat) msg.bytes] at hsplit
      obtain ⟨msg', hpull, hl'⟩ := pullTail_spec hsplit hback.symm
      exact ⟨msg', hpull, hl'.wellFormed, hl'.bytes_eq⟩
  | write data =>
      change msg.headSize.toNat + msg.dataSize.toNat + data.length < 2 ^ 29 at hop
      rw [hl.headSize, hl.dataSize] at hop
      obtain ⟨msg', hwrite, tail', hl'⟩ :=
        (write_meets (A := A) hl data (by omega)).exists_ok ⟨hA, hop⟩
      exact ⟨msg', hwrite, hl'.wellFormed, hl'.bytes_eq⟩
  | read size =>
      rcases read_eq hl (by omega) size with ⟨hle, msg', hread, hl'⟩ | ⟨hgt, hread⟩
      · refine ⟨msg', ?_, hl'.wellFormed, ?_⟩
        · simp only [apply, hread, bind, Except.bind, pure, Except.pure]
        · simp only [Op.Effect, if_pos hle, hl'.bytes_eq]
      · refine ⟨msg, ?_, h, ?_⟩
        · simp only [apply, hread, bind, Except.bind, pure, Except.pure]
        · simp only [Op.Effect, if_neg (not_le.mpr hgt)]
  | clone =>
      obtain ⟨msg', head', tail', hclone, hl', -⟩ := clone_spec hA hl
      refine ⟨msg', ?_, hl'.wellFormed, hl'.bytes_eq⟩
      simp only [apply, hclone, bind, Except.bind, pure, Except.pure]
  | resize newTailSize =>
      change msg.headSize.toNat + msg.dataSize.toNat + newTailSize.toNat < 2 ^ 29 at hop
      rw [hl.headSize, hl.dataSize] at hop
      obtain ⟨result, hresize, hresized⟩ :=
        (resize_meets (A := A) hl newTailSize).exists_ok (by omega)
      cases result with
      | none => exact absurd hA hresized
      | some msg' =>
          have hfits : head.length + msg.bytes.length + newTailSize.toNat < 2 ^ 32 := by omega
          simp only [Resized, if_pos hfits] at hresized
          obtain ⟨tail', hl', -⟩ := hresized
          refine ⟨msg', ?_, hl'.wellFormed, hl'.bytes_eq⟩
          simp only [apply, hresize, bind, Except.bind, pure, Except.pure]

theorem wellFormed_of_reach {msg₀ : Message} (h₀ : msg₀.WellFormed)
    (h : msg₀.runs.Reach Op.Allowed msg) : msg.WellFormed := by
  refine h.invariant WellFormed h₀ fun {s a t} _ ih ha hst ↦ ?_
  obtain ⟨msg', happly, hwf, -⟩ := apply_spec ih ha
  simp only [runs, happly, Except.toOption, Option.some.injEq] at hst
  exact hst ▸ hwf

/-- After any operations the message is still a queue of its data: no operation faults, reads
and writes work at its two ends, and a clone cannot be told from it by reading and writing. -/
theorem queue_of_create {A₀ : Allocator} (hA₀ : A₀.Succeeds) {headSize tailSize : UInt32}
    (hsize : headSize.toNat + tailSize.toNat < 2 ^ 29) :
    ∃ msg₀, create A₀ headSize tailSize = some msg₀ ∧ msg₀.WellFormed ∧ msg₀.bytes = [] ∧
      ∀ msg, msg₀.runs.Reach Op.Allowed msg → msg.WellFormed ∧
        (∀ A op, Op.Allowed msg (A, op) → ∃ msg', msg.apply A op = .ok msg' ∧
          msg'.WellFormed ∧ op.Effect msg.bytes msg'.bytes) ∧
        (∀ size : UInt32, msg.bufferSize.toNat < 2 ^ 29 →
          (size ≤ msg.dataSize ∧ ∃ msg',
            msg.read size = .ok (some (msg.bytes.take size.toNat, msg')) ∧
              msg'.WellFormed ∧ msg'.bytes = msg.bytes.drop size.toNat) ∨
          msg.dataSize < size ∧ msg.read size = .ok none) ∧
        ∀ A : Allocator, A.Succeeds → ∃ copy, msg.clone A = .ok (some copy) ∧
          copy.WellFormed ∧ copy.bytes = msg.bytes ∧
          ∀ as bs : List (Allocator × Access), as.map Prod.snd = bs.map Prod.snd →
            (∀ a ∈ as ++ bs, a.1.Succeeds) →
            msg.headSize.toNat + msg.dataSize.toNat +
              (as.map fun a ↦ a.2.added).sum < 2 ^ 29 →
            ∃ outs msg' copy', msg.accessAll as = .ok (outs, msg') ∧
              copy.accessAll bs = .ok (outs, copy') ∧ copy'.bytes = msg'.bytes := by
  obtain ⟨msg₀, hcreate⟩ := exists_create hA₀ headSize tailSize
  obtain ⟨head₀, tail₀, hl₀, -⟩ := layout_create hcreate (by omega)
  refine ⟨msg₀, hcreate, hl₀.wellFormed, hl₀.bytes_eq, fun msg hreach ↦ ?_⟩
  have hwf := wellFormed_of_reach hl₀.wellFormed hreach
  obtain ⟨head, tail, hl⟩ := hwf.layout
  refine ⟨hwf, fun A op hop ↦ apply_spec hwf hop, fun size hlt ↦ ?_, fun A hA ↦ ?_⟩
  · have hbufferSize := hl.bufferSize
    rcases read_eq hl (by omega) size with ⟨hle, msg', hread, hl'⟩ | ⟨hgt, hread⟩
    · refine .inl ⟨?_, msg', hread, hl'.wellFormed, hl'.bytes_eq⟩
      rwa [UInt32.le_iff_toNat_le, hl.dataSize]
    · refine .inr ⟨?_, hread⟩
      rwa [UInt32.lt_iff_toNat_lt, hl.dataSize]
  · obtain ⟨copy, head', tail', hclone, hl', hhead, -⟩ := clone_spec hA hl
    refine ⟨copy, hclone, hl'.wellFormed, hl'.bytes_eq, fun as bs hsame hall hadded ↦ ?_⟩
    rw [hl.headSize, hl.dataSize] at hadded
    have hadded' : (bs.map fun a ↦ a.2.added) = as.map fun a ↦ a.2.added := by
      have hmap := congrArg (List.map Access.added) hsame
      rw [List.map_map, List.map_map] at hmap
      exact hmap.symm
    obtain ⟨msg', hrun, hbytes⟩ :=
      accessAll_spec as (fun a ha ↦ hall a (List.mem_append_left bs ha)) hl hadded
    obtain ⟨copy', hrun', hbytes'⟩ :=
      accessAll_spec bs (fun a ha ↦ hall a (List.mem_append_right as ha)) hl'
        (by rw [hadded', hhead]; exact hadded)
    rw [← hsame] at hrun' hbytes'
    exact ⟨_, msg', copy', hrun, hrun', hbytes'.trans hbytes.symm⟩

/-- Ten bytes are written to a message with room for three, and two are read. -/
theorem queue_of_create_ten_bytes :
    ∃ msg₀ msg msg', create .zeroed 0 3 = some msg₀ ∧ msg₀.runs.Reach Op.Allowed msg ∧
      msg.read 2 = .ok (some ([48, 49], msg')) ∧
      msg'.bytes = [50, 51, 52, 53, 54, 55, 56, 57] := by
  obtain ⟨msg₀, hcreate, -, -, hall⟩ := queue_of_create Allocator.zeroed_succeeds
    (show (0 : UInt32).toNat + (3 : UInt32).toNat < 2 ^ 29 by decide)
  let data : List UInt8 := [48, 49, 50, 51, 52, 53, 54, 55, 56, 57]
  let msg : Message := ⟨data ++ List.replicate 10 0, 0, 20, 0, 10, 10⟩
  obtain rfl : (⟨[0, 0, 0], 0, 3, 0, 0, 3⟩ : Message) = msg₀ := Option.some.inj hcreate
  have hreach : (runs ⟨[0, 0, 0], 0, 3, 0, 0, 3⟩).Reach Op.Allowed msg :=
    LabelledSystem.Reach.init.step (a := (.zeroed, .write data))
      ⟨Allocator.zeroed_succeeds, by decide, by change _ < _; decide⟩ (by decide)
  rcases (hall msg hreach).2.2.1 2 (by decide) with ⟨-, msg', hread, -, hbytes⟩ | ⟨hlt, -⟩
  · exact ⟨_, msg, msg', hcreate, hreach, hread, hbytes⟩
  · exact absurd hlt (by decide)

end Edsm.Message
