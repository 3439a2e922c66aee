import Edsm.Dobj.Wire
import Edsm.Memory.Encode

/-!
# The end of a transaction

`edsm_memory_tx_end` makes a diff of each region, which takes away its twins, and then hands the
diff to `edsm_dobj_send`, which stops at the first peer that cannot be sent to.
-/

namespace Edsm

/-- A well-formed message with at least `n` bytes more. -/
structure Message.Longer (n : ℕ) (msg msg' : Message) : Prop where
  wellFormed : msg'.WellFormed
  le : msg.dataSize.toNat + n ≤ msg'.dataSize.toNat

namespace Memory

/-! ## The call -/

/-- A region and the nodes that have it too. -/
structure SharedRegion where
  id : UInt32
  peers : List UInt32
  region : Region

/-- The loop of `edsm_dobj_send`: what it returns, and which peers the message went to.
`edsm_proto_send` to a peer returns `answer`. -/
def sendPeers (answer : UInt32 → Status) : List UInt32 → Status × List UInt32
  | [] => (.success, [])
  | peer :: peers =>
      match answer peer with
      | .failure => (.failure, [])
      | .success =>
          let (rtn, sentTo) := sendPeers answer peers
          (rtn, peer :: sentTo)

/-- `edsm_dobj_send` of a diff. -/
def dobjSend (A : Allocator) (answer : UInt32 → UInt32 → Status) (s : SharedRegion)
    (diff : Message) : Except Fault (Status × List (UInt32 × Message)) :=
  if s.peers = [] then .ok (.success, [])
  else do
    let msg ← Dobj.send A s.id (some diff)
    let (rtn, sentTo) := sendPeers (answer s.id) s.peers
    return (rtn, sentTo.map fun peer ↦ (peer, msg))

/-- What a region has come to: the status of its send, the region afterwards, its diff and what
has been sent to whom. -/
structure Ended where
  status : Status
  region : Region
  diff : Message
  sent : List (UInt32 × Message)

/-- The part of `edsm_memory_tx_end` for one region. -/
def endRegion (A : Allocator) (pagesize : ℕ) (answer : UInt32 → UInt32 → Status) (all : Bool)
    (s : SharedRegion) : Except Fault Ended :=
  match Message.create A 0 300 with
  | none => .error .nullPointer
  | some diff => do
      let (region, diff, numSections) ← diffRegion A pagesize s.region diff
      let (status, sent) ← (if ¬ all ∨ 0 < numSections ∧ numSections.toNat < 2 ^ 31 then
        dobjSend A answer s diff else .ok (.success, []))
      return { status, region, diff, sent }

/-- `edsm_memory_tx_end` of a region or, for `none`, of all regions. -/
def memoryTxEnd (A : Allocator) (pagesize : ℕ) (answer : UInt32 → UInt32 → Status)
    (target : Option SharedRegion) (regions : List SharedRegion) :
    Except Fault (Status × List Ended) :=
  match target with
  | none => do
      let ended ← regions.mapM (endRegion A pagesize answer true)
      return (if ∃ e ∈ ended, e.status = .failure then .failure else .success, ended)
  | some s => do
      let e ← endRegion A pagesize answer false s
      return (e.status, [e])

/-- The regions that the call makes diffs of. -/
def handled : Option SharedRegion → List SharedRegion → List SharedRegion
  | none, regions => regions
  | some s, _ => [s]

/-! ## What it should keep -/

/-- A byte of a page that differs from its twin. -/
def Region.Pending (pagesize : ℕ) (region : Region) (i : ℕ) : Prop :=
  ∃ twin ∈ region.twins, twin.originalPageHead ≤ i ∧ i < twin.originalPageHead + pagesize ∧
    region.bytes i ≠ twin.twinData (i - twin.originalPageHead)

/-- The value of a byte has been sent to a peer. -/
def Ended.Transmits (e : Ended) (pagesize : ℕ) (peer : UInt32) (i : ℕ) (value : UInt8) : Prop :=
  peer ∈ e.sent.map Prod.fst ∧ ∃ ts ds, e.diff.bytes = encodeDiff ts ds ∧
    Patch.join (ds.map (PageDiff.patch pagesize)) i = some value

/-- A `SUCCESS` says that all peers of the changed regions have the diffs, each of them once;
after a `FAILURE` the changes that some peer has not been sent are still there, and it gets them
with the next call whose sends all succeed. -/
structure KeepsUpdates (A : Allocator) (pagesize : ℕ) (regions : List SharedRegion)
    (status : Status) (ended : List Ended) : Prop where
  success : status = .success → List.Forall₂ (fun s e ↦ (∃ i, s.region.Pending pagesize i) →
    ∀ peer ∈ s.peers, ∃ msg, Dobj.send A s.id (some e.diff) = .ok msg ∧
      e.sent.filter (·.1 = peer) = [(peer, msg)]) regions ended
  failure : status = .failure → List.Forall₂ (fun s e ↦ ∀ i, s.region.Pending pagesize i →
    ∀ peer ∈ s.peers, peer ∉ e.sent.map Prod.fst → e.region.Pending pagesize i ∧
      ∀ A' all later, endRegion A' pagesize (fun _ _ ↦ .success) all
        { s with region := e.region } = .ok later →
          later.Transmits pagesize peer i (e.region.bytes i)) regions ended

/-! ## A diff with a page for each twin -/

end Memory

namespace Message

variable {A : Allocator} {msg msg' msg'' : Message} {m n : ℕ}

theorem Longer.refl (h : msg.WellFormed) : msg.Longer 0 msg := ⟨h, le_rfl⟩

theorem Longer.trans (h : msg.Longer m msg') (h' : msg'.Longer n msg'') :
    msg.Longer (m + n) msg'' := by
  refine ⟨h'.wellFormed, ?_⟩
  have hle := h.le
  have hle' := h'.le
  omega

theorem Longer.of_le (h : msg.Longer n msg') (hle : m ≤ n) : msg.Longer m msg' :=
  ⟨h.wellFormed, (Nat.add_le_add_left hle _).trans h.le⟩

theorem write_longer (hwf : msg.WellFormed) (data : List UInt8) (hdata : data.length < 2 ^ 31) :
    (msg.write A data).Meets False (msg.Longer data.length) := by
  obtain ⟨head, tail, hl⟩ := hwf.layout
  refine ((write_meets hl data hdata).of_imp False.elim).mono fun msg' ⟨tail', hl'⟩ ↦ ?_
  refine ⟨hl'.wellFormed, ?_⟩
  rw [hl.dataSize, hl'.dataSize, List.length_append]

theorem patch_longer (hwf : msg.WellFormed) (offset : UInt32) (value : List UInt8) :
    (msg.patch offset value).Meets False (msg.Longer 0) := by
  unfold patch memcpy
  split
  · next hle =>
      refine ⟨⟨hwf.sizes, ?_, hwf.data⟩, le_rfl⟩
      simp only [List.length_append, List.length_take, List.length_drop, ← hwf.buffer]
      omega
  · exact not_false

end Message

namespace Memory

variable {A : Allocator} {pagesize : ℕ} {region : Region} {msg : Message}

section Loop

variable {real copied : ℕ → UInt8} {d : DiffState}

theorem openSection_longer (hwf : d.msg.WellFormed) (i : ℕ) :
    (openSection A d i).Meets False fun d' ↦ d.msg.Longer 0 d'.msg := by
  refine (Message.write_longer hwf (u16 i) (by simp)).bind id fun msg₁ h₁ ↦ ?_
  refine (Message.write_longer h₁.wellFormed (u16 d.contiguousBytes.toNat) (by simp)).bind id
    fun msg₂ h₂ ↦ ?_
  exact (h₁.trans h₂).of_le (Nat.zero_le _)

theorem diffByte_longer (hwf : d.msg.WellFormed) (i : ℕ) :
    (diffByte A real copied d i).Meets False fun d' ↦ d.msg.Longer 0 d'.msg := by
  have hrest : ∀ d₁ : DiffState, d.msg.Longer 0 d₁.msg →
      ((d₁.msg.patch d₁.continuousBytesOffset (u16 d₁.contiguousBytes.toNat)).bind fun msg ↦
        (msg.write A [real i]).bind fun msg ↦ .ok { d₁ with msg }).Meets False
          fun d' ↦ d.msg.Longer 0 d'.msg := by
    intro d₁ h₁
    refine (Message.patch_longer h₁.wellFormed _ _).bind id fun msg₂ h₂ ↦ ?_
    refine (Message.write_longer h₂.wellFormed [real i] (by simp)).bind id fun msg₃ h₃ ↦ ?_
    exact ((h₁.trans h₂).trans h₃).of_le (Nat.zero_le _)
  unfold diffByte
  split
  · split
    · exact hrest _ (Message.Longer.refl hwf)
    · exact (openSection_longer hwf i).bind id hrest
  · exact Message.Longer.refl hwf

theorem foldlM_diffByte_longer (hwf : d.msg.WellFormed) (n : ℕ) :
    ((List.range n).foldlM (diffByte A real copied) d).Meets False fun d' ↦
      d.msg.Longer 0 d'.msg := by
  induction n with
  | zero => exact Message.Longer.refl hwf
  | succ n ih =>
      rw [List.range_succ, List.foldlM_append]
      refine ih.bind id fun d₁ h₁ ↦ ?_
      rw [List.foldlM_cons]
      refine (diffByte_longer h₁.wellFormed n).bind id fun d₂ h₂ ↦ ?_
      exact h₁.trans h₂

end Loop

theorem diffPage_longer (hwf : msg.WellFormed) (twin : PageTwin) :
    (diffPage A pagesize region twin msg).Meets False (msg.Longer 6) := by
  refine (Message.write_longer hwf (u32 twin.originalPageHead) (by simp)).bind id
    fun msg₁ h₁ ↦ ?_
  refine (Message.write_longer h₁.wellFormed (u16 0) (by simp)).bind id fun msg₂ h₂ ↦ ?_
  refine (foldlM_diffByte_longer (d := ⟨msg₂, 0, 0, 0⟩) h₂.wellFormed pagesize).bind id
    fun d h₃ ↦ ?_
  refine (Message.patch_longer h₃.wellFormed _ _).mono fun msg₄ h₄ ↦ ?_
  have h := ((h₁.trans h₂).trans h₃).trans h₄
  rwa [length_u32, length_u16] at h

theorem diffTwins_longer (hwf : msg.WellFormed) (twins : List PageTwin)
    (htwins : region.twins = twins) (n : UInt32) :
    (diffTwins A pagesize region msg n twins).Meets False fun result ↦
      result.1.twins = [] ∧ msg.Longer (6 * twins.length) result.2.1 ∧
        result.2.2 = n + UInt32.ofNat twins.length := by
  induction twins generalizing region msg n with
  | nil => exact ⟨htwins, Message.Longer.refl hwf, by simp⟩
  | cons twin twins ih =>
      refine (diffPage_longer hwf twin).bind id fun msg₁ h₁ ↦ ?_
      refine (ih h₁.wellFormed rfl (n + 1)).mono fun result ⟨hnil, h₂, hcount⟩ ↦ ?_
      refine ⟨hnil, ?_, ?_⟩
      · have h := h₁.trans h₂
        rwa [List.length_cons, Nat.mul_succ, Nat.add_comm]
      · rw [hcount, List.length_cons, Nat.add_comm, UInt32.ofNat_add, ← UInt32.add_assoc]
        rfl

/-- The twins are gone, and their number is a positive `int` if there were any. -/
theorem twins_of_diffRegion (hwf : msg.WellFormed) {result : Region × Message × UInt32}
    (h : diffRegion A pagesize region msg = .ok result) :
    result.1.twins = [] ∧
      (region.twins ≠ [] → 0 < result.2.2 ∧ result.2.2.toNat < 2 ^ 31) := by
  have hmeets : (diffRegion A pagesize region msg).Meets False fun result ↦
      result.1.twins = [] ∧ 6 * region.twins.length ≤ result.2.1.dataSize.toNat ∧
        result.2.2 = UInt32.ofNat region.twins.length := by
    refine (Message.write_longer hwf _ (by simp)).bind id fun msg₁ h₁ ↦ ?_
    refine (Message.write_longer h₁.wellFormed (u32 0) (by simp)).bind id fun msg₂ h₂ ↦ ?_
    have htwins : region.incrementLamportTimestamp.twins = region.twins := rfl
    refine (diffTwins_longer h₂.wellFormed region.twins htwins 0).bind id ?_
    rintro ⟨region', msg₃, n⟩ ⟨hnil, h₃, hcount⟩
    refine (Message.patch_longer h₃.wellFormed _ _).bind id fun msg₄ h₄ ↦ ?_
    exact ⟨hnil, (Nat.le_add_left _ _).trans (h₃.trans h₄).le, by rw [hcount, UInt32.zero_add]⟩
  obtain ⟨hnil, hle, hcount⟩ := hmeets.of_eq_ok h
  refine ⟨hnil, fun hne ↦ ?_⟩
  have hmax := result.2.1.dataSize.toNat_lt
  have hpos : region.twins.length ≠ 0 := fun h0 ↦ hne (List.length_eq_zero_iff.mp h0)
  rw [hcount, UInt32.lt_iff_toNat_lt, UInt32.toNat_ofNat', Nat.mod_eq_of_lt (by omega),
    UInt32.toNat_zero]
  omega

/-! ## The sends -/

section Sends

variable {answer : UInt32 → Status} {peer : UInt32} {peers : List UInt32}

theorem answer_of_mem_sendPeers (h : peer ∈ (sendPeers answer peers).2) :
    answer peer = .success := by
  induction peers with
  | nil => cases h
  | cons p peers ih =>
      unfold sendPeers at h
      cases hanswer : answer p with
      | failure =>
          rw [hanswer] at h
          cases h
      | success =>
          rw [hanswer] at h
          rcases List.mem_cons.mp h with rfl | h
          · exact hanswer
          · exact ih h

theorem sendPeers_of_success (h : (sendPeers answer peers).1 = .success) :
    (sendPeers answer peers).2 = peers := by
  induction peers with
  | nil => rfl
  | cons p peers ih =>
      unfold sendPeers at h ⊢
      cases hanswer : answer p with
      | failure =>
          rw [hanswer] at h
          cases h
      | success =>
          rw [hanswer] at h
          exact congrArg (List.cons p) (ih h)

theorem sendPeers_of_forall (h : ∀ peer ∈ peers, answer peer = .success) :
    (sendPeers answer peers).2 = peers := by
  induction peers with
  | nil => rfl
  | cons p peers ih =>
      rw [List.forall_mem_cons] at h
      unfold sendPeers
      rw [h.1]
      exact congrArg (List.cons p) (ih h.2)

end Sends

variable {answer : UInt32 → UInt32 → Status} {all : Bool} {s : SharedRegion} {e : Ended}

theorem dobjSend_eq_ok {diff : Message} {result : Status × List (UInt32 × Message)}
    (h : dobjSend A answer s diff = .ok result) :
    ∃ msg, (s.peers ≠ [] → Dobj.send A s.id (some diff) = .ok msg) ∧
      result = ((sendPeers (answer s.id) s.peers).1,
        (sendPeers (answer s.id) s.peers).2.map fun peer ↦ (peer, msg)) := by
  unfold dobjSend at h
  split at h
  · next hnil =>
      rw [hnil]
      exact ⟨diff, fun hne ↦ absurd rfl hne, (Except.ok.inj h).symm⟩
  · obtain ⟨msg, hmsg, hret⟩ := Fault.bind_eq_ok.mp h
    exact ⟨msg, fun _ ↦ hmsg, (Except.ok.inj hret).symm⟩

/-- What becomes of a region: its twins are gone, and if it had any then its diff has gone to the
peers up to the first that could not be sent to. -/
theorem endRegion_spec (h : endRegion A pagesize answer all s = .ok e) :
    e.region.twins = [] ∧ (s.region.twins ≠ [] →
      e.status = (sendPeers (answer s.id) s.peers).1 ∧
        ∃ msg, (s.peers ≠ [] → Dobj.send A s.id (some e.diff) = .ok msg) ∧
          e.sent = (sendPeers (answer s.id) s.peers).2.map fun peer ↦ (peer, msg)) := by
  unfold endRegion at h
  cases hcreate : Message.create A 0 300 with
  | none =>
      rw [hcreate] at h
      cases h
  | some diff =>
      obtain ⟨tail, hl, -⟩ := Message.layout_create_tail hcreate
      rw [hcreate] at h
      obtain ⟨⟨region, diff', n⟩, hdiff, h⟩ := Fault.bind_eq_ok.mp h
      obtain ⟨hnil, hcount⟩ := twins_of_diffRegion hl.wellFormed hdiff
      obtain ⟨⟨status, sent⟩, hsend, hret⟩ := Fault.bind_eq_ok.mp h
      obtain rfl := Except.ok.inj hret
      refine ⟨hnil, fun hne ↦ ?_⟩
      rw [if_pos (.inr (hcount hne))] at hsend
      obtain ⟨msg, hmsg, hresult⟩ := dobjSend_eq_ok hsend
      exact ⟨congrArg Prod.fst hresult, msg, hmsg, congrArg Prod.snd hresult⟩

theorem memoryTxEnd_eq_ok {target : Option SharedRegion} {regions : List SharedRegion}
    {status : Status} {ended : List Ended}
    (h : memoryTxEnd A pagesize answer target regions = .ok (status, ended)) :
    (∃ all, List.Forall₂ (fun s e ↦ endRegion A pagesize answer all s = .ok e)
        (handled target regions) ended) ∧
      (status = .failure ↔ ∃ e ∈ ended, e.status = .failure) := by
  cases target with
  | none =>
      obtain ⟨ended', hended, hret⟩ := Fault.bind_eq_ok.mp h
      obtain ⟨rfl, rfl⟩ := Prod.mk.inj (Except.ok.inj hret)
      refine ⟨⟨true, Except.forall₂_of_mapM hended⟩, ?_⟩
      split
      · next hfailed => simp [hfailed]
      · next hfailed => simpa using hfailed
  | some s =>
      obtain ⟨e, he, hret⟩ := Fault.bind_eq_ok.mp h
      obtain ⟨rfl, rfl⟩ := Prod.mk.inj (Except.ok.inj hret)
      exact ⟨⟨false, .cons he .nil⟩, by simp⟩

/-! ## What it does keep -/

theorem Region.Pending.twins_ne {region : Region} {i : ℕ} (h : region.Pending pagesize i) :
    region.twins ≠ [] := by
  obtain ⟨twin, hmem, -⟩ := h
  exact List.ne_nil_of_mem hmem

theorem map_fst_sent (peers : List UInt32) (msg : Message) :
    (peers.map fun peer ↦ (peer, msg)).map Prod.fst = peers := by
  rw [List.map_map]
  exact List.map_id peers

theorem filter_sent {peers : List UInt32} {peer : UInt32} (hnodup : peers.Nodup)
    (hpeer : peer ∈ peers) (msg : Message) :
    (peers.map fun peer ↦ (peer, msg)).filter (·.1 = peer) = [(peer, msg)] := by
  have hone : peers.filter (· = peer) = [peer] := by
    rw [List.filter_eq, hnodup.count, if_pos hpeer, List.replicate_one]
  rw [List.filter_map]
  exact congrArg (List.map _) hone

/-- A transaction end loses no update if and only if each region with changes can be sent to all
of its peers. -/
theorem keeps_updates_iff {target : Option SharedRegion} {regions : List SharedRegion}
    {status : Status} {ended : List Ended}
    (hpeers : ∀ s ∈ handled target regions, s.peers.Nodup)
    (h : memoryTxEnd A pagesize answer target regions = .ok (status, ended)) :
    KeepsUpdates A pagesize (handled target regions) status ended ↔
      ∀ s ∈ handled target regions, (∃ i, s.region.Pending pagesize i) →
        ∀ peer ∈ s.peers, answer s.id peer = .success := by
  obtain ⟨⟨all, hrun⟩, hstatus⟩ := memoryTxEnd_eq_ok h
  rw [List.forall₂_iff_zip] at hrun
  obtain ⟨hlength, hrun⟩ := hrun
  constructor
  · rintro hkeeps s hs ⟨i, hi⟩ peer hpeer
    obtain ⟨e, hmem⟩ : ∃ e, (s, e) ∈ (handled target regions).zip ended := by
      rw [← List.map_fst_zip hlength.le] at hs
      obtain ⟨⟨_, e⟩, hmem, rfl⟩ := List.mem_map.mp hs
      exact ⟨e, hmem⟩
    obtain ⟨hnil, hsent⟩ := endRegion_spec (hrun hmem)
    obtain ⟨hstatus', msg, -, hsent⟩ := hsent hi.twins_ne
    cases hanswer : answer s.id peer with
    | success => rfl
    | failure =>
        -- the loop has stopped at this peer or before it, and the twins are gone
        have hnot' : peer ∉ (sendPeers (answer s.id) s.peers).2 := by
          intro hmem'
          cases (answer_of_mem_sendPeers hmem').symm.trans hanswer
        have hnot : peer ∉ e.sent.map Prod.fst := by
          rwa [hsent, map_fst_sent]
        have hfailed : e.status = .failure := by
          rw [hstatus']
          cases hrtn : (sendPeers (answer s.id) s.peers).1 with
          | failure => rfl
          | success =>
              rw [sendPeers_of_success hrtn] at hnot'
              exact absurd hpeer hnot'
        have hfailure : status = .failure := hstatus.mpr ⟨e, (List.of_mem_zip hmem).2, hfailed⟩
        obtain ⟨hpending, -⟩ :=
          List.forall₂_zip (hkeeps.failure hfailure) hmem i hi peer hpeer hnot
        exact absurd hnil hpending.twins_ne
  · intro hall
    constructor
    · intro hsuccess
      rw [List.forall₂_iff_zip]
      refine ⟨hlength, fun {s e} hmem ⟨i, hi⟩ peer hpeer ↦ ?_⟩
      have hs := (List.of_mem_zip hmem).1
      obtain ⟨-, msg, hmsg, hsent⟩ := (endRegion_spec (hrun hmem)).2 hi.twins_ne
      refine ⟨msg, hmsg (List.ne_nil_of_mem hpeer), ?_⟩
      rw [hsent, sendPeers_of_forall (hall s hs ⟨i, hi⟩)]
      exact filter_sent (hpeers s hs) hpeer msg
    · intro hfailure
      rw [List.forall₂_iff_zip]
      refine ⟨hlength, fun {s e} hmem i hi peer hpeer hnot ↦ absurd ?_ hnot⟩
      have hs := (List.of_mem_zip hmem).1
      obtain ⟨-, msg, -, hsent⟩ := (endRegion_spec (hrun hmem)).2 hi.twins_ne
      rw [hsent, map_fst_sent, sendPeers_of_forall (hall s hs ⟨i, hi⟩)]
      exact hpeer

/-- One page of 8 bytes, of which one has been changed. -/
def oneChange : Region where
  size := 8
  bytes i := if i = 5 then 7 else 0
  writable head := head = 0
  twins := [⟨0, fun _ ↦ 0⟩]
  lamportTimestamp := 0

/-- The region is shared with two nodes that can be sent to. -/
theorem keeps_updates_two_peers :
    ∃ status ended, memoryTxEnd .zeroed 8 (fun _ _ ↦ .success) none [⟨5, [1, 2], oneChange⟩] =
        .ok (status, ended) ∧ status = .success ∧
      KeepsUpdates .zeroed 8 [⟨5, [1, 2], oneChange⟩] status ended := by
  have hrun : (memoryTxEnd .zeroed 8 (fun _ _ ↦ .success) none
      [⟨5, [1, 2], oneChange⟩]).map Prod.fst = .ok .success := by decide +kernel
  obtain ⟨⟨status, ended⟩, hended, hstatus⟩ := Except.map_eq_ok.mp hrun
  refine ⟨status, ended, hended, hstatus, (keeps_updates_iff ?_ hended).mpr ?_⟩
  · simp [handled]
  · intro s _ _ peer _
    rfl

/-- The second of two nodes cannot be sent to: the call fails, and the byte that has not been
sent to it does not differ from a twin any more. -/
theorem not_keepsUpdates :
    ∃ status ended, memoryTxEnd .zeroed 8 (fun _ peer ↦ if peer = 2 then .failure else .success)
        none [⟨5, [1, 2], oneChange⟩] = .ok (status, ended) ∧ status = .failure ∧
      oneChange.Pending 8 5 ∧ (∀ e ∈ ended, 2 ∉ e.sent.map Prod.fst ∧ e.region.twins = []) ∧
      ¬ KeepsUpdates .zeroed 8 [⟨5, [1, 2], oneChange⟩] status ended := by
  have hrun : (memoryTxEnd .zeroed 8 (fun _ peer ↦ if peer = 2 then .failure else .success) none
      [⟨5, [1, 2], oneChange⟩]).map (fun result ↦ (result.1, result.2.map fun e ↦
        (e.sent.map Prod.fst, e.region.twins.length))) =
      .ok (.failure, [([1], 0)]) := by decide +kernel
  obtain ⟨⟨status, ended⟩, hended, hresult⟩ := Except.map_eq_ok.mp hrun
  obtain ⟨rfl, hlist⟩ := Prod.mk.inj hresult
  obtain ⟨e, rest, rfl, he, hrest⟩ := List.map_eq_cons_iff.mp hlist
  obtain rfl := List.map_eq_nil_iff.mp hrest
  obtain ⟨hsent, htwins⟩ := Prod.mk.inj he
  rw [List.length_eq_zero_iff] at htwins
  have hpending : oneChange.Pending 8 5 :=
    ⟨⟨0, fun _ ↦ 0⟩, List.mem_singleton_self _, by decide, by decide, by decide⟩
  have hnot : 2 ∉ e.sent.map Prod.fst := by
    rw [hsent]
    decide
  refine ⟨.failure, [e], hended, rfl, hpending, ?_, fun hkeeps ↦ ?_⟩
  · intro e' he'
    obtain rfl := List.mem_singleton.mp he'
    exact ⟨hnot, htwins⟩
  · have hfirst := List.forall₂_cons.mp (hkeeps.failure rfl)
    exact (hfirst.1 5 hpending 2 (by decide) hnot).1.twins_ne htwins

end Memory

end Edsm
