import Edsm.Message.Fields
import Edsm.Message.Resize

/-!
# Reading behind a length prefix

The prefix is any `uint32_t` that the other side has sent.  `edsm_message_read` compares it with
the data as an unsigned number and copies that many bytes as an `int`; the buffer for them is
allocated before either, and used without a look at the pointer.
-/

namespace Edsm

namespace Message

variable {A : Allocator} {msg : Message}

/-- What a read of `size` bytes leaves. -/
structure Consumed (msg : Message) (size : ℕ) (msg' : Message) : Prop where
  wellFormed : msg'.WellFormed
  bytes : msg'.bytes = msg.bytes.drop size

theorem Consumed.trans {msg₁ msg₂ : Message} {size₁ size₂ : ℕ} (h₁ : msg.Consumed size₁ msg₁)
    (h₂ : msg₁.Consumed size₂ msg₂) : msg.Consumed (size₁ + size₂) msg₂ where
  wellFormed := h₂.wellFormed
  bytes := by rw [h₂.bytes, h₁.bytes, List.drop_drop]

theorem read_of_short (hwf : msg.WellFormed) {size : UInt32}
    (h : msg.bytes.length < size.toNat) : msg.read size = .ok none := by
  obtain ⟨_, _, hl⟩ := hwf.layout
  exact read_eq_none hl h

theorem read_of_le (hwf : msg.WellFormed) {size : UInt32} (h : size.toNat ≤ msg.bytes.length)
    (hint : size.toNat < 2 ^ 31) :
    ∃ msg', msg.read size = .ok (some (msg.bytes.take size.toNat, msg')) ∧
      msg.Consumed size.toNat msg' := by
  obtain ⟨head, tail, hl⟩ := hwf.layout
  have htake : (msg.bytes.take size.toNat).length = size.toNat := List.length_take_of_le h
  rw [← List.take_append_drop size.toNat msg.bytes] at hl
  obtain ⟨msg', hread, hl'⟩ := read_spec hl size htake.symm (by rwa [htake])
  exact ⟨msg', hread, hl'.wellFormed, hl'.bytes_eq⟩

/-- As an `int` the size is negative. -/
theorem read_of_negative (hwf : msg.WellFormed) {size : UInt32}
    (h : size.toNat ≤ msg.bytes.length) (hint : 2 ^ 31 ≤ size.toNat) :
    msg.read size = .error .outOfBounds := by
  rw [hwf.length_bytes] at h
  rw [read, if_pos (by rwa [ge_iff_le, UInt32.le_iff_toNat_le]), copySize,
    if_neg (not_lt.mpr hint)]
  rfl

/-- The value of the prefix. -/
def prefixSize (msg : Message) : UInt32 := ofWord (msg.bytes.take 4)

theorem readPrefix (hwf : msg.WellFormed) (h : 4 ≤ msg.bytes.length) :
    ∃ msg₁, msg.read 4 = .ok (some (msg.bytes.take 4, msg₁)) ∧ msg.Consumed 4 msg₁ :=
  read_of_le hwf h (by decide)

/-- The bytes that the prefix counts are there. -/
def Complete (msg : Message) : Prop :=
  4 ≤ msg.bytes.length ∧ msg.prefixSize.toNat ≤ msg.bytes.length - 4

/-- The bytes that the prefix counts. -/
def counted (msg : Message) : List UInt8 := (msg.bytes.drop 4).take msg.prefixSize.toNat

/-- `edsm_message_read_string` succeeds exactly if the string is complete and its allocation
does not fail, and has then read the string. -/
def ReadsString (A : Allocator) (msg : Message) : Prop :=
  ∃ result, msg.readString A = .ok result ∧
    (result.isSome ↔ msg.Complete ∧ (A.malloc (msg.prefixSize.toNat + 1)).isSome) ∧
    ∀ out msg', result = some (out, msg') →
      out = msg.counted ++ [0] ∧ msg.Consumed (4 + msg.prefixSize.toNat) msg'

/-- `edsm_message_read_message` succeeds exactly if the sub-message is complete and its
allocation, if it has data, does not fail, and has then read the sub-message. -/
def ReadsMessage (A : Allocator) (msg : Message) : Prop :=
  ∃ result, msg.readMessage A = .ok result ∧
    (result.isSome ↔ msg.Complete ∧
      (msg.prefixSize = 0 ∨ (A.malloc msg.prefixSize.toNat).isSome)) ∧
    ∀ dst msg', result = some (dst, msg') →
      (∀ m ∈ dst, m.WellFormed) ∧ payload dst = msg.counted ∧
        msg.Consumed (4 + msg.prefixSize.toNat) msg'

/-- The string is behind a prefix that neither wraps nor turns negative, and there is memory
for it. -/
structure StringFits (A : Allocator) (msg : Message) : Prop where
  malloc : (A.malloc (msg.prefixSize.toNat + 1)).isSome
  exact : msg.prefixSize.toNat ≠ 2 ^ 32 - 1
  int : msg.prefixSize.toNat ≤ msg.bytes.length - 4 → msg.prefixSize.toNat < 2 ^ 31

/-- The same of a sub-message. -/
structure MessageFits (A : Allocator) (msg : Message) : Prop where
  malloc : (A.malloc msg.prefixSize.toNat).isSome
  int : msg.prefixSize.toNat ≤ msg.bytes.length - 4 → msg.prefixSize.toNat < 2 ^ 31

theorem readString_of_short (hwf : msg.WellFormed) (h : msg.bytes.length < 4) :
    msg.readString A = .ok none := by
  have hread : msg.read 4 = .ok none := read_of_short hwf h
  rw [readString, hread]
  rfl

theorem readMessage_of_short (hwf : msg.WellFormed) (h : msg.bytes.length < 4) :
    msg.readMessage A = .ok none := by
  have hread : msg.read 4 = .ok none := read_of_short hwf h
  rw [readMessage, hread]
  rfl

section Prefix

variable {msg₁ : Message} (hread : msg.read 4 = .ok (some (msg.bytes.take 4, msg₁)))
include hread

theorem readString_of_read : msg.readString A =
    match A.malloc (msg.prefixSize + 1).toNat with
    | none => .error .nullPointer
    | some str => do
        let str ← memcpy str msg.prefixSize.toNat [0]
        match ← msg₁.read msg.prefixSize with
        | none => return none
        | some (out, msg') => return some (← memcpy str 0 out, msg') := by
  rw [readString, hread]
  rfl

theorem readMessage_of_read (h : msg.prefixSize ≠ 0) : msg.readMessage A =
    match create A 0 msg.prefixSize with
    | none => .error .nullPointer
    | some dst => do
        let dst ← dst.put msg.prefixSize
        match ← msg₁.read dst.dataSize with
        | none => return none
        | some (out, msg') => do
            let buffer ← memcpy dst.buffer dst.data out
            return some (some { dst with buffer }, msg') := by
  rw [readMessage, hread]
  exact if_neg h

theorem readMessage_of_zero (h : msg.prefixSize = 0) :
    msg.readMessage A = .ok (some (none, msg₁)) := by
  rw [readMessage, hread]
  exact if_pos h

end Prefix

/-! ## Strings -/

theorem readsString_of_fits (hwf : msg.WellFormed) (h4 : 4 ≤ msg.bytes.length)
    (h : msg.StringFits A) : msg.ReadsString A := by
  obtain ⟨msg₁, hread, hmsg₁⟩ := readPrefix hwf h4
  obtain ⟨str, hstr⟩ := Option.isSome_iff_exists.mp h.malloc
  have hlength := A.length_eq _ _ hstr
  have hrest : msg₁.bytes.length = msg.bytes.length - 4 := by
    rw [hmsg₁.bytes, List.length_drop]
  have hstring := readString_of_read (A := A) hread
  rw [toNat_size_add_one h.exact, hstr] at hstring
  simp only [memcpy_terminator hlength, bind, Except.bind] at hstring
  by_cases hle : msg.prefixSize.toNat ≤ msg.bytes.length - 4
  · obtain ⟨msg₂, hread₂, hmsg₂⟩ := read_of_le hmsg₁.wellFormed (hrest ▸ hle) (h.int hle)
    have hcounted : msg₁.bytes.take msg.prefixSize.toNat = msg.counted := by
      rw [hmsg₁.bytes, counted]
    have hcountedLength : msg.counted.length = msg.prefixSize.toNat := by
      rw [← hcounted, List.length_take]
      omega
    have hcopy : memcpy (str.take msg.prefixSize.toNat ++ [0]) 0 msg.counted =
        .ok (msg.counted ++ [0]) := by
      refine memcpy_front ?_
      rw [List.length_take]
      omega
    simp only [hread₂, hcounted, hcopy, pure, Except.pure] at hstring
    refine ⟨_, hstring, iff_of_true rfl ⟨⟨h4, hle⟩, h.malloc⟩, ?_⟩
    rintro out msg' ⟨⟩
    exact ⟨rfl, hmsg₁.trans hmsg₂⟩
  · rw [read_of_short hmsg₁.wellFormed (by omega)] at hstring
    refine ⟨none, hstring, iff_of_false Bool.false_ne_true fun hfits ↦ hle hfits.1.2, ?_⟩
    rintro out msg' ⟨⟩

theorem fits_of_readsString (hwf : msg.WellFormed) (h4 : 4 ≤ msg.bytes.length)
    (h : msg.ReadsString A) : msg.StringFits A := by
  obtain ⟨result, hresult, -⟩ := h
  obtain ⟨msg₁, hread, hmsg₁⟩ := readPrefix hwf h4
  have hrest : msg₁.bytes.length = msg.bytes.length - 4 := by
    rw [hmsg₁.bytes, List.length_drop]
  rw [readString_of_read hread] at hresult
  cases hmalloc : A.malloc (msg.prefixSize + 1).toNat with
  | none =>
      rw [hmalloc] at hresult
      cases hresult
  | some str =>
      rw [hmalloc] at hresult
      obtain ⟨_, hterminated, hresult⟩ := Fault.bind_eq_ok.mp hresult
      have hlength := A.length_eq _ _ hmalloc
      obtain ⟨hroom, -⟩ := memcpy_eq_ok.mp hterminated
      rw [hlength, List.length_singleton] at hroom
      -- a size that wraps leaves no room for the terminator
      have hexact : msg.prefixSize.toNat ≠ 2 ^ 32 - 1 := by
        intro hmax
        rw [UInt32.toNat_add, hmax] at hroom
        simp at hroom
      refine ⟨?_, hexact, fun hle ↦ ?_⟩
      · rw [← toNat_size_add_one hexact, hmalloc]
        rfl
      · by_contra hge
        rw [read_of_negative hmsg₁.wellFormed (hrest ▸ hle) (not_lt.mp hge)] at hresult
        cases hresult

/-! ## Sub-messages -/

theorem readsMessage_of_fits (hwf : msg.WellFormed) (h4 : 4 ≤ msg.bytes.length)
    (h : msg.prefixSize ≠ 0 → msg.MessageFits A) : msg.ReadsMessage A := by
  obtain ⟨msg₁, hread, hmsg₁⟩ := readPrefix hwf h4
  have hrest : msg₁.bytes.length = msg.bytes.length - 4 := by
    rw [hmsg₁.bytes, List.length_drop]
  by_cases hzero : msg.prefixSize = 0
  · refine ⟨_, readMessage_of_zero hread hzero,
      iff_of_true rfl ⟨⟨h4, by simp [hzero]⟩, .inl hzero⟩, ?_⟩
    rintro dst msg' ⟨⟩
    refine ⟨by simp, by simp [payload, counted, hzero], ?_⟩
    simpa [hzero] using hmsg₁
  · have hfits := h hzero
    obtain ⟨dst, hcreate⟩ := create_isSome hfits.malloc
    obtain ⟨dst', room, hput, hl, hroom⟩ := put_of_create hcreate
    have hdataSize : dst'.dataSize = msg.prefixSize := by
      rw [hl.dataSize_eq, hroom, UInt32.ofNat_toNat]
    have hmessage := readMessage_of_read (A := A) hread hzero
    rw [hcreate] at hmessage
    simp only [hput, hdataSize, bind, Except.bind] at hmessage
    by_cases hle : msg.prefixSize.toNat ≤ msg.bytes.length - 4
    · obtain ⟨msg₂, hread₂, hmsg₂⟩ := read_of_le hmsg₁.wellFormed (hrest ▸ hle) (hfits.int hle)
      have hcounted : msg₁.bytes.take msg.prefixSize.toNat = msg.counted := by
        rw [hmsg₁.bytes, counted]
      have hlength : msg.counted.length = room.length := by
        rw [← hcounted, List.length_take]
        omega
      have hcopy : memcpy dst'.buffer dst'.data msg.counted = .ok msg.counted := by
        rw [hl.data]
        exact memcpy_all (by simpa [hl.buffer] using hlength)
      simp only [hread₂, hcounted, hcopy, pure, Except.pure] at hmessage
      refine ⟨_, hmessage, iff_of_true rfl ⟨⟨h4, hle⟩, .inr hfits.malloc⟩, ?_⟩
      rintro _ _ ⟨⟩
      have hl' := hl.refill hlength
      rw [hdataSize] at hl'
      refine ⟨?_, hl'.bytes_eq, hmsg₁.trans hmsg₂⟩
      rintro _ ⟨⟩
      exact hl'.wellFormed
    · rw [read_of_short hmsg₁.wellFormed (by omega)] at hmessage
      refine ⟨none, hmessage, iff_of_false Bool.false_ne_true fun hcomplete ↦ hle hcomplete.1.2, ?_⟩
      rintro _ _ ⟨⟩

theorem fits_of_readsMessage (hwf : msg.WellFormed) (h4 : 4 ≤ msg.bytes.length)
    (h : msg.ReadsMessage A) (hzero : msg.prefixSize ≠ 0) : msg.MessageFits A := by
  obtain ⟨result, hresult, -⟩ := h
  obtain ⟨msg₁, hread, hmsg₁⟩ := readPrefix hwf h4
  have hrest : msg₁.bytes.length = msg.bytes.length - 4 := by
    rw [hmsg₁.bytes, List.length_drop]
  rw [readMessage_of_read hread hzero] at hresult
  cases hcreate : create A 0 msg.prefixSize with
  | none =>
      rw [hcreate] at hresult
      cases hresult
  | some dst =>
      obtain ⟨dst', room, hput, hl, hroom⟩ := put_of_create hcreate
      rw [hcreate] at hresult
      simp only [hput, hl.dataSize_eq, hroom, UInt32.ofNat_toNat, bind, Except.bind] at hresult
      constructor
      · obtain ⟨buffer, hbuffer, -⟩ := Option.map_eq_some_iff.mp hcreate
        rw [UInt32.zero_add] at hbuffer
        rw [hbuffer]
        rfl
      · intro hle
        by_contra hge
        rw [read_of_negative hmsg₁.wellFormed (hrest ▸ hle) (not_lt.mp hge)] at hresult
        cases hresult

/-! ## Both -/

/-- The reads behind a prefix do what is asked of them if and only if there is no prefix or what
it counts fits. -/
theorem reads_iff (hwf : msg.WellFormed) :
    (msg.ReadsString A ↔ (4 ≤ msg.bytes.length → msg.StringFits A)) ∧
    (msg.ReadsMessage A ↔
      (4 ≤ msg.bytes.length → msg.prefixSize ≠ 0 → msg.MessageFits A)) := by
  by_cases h4 : 4 ≤ msg.bytes.length
  · refine ⟨⟨fun h _ ↦ fits_of_readsString hwf h4 h, fun h ↦ readsString_of_fits hwf h4 (h h4)⟩,
      ⟨fun h _ ↦ fits_of_readsMessage hwf h4 h, fun h ↦ readsMessage_of_fits hwf h4 (h h4)⟩⟩
  · have hnone : ∀ {P : Prop}, ((none : Option (List UInt8 × Message)).isSome ↔
        msg.Complete ∧ P) := fun {P} ↦ iff_of_false Bool.false_ne_true fun h ↦ h4 h.1.1
    refine ⟨iff_of_true ⟨none, readString_of_short hwf (not_le.mp h4), hnone, ?_⟩
      fun h ↦ absurd h h4, iff_of_true ⟨none, readMessage_of_short hwf (not_le.mp h4), ?_, ?_⟩
      fun h ↦ absurd h h4⟩
    · rintro _ _ ⟨⟩
    · exact iff_of_false Bool.false_ne_true fun h ↦ h4 h.1.1
    · rintro _ _ ⟨⟩

/-- A prefix that counts two of the three bytes behind it. -/
def shortPrefix : Message := ofBytes [2, 0, 0, 0, 65, 66, 67]

theorem shortPrefix_wellFormed : shortPrefix.WellFormed := ⟨by decide, by decide, by decide⟩

theorem reads_shortPrefix : shortPrefix.ReadsString Allocator.zeroed ∧
    shortPrefix.ReadsMessage Allocator.zeroed :=
  ⟨(reads_iff shortPrefix_wellFormed).1.mpr fun _ ↦ ⟨rfl, by decide, fun _ ↦ by decide⟩,
    (reads_iff shortPrefix_wellFormed).2.mpr fun _ _ ↦ ⟨rfl, fun _ ↦ by decide⟩⟩

/-- The largest prefix, with nothing behind it. -/
def maximalPrefix : Message := ofBytes [255, 255, 255, 255]

/-- `size + 1` is 0, and the terminator is written 4 GiB behind an empty allocation; without
memory a sub-message is put into no message at all. -/
theorem not_reads : maximalPrefix.WellFormed ∧
    maximalPrefix.readString Allocator.zeroed = .error .outOfBounds ∧
    ¬ maximalPrefix.ReadsString Allocator.zeroed ∧
    shortPrefix.readMessage Allocator.exhausted = .error .nullPointer ∧
    ¬ shortPrefix.ReadsMessage Allocator.exhausted := by
  have hstring : maximalPrefix.readString Allocator.zeroed = .error .outOfBounds := by decide
  have hmessage : shortPrefix.readMessage Allocator.exhausted = .error .nullPointer := by decide
  refine ⟨⟨by decide, by decide, by decide⟩, hstring, ?_, hmessage, ?_⟩
  · rintro ⟨result, hresult, -⟩
    rw [hstring] at hresult
    cases hresult
  · rintro ⟨result, hresult, -⟩
    rw [hmessage] at hresult
    cases hresult

end Message

end Edsm
