import Edsm.Memory.Diff
import Edsm.Message

/-!
# The functions of a shared memory region

`memory.c` and `memory_dobj.c`.  Addresses are offsets from the head of the
region, which is aligned to the page size.  A critical section of `region_lock`
is one step: `tx_begin`, one page of `edsm_memory_handle_message`, and
`diff_region`.  The allocations other than those of messages succeed.
-/

namespace Edsm.Memory

/-- The bytes of a page before it was made writable. -/
structure PageTwin where
  originalPageHead : ℕ
  twinData : ℕ → UInt8

/-- `edsm_memory_region`, less its locks and links. -/
structure Region where
  size : ℕ
  bytes : ℕ → UInt8
  /-- The protection of the page with this head; every page is readable. -/
  writable : ℕ → Bool
  twins : List PageTwin
  lamportTimestamp : UInt32

/-- The part of `edsm_memory_region_get` that initialises the region, with
`region_protect`.  `posix_memalign` fails unless the alignment is a power of two. -/
def regionGet (pagesize size : ℕ) : Option Region :=
  let remainder := size % pagesize
  let size := if remainder ≠ 0 then (size + pagesize - remainder) % 2 ^ 64 else size
  if pagesize ∣ 2 ^ 64 then
    some
      { size
        bytes := fun _ ↦ 0
        writable := fun _ ↦ false
        twins := []
        lamportTimestamp := 0 }
  else none

/-- The address rounded down to its page. -/
def pageHead (pagesize addr : ℕ) : ℕ := addr - addr % pagesize

namespace Region

/-- `mprotect` of the page with this head. -/
def protect (region : Region) (head : ℕ) (writable : Bool) : Region :=
  { region with writable := Function.update region.writable head writable }

/-- `LL_SEARCH_SCALAR` of the twins. -/
def findTwin (region : Region) (head : ℕ) : Option PageTwin :=
  region.twins.find? (·.originalPageHead = head)

/-- The bytes of the page with this head. -/
def page (region : Region) (head : ℕ) : ℕ → UInt8 := fun i ↦ region.bytes (head + i)

def setPage (region : Region) (pagesize head : ℕ) (page : ℕ → UInt8) : Region :=
  { region with bytes := fun i ↦
      if head ≤ i ∧ i < head + pagesize then page (i - head) else region.bytes i }

/-- `edsm_memory_twin_page` -/
def twinPage (region : Region) (head : ℕ) : Region :=
  { region.protect head false with twins := ⟨head, region.page head⟩ :: region.twins }

def txBegin (pagesize : ℕ) (region : Region) (addr : ℕ) : Region :=
  let head := pageHead pagesize addr
  let region := if (region.findTwin head).isNone then region.twinPage head else region
  region.protect head true

/-- A store of the application; on a read-only page it traps instead. -/
def store (pagesize : ℕ) (region : Region) (addr : ℕ) (value : UInt8) : Option Region :=
  if addr < region.size ∧ region.writable (pageHead pagesize addr) = true then
    some { region with bytes := Function.update region.bytes addr value }
  else none

def incrementLamportTimestamp (region : Region) : Region :=
  { region with lamportTimestamp := region.lamportTimestamp + 1 }

def setLamportTimestamp (region : Region) (ts : UInt32) : Region :=
  { region with
    lamportTimestamp := if ts > region.lamportTimestamp then ts else region.lamportTimestamp }

end Region

/-! ## The encoder -/

/-- The local variables of the loop over the bytes of a page. -/
structure DiffState where
  msg : Message
  continuousBytesOffset : UInt32
  contiguousBytes : UInt16
  numPageSections : UInt16

def openSection (A : Allocator) (d : DiffState) (i : ℕ) : Except Fault DiffState := do
  let msg ← d.msg.write A (u16 i)
  let continuousBytesOffset := msg.dataSize
  let msg ← msg.write A (u16 d.contiguousBytes.toNat)
  return { msg, continuousBytesOffset, contiguousBytes := 1,
           numPageSections := d.numPageSections + 1 }

/-- The body of the loop. -/
def diffByte (A : Allocator) (real copied : ℕ → UInt8) (d : DiffState) (i : ℕ) :
    Except Fault DiffState :=
  if real i ≠ copied i then do
    let d ← if d.contiguousBytes ≠ 0 then
        .ok { d with contiguousBytes := d.contiguousBytes + 1 }
      else openSection A d i
    let msg ← d.msg.patch d.continuousBytesOffset (u16 d.contiguousBytes.toNat)
    let msg ← msg.write A [real i]
    return { d with msg }
  else .ok { d with contiguousBytes := 0 }

/-- One twin of the loop of `diff_region`, up to its deletion. -/
def diffPage (A : Allocator) (pagesize : ℕ) (region : Region) (twin : PageTwin) (msg : Message) :
    Except Fault Message := do
  let msg ← msg.write A (u32 twin.originalPageHead)
  let numSectionsOffset := msg.dataSize
  let msg ← msg.write A (u16 0)
  let d ← (List.range pagesize).foldlM
    (diffByte A (region.page twin.originalPageHead) twin.twinData)
    { msg, continuousBytesOffset := 0, contiguousBytes := 0, numPageSections := 0 }
  d.msg.patch numSectionsOffset (u16 d.numPageSections.toNat)

def diffTwins (A : Allocator) (pagesize : ℕ) (region : Region) (msg : Message)
    (numDiffPages : UInt32) : List PageTwin → Except Fault (Region × Message × UInt32)
  | [] => .ok (region, msg, numDiffPages)
  | twin :: rest => do
      let region := region.protect twin.originalPageHead false
      let msg ← diffPage A pagesize region twin msg
      diffTwins A pagesize { region with twins := rest } msg (numDiffPages + 1) rest

/-- The region and the message afterwards, and the returned number of pages. -/
def diffRegion (A : Allocator) (pagesize : ℕ) (region : Region) (msg : Message) :
    Except Fault (Region × Message × UInt32) := do
  let region := region.incrementLamportTimestamp
  let msg ← msg.write A (u32 region.lamportTimestamp.toNat)
  let numPagesOffset := msg.dataSize
  let msg ← msg.write A (u32 0)
  let (region, msg, numDiffPages) ← diffTwins A pagesize region msg 0 region.twins
  let msg ← msg.patch numPagesOffset (u32 numDiffPages.toNat)
  return (region, msg, numDiffPages)

/-- `edsm_memory_tx_end` on one region: the payload it hands to `edsm_dobj_send`.
A call with `NULL` for the region sends only if the number of pages, an `int`, is
positive. -/
def txEnd (A : Allocator) (pagesize : ℕ) (all : Bool) (region : Region) :
    Except Fault (Region × Option (List UInt8)) := do
  match Message.create A 0 300 with
  | none => .error .nullPointer
  | some msg =>
      let (region, msg, numDiffPages) ← diffRegion A pagesize region msg
      let sends := ¬ all ∨ 0 < numDiffPages ∧ numDiffPages.toNat < 2 ^ 31
      return (region, if sends then some msg.bytes else none)

/-! ## The decoder -/

/-- The message being read.  No function reads the count of failed reads. -/
structure Reader where
  msg : Message
  failedReads : ℕ

namespace Reader

/-- A read into a local variable that is used afterwards. -/
def readWord (r : Reader) (bytes : UInt32) : Except Fault (ℕ × Reader) := do
  match ← r.msg.read bytes with
  | some (out, msg) => return (LittleEndian.ofBytes out, { r with msg })
  | none => .error .uninitialised

/-- A read to an offset of a page; a failed one changes nothing. -/
def readInto (pagesize : ℕ) (r : Reader) (dst : ℕ → UInt8) (x : ℕ) (bytes : ℕ) :
    Except Fault ((ℕ → UInt8) × Reader) := do
  match ← r.msg.read (UInt32.ofNat bytes) with
  | some (out, msg) =>
      if bytes = 0 ∨ x + bytes ≤ pagesize then
        return ((Section.mk x out).patch.apply dst, { r with msg })
      else .error .outOfBounds
  | none => return (dst, { r with failedReads := r.failedReads + 1 })

end Reader

/-- The loop of the branch that builds a shadow page. -/
def applyToShadow (pagesize : ℕ) :
    ℕ → (ℕ → UInt8) → Reader → Except Fault ((ℕ → UInt8) × Reader)
  | 0, shadowPage, r => .ok (shadowPage, r)
  | n + 1, shadowPage, r => do
      let (sectionOffset, r) ← r.readWord 2
      let (contiguousBytes, r) ← r.readWord 2
      let (shadowPage, r) ← r.readInto pagesize shadowPage sectionOffset contiguousBytes
      applyToShadow pagesize n shadowPage r

/-- The bytes of `src` from an offset on, copied to the same place of `dst`. -/
def copyRange (dst src : ℕ → UInt8) (offset bytes : ℕ) : ℕ → UInt8 :=
  fun i ↦ if offset ≤ i ∧ i < offset + bytes then src i else dst i

/-- The loop of the branch for a page that has a twin. -/
def applyToTwin (pagesize : ℕ) (writable : Bool) :
    ℕ → (ℕ → UInt8) → (ℕ → UInt8) → Reader →
      Except Fault ((ℕ → UInt8) × (ℕ → UInt8) × Reader)
  | 0, page, twinData, r => .ok (page, twinData, r)
  | n + 1, page, twinData, r => do
      let (sectionOffset, r) ← r.readWord 2
      let (contiguousBytes, r) ← r.readWord 2
      if sectionOffset + contiguousBytes ≤ pagesize then
        let (twinData, r) ← r.readInto pagesize twinData sectionOffset contiguousBytes
        if contiguousBytes = 0 ∨ writable = true then
          applyToTwin pagesize writable n (copyRange page twinData sectionOffset contiguousBytes)
            twinData r
        else .error .pageTrap
      else .error .assertion

/-- The twin found by `LL_SEARCH_SCALAR` gets new data. -/
def setTwin (head : ℕ) (twinData : ℕ → UInt8) : List PageTwin → List PageTwin
  | [] => []
  | twin :: rest =>
      if twin.originalPageHead = head then { twin with twinData } :: rest
      else twin :: setTwin head twinData rest

/-- The body of the loop over the pages of a diff. -/
def handlePage (pagesize : ℕ) (region : Region) (r : Reader) : Except Fault (Region × Reader) := do
  let (pageOffset, r) ← r.readWord 4
  let (numPageSections, r) ← r.readWord 2
  if pageOffset % pagesize ≠ 0 then .error .assertion
  else if numPageSections = 0 then return (region, r)
  else if region.size < pageOffset + pagesize then .error .outOfBounds
  else
    match region.findTwin pageOffset with
    | none => do
        let (shadowPage, r) ← applyToShadow pagesize numPageSections (region.page pageOffset) r
        -- the remapped page keeps the protection of the shadow page
        return ((region.setPage pagesize pageOffset shadowPage).protect pageOffset false, r)
    | some twin => do
        let (page, twinData, r) ← applyToTwin pagesize (region.writable pageOffset) numPageSections
          (region.page pageOffset) twin.twinData r
        return ({ region.setPage pagesize pageOffset page with
          twins := setTwin pageOffset twinData region.twins }, r)

def handlePages (pagesize : ℕ) : ℕ → Region → Reader → Except Fault (Region × Reader)
  | 0, region, r => .ok (region, r)
  | n + 1, region, r => do
      let (region, r) ← handlePage pagesize region r
      handlePages pagesize n region r

/-- The part of `edsm_memory_handle_message` before the loop: the region, the
rest of the message and the number of pages. -/
def handleHeader (region : Region) (msg : Message) : Except Fault (Region × Reader × ℕ) := do
  let (receivedTimestamp, r) ← Reader.readWord ⟨msg, 0⟩ 4
  let region := region.setLamportTimestamp (UInt32.ofNat receivedTimestamp)
  let (numDiffPages, r) ← r.readWord 4
  return (region, r, numDiffPages)

/-- `edsm_memory_handle_message`; an empty payload is handed over as `NULL`. -/
def handleMessage (pagesize : ℕ) (region : Region) (msg : Option Message) :
    Except Fault (Region × Reader) :=
  match msg with
  | none => .error .nullPointer
  | some msg => do
      let (region, r, numDiffPages) ← handleHeader region msg
      handlePages pagesize numDiffPages region r

end Edsm.Memory
