import Edsm.Memory.Replica
import Edsm.Library.Reachability
import Mathlib.Data.List.Find

/-!
# The regions of a process

The regions lie anywhere in the address space.  A store to a page without a twin
traps, the signal handler looks for the region and twins the page, and the store is
tried again; meanwhile another thread may have sent the twin off, so that it traps
again.  The application sees none of this: its memory is what the stores that have
been carried out and the diffs of the other nodes have made of it.  As long as the
fields of the diffs are wide enough, the bytes of the twins are what all diffs, sent
and received, have made of the zeroes.
-/

namespace Edsm.Memory.AddressSpace

/-- `edsm_memory_region`, with the id of the object and the address of the memory. -/
structure Mapping where
  id : UInt32
  head : ℕ
  region : Region

def Mapping.Contains (m : Mapping) (addr : ℕ) : Prop :=
  m.head ≤ addr ∧ addr < m.head + m.region.size

/-- No address lies in both. -/
def Mapping.Apart (m m' : Mapping) : Prop :=
  m.head + m.region.size ≤ m'.head ∨ m'.head + m'.region.size ≤ m.head

instance (m : Mapping) (addr : ℕ) : Decidable (m.Contains addr) :=
  inferInstanceAs (Decidable (_ ∧ _))

instance (m m' : Mapping) : Decidable (m.Apart m') := inferInstanceAs (Decidable (_ ∨ _))

def findRegionForAddr (regions : List Mapping) (addr : ℕ) : Option Mapping :=
  regions.find? (·.Contains addr)

def modify (regions : List Mapping) (id : UInt32) (f : Region → Region) : List Mapping :=
  regions.map fun m ↦ if m.id = id then { m with region := f m.region } else m

/-! ## What the memory is for -/

/-- The bytes the application sees, and those that the diffs have made. -/
@[ext] structure Image where
  memory : ℕ → Option UInt8
  published : ℕ → Option UInt8

/-- What happens to the memory, as the application sees it. -/
inductive Effect
  | map (head size : ℕ)
  | store (addr : ℕ) (value : UInt8)
  /-- A page of a diff, with its offset in the region at `head`. -/
  | patch (head size : ℕ) (f : Patch ℕ UInt8)
  /-- A diff that is sent, as its bytes say. -/
  | publish (head size : ℕ) (f : Patch ℕ UInt8)

/-- The bytes under a patch of the region at `head`. -/
def overlay (head size : ℕ) (f : Patch ℕ UInt8) (bytes : ℕ → Option UInt8) :
    ℕ → Option UInt8 := fun a ↦
  if head ≤ a ∧ a < head + size then (bytes a).map fun byte ↦ (f (a - head)).getD byte
  else bytes a

def Image.apply (image : Image) : Effect → Image
  | .map head size =>
      { memory := fun a ↦ if head ≤ a ∧ a < head + size then some 0 else image.memory a
        published := fun a ↦ if head ≤ a ∧ a < head + size then some 0 else image.published a }
  | .store addr value =>
      { image with memory := Function.update image.memory addr (some value) }
  | .patch head size f =>
      { memory := overlay head size f image.memory
        published := overlay head size f image.published }
  | .publish head size f => { image with published := overlay head size f image.published }

/-- Nothing is mapped. -/
def Image.empty : Image := ⟨fun _ ↦ none, fun _ ↦ none⟩

/-! ## What the code does -/

inductive Stop
  /-- `segfault_handler`. -/
  | exit
  /-- The assertion of `tx_begin`. -/
  | abort
  deriving DecidableEq, Repr

def txBegin (pagesize : ℕ) (regions : List Mapping) (addr : ℕ) : Except Stop (List Mapping) :=
  let addr := pageHead pagesize addr
  match findRegionForAddr regions addr with
  | none => .error .abort
  | some s => .ok (modify regions s.id fun region ↦ region.txBegin pagesize (addr - s.head))

def pageTrapHandler (pagesize : ℕ) (regions : List Mapping) (addr : ℕ) :
    Except Stop (List Mapping) :=
  match findRegionForAddr regions addr with
  | none => .error .exit
  | some _ => txBegin pagesize regions addr

inductive Pc
  | running
  /-- About to write to memory. -/
  | storing (addr : ℕ) (value : UInt8)
  /-- The write has trapped, and `page_trap_handler` is called. -/
  | trapped (addr : ℕ) (value : UInt8)
  /-- In `edsm_memory_tx_end`, for all regions or for one, with those that are left. -/
  | ending (all : Bool) (left : List UInt32)
  deriving DecidableEq

/-- The region of the next round of the loop of `edsm_memory_tx_end`. -/
def Pc.next : Pc → Option UInt32
  | ending _ (id :: _) => some id
  | running | storing .. | trapped .. | ending _ [] => none

structure Process (T : Type*) where
  /-- `edsm_memory_regions` -/
  regions : List Mapping
  pc : T → Pc
  /-- What has happened to the memory so far; no function reads this field. -/
  log : List Effect

inductive Action (T : Type*)
  /-- `edsm_memory_region_get`, with the address that `posix_memalign` returns. -/
  | regionGet (id : UInt32) (size head : ℕ)
  | store (t : T) (addr : ℕ) (value : UInt8)
  /-- The processor carries out the write of a thread, or it traps. -/
  | access (t : T)
  | trap (t : T)
  /-- The listener handles a page of a diff. -/
  | handlePage (id : UInt32) (d : PageDiff)
  | txEnd (t : T) (region : Option UInt32)
  /-- The next round of the loop over the regions, or the return behind the last one. -/
  | diffRegion (t : T)

section Step

variable {T : Type*} [DecidableEq T]

def Process.moveTo (p : Process T) (t : T) (pc : Pc) : Process T :=
  { p with pc := Function.update p.pc t pc }

def Process.setRegion (p : Process T) (m : Mapping) (region : Region) (effects : List Effect) :
    Process T :=
  { p with
    regions := modify p.regions m.id fun _ ↦ region
    log := p.log ++ effects }

/-- What a payload of `edsm_memory_tx_end` says. -/
def payloadPatch (pagesize : ℕ) (payload : Option (List UInt8)) : Patch ℕ UInt8 :=
  .join ((sentPages payload).map (PageDiff.patch pagesize))

def findById (regions : List Mapping) (id : UInt32) : Option Mapping := regions.find? (·.id = id)

def regionGet (pagesize : ℕ) (p : Process T) (id : UInt32) (size head : ℕ) : Process T :=
  match findById p.regions id, Memory.regionGet pagesize size with
  | none, some region =>
      { p with
        regions := ⟨id, head, region⟩ :: p.regions
        log := p.log ++ [.map head region.size] }
  | _, _ => p

def access (pagesize : ℕ) (p : Process T) (t : T) (addr : ℕ) (value : UInt8) : Process T :=
  match findRegionForAddr p.regions addr with
  | none => p.moveTo t (.trapped addr value)
  | some m =>
      match m.region.store pagesize (addr - m.head) value with
      | none => p.moveTo t (.trapped addr value)
      | some region => (p.setRegion m region [.store addr value]).moveTo t .running

def step (A : Allocator) (pagesize : ℕ) (p : Process T) :
    Action T → Option (Except Stop (Process T))
  | .regionGet id size head => some (.ok (regionGet pagesize p id size head))
  | .store t addr value =>
      if p.pc t = .running then some (.ok (p.moveTo t (.storing addr value))) else none
  | .access t =>
      match p.pc t with
      | .storing addr value => some (.ok (access pagesize p t addr value))
      | _ => none
  | .trap t =>
      match p.pc t with
      | .trapped addr value => some ((pageTrapHandler pagesize p.regions addr).map fun regions ↦
          { p with regions }.moveTo t (.storing addr value))
      | _ => none
  | .handlePage id d =>
      (findById p.regions id).bind fun m ↦
        match Memory.handlePage pagesize m.region ⟨.ofBytes d.encode, 0⟩ with
        | .error _ => none
        | .ok (region, _) => some (.ok
            (p.setRegion m region [.patch m.head m.region.size (d.patch pagesize)]))
  | .txEnd t region =>
      if p.pc t = .running then
        some (.ok (p.moveTo t (.ending region.isNone
          (region.elim (p.regions.map Mapping.id) fun id ↦ [id]))))
      else none
  | .diffRegion t =>
      match p.pc t with
      | .ending _ [] => some (.ok (p.moveTo t .running))
      | .ending all (id :: left) =>
          (findById p.regions id).bind fun m ↦
            match Memory.txEnd A pagesize all m.region with
            | .error _ => none
            | .ok (region, payload) => some (.ok ((p.setRegion m region
                [.publish m.head m.region.size (payloadPatch pagesize payload)]).moveTo t
                  (.ending all left)))
      | _ => none

def system (T : Type*) [DecidableEq T] (A : Allocator) (pagesize : ℕ) :
    LabelledSystem (Except Stop (Process T)) (Action T) where
  init := .ok { regions := [], pc := fun _ ↦ .running, log := [] }
  step x a := x.toOption.bind fun p ↦ step A pagesize p a

/-- `posix_memalign` returns memory of its own, aligned to the page size, and the diffs are those
that the other nodes make for a region of this size. -/
def Fits (pagesize : ℕ) (x : Except Stop (Process T)) : Action T → Prop
  | .regionGet id size head => ∀ p region, x = .ok p →
      Memory.regionGet pagesize size = some region →
      pagesize ∣ head ∧ ∀ m ∈ p.regions, (Mapping.mk id head region).Apart m
  | .handlePage id d => ∀ p, x = .ok p → ∀ m ∈ p.regions, m.id = id →
      d.Fits ∧ d.Inside pagesize m.region.size ∧ d.encode.length < 2 ^ 32
  | _ => True

/-- No diff is taken one of whose numbers does not fit into its field. -/
def FieldsFit (pagesize : ℕ) (x : Except Stop (Process T)) : Action T → Prop
  | .diffRegion t => ∀ p, x = .ok p → ∀ id ∈ (p.pc t).next, ∀ m ∈ findById p.regions id,
      ∀ d ∈ m.region.pageDiffs pagesize, d.Fits
  | _ => True

instance (pagesize : ℕ) : (x : Except Stop (Process T)) → (a : Action T) →
    Decidable (Fits pagesize x a)
  | .error _, .regionGet .. | .error _, .handlePage .. => isTrue (by simp [Fits])
  | .ok p, .regionGet id size head =>
      decidable_of_iff (∀ region ∈ Memory.regionGet pagesize size,
        pagesize ∣ head ∧ ∀ m ∈ p.regions, (Mapping.mk id head region).Apart m)
        ⟨fun h p' region hp ↦ Except.ok.inj hp ▸ h region, fun h region ↦ h p region rfl⟩
  | .ok p, .handlePage id d =>
      decidable_of_iff (∀ m ∈ p.regions, m.id = id →
        d.Fits ∧ d.Inside pagesize m.region.size ∧ d.encode.length < 2 ^ 32)
        ⟨fun h p' hp ↦ Except.ok.inj hp ▸ h, fun h ↦ h p rfl⟩
  | _, .store .. | _, .access _ | _, .trap _ | _, .txEnd .. | _, .diffRegion _ =>
      inferInstanceAs (Decidable True)

instance (pagesize : ℕ) : (x : Except Stop (Process T)) → (a : Action T) →
    Decidable (FieldsFit pagesize x a)
  | .error _, .diffRegion _ => isTrue (by simp [FieldsFit])
  | .ok p, .diffRegion t =>
      haveI : Decidable (∀ id ∈ (p.pc t).next, ∀ m ∈ findById p.regions id,
          ∀ d ∈ m.region.pageDiffs pagesize, d.Fits) :=
        Option.decidableForallMem (p.pc t).next
      decidable_of_iff _ ⟨fun h p' hp ↦ Except.ok.inj hp ▸ h, fun h ↦ h p rfl⟩
  | _, .regionGet .. | _, .store .. | _, .access _ | _, .trap _ | _, .handlePage ..
  | _, .txEnd .. =>
      inferInstanceAs (Decidable True)

end Step

/-! ## Looking for a region -/

/-- The regions are apart and each is well formed. -/
structure WellFormed (pagesize : ℕ) (regions : List Mapping) : Prop where
  ids : (regions.map Mapping.id).Nodup
  apart : regions.Pairwise Mapping.Apart
  aligned : ∀ m ∈ regions, pagesize ∣ m.head
  region : ∀ m ∈ regions, m.region.WellFormed pagesize

variable {A : Allocator} {pagesize : ℕ} {regions : List Mapping} {m : Mapping} {addr : ℕ}

instance : Std.Symm Mapping.Apart := ⟨fun _ _ ↦ Or.symm⟩

theorem WellFormed.eq_of_contains (h : WellFormed pagesize regions) {m' : Mapping}
    (hm : m ∈ regions) (hm' : m' ∈ regions) (hc : m.Contains addr) (hc' : m'.Contains addr) :
    m = m' := by
  by_contra hne
  have hapart : m.Apart m' := h.apart.forall hm hm' hne
  unfold Mapping.Apart at hapart
  unfold Mapping.Contains at hc hc'
  omega

theorem WellFormed.find_eq_some (h : WellFormed pagesize regions) :
    findRegionForAddr regions addr = some m ↔ m ∈ regions ∧ m.Contains addr := by
  constructor
  · intro hfind
    exact ⟨List.mem_of_find?_eq_some hfind, by simpa using List.find?_some hfind⟩
  · rintro ⟨hm, hc⟩
    cases hfind : findRegionForAddr regions addr with
    | none => exact absurd hc (by simpa using List.find?_eq_none.mp hfind m hm)
    | some m' =>
        have hm' := List.mem_of_find?_eq_some hfind
        have hc' : m'.Contains addr := by simpa using List.find?_some hfind
        rw [h.eq_of_contains hm hm' hc hc']

theorem find_eq_none :
    findRegionForAddr regions addr = none ↔ ∀ m ∈ regions, ¬ m.Contains addr := by
  simp [findRegionForAddr, List.find?_eq_none]

theorem WellFormed.findById_eq_some (h : WellFormed pagesize regions) {id : UInt32} :
    findById regions id = some m ↔ m ∈ regions ∧ m.id = id := by
  constructor
  · intro hfind
    exact ⟨List.mem_of_find?_eq_some hfind, by simpa using List.find?_some hfind⟩
  · rintro ⟨hm, rfl⟩
    cases hfind : findById regions m.id with
    | none => simpa using List.find?_eq_none.mp hfind m hm
    | some m' =>
        have hid : m'.id = m.id := by simpa using List.find?_some hfind
        rw [List.inj_on_of_nodup_map h.ids (List.mem_of_find?_eq_some hfind) hm hid]

theorem ids_modify (id : UInt32) (f : Region → Region) :
    (modify regions id f).map Mapping.id = regions.map Mapping.id := by
  rw [modify, List.map_map]
  refine List.map_congr_left fun m _ ↦ ?_
  rw [Function.comp_apply]
  split <;> rfl

/-- A change to one region that keeps its size keeps the others where they are. -/
theorem wellFormed_modify (h : WellFormed pagesize regions) (hm : m ∈ regions)
    (f : Region → Region) (hsize : (f m.region).size = m.region.size)
    (hwf : (f m.region).WellFormed pagesize) :
    WellFormed pagesize (modify regions m.id f) := by
  have heq : ∀ m' ∈ regions, m'.id = m.id → m' = m := fun m' hm' hid ↦
    List.inj_on_of_nodup_map h.ids hm' hm hid
  have hplace : ∀ m' ∈ regions, ∀ m'' : Mapping,
      m'' = (if m'.id = m.id then { m' with region := f m'.region } else m') →
      m''.head = m'.head ∧ m''.region.size = m'.region.size ∧ m''.region.WellFormed pagesize := by
    rintro m' hm' _ rfl
    split
    · next hid =>
        obtain rfl := heq m' hm' hid
        exact ⟨rfl, hsize, hwf⟩
    · exact ⟨rfl, rfl, h.region m' hm'⟩
  refine ⟨?_, ?_, ?_, ?_⟩
  · rw [ids_modify]
    exact h.ids
  · rw [modify, List.pairwise_map]
    refine h.apart.imp_of_mem fun {m₁ m₂} h₁ h₂ hapart ↦ ?_
    obtain ⟨hhead₁, hsize₁, -⟩ := hplace m₁ h₁ _ rfl
    obtain ⟨hhead₂, hsize₂, -⟩ := hplace m₂ h₂ _ rfl
    rw [Mapping.Apart, hhead₁, hsize₁, hhead₂, hsize₂]
    exact hapart
  · intro m'' hm''
    obtain ⟨m', hm', rfl⟩ := List.mem_map.mp hm''
    rw [(hplace m' hm' _ rfl).1]
    exact h.aligned m' hm'
  · intro m'' hm''
    obtain ⟨m', hm', rfl⟩ := List.mem_map.mp hm''
    exact (hplace m' hm' _ rfl).2.2

/-! ## The image of the regions -/

/-- What a function of the regions' bytes gives at an address. -/
def load (regions : List Mapping) (f : Region → ℕ → UInt8) (addr : ℕ) : Option UInt8 :=
  (findRegionForAddr regions addr).map fun m ↦ f m.region (addr - m.head)

def image (pagesize : ℕ) (regions : List Mapping) : Image :=
  ⟨load regions Region.bytes, load regions (Region.base pagesize)⟩

theorem WellFormed.load_of_contains (h : WellFormed pagesize regions) (hm : m ∈ regions)
    (hc : m.Contains addr) (f : Region → ℕ → UInt8) :
    load regions f addr = some (f m.region (addr - m.head)) := by
  rw [load, h.find_eq_some.mpr ⟨hm, hc⟩, Option.map_some]

theorem WellFormed.load_modify (h : WellFormed pagesize regions) (hm : m ∈ regions)
    {g : Region → Region} (hsize : (g m.region).size = m.region.size)
    (f : Region → ℕ → UInt8) (addr : ℕ) : load (modify regions m.id g) f addr =
      if m.Contains addr then some (f (g m.region) (addr - m.head)) else load regions f addr := by
  have heq : ∀ m' ∈ regions, m'.id = m.id → m' = m := fun m' hm' hid ↦
    List.inj_on_of_nodup_map h.ids hm' hm hid
  have hfind : findRegionForAddr (modify regions m.id g) addr =
      (findRegionForAddr regions addr).map fun m' ↦
        if m'.id = m.id then { m' with region := g m'.region } else m' := by
    rw [findRegionForAddr, modify, List.find?_map]
    refine congrArg (Option.map _) (List.find?_congr fun m' hm' ↦ ?_)
    rw [Function.comp_apply]
    split
    · next hid =>
        obtain rfl := heq m' hm' hid
        exact decide_eq_decide.mpr (by simp only [Mapping.Contains, hsize])
    · rfl
  rw [load, hfind]
  split
  · next hc => simp [h.find_eq_some.mpr ⟨hm, hc⟩]
  · next hc =>
      cases hother : findRegionForAddr regions addr with
      | none => simp [load, hother]
      | some m' =>
          obtain ⟨hm', hc'⟩ := h.find_eq_some.mp hother
          have hid : m'.id ≠ m.id := fun hid ↦ hc (heq m' hm' hid ▸ hc')
          simp [load, hother, hid]

/-! ## The trap -/

theorem pageHead_pageHead :
    pageHead pagesize (pageHead pagesize addr) = pageHead pagesize addr := by
  have hzero := Nat.mod_eq_zero_of_dvd (pageHead_dvd pagesize addr)
  rw [pageHead, hzero, Nat.sub_zero]

theorem le_pageHead {head : ℕ} (hdvd : pagesize ∣ head) (hle : head ≤ addr) :
    head ≤ pageHead pagesize addr ∧
      pageHead pagesize (addr - head) = pageHead pagesize addr - head := by
  have hmod : (addr - head) % pagesize = addr % pagesize := by
    obtain ⟨k, rfl⟩ := hdvd
    exact Nat.sub_mul_mod hle
  have hrest := Nat.mod_le (addr - head) pagesize
  rw [pageHead, pageHead, hmod]
  omega

/-- The rounded address lies in the same region, and the page is that of the address. -/
theorem WellFormed.txBegin_eq (h : WellFormed pagesize regions) (hm : m ∈ regions)
    (hc : m.Contains addr) : txBegin pagesize regions addr =
      .ok (modify regions m.id fun region ↦ region.txBegin pagesize (addr - m.head)) := by
  have hdvd : pagesize ∣ m.head := h.aligned m hm
  obtain ⟨hle, hsub⟩ := le_pageHead hdvd hc.1
  have hc' : m.Contains (pageHead pagesize addr) :=
    ⟨hle, (pageHead_le pagesize addr).trans_lt hc.2⟩
  have hpage : pageHead pagesize (pageHead pagesize addr - m.head) =
      pageHead pagesize (addr - m.head) := by
    rw [(le_pageHead hdvd hle).2, hsub, pageHead_pageHead]
  simp only [txBegin, h.find_eq_some.mpr ⟨hm, hc'⟩]
  simp only [Region.txBegin, hpage]

theorem WellFormed.trap_of_contains (h : WellFormed pagesize regions) (hm : m ∈ regions)
    (hc : m.Contains addr) : pageTrapHandler pagesize regions addr =
      .ok (modify regions m.id fun region ↦ region.txBegin pagesize (addr - m.head)) := by
  rw [pageTrapHandler, h.find_eq_some.mpr ⟨hm, hc⟩]
  exact h.txBegin_eq hm hc

theorem trap_of_notMem (h : ∀ m ∈ regions, ¬ m.Contains addr) :
    pageTrapHandler pagesize regions addr = .error .exit := by
  rw [pageTrapHandler, find_eq_none.mpr h]

/-! ## What each change does to the image -/

/-- The places of a region are told apart by their offsets. -/
theorem Mapping.Contains.sub_eq_sub_iff {a b : ℕ} (ha : m.Contains a) (hb : m.Contains b) :
    a - m.head = b - m.head ↔ a = b := by
  have hle := ha.1
  have hle' := hb.1
  omega

theorem WellFormed.image_txBegin (h : WellFormed pagesize regions) (hm : m ∈ regions) (a : ℕ) :
    image pagesize (modify regions m.id fun region ↦ region.txBegin pagesize a) =
      image pagesize regions := by
  have hload : ∀ f : Region → ℕ → UInt8, f (m.region.txBegin pagesize a) = f m.region →
      load (modify regions m.id fun region ↦ region.txBegin pagesize a) f =
        load regions f := by
    intro f hf
    funext b
    rw [h.load_modify hm (g := fun region ↦ region.txBegin pagesize a) (Region.size_txBegin a)]
    split
    · next hc => rw [hf, h.load_of_contains hm hc]
    · rfl
  exact Image.ext (hload _ (Region.bytes_txBegin a)) (hload _ (Region.base_txBegin a))

theorem WellFormed.image_store (h : WellFormed pagesize regions) (hm : m ∈ regions)
    (hc : m.Contains addr) {value : UInt8} {region : Region}
    (hst : m.region.store pagesize (addr - m.head) value = some region) :
    image pagesize (modify regions m.id fun _ ↦ region) =
      (image pagesize regions).apply (.store addr value) := by
  have hbase := (h.region m hm).base_store hst
  obtain ⟨-, -, rfl⟩ := Region.store_eq_some hst
  refine Image.ext (funext fun a ↦ ?_) (funext fun a ↦ ?_)
  · change load _ Region.bytes a = Function.update (load regions Region.bytes) addr (some value) a
    rw [h.load_modify hm rfl, Function.update_apply]
    split
    · next ha =>
        change some (Function.update m.region.bytes (addr - m.head) value (a - m.head)) = _
        rw [Function.update_apply, apply_ite some, h.load_of_contains hm ha]
        exact if_congr (ha.sub_eq_sub_iff hc) rfl rfl
    · next ha =>
        have hne : a ≠ addr := fun heq ↦ ha (heq ▸ hc)
        rw [if_neg hne]
  · change load _ (Region.base pagesize) a = load regions (Region.base pagesize) a
    rw [h.load_modify hm rfl, hbase]
    split
    · next ha => rw [h.load_of_contains hm ha]
    · rfl

/-- A patch of a region's bytes, seen from the address space. -/
theorem WellFormed.load_overlay (h : WellFormed pagesize regions) (hm : m ∈ regions)
    {region : Region} (hsize : region.size = m.region.size) {f : Region → ℕ → UInt8}
    {patch : Patch ℕ UInt8} (hf : f region = patch.apply (f m.region)) :
    load (modify regions m.id fun _ ↦ region) f =
      overlay m.head m.region.size patch (load regions f) := by
  funext a
  rw [h.load_modify hm hsize]
  refine ite_congr rfl (fun ha ↦ ?_) fun _ ↦ rfl
  rw [hf, h.load_of_contains hm ha]
  rfl

theorem WellFormed.image_applyPage (hpos : 0 < pagesize) (h : WellFormed pagesize regions)
    (hm : m ∈ regions) {d : PageDiff} (haligned : pagesize ∣ d.pageOffset) :
    image pagesize (modify regions m.id fun _ ↦ m.region.applyPage pagesize d) =
      (image pagesize regions).apply (.patch m.head m.region.size (d.patch pagesize)) :=
  Image.ext (h.load_overlay hm Region.size_applyPage Region.bytes_applyPage)
    (h.load_overlay hm Region.size_applyPage (Region.base_applyPage hpos haligned))

theorem WellFormed.memory_diffed (h : WellFormed pagesize regions) (hm : m ∈ regions) :
    (image pagesize (modify regions m.id fun _ ↦ m.region.diffed)).memory =
      (image pagesize regions).memory := by
  funext a
  change load _ Region.bytes a = load regions Region.bytes a
  rw [h.load_modify hm (g := fun _ ↦ m.region.diffed) Region.diffed_size, Region.diffed_bytes]
  split
  · next ha => rw [h.load_of_contains hm ha]
  · rfl

/-- The twins are gone, and the bytes of the diff say what they were behind by. -/
theorem WellFormed.published_diffed (hpos : 0 < pagesize) (h : WellFormed pagesize regions)
    (hm : m ∈ regions) (hfits : ∀ d ∈ m.region.pageDiffs pagesize, d.Fits) {all : Bool}
    {region : Region} {payload : Option (List UInt8)}
    (hend : txEnd A pagesize all m.region = .ok (region, payload)) :
    (image pagesize (modify regions m.id fun _ ↦ m.region.diffed)).published =
      overlay m.head m.region.size (payloadPatch pagesize payload)
        (image pagesize regions).published := by
  refine h.load_overlay hm Region.diffed_size ?_
  rw [Region.base_diffed (h.region m hm) hpos, payloadPatch, Patch.apply_join,
    sentPages_of_txEnd hfits hend]

theorem image_cons (m : Mapping) (hzero : m.region.bytes = fun _ ↦ 0)
    (htwins : m.region.twins = []) :
    image pagesize (m :: regions) =
      (image pagesize regions).apply (.map m.head m.region.size) := by
  have hload : ∀ f : Region → ℕ → UInt8, f m.region = (fun _ ↦ 0) → ∀ a,
      load (m :: regions) f a =
        if m.head ≤ a ∧ a < m.head + m.region.size then some 0 else load regions f a := by
    intro f hf a
    rw [load, findRegionForAddr, List.find?_cons]
    split
    · next ha =>
        have hin : m.head ≤ a ∧ a < m.head + m.region.size := of_decide_eq_true ha
        rw [if_pos hin, Option.map_some, hf]
    · next ha =>
        have hout : ¬ (m.head ≤ a ∧ a < m.head + m.region.size) := of_decide_eq_false ha
        rw [if_neg hout]
        rfl
  exact Image.ext (funext (hload _ hzero))
    (funext (hload _ ((Region.base_of_twins_eq_nil htwins).trans hzero)))

/-! ## Runs -/

section Runs

variable {T : Type*} [DecidableEq T] {p p' : Process T} {x : Except Stop (Process T)} {t : T}
variable {value : UInt8}

theorem Image.memory_foldl_congr {i j : Image} (h : i.memory = j.memory)
    (effects : List Effect) :
    (effects.foldl Image.apply i).memory = (effects.foldl Image.apply j).memory := by
  induction effects generalizing i j with
  | nil => exact h
  | cons effect effects ih =>
      refine ih ?_
      cases effect <;> simp only [Image.apply, h]

theorem Image.published_foldl_congr {i j : Image} (h : i.published = j.published)
    (effects : List Effect) :
    (effects.foldl Image.apply i).published = (effects.foldl Image.apply j).published := by
  induction effects generalizing i j with
  | nil => exact h
  | cons effect effects ih =>
      refine ih ?_
      cases effect <;> simp only [Image.apply, h]

/-- A step with these effects; what it publishes is so under a condition. -/
structure Process.Does (pagesize : ℕ) (fits : Prop) (effects : List Effect) (p p' : Process T) :
    Prop where
  regions : WellFormed pagesize p'.regions
  log : p'.log = p.log ++ effects
  memory : (image pagesize p'.regions).memory =
    (effects.foldl Image.apply (image pagesize p.regions)).memory
  published : fits → (image pagesize p'.regions).published =
    (effects.foldl Image.apply (image pagesize p.regions)).published

section Does

variable {fits : Prop} {effects : List Effect}

omit [DecidableEq T] in
theorem Process.Does.of_image (hregions : WellFormed pagesize p'.regions)
    (hlog : p'.log = p.log ++ effects)
    (himage : image pagesize p'.regions = effects.foldl Image.apply (image pagesize p.regions)) :
    p.Does pagesize fits effects p' :=
  ⟨hregions, hlog, congrArg Image.memory himage, fun _ ↦ congrArg Image.published himage⟩

omit [DecidableEq T] in
theorem Process.Does.refl (h : WellFormed pagesize p.regions) : p.Does pagesize fits [] p :=
  .of_image h (List.append_nil _).symm rfl

theorem Process.Does.moveTo (h : p.Does pagesize fits effects p') (t : T) (pc : Pc) :
    p.Does pagesize fits effects (p'.moveTo t pc) :=
  ⟨h.regions, h.log, h.memory, h.published⟩

omit [DecidableEq T] in
theorem Process.Does.setRegion (h : WellFormed pagesize p.regions) (hm : m ∈ p.regions)
    {region : Region} (hsize : region.size = m.region.size) (hwf : region.WellFormed pagesize)
    {effect : Effect} (himage : image pagesize (modify p.regions m.id fun _ ↦ region) =
      (image pagesize p.regions).apply effect) :
    p.Does pagesize fits [effect] (p.setRegion m region [effect]) :=
  .of_image (wellFormed_modify h hm (fun _ ↦ region) hsize hwf) rfl himage

end Does

variable {fits : Prop}

omit [DecidableEq T] in
theorem does_regionGet (h : WellFormed pagesize p.regions) {id : UInt32} {size head : ℕ}
    (hfits : Fits pagesize (.ok p) (.regionGet id size head : Action T)) :
    ∃ effects, p.Does pagesize fits effects (regionGet pagesize p id size head) := by
  unfold AddressSpace.regionGet
  split
  · next region hnew hget =>
      obtain ⟨hwf, -, hzero⟩ := Region.wellFormed_regionGet hget
      obtain ⟨hdvd, hapart⟩ := hfits p region rfl hget
      refine ⟨[.map head region.size], .of_image ⟨?_, ?_, ?_, ?_⟩ rfl ?_⟩
      · refine List.nodup_cons.mpr ⟨fun hmem ↦ ?_, h.ids⟩
        obtain ⟨m, hm, hid⟩ := List.mem_map.mp hmem
        simpa [hid] using List.find?_eq_none.mp hnew m hm
      · exact List.pairwise_cons.mpr ⟨hapart, h.apart⟩
      · exact List.forall_mem_cons.mpr ⟨hdvd, h.aligned⟩
      · exact List.forall_mem_cons.mpr ⟨hwf, h.region⟩
      · exact image_cons _ hzero (Region.twins_regionGet hget)
  · exact ⟨[], .refl h⟩

/-- A write is carried out as soon as it lies in a writable page. -/
theorem access_cases (h : WellFormed pagesize p.regions) (t : T) (addr : ℕ) (value : UInt8) :
    access pagesize p t addr value = p.moveTo t (.trapped addr value) ∨
      ∃ m ∈ p.regions, m.Contains addr ∧ ∃ region,
        m.region.store pagesize (addr - m.head) value = some region ∧
        access pagesize p t addr value =
          (p.setRegion m region [.store addr value]).moveTo t .running := by
  unfold access
  split
  · exact .inl rfl
  · next m hfind =>
      obtain ⟨hm, hc⟩ := h.find_eq_some.mp hfind
      cases hst : m.region.store pagesize (addr - m.head) value with
      | none => exact .inl rfl
      | some region => exact .inr ⟨m, hm, hc, region, hst, rfl⟩

theorem does_access (h : WellFormed pagesize p.regions) :
    ∃ effects, p.Does pagesize fits effects (access pagesize p t addr value) := by
  rcases access_cases h t addr value with hst | ⟨m, hm, hc, region, hst, heq⟩
  · rw [hst]
    exact ⟨[], (Process.Does.refl h).moveTo _ _⟩
  · rw [heq]
    have hsize : region.size = m.region.size := by
      obtain ⟨-, -, rfl⟩ := Region.store_eq_some hst
      rfl
    exact ⟨_, (Process.Does.setRegion h hm hsize ((h.region m hm).store hst)
      (h.image_store hm hc hst)).moveTo _ _⟩

omit [DecidableEq T] in
theorem memory_eq_none_iff : (image pagesize p.regions).memory addr = none ↔
    ∀ m ∈ p.regions, ¬ m.Contains addr := by
  change load p.regions Region.bytes addr = none ↔ _
  rw [load, Option.map_eq_none_iff, find_eq_none]

/-- The page of an address has a twin and is writable. -/
def Process.twinned (pagesize : ℕ) (p : Process T) (m : Mapping) (addr : ℕ) : Process T :=
  { p with regions := modify p.regions m.id fun region ↦ region.txBegin pagesize (addr - m.head) }

omit [DecidableEq T] in
theorem wellFormed_twinned (h : WellFormed pagesize p.regions) (hm : m ∈ p.regions)
    (hc : m.Contains addr) : WellFormed pagesize (p.twinned pagesize m addr).regions := by
  have hlt : addr - m.head < m.region.size := Nat.sub_lt_left_of_lt_add hc.1 hc.2
  exact wellFormed_modify h hm (fun region ↦ region.txBegin pagesize (addr - m.head))
    (Region.size_txBegin _) ((h.region m hm).txBegin hlt)

theorem exists_trapped_of_step (hst : step A pagesize p (.trap t) = some x) :
    ∃ addr value, p.pc t = .trapped addr value := by
  simp only [step] at hst
  split at hst
  · exact ⟨_, _, ‹_›⟩
  · cases hst

/-- A thread that has trapped tries again if the address is mapped, and only then. -/
theorem trap_cases (h : WellFormed pagesize p.regions) (hpc : p.pc t = .trapped addr value) :
    (step A pagesize p (.trap t) = some (.error .exit) ∧
      (image pagesize p.regions).memory addr = none) ∨
    ∃ m ∈ p.regions, m.Contains addr ∧ step A pagesize p (.trap t) =
      some (.ok ((p.twinned pagesize m addr).moveTo t (.storing addr value))) := by
  by_cases hmapped : ∃ m ∈ p.regions, m.Contains addr
  · obtain ⟨m, hm, hc⟩ := hmapped
    refine .inr ⟨m, hm, hc, ?_⟩
    simp only [step, hpc, h.trap_of_contains hm hc]
    rfl
  · have hnone : ∀ m ∈ p.regions, ¬ m.Contains addr := fun m hm hc ↦ hmapped ⟨m, hm, hc⟩
    refine .inl ⟨?_, memory_eq_none_iff.mpr hnone⟩
    simp only [step, hpc, trap_of_notMem hnone]
    rfl

omit [DecidableEq T] in
theorem does_handlePage (hpos : 0 < pagesize) (h : WellFormed pagesize p.regions)
    (hm : m ∈ p.regions) {d : PageDiff} (hd : d.Fits) (hinside : d.Inside pagesize m.region.size)
    (hlength : d.encode.length < 2 ^ 32) :
    ∃ region r, Memory.handlePage pagesize m.region ⟨.ofBytes d.encode, 0⟩ = .ok (region, r) ∧
      p.Does pagesize fits [.patch m.head m.region.size (d.patch pagesize)]
        (p.setRegion m region [.patch m.head m.region.size (d.patch pagesize)]) := by
  have hl := Message.layout_ofBytes hlength
  rw [← List.append_nil d.encode] at hl
  obtain ⟨msg, -, hpage, -⟩ := handlePage_spec (h.region m hm) hd hinside
    (r := ⟨.ofBytes (d.encode ++ []), 0⟩) hl
  rw [List.append_nil] at hpage
  exact ⟨_, _, hpage, .setRegion h hm Region.size_applyPage (h.region m hm).applyPage
    (h.image_applyPage hpos hm hinside.aligned)⟩

theorem does_diffRegion (hpos : 0 < pagesize) (h : WellFormed pagesize p.regions)
    (hm : m ∈ p.regions) (hfits : fits → ∀ d ∈ m.region.pageDiffs pagesize, d.Fits) {all : Bool}
    {region : Region} {payload : Option (List UInt8)}
    (hend : Memory.txEnd A pagesize all m.region = .ok (region, payload)) (pc : Pc) :
    p.Does pagesize fits [.publish m.head m.region.size (payloadPatch pagesize payload)]
      ((p.setRegion m region
        [.publish m.head m.region.size (payloadPatch pagesize payload)]).moveTo t pc) := by
  obtain rfl := txEnd_region hend
  exact ⟨wellFormed_modify h hm (fun _ ↦ m.region.diffed) Region.diffed_size (h.region m hm).diffed,
    rfl, h.memory_diffed hm, fun hfit ↦ h.published_diffed hpos hm (hfits hfit) hend⟩

/-- What a step does, and that the assertion holds in it. -/
theorem does_of_step (hpos : 0 < pagesize) (h : WellFormed pagesize p.regions) {a : Action T}
    (hfits : Fits pagesize (.ok p) a) (hst : step A pagesize p a = some x) :
    x ≠ .error .abort ∧ ∀ p', x = .ok p' →
      ∃ effects, p.Does pagesize (FieldsFit pagesize (.ok p) a) effects p' := by
  have hok : ∀ {p₁ : Process T}, (∃ effects, p.Does pagesize (FieldsFit pagesize (.ok p) a)
      effects p₁) → x = .ok p₁ → x ≠ .error .abort ∧ ∀ p', x = .ok p' →
        ∃ effects, p.Does pagesize (FieldsFit pagesize (.ok p) a) effects p' := by
    rintro p₁ h₁ rfl
    exact ⟨by simp, fun p' heq ↦ Except.ok.inj heq ▸ h₁⟩
  cases a with
  | regionGet id size head => exact hok (does_regionGet h hfits) (Option.some.inj hst).symm
  | store t addr value =>
      simp only [step] at hst
      split at hst
      · exact hok ⟨[], (Process.Does.refl h).moveTo _ _⟩ (Option.some.inj hst).symm
      · cases hst
  | access t =>
      simp only [step] at hst
      split at hst
      · exact hok (does_access h) (Option.some.inj hst).symm
      · cases hst
  | trap t =>
      obtain ⟨addr, value, hpc⟩ := exists_trapped_of_step hst
      rcases trap_cases (A := A) h hpc with ⟨htrap, -⟩ | ⟨m, hm, hc, htrap⟩
      · obtain rfl := Option.some.inj (htrap.symm.trans hst)
        exact ⟨by simp, by simp⟩
      · have hdoes : p.Does pagesize (FieldsFit pagesize (.ok p) (.trap t)) []
            (p.twinned pagesize m addr) :=
          .of_image (wellFormed_twinned h hm hc) (List.append_nil _).symm (h.image_txBegin hm _)
        exact hok ⟨[], hdoes.moveTo _ _⟩ (Option.some.inj (hst.symm.trans htrap))
  | handlePage id d =>
      obtain ⟨m, hfind, hst⟩ := Option.bind_eq_some_iff.mp hst
      obtain ⟨hm, hid⟩ := h.findById_eq_some.mp hfind
      obtain ⟨hd, hinside, hlength⟩ := hfits p rfl m hm hid
      obtain ⟨region, r, hpage, hdoes⟩ := does_handlePage hpos h hm hd hinside hlength
      rw [hpage] at hst
      exact hok ⟨_, hdoes⟩ (Option.some.inj hst).symm
  | txEnd t region =>
      simp only [step] at hst
      split at hst
      · exact hok ⟨[], (Process.Does.refl h).moveTo _ _⟩ (Option.some.inj hst).symm
      · cases hst
  | diffRegion t =>
      simp only [step] at hst
      split at hst
      · exact hok ⟨[], (Process.Does.refl h).moveTo _ _⟩ (Option.some.inj hst).symm
      · next all id left hpc =>
          obtain ⟨m, hfind, hst⟩ := Option.bind_eq_some_iff.mp hst
          obtain ⟨hm, -⟩ := h.findById_eq_some.mp hfind
          split at hst
          · cases hst
          · next region payload hend =>
              exact hok ⟨_, does_diffRegion hpos h hm (fun hfit ↦
                hfit p rfl id (by rw [hpc]; rfl) m hfind) hend _⟩ (Option.some.inj hst).symm
      · cases hst

/-- The memory is what has happened to it. -/
structure Process.Inv (pagesize : ℕ) (p : Process T) : Prop where
  regions : WellFormed pagesize p.regions
  memory : (image pagesize p.regions).memory = (p.log.foldl Image.apply Image.empty).memory

theorem exists_ok_of_step {a : Action T} {y : Except Stop (Process T)}
    (hst : (system T A pagesize).step x a = some y) :
    ∃ p, x = .ok p ∧ step A pagesize p a = some y := by
  obtain ⟨p, hp, hst⟩ := Option.bind_eq_some_iff.mp hst
  refine ⟨p, ?_, hst⟩
  cases x with
  | error e => cases hp
  | ok p₀ => rw [Option.some.inj hp]

theorem inv_of_reach (hpos : 0 < pagesize) (h : (system T A pagesize).Reach (Fits pagesize) x) :
    x ≠ .error .abort ∧ ∀ p, x = .ok p → p.Inv pagesize := by
  refine h.invariant (fun x ↦ x ≠ .error .abort ∧ ∀ p, x = .ok p → p.Inv pagesize) ?_ ?_
  · refine ⟨by simp [system], fun p hp ↦ ?_⟩
    obtain rfl := Except.ok.inj hp
    exact ⟨⟨by simp, by simp, by simp, by simp⟩, rfl⟩
  · intro x a y _ ih hfits hst
    obtain ⟨p, rfl, hst⟩ := exists_ok_of_step hst
    have hinv := ih.2 p rfl
    obtain ⟨habort, hdoes⟩ := does_of_step hpos hinv.regions hfits hst
    refine ⟨habort, fun p' hp' ↦ ?_⟩
    obtain ⟨effects, hdoes⟩ := hdoes p' hp'
    refine ⟨hdoes.regions, ?_⟩
    rw [hdoes.memory, hdoes.log, List.foldl_append]
    exact Image.memory_foldl_congr hinv.memory effects

/-- The bytes of the twins are what has been sent and received. -/
def Process.Published (pagesize : ℕ) (p : Process T) : Prop :=
  (image pagesize p.regions).published = (p.log.foldl Image.apply Image.empty).published

theorem published_of_reach (hpos : 0 < pagesize)
    (h : (system T A pagesize).Reach (fun x a ↦ Fits pagesize x a ∧ FieldsFit pagesize x a) x) :
    ∀ p, x = .ok p → p.Published pagesize := by
  refine h.invariant (fun x ↦ ∀ p, x = .ok p → p.Published pagesize) ?_ ?_
  · intro p hp
    obtain rfl := Except.ok.inj hp
    rfl
  · intro x a y hx ih hok hst p' hp'
    obtain ⟨p, rfl, hst⟩ := exists_ok_of_step hst
    have hinv := (inv_of_reach hpos (hx.mono fun ha ↦ ha.1)).2 p rfl
    obtain ⟨effects, hdoes⟩ := (does_of_step hpos hinv.regions hok.1 hst).2 p' hp'
    rw [Process.Published, hdoes.published hok.2, hdoes.log, List.foldl_append]
    exact Image.published_foldl_congr (ih p rfl) effects

/-! ## The copies of the other nodes -/

/-- A copy of the region at another node, with the bytes that have been sent and received. -/
structure Knows (pagesize : ℕ) (regions : List Mapping) (m : Mapping) (copy : Region) : Prop where
  wellFormed : copy.WellFormed pagesize
  size_eq : copy.size = m.region.size
  bytes : ∀ addr, m.Contains addr →
    (image pagesize regions).published addr = some (copy.bytes (addr - m.head))

/-- A diff brings the copies of the other nodes to what the sender has published by it. -/
theorem knows_of_txEnd (hpos : 0 < pagesize) (h : WellFormed pagesize regions) (hm : m ∈ regions)
    (hfits : ∀ d ∈ m.region.pageDiffs pagesize, d.Fits) {all : Bool} {region : Region}
    {bytes : List UInt8} (hend : Memory.txEnd A pagesize all m.region = .ok (region, some bytes))
    {copy : Region} (hcopy : Knows pagesize regions m copy) {msg : Message}
    (hmsg : msg.WellFormed) (hbytes : msg.bytes = bytes) :
    ∃ copy' r, handleMessage pagesize copy (some msg) = .ok (copy', r) ∧
      Knows pagesize (modify regions m.id fun _ ↦ region) m copy' := by
  obtain ⟨copy', r, hhandle, hwf, hsize, happly⟩ := handleMessage_of_txEnd hfits (h.region m hm)
    hend hcopy.wellFormed hcopy.size_eq hmsg hbytes
  refine ⟨copy', r, hhandle, hwf, hsize.trans hcopy.size_eq, fun addr hc ↦ ?_⟩
  obtain rfl := txEnd_region hend
  have hbefore := hcopy.bytes addr hc
  change load regions (Region.base pagesize) addr = _ at hbefore
  rw [h.load_of_contains hm hc] at hbefore
  change load _ (Region.base pagesize) addr = _
  rw [h.load_modify hm (g := fun _ ↦ m.region.diffed) Region.diffed_size, if_pos hc,
    Region.base_diffed (h.region m hm) hpos, happly]
  exact congrArg some (Patch.applyAll_congr (Option.some.inj hbefore))

/-- A process with a region of two pages, and one of its two threads about to write to it. -/
def storing : Process Bool :=
  (regionGet 8 { regions := [], pc := fun _ ↦ .running, log := [] } 7 9 24).moveTo false
    (.storing 29 5)

theorem reach_storing : (system Bool .zeroed 8).Reach (Fits 8) (.ok storing) := by
  have hget : (system Bool .zeroed 8).Reach (Fits 8)
      (.ok (regionGet 8 { regions := [], pc := fun _ ↦ .running, log := [] } 7 9 24)) := by
    refine LabelledSystem.Reach.init.step (a := .regionGet 7 9 24) ?_ rfl
    rintro p region hp -
    obtain rfl := Except.ok.inj hp
    exact ⟨by decide, by simp⟩
  exact hget.step (a := .store false 29 5) trivial rfl

theorem reach_trapped : (system Bool .zeroed 8).Reach (Fits 8)
    (.ok (access 8 storing false 29 5)) :=
  reach_storing.step (a := .access false) trivial rfl

/-- The trap is over and the byte is written. -/
def written : Process Bool :=
  access 8 (({ access 8 storing false 29 5 with
    regions := [⟨7, 24, Region.twoPages.txBegin 8 5⟩] } : Process Bool).moveTo false
      (.storing 29 5)) false 29 5

theorem reach_written : (system Bool .zeroed 8).Reach (Fits 8) (.ok written) := by
  have htrap : (system Bool .zeroed 8).Reach (Fits 8)
      (.ok (({ access 8 storing false 29 5 with
        regions := [⟨7, 24, Region.twoPages.txBegin 8 5⟩] } : Process Bool).moveTo false
          (.storing 29 5))) :=
    reach_trapped.step (a := .trap false) trivial rfl
  exact htrap.step (a := .access false) trivial rfl

/-- Another node that has the region and has done nothing. -/
theorem knows_twoPages {m : Mapping} (hm : findById written.regions 7 = some m) :
    Knows 8 written.regions m .twoPages := by
  obtain rfl := Option.some.inj hm
  refine ⟨(Region.wellFormed_regionGet Region.regionGet_twoPages).1, rfl, fun addr hc ↦ ?_⟩
  have hzero : ∀ i < 16, (image 8 written.regions).published (24 + i) = some 0 := by decide
  obtain ⟨i, rfl⟩ := Nat.exists_eq_add_of_le hc.1
  exact hzero i (Nat.lt_of_add_lt_add_left hc.2)

/-- The byte as a diff. -/
def writtenByte : List UInt8 := encodeDiff 1 [⟨0, [⟨5, [5]⟩]⟩]

theorem txEnd_written {m : Mapping} (hm : findById written.regions 7 = some m) :
    ∃ region, Memory.txEnd .zeroed 8 false m.region = .ok (region, some writtenByte) := by
  obtain rfl := Option.some.inj hm
  have hsent : (Memory.txEnd .zeroed 8 false (written.regions.head (by decide)).region).toOption.map
      Prod.snd = some (some writtenByte) := by decide +kernel
  rcases hend : Memory.txEnd .zeroed 8 false (written.regions.head (by decide)).region with
    e | ⟨region, payload⟩
  · rw [hend] at hsent
    cases hsent
  · rw [hend] at hsent
    obtain rfl : payload = some writtenByte := by simpa [Except.toOption] using hsent
    exact ⟨region, hend⟩

/-- In every run the memory is what the stores that were carried out, the diffs and the new regions
have made of it, however often threads trapped in between; the assertion of `tx_begin` never
fails, and the handler ends the process only for an address that lies in no region.  While the
fields are wide enough, the bytes of the twins are what the payloads say, and a node that has
them has those of the next diff when its listener has handled it. -/
theorem traps_are_invisible (hpos : 0 < pagesize)
    (h : (system T A pagesize).Reach (Fits pagesize) x) :
    x ≠ .error .abort ∧ ∀ p, x = .ok p →
      (image pagesize p.regions).memory = (p.log.foldl Image.apply Image.empty).memory ∧
      (∀ t addr value, p.pc t = .trapped addr value →
        (step A pagesize p (.trap t) = some (.error .exit) ∧
          (image pagesize p.regions).memory addr = none) ∨
        ∃ p', step A pagesize p (.trap t) = some (.ok p') ∧
          (image pagesize p.regions).memory addr ≠ none ∧
          p'.pc = Function.update p.pc t (.storing addr value) ∧ p'.log = p.log ∧
          image pagesize p'.regions = image pagesize p.regions) ∧
      ((system T A pagesize).Reach (fun x a ↦ Fits pagesize x a ∧ FieldsFit pagesize x a) (.ok p) →
        (image pagesize p.regions).published =
          (p.log.foldl Image.apply Image.empty).published) ∧
      ∀ m ∈ p.regions, (∀ d ∈ m.region.pageDiffs pagesize, d.Fits) → ∀ all region bytes,
        Memory.txEnd A pagesize all m.region = .ok (region, some bytes) →
        ∀ copy msg, Knows pagesize p.regions m copy → msg.WellFormed → msg.bytes = bytes →
          ∃ copy' r, handleMessage pagesize copy (some msg) = .ok (copy', r) ∧
            Knows pagesize (modify p.regions m.id fun _ ↦ region) m copy' := by
  obtain ⟨habort, hinv⟩ := inv_of_reach hpos h
  refine ⟨habort, fun p hp ↦ ⟨(hinv p hp).memory, fun t addr value hpc ↦ ?_,
    fun hreach ↦ published_of_reach hpos hreach p rfl,
    fun m hm hfits all region bytes hend copy msg hcopy hmsg hbytes ↦
      knows_of_txEnd hpos (hinv p hp).regions hm hfits hend hcopy hmsg hbytes⟩⟩
  rcases trap_cases (A := A) (hinv p hp).regions hpc with htrap | ⟨m, hm, hc, htrap⟩
  · exact .inl htrap
  · exact .inr ⟨_, htrap, fun hnone ↦ memory_eq_none_iff.mp hnone m hm hc, rfl, rfl,
      (hinv p hp).regions.image_txBegin hm _⟩

/-- A thread that has trapped; what is published when it has ended its transaction; and another node
that handles the diff. -/
theorem traps_are_invisible_two_threads :
    (∃ p', step .zeroed 8 (access 8 storing false 29 5) (.trap false) = some (.ok p') ∧
      (image 8 p'.regions).memory = (Image.empty.apply (.map 24 16)).memory) ∧
    (∃ p : Process Bool, (image 8 p.regions).published 29 = some 5 ∧ p.log.length = 3 ∧
      (image 8 p.regions).published = (p.log.foldl Image.apply Image.empty).published) ∧
    ∃ copy r, handleMessage 8 .twoPages (some (.ofBytes writtenByte)) = .ok (copy, r) ∧
      copy.bytes 5 = 5 := by
  refine ⟨?_, ?_, ?_⟩
  · obtain ⟨hmemory, htrap, -⟩ := (traps_are_invisible (by decide) reach_trapped).2 _ rfl
    rcases htrap false 29 5 rfl with ⟨-, hnone⟩ | ⟨p', hst, -, -, -, heq⟩
    · exact absurd hnone (by decide)
    · exact ⟨p', hst, (congrArg Image.memory heq).trans hmemory⟩
  · obtain ⟨x, hx, hp⟩ := LabelledSystem.exists_reach_of_exec (system Bool .zeroed 8)
      (fun x a ↦ Fits 8 x a ∧ FieldsFit 8 x a) [.regionGet 7 9 24, .store false 29 5,
        .access false, .trap false, .access false, .txEnd false none, .diffRegion false]
      (fun
        | .ok p => (image 8 p.regions).published 29 = some 5 ∧ p.log.length = 3
        | .error _ => false) (by decide +kernel)
    cases x with
    | error e => cases hp
    | ok p =>
        obtain ⟨hpublished, hlog⟩ := of_decide_eq_true hp
        exact ⟨p, hpublished, hlog, ((traps_are_invisible (by decide)
          (hx.mono fun ha ↦ ha.1)).2 p rfl).2.2.1 hx⟩
  · obtain ⟨m, hm⟩ : ∃ m, findById written.regions 7 = some m := ⟨_, rfl⟩
    obtain ⟨region, hend⟩ := txEnd_written hm
    have hknows := knows_twoPages hm
    obtain rfl := Option.some.inj hm
    obtain ⟨-, -, -, hpeer⟩ := (traps_are_invisible (by decide) reach_written).2 _ rfl
    obtain ⟨copy, r, hhandle, hafter⟩ := hpeer _ List.mem_cons_self (by decide) false _ _ hend _
      (.ofBytes writtenByte) hknows (Message.layout_ofBytes (by decide)).wellFormed (by decide)
    obtain rfl := txEnd_region hend
    have hcopy := hafter.bytes 29 (by decide)
    have hpublished : (image 8 (modify written.regions 7 Region.diffed)).published 29 = some 5 := by
      decide +kernel
    exact ⟨copy, r, hhandle, Option.some.inj (hcopy.symm.trans hpublished)⟩

theorem access_of_writable (h : WellFormed pagesize p.regions) (hm : m ∈ p.regions)
    (hc : m.Contains addr)
    (hwritable : m.region.writable (pageHead pagesize (addr - m.head)) = true) (t : T)
    (value : UInt8) :
    (access pagesize p t addr value).pc = Function.update p.pc t .running ∧
      image pagesize (access pagesize p t addr value).regions =
        (image pagesize p.regions).apply (.store addr value) := by
  have hlt : addr - m.head < m.region.size := Nat.sub_lt_left_of_lt_add hc.1 hc.2
  obtain ⟨region, hst⟩ : ∃ region, m.region.store pagesize (addr - m.head) value = some region :=
    ⟨_, if_pos ⟨hlt, hwritable⟩⟩
  have heq : access pagesize p t addr value =
      (p.setRegion m region [.store addr value]).moveTo t .running := by
    simp only [access, h.find_eq_some.mpr ⟨hm, hc⟩, hst]
  rw [heq]
  exact ⟨rfl, h.image_store hm hc hst⟩

/-- A store to a mapped address is done after at most one trap, if no other thread comes
in between. -/
theorem store_completes (hpos : 0 < pagesize)
    (h : (system T A pagesize).Reach (Fits pagesize) (.ok p))
    (hpc : p.pc t = .storing addr value)
    (hmapped : (image pagesize p.regions).memory addr ≠ none) :
    ∃ as ∈ [[Action.access t], [.access t, .trap t, .access t]], ∃ p',
      (system T A pagesize).exec LabelledSystem.anyStep (.ok p) as = some (.ok p') ∧
      p'.pc = Function.update p.pc t .running ∧
      image pagesize p'.regions = (image pagesize p.regions).apply (.store addr value) := by
  have hwf := ((inv_of_reach hpos h).2 p rfl).regions
  obtain ⟨m, hm, hc⟩ : ∃ m ∈ p.regions, m.Contains addr := by
    by_contra hnot
    exact hmapped (memory_eq_none_iff.mpr fun m hm hc ↦ hnot ⟨m, hm, hc⟩)
  have haccess : ∀ {q : Process T}, q.pc t = .storing addr value →
      step A pagesize q (.access t) = some (.ok (access pagesize q t addr value)) := by
    intro q hq
    simp only [step, hq]
  cases hwritable : m.region.writable (pageHead pagesize (addr - m.head)) with
  | true =>
      refine ⟨_, List.mem_cons_self, _, ?_, access_of_writable hwf hm hc hwritable t value⟩
      simp [LabelledSystem.exec, LabelledSystem.anyStep, system, Except.toOption, haccess hpc]
  | false =>
      have htrapped : access pagesize p t addr value = p.moveTo t (.trapped addr value) := by
        simp only [access, hwf.find_eq_some.mpr ⟨hm, hc⟩, Region.store, hwritable,
          Bool.false_eq_true, and_false, if_false]
      have htrap : step A pagesize (p.moveTo t (.trapped addr value)) (.trap t) =
          some (.ok ((p.twinned pagesize m addr).moveTo t (.storing addr value))) := by
        simp only [step, Process.moveTo, Function.update_self,
          hwf.trap_of_contains hm hc, Function.update_idem]
        rfl
      let q : Process T := (p.twinned pagesize m addr).moveTo t (.storing addr value)
      have hq : WellFormed pagesize q.regions := wellFormed_twinned hwf hm hc
      have hqpc : q.pc t = .storing addr value := Function.update_self ..
      let m' : Mapping := { m with region := m.region.txBegin pagesize (addr - m.head) }
      have hm' : m' ∈ q.regions := List.mem_map.mpr ⟨m, hm, if_pos rfl⟩
      have hsize : m'.region.size = m.region.size := Region.size_txBegin _
      have hc' : m'.Contains addr := ⟨hc.1, hsize.symm ▸ hc.2⟩
      obtain ⟨hrunning, himage⟩ := access_of_writable hq hm' hc'
        (Region.writable_txBegin.mpr (.inl rfl)) t value
      refine ⟨_, List.mem_cons_of_mem _ List.mem_cons_self, access pagesize q t addr value, ?_,
        ?_, ?_⟩
      · simp [LabelledSystem.exec, LabelledSystem.anyStep, system, Except.toOption, haccess hpc,
          htrapped, htrap, haccess hqpc, q]
      · rw [hrunning]
        exact Function.update_idem _ _ _
      · rw [himage]
        exact congrArg (Image.apply · _) (hwf.image_txBegin hm _)

theorem store_completes_two_threads :
    ∃ as ∈ [[Action.access false], [.access false, .trap false, .access false]], ∃ p',
      (system Bool .zeroed 8).exec LabelledSystem.anyStep (.ok storing) as = some (.ok p') ∧
      p'.pc = Function.update storing.pc false .running ∧
      image 8 p'.regions = (image 8 storing.regions).apply (.store 29 5) :=
  store_completes (by decide) reach_storing rfl (by decide)

end Runs

end Edsm.Memory.AddressSpace
