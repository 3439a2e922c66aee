import Edsm.Library.Buckets
import Edsm.Library.Outcome
import Mathlib.Data.List.Nodup

/-!
# `uthash`

The table behind the peers, the objects and the tasks.  A table has its
elements in the order in which they were added, and each of them in the chain of one
bucket, with the newest at the front.  A bucket that gets too long makes the number of
buckets double.
-/

namespace Edsm.Uthash

/-- `UT_hash_handle`, with the element it is part of and the bytes that `key` points to. -/
structure Handle (E : Type) where
  elmt : E
  key : List UInt8
  hashv : UInt32

/-- `UT_hash_bucket`, with the handles that `hh_next` leads to from `hh_head`. -/
structure Bucket (E : Type) where
  chain : List (Handle E)
  count : UInt32
  expandMult : UInt32

/-- `UT_hash_table`, with the elements in the order of `next`. -/
structure Table (E : Type) where
  items : List (Handle E)
  buckets : List (Bucket E)
  numBuckets : UInt32
  log2NumBuckets : UInt32
  numItems : UInt32
  idealChainMaxlen : UInt32
  nonidealItems : UInt32
  ineffExpands : UInt32
  noexpand : UInt32

inductive Stop
  /-- `uthash_fatal`: the process ends. -/
  | fatal
  /-- An access outside an array, a division by zero, or a shift by 32 bits. -/
  | undefined
  deriving DecidableEq, Repr

/-! ## The hash function -/

/-- `HASH_JEN_MIX` -/
def jenMix (a b c : UInt32) : UInt32 × UInt32 × UInt32 :=
  let a := (a - b - c) ^^^ (c >>> 13)
  let b := (b - c - a) ^^^ (a <<< 8)
  let c := (c - a - b) ^^^ (b >>> 13)
  let a := (a - b - c) ^^^ (c >>> 12)
  let b := (b - c - a) ^^^ (a <<< 16)
  let c := (c - a - b) ^^^ (b >>> 5)
  let a := (a - b - c) ^^^ (c >>> 3)
  let b := (b - c - a) ^^^ (a <<< 10)
  let c := (c - a - b) ^^^ (b >>> 15)
  (a, b, c)

def jenWord (k₀ k₁ k₂ k₃ : UInt8) : UInt32 :=
  k₀.toUInt32 + (k₁.toUInt32 <<< 8) + (k₂.toUInt32 <<< 16) + (k₃.toUInt32 <<< 24)

/-- The loop over the blocks of twelve bytes; the bytes behind them are left. -/
def jenBlocks : List UInt8 → UInt32 × UInt32 × UInt32 → List UInt8 × UInt32 × UInt32 × UInt32
  | k₀ :: k₁ :: k₂ :: k₃ :: k₄ :: k₅ :: k₆ :: k₇ :: k₈ :: k₉ :: k₁₀ :: k₁₁ :: key, (i, j, hashv) =>
      jenBlocks key (jenMix (i + jenWord k₀ k₁ k₂ k₃) (j + jenWord k₄ k₅ k₆ k₇)
        (hashv + jenWord k₈ k₉ k₁₀ k₁₁))
  | key, state => (key, state)

/-- `HASH_JEN`; what the `switch` falls through are the bytes that there are. -/
def hashJen (key : List UInt8) : UInt32 :=
  let (key', i, j, hashv) := jenBlocks key (0x9e3779b9, 0x9e3779b9, 0xfeedbeef)
  let k (n : ℕ) : UInt32 := (key'.getD n 0).toUInt32
  let hashv := hashv + UInt32.ofNat key.length
  let hashv := hashv + (k 10 <<< 24) + (k 9 <<< 16) + (k 8 <<< 8)
  let j := j + (k 7 <<< 24) + (k 6 <<< 16) + (k 5 <<< 8) + k 4
  let i := i + (k 3 <<< 24) + (k 2 <<< 16) + (k 1 <<< 8) + k 0
  (jenMix i j hashv).2.2

/-- `HASH_TO_BKT` -/
def toBkt (hashv numBkts : UInt32) : ℕ := (hashv &&& (numBkts - 1)).toNat

/-! ## The macros -/

section Macros

variable {E : Type} (hashFcn : List UInt8 → UInt32) (grants : UInt32 → Bool)

/-- `HASH_MAKE_TABLE`; `grants` is whether `malloc` has room for so many buckets. -/
def makeTable (items : List (Handle E)) : Except Stop (Table E) :=
  if grants 32 then
    .ok {
      items
      buckets := List.replicate 32 ⟨[], 0, 0⟩
      numBuckets := 32
      log2NumBuckets := 5
      numItems := 0
      idealChainMaxlen := 0
      nonidealItems := 0
      ineffExpands := 0
      noexpand := 0 }
  else .error .fatal

/-- One handle comes into its new bucket; the other part of the result is `nonideal_items`. -/
def rehash (numBuckets ideal : UInt32) (state : List (Bucket E) × UInt32) (thh : Handle E) :
    Except Stop (List (Bucket E) × UInt32) :=
  let bkt := toBkt thh.hashv numBuckets
  match state.1[bkt]? with
  | none => .error .undefined
  | some newbkt =>
      let count := newbkt.count + 1
      if count > ideal then
        if ideal = 0 then .error .undefined
        else .ok (state.1.set bkt ⟨thh :: newbkt.chain, count, count / ideal⟩, state.2 + 1)
      else .ok (state.1.set bkt { newbkt with chain := thh :: newbkt.chain, count }, state.2)

/-- The new `ideal_chain_maxlen`, from the new number of buckets and the old `log2_num_buckets`. -/
def idealMaxlen (numItems numBuckets log2 : UInt32) : UInt32 :=
  (numItems >>> (log2 + 1)) + if numItems &&& (numBuckets - 1) ≠ 0 then 1 else 0

/-- `HASH_EXPAND_BUCKETS` -/
def expandBuckets (tbl : Table E) : Except Stop (Table E) :=
  let numBuckets := 2 * tbl.numBuckets
  if ¬ grants numBuckets then .error .fatal
  else if 32 ≤ tbl.log2NumBuckets + 1 then .error .undefined
  else do
    let ideal := idealMaxlen tbl.numItems numBuckets tbl.log2NumBuckets
    let (buckets, nonidealItems) ← (tbl.buckets.flatMap Bucket.chain).foldlM
      (rehash numBuckets ideal) (List.replicate numBuckets.toNat ⟨[], 0, 0⟩, 0)
    let ineffExpands := if nonidealItems > tbl.numItems >>> 1 then tbl.ineffExpands + 1 else 0
    return { tbl with
      buckets
      numBuckets
      log2NumBuckets := tbl.log2NumBuckets + 1
      idealChainMaxlen := ideal
      nonidealItems
      ineffExpands
      noexpand := if ineffExpands > 1 then 1 else tbl.noexpand }

/-- `HASH_ADD_TO_BKT` -/
def addToBkt (tbl : Table E) (bkt : ℕ) (addhh : Handle E) : Except Stop (Table E) :=
  match tbl.buckets[bkt]? with
  | none => .error .undefined
  | some head =>
      let head := { head with chain := addhh :: head.chain, count := head.count + 1 }
      let tbl := { tbl with buckets := tbl.buckets.set bkt head }
      if head.count ≥ (head.expandMult + 1) * 10 ∧ tbl.noexpand ≠ 1 then expandBuckets grants tbl
      else .ok tbl

/-- `HASH_ADD_KEYPTR`; `head` is `NULL` for an empty table. -/
def addKeyptr (head : Option (Table E)) (add : E × List UInt8) : Except Stop (Table E) := do
  let hh : Handle E := ⟨add.1, add.2, hashFcn add.2⟩
  let tbl ← match head with
    | none => makeTable grants [hh]
    | some tbl => .ok { tbl with items := tbl.items ++ [hh] }
  let tbl := { tbl with numItems := tbl.numItems + 1 }
  addToBkt grants tbl (toBkt hh.hashv tbl.numBuckets) hh

/-- `HASH_FIND`: the first of the chain with this key. -/
def hashFind (head : Option (Table E)) (key : List UInt8) : Except Stop (Option E) :=
  match head with
  | none => .ok none
  | some tbl =>
      match tbl.buckets[toBkt (hashFcn key) tbl.numBuckets]? with
      | none => .error .undefined
      | some bucket => .ok ((bucket.chain.find? (·.key = key)).map Handle.elmt)

/-- `HASH_ITER`: the elements it comes by. -/
def hashIter (head : Option (Table E)) : List E :=
  match head with
  | none => []
  | some tbl => tbl.items.map Handle.elmt

/-- `HASH_COUNT` -/
def hashCount (head : Option (Table E)) : UInt32 :=
  match head with
  | none => 0
  | some tbl => tbl.numItems

/-- Elements are added one after the other, from an empty table on. -/
def addAll (added : List (E × List UInt8)) : Except Stop (Option (Table E)) :=
  added.foldlM (fun head add ↦ (addKeyptr hashFcn grants head add).map some) none

/-- `HASH_FSCK`, less the links that lead back. -/
def hashFsck (head : Option (Table E)) : Bool :=
  match head with
  | none => true
  | some tbl =>
      tbl.buckets.all (fun bucket ↦ bucket.count = UInt32.ofNat bucket.chain.length) &&
        UInt32.ofNat (tbl.buckets.flatMap Bucket.chain).length = tbl.numItems &&
        UInt32.ofNat tbl.items.length = tbl.numItems

end Macros

/-! ## What holds of a table -/

section Spread

variable {E : Type} {numBuckets ideal : UInt32} {buckets : List (Bucket E)}
  {hhs hhs' rest : List (Handle E)} {hh : Handle E}

theorem toBkt_lt (hashv : UInt32) (h : 0 < numBuckets.toNat) :
    toBkt hashv numBuckets < numBuckets.toNat := by
  rw [toBkt, UInt32.toNat_and]
  have hone : (numBuckets - 1).toNat = numBuckets.toNat - 1 :=
    UInt32.toNat_sub_of_le _ _ (UInt32.le_iff_toNat_le.mpr h)
  have hle := Nat.and_le_right (n := hashv.toNat) (m := (numBuckets - 1).toNat)
  omega

/-- The handles are in the buckets of their hash values. -/
structure Spread (numBuckets : UInt32) (buckets : List (Bucket E)) (hhs : List (Handle E)) :
    Prop where
  length : buckets.length = numBuckets.toNat
  chains : Buckets.Distributed (fun hh ↦ toBkt hh.hashv numBuckets)
    (buckets.map Bucket.chain) hhs
  counts : ∀ bucket ∈ buckets, bucket.count = UInt32.ofNat bucket.chain.length

theorem spread_nil (numBuckets : UInt32) :
    Spread numBuckets (List.replicate numBuckets.toNat ⟨[], 0, 0⟩) ([] : List (Handle E)) where
  length := by simp
  chains := by
    rw [List.map_replicate]
    exact Buckets.distributed_nil _ _
  counts bucket hmem := by
    rw [List.eq_of_mem_replicate hmem]
    rfl

theorem Spread.of_perm (h : Spread numBuckets buckets hhs) (hperm : hhs.Perm hhs') :
    Spread numBuckets buckets hhs' :=
  ⟨h.length, h.chains.of_perm hperm, h.counts⟩

theorem Spread.getElem? (h : Spread numBuckets buckets hhs) (hpos : 0 < numBuckets.toNat)
    (hashv : UInt32) : ∃ bucket, buckets[toBkt hashv numBuckets]? = some bucket := by
  refine ⟨_, List.getElem?_eq_getElem ?_⟩
  rw [h.length]
  exact toBkt_lt hashv hpos

theorem Spread.set (h : Spread numBuckets buckets hhs) {bucket : Bucket E}
    (hbucket : buckets[toBkt hh.hashv numBuckets]? = some bucket) (expandMult : UInt32) :
    Spread numBuckets
      (buckets.set (toBkt hh.hashv numBuckets) ⟨hh :: bucket.chain, bucket.count + 1, expandMult⟩)
      (hh :: hhs) where
  length := by rw [List.length_set, h.length]
  chains := by
    have hpush := h.chains.push (x := hh) (by
      rw [List.length_map]
      exact (List.getElem?_eq_some_iff.mp hbucket).1)
    rw [Buckets.push, List.getD_eq_getElem?_getD, List.getElem?_map, hbucket] at hpush
    rwa [List.map_set]
  counts b hb := by
    rcases List.mem_or_eq_of_mem_set hb with hb | rfl
    · exact h.counts b hb
    · rw [List.length_cons, UInt32.ofNat_add,
        h.counts bucket (List.mem_of_getElem? hbucket)]
      rfl

theorem rehash_spec (hpos : 0 < numBuckets.toNat) (hideal : ideal ≠ 0)
    (h : Spread numBuckets buckets hhs) (nonideal : UInt32) (thh : Handle E) :
    ∃ buckets' nonideal', rehash numBuckets ideal (buckets, nonideal) thh =
        .ok (buckets', nonideal') ∧ Spread numBuckets buckets' (thh :: hhs) := by
  obtain ⟨bucket, hbucket⟩ := h.getElem? hpos thh.hashv
  by_cases hlong : bucket.count + 1 > ideal
  · refine ⟨_, nonideal + 1, ?_, h.set hbucket ((bucket.count + 1) / ideal)⟩
    simp only [rehash, hbucket, if_pos hlong, if_neg hideal]
  · refine ⟨_, nonideal, ?_, h.set hbucket bucket.expandMult⟩
    simp only [rehash, hbucket, if_neg hlong]

theorem foldlM_rehash_spec (hpos : 0 < numBuckets.toNat) (hideal : ideal ≠ 0)
    (h : Spread numBuckets buckets hhs) (nonideal : UInt32) (rest : List (Handle E)) :
    ∃ buckets' nonideal', rest.foldlM (rehash numBuckets ideal) (buckets, nonideal) =
        .ok (buckets', nonideal') ∧ Spread numBuckets buckets' (rest.reverse ++ hhs) := by
  induction rest generalizing buckets nonideal hhs with
  | nil => exact ⟨buckets, nonideal, rfl, h⟩
  | cons thh rest ih =>
      obtain ⟨buckets', nonideal', hrehash, hspread⟩ := rehash_spec hpos hideal h nonideal thh
      obtain ⟨buckets'', nonideal'', hrest, hspread'⟩ := ih hspread nonideal'
      refine ⟨buckets'', nonideal'', ?_, by simpa using hspread'⟩
      rw [List.foldlM_cons, hrehash]
      exact hrest

end Spread

section Tables

variable {E : Type} {hashFcn : List UInt8 → UInt32} {grants : UInt32 → Bool} {tbl : Table E}
  {hh : Handle E}

structure WellFormed (hashFcn : List UInt8 → UInt32) (tbl : Table E) : Prop where
  log2_lt : tbl.log2NumBuckets.toNat < 32
  numBuckets : tbl.numBuckets.toNat = 2 ^ tbl.log2NumBuckets.toNat
  spread : Spread tbl.numBuckets tbl.buckets tbl.items
  numItems : tbl.numItems = UInt32.ofNat tbl.items.length
  hashv : ∀ hh ∈ tbl.items, hh.hashv = hashFcn hh.key

theorem WellFormed.numBuckets_pos (h : WellFormed hashFcn tbl) : 0 < tbl.numBuckets.toNat := by
  rw [h.numBuckets]
  exact Nat.two_pow_pos _

theorem toNat_double {n log2 : UInt32} (hn : n.toNat = 2 ^ log2.toNat)
    (hlog2 : log2.toNat + 1 < 32) :
    (2 * n).toNat = 2 ^ (log2.toNat + 1) ∧ (log2 + 1).toNat = log2.toNat + 1 := by
  have hpow : 2 ^ (log2.toNat + 1) < 2 ^ 32 := Nat.pow_lt_pow_right (by omega) hlog2
  constructor
  · rw [UInt32.toNat_mul, hn, show (2 : UInt32).toNat = 2 from rfl, ← Nat.pow_succ',
      Nat.mod_eq_of_lt hpow]
  · rw [UInt32.toNat_add, UInt32.toNat_one]
    omega

/-- The shift and the mask round the quotient up. -/
theorem toNat_idealMaxlen (numItems : UInt32) {n log2 : UInt32} (hn : n.toNat = 2 ^ log2.toNat)
    (hlog2 : log2.toNat + 1 < 32) :
    (idealMaxlen numItems (2 * n) log2).toNat =
      (numItems.toNat + 2 ^ (log2.toNat + 1) - 1) / 2 ^ (log2.toNat + 1) := by
  obtain ⟨hdouble, hsucc⟩ := toNat_double hn hlog2
  have hlt := numItems.toNat_lt
  have hmask : (numItems &&& (2 * n - 1)).toNat = numItems.toNat % 2 ^ (log2.toNat + 1) := by
    have hone : (2 * n - 1).toNat = 2 ^ (log2.toNat + 1) - 1 := by
      rw [UInt32.toNat_sub_of_le, hdouble]
      · rfl
      · rw [UInt32.le_iff_toNat_le, hdouble]
        exact Nat.one_le_two_pow
    rw [UInt32.toNat_and, hone, Nat.and_two_pow_sub_one_eq_mod]
  have hshift : (numItems >>> (log2 + 1)).toNat = numItems.toNat / 2 ^ (log2.toNat + 1) := by
    rw [UInt32.toNat_shiftRight, hsucc, Nat.mod_eq_of_lt hlog2, Nat.shiftRight_eq_div_pow]
  have hpow : 2 ≤ 2 ^ (log2.toNat + 1) := by
    rw [Nat.pow_succ]
    have := Nat.one_le_two_pow (n := log2.toNat)
    omega
  generalize 2 ^ (log2.toNat + 1) = b at *
  have hquot : numItems.toNat / b ≤ numItems.toNat / 2 := Nat.div_le_div_left hpow (by omega)
  have hsplit := Nat.div_add_mod' numItems.toNat b
  have hmod : numItems.toNat % b < b := Nat.mod_lt _ (by omega)
  by_cases hzero : numItems.toNat % b = 0
  · have hnone : numItems &&& (2 * n - 1) = 0 := by
      rw [← UInt32.toNat_inj, hmask, hzero]
      rfl
    rw [idealMaxlen, if_neg (not_not.mpr hnone), UInt32.add_zero, hshift]
    exact (Nat.div_eq_of_lt_le (by omega) (by rw [Nat.succ_mul]; omega)).symm
  · have hsome : numItems &&& (2 * n - 1) ≠ 0 := by
      rw [ne_eq, ← UInt32.toNat_inj, hmask]
      exact hzero
    rw [idealMaxlen, if_pos hsome, UInt32.toNat_add, hshift, UInt32.toNat_one,
      Nat.mod_eq_of_lt (by omega)]
    refine (Nat.div_eq_of_lt_le ?_ ?_).symm <;> rw [Nat.succ_mul]
    · omega
    · rw [Nat.succ_mul]
      omega

/-- No division by zero. -/
theorem idealMaxlen_ne_zero {n numItems log2 : UInt32} (hn : n.toNat = 2 ^ log2.toNat)
    (hlog2 : log2.toNat + 1 < 32) (hitems : numItems ≠ 0) :
    idealMaxlen numItems (2 * n) log2 ≠ 0 := by
  intro hzero
  have hideal := toNat_idealMaxlen numItems hn hlog2
  have hpos : 0 < numItems.toNat := Nat.pos_of_ne_zero fun heq ↦
    hitems (UInt32.toNat_inj.mp heq)
  have hpow := Nat.one_le_two_pow (n := log2.toNat + 1)
  rw [hzero, UInt32.toNat_zero, eq_comm, Nat.div_eq_zero_iff] at hideal
  omega

/-- The number of buckets that adding to a bucket asks memory for, if the bucket gets too long. -/
def Table.asks (tbl : Table E) (bkt : ℕ) : Option UInt32 :=
  (tbl.buckets[bkt]?).bind fun head ↦
    if head.count + 1 ≥ (head.expandMult + 1) * 10 ∧ tbl.noexpand ≠ 1 then
      some (2 * tbl.numBuckets)
    else none

/-- How asking for so many buckets fails: memory does not have them, or `2 ^ 31` buckets have been
doubled, which makes none. -/
def Fails (grants : UInt32 → Bool) (numBuckets : UInt32) : Stop → Prop
  | .fatal => grants numBuckets = false
  | .undefined => grants numBuckets = true ∧ numBuckets = 0

theorem fails_of_refused {n : UInt32} (h : grants n = false) (e : Stop) :
    Fails grants n e ↔ e = .fatal := by
  cases e <;> simp [Fails, h]

theorem fails_of_granted {n : UInt32} (h : grants n = true) (e : Stop) :
    Fails grants n e ↔ e = .undefined ∧ n = 0 := by
  cases e <;> simp [Fails, h]

/-- The result is a table with these elements, or one of these errors. -/
structure Outcome (hashFcn : List UInt8 → UInt32) (items : List (Handle E)) (fails : Stop → Prop)
    (result : Except Stop (Table E)) : Prop where
  error : ∀ e, result = .error e ↔ fails e
  ok : ∀ tbl, result = .ok tbl → WellFormed hashFcn tbl ∧ tbl.items = items

section Outcome

variable {items : List (Handle E)} {fails : Stop → Prop} {result : Except Stop (Table E)}

theorem Outcome.of_ok (h : result = .ok tbl) (hfails : ∀ e, ¬ fails e)
    (hwf : WellFormed hashFcn tbl) (hitems : tbl.items = items) :
    Outcome hashFcn items fails result where
  error e := by
    rw [h]
    exact ⟨fun heq ↦ (by cases heq), fun he ↦ (hfails e he).elim⟩
  ok tbl' heq := by
    rw [h] at heq
    cases heq
    exact ⟨hwf, hitems⟩

theorem Outcome.of_error {e : Stop} (h : result = .error e) (hfails : ∀ e', fails e' ↔ e' = e) :
    Outcome hashFcn items fails result where
  error e' := by
    rw [h, hfails, Except.error.injEq, eq_comm]
  ok tbl heq := by
    rw [h] at heq
    cases heq

theorem Outcome.congr {fails' : Stop → Prop} (h : Outcome hashFcn items fails result)
    (hfails : ∀ e, fails' e ↔ fails e) : Outcome hashFcn items fails' result where
  error e := by rw [h.error, hfails]
  ok := h.ok

end Outcome

theorem expandBuckets_of_rehash {buckets : List (Bucket E)} {nonideal : UInt32}
    (hgrants : grants (2 * tbl.numBuckets) = true) (hlog2 : ¬ 32 ≤ tbl.log2NumBuckets + 1)
    (hloop : (tbl.buckets.flatMap Bucket.chain).foldlM
      (rehash (2 * tbl.numBuckets) (idealMaxlen tbl.numItems (2 * tbl.numBuckets)
        tbl.log2NumBuckets)) (List.replicate (2 * tbl.numBuckets).toNat ⟨[], 0, 0⟩, 0) =
          .ok (buckets, nonideal)) :
    ∃ tbl', expandBuckets grants tbl = .ok tbl' ∧ tbl'.items = tbl.items ∧
      tbl'.numItems = tbl.numItems ∧ tbl'.buckets = buckets ∧
      tbl'.numBuckets = 2 * tbl.numBuckets ∧ tbl'.log2NumBuckets = tbl.log2NumBuckets + 1 := by
  simp only [Uthash.expandBuckets, hgrants, not_true, if_false, hlog2, hloop]
  exact ⟨_, rfl, rfl, rfl, rfl, rfl, rfl⟩

/-- `HASH_EXPAND_BUCKETS` keeps all handles. -/
theorem WellFormed.expandBuckets (h : WellFormed hashFcn tbl) (hitems : tbl.numItems ≠ 0) :
    Outcome hashFcn tbl.items (Fails grants (2 * tbl.numBuckets)) (expandBuckets grants tbl) := by
  by_cases hgrants : grants (2 * tbl.numBuckets) = true
  · have hlt := h.log2_lt
    have hsucc : (tbl.log2NumBuckets + 1).toNat = tbl.log2NumBuckets.toNat + 1 := by
      rw [UInt32.toNat_add, UInt32.toNat_one]
      omega
    have hshift : 32 ≤ tbl.log2NumBuckets + 1 ↔ 32 ≤ tbl.log2NumBuckets.toNat + 1 := by
      rw [UInt32.le_iff_toNat_le, hsucc]
      rfl
    by_cases hlog2 : tbl.log2NumBuckets.toNat + 1 < 32
    · have hdouble := (toNat_double h.numBuckets hlog2).1
      have hpos : 0 < (2 * tbl.numBuckets).toNat := by
        rw [hdouble]
        exact Nat.two_pow_pos _
      obtain ⟨buckets, nonideal, hloop, hspread⟩ := foldlM_rehash_spec hpos
        (idealMaxlen_ne_zero h.numBuckets hlog2 hitems) (spread_nil _) 0
        (tbl.buckets.flatMap Bucket.chain)
      have hperm : (tbl.buckets.flatMap Bucket.chain).reverse.Perm tbl.items :=
        (List.reverse_perm _).trans h.spread.chains.flatten_perm
      rw [List.append_nil] at hspread
      obtain ⟨tbl', hexpand, hitems', hnum, hbuckets, hnumBuckets, hlog2'⟩ :=
        expandBuckets_of_rehash hgrants (hshift.not.mpr (not_le.mpr hlog2)) hloop
      refine .of_ok hexpand (fun e ↦ ?_) ⟨?_, ?_, ?_, ?_, ?_⟩ hitems'
      · rw [fails_of_granted hgrants]
        rintro ⟨-, hzero⟩
        rw [hzero] at hpos
        cases hpos
      · rw [hlog2', hsucc]
        exact hlog2
      · rw [hnumBuckets, hlog2', hsucc, hdouble]
      · rw [hnumBuckets, hbuckets, hitems']
        exact hspread.of_perm hperm
      · rw [hnum, hitems', h.numItems]
      · rw [hitems']
        exact h.hashv
    · -- the last power of two: a shift by 32 bits
      have hzero : 2 * tbl.numBuckets = 0 := by
        have hnum := h.numBuckets
        rw [show tbl.log2NumBuckets.toNat = 31 by omega] at hnum
        rw [← UInt32.toNat_inj, UInt32.toNat_mul, hnum]
        rfl
      refine .of_error (e := .undefined) ?_ fun e ↦ ?_
      · simp [Uthash.expandBuckets, hgrants, hshift, not_lt.mp hlog2]
      · rw [fails_of_granted hgrants]
        exact and_iff_left hzero
  · rw [Bool.not_eq_true] at hgrants
    exact .of_error (by simp [Uthash.expandBuckets, hgrants]) (fails_of_refused hgrants)

variable (hashFcn grants) in
/-- A handle comes into the bucket of its hash value. -/
theorem addToBkt_spec (tbl : Table E) (hh : Handle E) {items : List (Handle E)}
    (hlog2 : tbl.log2NumBuckets.toNat < 32)
    (hnumBuckets : tbl.numBuckets.toNat = 2 ^ tbl.log2NumBuckets.toNat)
    (hspread : Spread tbl.numBuckets tbl.buckets items) (hitems : tbl.items = items ++ [hh])
    (hnumItems : tbl.numItems = UInt32.ofNat tbl.items.length)
    (hhashv : ∀ hh ∈ tbl.items, hh.hashv = hashFcn hh.key) (hlength : tbl.items.length < 2 ^ 32) :
    Outcome hashFcn tbl.items
      (fun e ↦ ∃ n, tbl.asks (toBkt hh.hashv tbl.numBuckets) = some n ∧ Fails grants n e)
      (addToBkt grants tbl (toBkt hh.hashv tbl.numBuckets) hh) := by
  obtain ⟨bucket, hbucket⟩ := hspread.getElem? (by rw [hnumBuckets]; exact Nat.two_pow_pos _)
    hh.hashv
  have hperm : (hh :: items).Perm tbl.items := by
    rw [hitems]
    exact (List.perm_append_singleton hh items).symm
  have hset := (hspread.set hbucket bucket.expandMult).of_perm hperm
  have hwf (buckets : List (Bucket E)) (hbuckets : Spread tbl.numBuckets buckets tbl.items) :
      WellFormed hashFcn { tbl with buckets } :=
    ⟨hlog2, hnumBuckets, hbuckets, hnumItems, hhashv⟩
  have hne : tbl.numItems ≠ 0 := by
    rw [hnumItems, ne_eq, ← UInt32.toNat_inj, UInt32.toNat_ofNat', Nat.mod_eq_of_lt hlength, hitems]
    simp
  simp only [addToBkt, Table.asks, hbucket, Option.bind_some]
  by_cases hfull : bucket.count + 1 ≥ (bucket.expandMult + 1) * 10 ∧ tbl.noexpand ≠ 1
  · simp only [if_pos hfull]
    exact ((hwf _ hset).expandBuckets hne).congr fun e ↦ by simp
  · simp only [if_neg hfull]
    exact .of_ok rfl (by simp) (hwf _ hset) rfl

variable (hashFcn) in
/-- The number of buckets that an addition asks memory for: those of a new table, or twice as many
as there are. -/
def asks (head : Option (Table E)) (key : List UInt8) : Option UInt32 :=
  match head with
  | none => some 32
  | some tbl => tbl.asks (toBkt (hashFcn key) tbl.numBuckets)

variable (hashFcn grants) in
/-- How an addition fails. -/
def HeadFails (head : Option (Table E)) (add : E × List UInt8) (e : Stop) : Prop :=
  ∃ n, asks hashFcn head add.2 = some n ∧ Fails grants n e

variable (grants) in
theorem addKeyptr_some (h : WellFormed hashFcn tbl) (add : E × List UInt8)
    (hlength : tbl.items.length + 1 < 2 ^ 32) :
    Outcome hashFcn (tbl.items ++ [⟨add.1, add.2, hashFcn add.2⟩])
      (HeadFails hashFcn grants (some tbl) add) (addKeyptr hashFcn grants (some tbl) add) := by
  refine addToBkt_spec hashFcn grants { tbl with
    items := tbl.items ++ [⟨add.1, add.2, hashFcn add.2⟩]
    numItems := tbl.numItems + 1 } ⟨add.1, add.2, hashFcn add.2⟩ h.log2_lt h.numBuckets h.spread
      rfl ?_ ?_ ?_
  · simp [h.numItems, UInt32.ofNat_add]
  · intro hh hmem
    rcases List.mem_append.mp hmem with hmem | hmem
    · exact h.hashv hh hmem
    · rw [List.mem_singleton.mp hmem]
  · simpa using hlength

/-- No bucket of a new table is full. -/
theorem makeTable_spec (hgrants : grants 32 = true) (items : List (Handle E)) :
    ∃ tbl, makeTable grants items = .ok tbl ∧ tbl.items = items ∧ tbl.log2NumBuckets = 5 ∧
      tbl.numBuckets = 32 ∧ tbl.numItems = 0 ∧ Spread 32 tbl.buckets ([] : List (Handle E)) ∧
      ∀ bkt, tbl.asks bkt = none := by
  refine ⟨_, if_pos hgrants, rfl, rfl, rfl, rfl, spread_nil 32, fun bkt ↦ ?_⟩
  rw [Table.asks, Option.bind_eq_none_iff]
  intro head hhead
  obtain rfl := List.eq_of_mem_replicate (List.mem_of_getElem? hhead)
  exact if_neg fun hfull ↦ absurd hfull.1 (show ¬ (0 + 1 : UInt32) ≥ (0 + 1) * 10 by decide)

variable (hashFcn grants) in
theorem addKeyptr_none (add : E × List UInt8) :
    Outcome hashFcn [⟨add.1, add.2, hashFcn add.2⟩] (HeadFails hashFcn grants none add)
      (addKeyptr hashFcn grants none add) := by
  have hfails (e : Stop) : HeadFails hashFcn grants (none : Option (Table E)) add e ↔
      Fails grants 32 e := by
    simp [HeadFails, asks]
  refine .congr ?_ hfails
  by_cases hgrants : grants 32 = true
  · obtain ⟨tbl, hmake, hitems, hlog2, hnumBuckets, hnumItems, hspread, hasks⟩ :=
      makeTable_spec hgrants [(⟨add.1, add.2, hashFcn add.2⟩ : Handle E)]
    rw [← hnumBuckets] at hspread
    have hadd := addToBkt_spec hashFcn grants
      { tbl with numItems := tbl.numItems + 1 } ⟨add.1, add.2, hashFcn add.2⟩
      (by simp [hlog2]) (by simp [hlog2, hnumBuckets]) hspread (by simp [hitems])
      (by simp [hitems, hnumItems]) (by simp [hitems]) (by simp [hitems])
    rw [← hitems, addKeyptr, hmake]
    refine hadd.congr fun e ↦ ?_
    have hnone : ({ tbl with numItems := tbl.numItems + 1 } : Table E).asks
        (toBkt (hashFcn add.2) tbl.numBuckets) = none := hasks _
    rw [fails_of_granted hgrants, hnone]
    simp
  · rw [Bool.not_eq_true] at hgrants
    refine .of_error ?_ (fails_of_refused hgrants)
    simp only [addKeyptr, makeTable, hgrants]
    rfl

/-- What a pointer to the first element is worth. -/
def HeadWellFormed (hashFcn : List UInt8 → UInt32) (head : Option (Table E))
    (added : List (E × List UInt8)) : Prop :=
  (head = none ∧ added = []) ∨
    ∃ tbl, head = some tbl ∧ WellFormed hashFcn tbl ∧
      tbl.items = added.map fun add ↦ ⟨add.1, add.2, hashFcn add.2⟩

variable (grants) in
theorem HeadWellFormed.addKeyptr {head : Option (Table E)} {added : List (E × List UInt8)}
    (h : HeadWellFormed hashFcn head added) (add : E × List UInt8)
    (hlength : added.length + 1 < 2 ^ 32) :
    (∀ e, addKeyptr hashFcn grants head add = .error e ↔ HeadFails hashFcn grants head add e) ∧
      ∀ tbl, addKeyptr hashFcn grants head add = .ok tbl →
        HeadWellFormed hashFcn (some tbl) (added ++ [add]) := by
  rcases h with ⟨rfl, rfl⟩ | ⟨tbl, rfl, hwf, hitems⟩
  · have hadd := addKeyptr_none hashFcn grants add
    refine ⟨hadd.error, fun tbl htbl ↦ ?_⟩
    obtain ⟨hwf, hitems⟩ := hadd.ok tbl htbl
    exact .inr ⟨tbl, rfl, hwf, by simpa using hitems⟩
  · have hadd := addKeyptr_some grants hwf add (by rwa [hitems, List.length_map])
    refine ⟨hadd.error, fun tbl' htbl' ↦ ?_⟩
    obtain ⟨hwf', hitems'⟩ := hadd.ok tbl' htbl'
    exact .inr ⟨tbl', rfl, hwf', by rw [hitems', hitems]; simp⟩

/-! ## What the macros return -/

theorem WellFormed.hashFind (h : WellFormed hashFcn tbl) (key : List UInt8) :
    ∃ out, hashFind hashFcn (some tbl) key = .ok (out.map Handle.elmt) ∧
      (out = none ↔ ∀ hh ∈ tbl.items, hh.key ≠ key) ∧
      ∀ hh, out = some hh → hh ∈ tbl.items ∧ hh.key = key := by
  obtain ⟨bucket, hbucket⟩ := h.spread.getElem? h.numBuckets_pos (hashFcn key)
  have hmem (hh : Handle E) : hh ∈ bucket.chain ↔
      hh ∈ tbl.items ∧ toBkt hh.hashv tbl.numBuckets = toBkt (hashFcn key) tbl.numBuckets := by
    rw [← h.spread.chains.mem_iff, List.getD_eq_getElem?_getD, List.getElem?_map, hbucket]
    rfl
  refine ⟨bucket.chain.find? (·.key = key), by simp only [Uthash.hashFind, hbucket], ?_, ?_⟩
  · rw [List.find?_eq_none]
    refine ⟨fun hnone hh hitem hkey ↦ ?_, fun hnone hh hchain ↦ ?_⟩
    · refine hnone hh ((hmem hh).mpr ⟨hitem, ?_⟩) (by simpa using hkey)
      rw [h.hashv hh hitem, hkey]
    · simpa using hnone hh ((hmem hh).mp hchain).1
  · intro hh hsome
    exact ⟨((hmem hh).mp (List.mem_of_find?_eq_some hsome)).1,
      by simpa using List.find?_some hsome⟩

theorem WellFormed.hashFsck (h : WellFormed hashFcn tbl) : hashFsck (some tbl) = true := by
  have hperm : (tbl.buckets.flatMap Bucket.chain).Perm tbl.items := h.spread.chains.flatten_perm
  simp only [Uthash.hashFsck, Bool.and_eq_true, decide_eq_true_iff, List.all_eq_true]
  exact ⟨⟨h.spread.counts, by rw [hperm.length_eq, h.numItems]⟩, h.numItems.symm⟩

theorem find?_eq_of_nodup {added : List (E × List UInt8)} {add : E × List UInt8}
    (hnodup : (added.map Prod.snd).Nodup) (hmem : add ∈ added) :
    added.find? (·.2 = add.2) = some add := by
  obtain ⟨add', hfind⟩ : ∃ add', added.find? (·.2 = add.2) = some add' :=
    Option.isSome_iff_exists.mp (List.find?_isSome.mpr ⟨add, hmem, by simp⟩)
  have hkey : add'.2 = add.2 := by simpa using List.find?_some hfind
  rw [hfind, List.inj_on_of_nodup_map hnodup (List.mem_of_find?_eq_some hfind) hmem hkey]

theorem find?_eq_none_of_notMem {added : List (E × List UInt8)} {key : List UInt8}
    (h : key ∉ added.map Prod.snd) : added.find? (·.2 = key) = none := by
  rw [List.find?_eq_none]
  intro add hmem hkey
  exact h (List.mem_map.mpr ⟨add, hmem, by simpa using hkey⟩)

theorem HeadWellFormed.hashFind {head : Option (Table E)} {added : List (E × List UInt8)}
    (h : HeadWellFormed hashFcn head added) (key : List UInt8) :
    ∃ out, hashFind hashFcn head key = .ok out ∧
      (out = none ↔ key ∉ added.map Prod.snd) ∧ (∀ elmt, out = some elmt → (elmt, key) ∈ added) ∧
      ((added.map Prod.snd).Nodup → out = (added.find? (·.2 = key)).map Prod.fst) := by
  rcases h with ⟨rfl, rfl⟩ | ⟨tbl, rfl, hwf, hitems⟩
  · exact ⟨none, rfl, by simp, by simp, fun _ ↦ rfl⟩
  · obtain ⟨out, hfind, hnone, hsome⟩ := hwf.hashFind key
    have hnone' : out.map Handle.elmt = none ↔ key ∉ added.map Prod.snd := by
      rw [Option.map_eq_none_iff, hnone, hitems]
      refine ⟨fun h hkey ↦ ?_, fun h hh hmem hkey ↦ ?_⟩
      · obtain ⟨add, hadd, rfl⟩ := List.mem_map.mp hkey
        exact h _ (List.mem_map.mpr ⟨add, hadd, rfl⟩) rfl
      · obtain ⟨add, hadd, rfl⟩ := List.mem_map.mp hmem
        exact h (List.mem_map.mpr ⟨add, hadd, hkey⟩)
    have hsome' (elmt : E) (helmt : out.map Handle.elmt = some elmt) : (elmt, key) ∈ added := by
      obtain ⟨hh, hout, rfl⟩ := Option.map_eq_some_iff.mp helmt
      obtain ⟨hitem, hkey⟩ := hsome hh hout
      rw [hitems] at hitem
      obtain ⟨add, hadd, rfl⟩ := List.mem_map.mp hitem
      exact hkey ▸ hadd
    refine ⟨out.map Handle.elmt, hfind, hnone', hsome', fun hnodup ↦ ?_⟩
    cases hout : out.map Handle.elmt with
    | none => rw [find?_eq_none_of_notMem (hnone'.mp hout)]; rfl
    | some elmt => rw [find?_eq_of_nodup hnodup (hsome' elmt hout)]; rfl

section Head

variable {head : Option (Table E)} {added : List (E × List UInt8)}

theorem HeadWellFormed.hashIter (h : HeadWellFormed hashFcn head added) :
    hashIter head = added.map Prod.fst := by
  rcases h with ⟨rfl, rfl⟩ | ⟨tbl, rfl, -, hitems⟩
  · rfl
  · simp [Uthash.hashIter, hitems]

theorem HeadWellFormed.hashCount (h : HeadWellFormed hashFcn head added) :
    hashCount head = UInt32.ofNat added.length := by
  rcases h with ⟨rfl, rfl⟩ | ⟨tbl, rfl, hwf, hitems⟩
  · rfl
  · rw [Uthash.hashCount, hwf.numItems, hitems, List.length_map]

theorem HeadWellFormed.hashFsck (h : HeadWellFormed hashFcn head added) :
    hashFsck head = true := by
  rcases h with ⟨rfl, rfl⟩ | ⟨tbl, rfl, hwf, -⟩
  · rfl
  · exact hwf.hashFsck

end Head

def elevenKeys : List (ℕ × List UInt8) := (List.range 11).map fun n ↦ (n, [UInt8.ofNat n])

end Tables

end Edsm.Uthash
