import Edsm.Proto.Handshake
import Edsm.Uthash.Table

/-!
# Tables by id

The peers and the objects are in tables by a 32-bit id, and an element is added only
after a search for its id has found nothing.  The lists that the other modules have
for these tables are what the tables come to.
-/

namespace Edsm.Uthash

variable {E : Type}

/-- `HASH_FIND_INT` -/
def hashFindInt (head : Option (Table E)) (findInt : UInt32) : Except Stop (Option E) :=
  hashFind hashJen head (Message.word findInt)

/-- `HASH_ADD_INT`, with the field that holds the id. -/
def hashAddInt (grants : UInt32 → Bool) (intField : E → UInt32) (head : Option (Table E))
    (add : E) : Except Stop (Table E) :=
  addKeyptr hashJen grants head (add, Message.word (intField add))

/-- An element is added if the search for its id finds nothing. -/
def findOrAdd (grants : UInt32 → Bool) (intField : E → UInt32) (head : Option (Table E))
    (add : E) : Except Stop (Option (Table E)) := do
  match ← hashFindInt head (intField add) with
  | some _ => return head
  | none => return some (← hashAddInt grants intField head add)

def findOrAddAll (grants : UInt32 → Bool) (intField : E → UInt32) (adds : List E) :
    Except Stop (Option (Table E)) :=
  adds.foldlM (findOrAdd grants intField) none

/-- The same on a list. -/
def listFindOrAdd (intField : E → UInt32) (elmts : List E) (add : E) : List E :=
  match elmts.find? (intField · = intField add) with
  | some _ => elmts
  | none => elmts ++ [add]

variable {grants : UInt32 → Bool} {intField : E → UInt32} {head : Option (Table E)}
  {elmts : List E} {add : E}

/-- The table has the elements of the list, and no id twice. -/
structure HoldsList (intField : E → UInt32) (head : Option (Table E)) (elmts : List E) :
    Prop where
  head : HeadWellFormed hashJen head (elmts.map fun elmt ↦ (elmt, Message.word (intField elmt)))
  nodup : (elmts.map intField).Nodup

theorem word_injective : Function.Injective Message.word := fun n m h ↦ by
  rw [← Message.ofWord_word n, h, Message.ofWord_word]

theorem HoldsList.hashFindInt (h : HoldsList intField head elmts) (findInt : UInt32) :
    hashFindInt head findInt = .ok (elmts.find? (intField · = findInt)) := by
  obtain ⟨out, hfind, -, -, hout⟩ := h.head.hashFind (Message.word findInt)
  have hnodup : ((elmts.map fun elmt ↦ (elmt, Message.word (intField elmt))).map
      Prod.snd).Nodup := by
    have hwords := h.nodup.map word_injective
    rwa [List.map_map] at hwords ⊢
  rw [Uthash.hashFindInt, hfind, hout hnodup, List.find?_map, Option.map_map]
  simp [Function.comp_def, word_injective.eq_iff]

variable (grants intField) in
/-- The search finds nothing, and the addition fails. -/
def FindOrAddFails (head : Option (Table E)) (add : E) (e : Stop) : Prop :=
  hashFindInt head (intField add) = .ok none ∧
    HeadFails hashJen grants head (add, Message.word (intField add)) e

theorem findOrAdd_of_some {elmt : E} (hfind : hashFindInt head (intField add) = .ok (some elmt)) :
    findOrAdd grants intField head add = .ok head := by
  simp only [findOrAdd, hfind]
  rfl

theorem findOrAdd_of_none (hfind : hashFindInt head (intField add) = .ok none) :
    findOrAdd grants intField head add = (hashAddInt grants intField head add).map some := by
  simp only [findOrAdd, hfind]
  rfl

variable (grants) in
theorem HoldsList.findOrAdd (h : HoldsList intField head elmts) (add : E)
    (hlength : elmts.length + 1 < 2 ^ 32) :
    (∀ e, findOrAdd grants intField head add = .error e ↔
      FindOrAddFails grants intField head add e) ∧
    ∀ head', findOrAdd grants intField head add = .ok head' →
      HoldsList intField head' (listFindOrAdd intField elmts add) := by
  have hfind := h.hashFindInt (intField add)
  cases hlist : elmts.find? (intField · = intField add) with
  | some elmt =>
      rw [hlist] at hfind
      rw [findOrAdd_of_some hfind, listFindOrAdd, hlist]
      refine ⟨fun e ↦ ?_, fun head' hhead ↦ Except.ok.inj hhead ▸ h⟩
      rw [FindOrAddFails, hfind]
      simp
  | none =>
      rw [hlist] at hfind
      rw [findOrAdd_of_none hfind, hashAddInt]
      obtain ⟨herror, hok⟩ := h.head.addKeyptr grants (add, Message.word (intField add))
        (by rwa [List.length_map])
      refine ⟨fun e ↦ ?_, fun head' hhead ↦ ?_⟩
      · rw [Except.map_eq_error, herror, FindOrAddFails, and_iff_right hfind]
      · obtain ⟨tbl, htbl, rfl⟩ := Except.map_eq_ok.mp hhead
        refine ⟨by simpa [listFindOrAdd, hlist] using hok tbl htbl, ?_⟩
        rw [List.find?_eq_none] at hlist
        rw [listFindOrAdd, List.find?_eq_none.mpr hlist, List.map_append, List.map_singleton,
          List.nodup_append]
        refine ⟨h.nodup, List.nodup_singleton _, ?_⟩
        rintro a ha b hb rfl
        obtain ⟨elmt, helmt, rfl⟩ := List.mem_map.mp ha
        exact hlist elmt helmt (by simpa using hb)

theorem length_foldl_listFindOrAdd (intField : E → UInt32) (adds elmts : List E) :
    (adds.foldl (listFindOrAdd intField) elmts).length ≤ elmts.length + adds.length := by
  induction adds generalizing elmts with
  | nil => exact Nat.le_refl _
  | cons add adds ih =>
      have hone : (listFindOrAdd intField elmts add).length ≤ elmts.length + 1 := by
        rw [listFindOrAdd]
        split <;> simp
      have hrest := ih (listFindOrAdd intField elmts add)
      rw [List.foldl_cons, List.length_cons]
      omega

end Edsm.Uthash
