import Edsm.Library.Overlay

/-!
# Copies of one array

Every node has a copy of the array and writes to it.  From time to time it sends
what it has changed to the others, which apply it as it arrives.  Two disciplines
keep the copies together: one writer for each position, or one writer at a time.
-/

@[ext]
structure Copies (ι κ α : Type*) where
  value : ι → κ → α
  /-- The copy of a node less the changes that it has not sent yet. -/
  known : ι → κ → α
  /-- What a node has sent to another one and that has not been applied there, oldest first. -/
  flight : ι → ι → List (Patch κ α)

namespace Copies

variable {ι κ α : Type*}

/-- A list of patches that makes `new` of `old` and says nothing where they agree. -/
structure IsDiff (fs : List (Patch κ α)) (old new : κ → α) : Prop where
  applyAll : Patch.applyAll fs old = new
  eq_none : ∀ k, old k = new k → ∀ f ∈ fs, f k = none

variable [DecidableEq ι]

def write [DecidableEq κ] (s : Copies ι κ α) (p : ι) (k : κ) (a : α) : Copies ι κ α :=
  { s with value := Function.update s.value p (Function.update (s.value p) k a) }

def publish (s : Copies ι κ α) (p : ι) (qs : List ι) (fs : List (Patch κ α)) : Copies ι κ α :=
  { s with
    known := Function.update s.known p (s.value p)
    flight := fun a b ↦ if a = p ∧ b ∈ qs then s.flight a b ++ fs else s.flight a b }

/-- The oldest patch from `q` is applied by `p`; `fs` are the others. -/
def deliver (s : Copies ι κ α) (q p : ι) (f : Patch κ α) (fs : List (Patch κ α)) :
    Copies ι κ α where
  value := Function.update s.value p (f.apply (s.value p))
  known := Function.update s.known p (f.apply (s.known p))
  flight a b := if a = q ∧ b = p then fs else s.flight a b

variable {s : Copies ι κ α} {p q : ι} {qs : List ι} {f : Patch κ α} {fs : List (Patch κ α)}

omit [DecidableEq ι] in
/-- Wherever it is applied, a diff brings what has changed. -/
theorem IsDiff.applyAll_eq {old new : κ → α} (h : IsDiff fs old new) {k : κ}
    (hne : old k ≠ new k) (g : κ → α) : Patch.applyAll fs g k = new k := by
  have hnew := congrFun h.applyAll k
  rw [← Patch.apply_join] at hnew ⊢
  cases hjoin : Patch.join fs k with
  | none => exact absurd ((Patch.apply_of_eq_none hjoin).symm.trans hnew) hne
  | some a =>
      rw [Patch.apply_of_eq_some hjoin] at hnew ⊢
      exact hnew

theorem mem_flight_deliver (h : s.flight q p = f :: fs) {a b : ι} {f' : Patch κ α}
    (hf' : f' ∈ (s.deliver q p f fs).flight a b) : f' ∈ s.flight a b := by
  unfold deliver at hf'
  simp only at hf'
  split at hf'
  · next hab =>
      rw [hab.1, hab.2, h]
      exact List.mem_cons_of_mem f hf'
  · exact hf'

/-! ## One writer for each position -/

structure OneWriter (group : List ι) (owner : κ → ι) (written : κ → α) (s : Copies ι κ α) :
    Prop where
  /-- The others have nothing to send. -/
  clean : ∀ p k, p ≠ owner k → s.value p k = s.known p k
  own : ∀ k, s.value (owner k) k = written k
  foreign : ∀ q p k, q ≠ owner k → ∀ f ∈ s.flight q p, f k = none
  /-- With what is on its way every node has what the owner has sent. -/
  catchUp : ∀ p ∈ group, ∀ k, p ≠ owner k →
    Patch.applyAll (s.flight (owner k) p) (s.known p) k = s.known (owner k) k

namespace OneWriter

variable {group : List ι} {owner : κ → ι} {written : κ → α}

theorem write [DecidableEq κ] (h : OneWriter group owner written s) {k : κ} (hp : owner k = p)
    (a : α) : OneWriter group owner (Function.update written k a) (s.write p k a) where
  clean r k' hne := by
    change (s.write p k a).value r k' = s.known r k'
    rw [← h.clean r k' hne]
    by_cases hr : r = p
    · subst hr
      have hk : k' ≠ k := fun hk ↦ hne (by rw [hk, hp])
      simp [Copies.write, hk]
    · simp [Copies.write, hr]
  own k' := by
    by_cases hk : k' = k
    · subst hk
      simp [Copies.write, hp]
    · rw [Function.update_of_ne hk, ← h.own k']
      by_cases ho : owner k' = p <;> simp [Copies.write, ho, hk]
  foreign := h.foreign
  catchUp := h.catchUp

theorem publish (h : OneWriter group owner written s) (hqs : ∀ r ∈ group, r ≠ p → r ∈ qs)
    (hfs : IsDiff fs (s.known p) (s.value p)) :
    OneWriter group owner written (s.publish p qs fs) where
  clean r k hne := by
    by_cases hr : r = p
    · subst hr
      simp [Copies.publish]
    · simpa [Copies.publish, hr] using h.clean r k hne
  own := h.own
  foreign q r k hne f hf := by
    simp only [Copies.publish] at hf
    split at hf
    · next hqr =>
        rcases List.mem_append.mp hf with hf | hf
        · exact h.foreign q r k hne f hf
        · exact hfs.eq_none k (h.clean p k (hqr.1 ▸ hne)).symm f hf
    · exact h.foreign q r k hne f hf
  catchUp r hr k hne := by
    have hcatchUp := h.catchUp r hr k hne
    by_cases ho : owner k = p
    · have hrp : r ≠ p := ho ▸ hne
      rw [ho] at hcatchUp
      simp only [Copies.publish, ho, hqs r hr hrp, and_self, if_true, Function.update_self,
        Function.update_of_ne hrp]
      rw [Patch.applyAll_append, ← hfs.applyAll]
      exact Patch.applyAll_congr hcatchUp
    · simp only [Copies.publish, ho, false_and, if_false, Function.update_of_ne ho]
      rw [← hcatchUp]
      refine Patch.applyAll_congr ?_
      by_cases hrp : r = p
      · subst hrp
        rw [Function.update_self, h.clean r k hne]
      · rw [Function.update_of_ne hrp]

theorem deliver (h : OneWriter group owner written s) (hflight : s.flight q p = f :: fs)
    (hqp : q ≠ p) : OneWriter group owner written (s.deliver q p f fs) where
  clean r k hne := by
    have hclean := h.clean r k hne
    by_cases hr : r = p
    · subst hr
      simp [Copies.deliver, Patch.apply, hclean]
    · simpa [Copies.deliver, hr] using hclean
  own k := by
    rw [← h.own k]
    by_cases ho : owner k = p
    · have hf := h.foreign q p k (ho ▸ hqp) f (by simp [hflight])
      simp [Copies.deliver, ho, Patch.apply_of_eq_none hf]
    · simp [Copies.deliver, ho]
  foreign a b k hne f' hf' := h.foreign a b k hne f' (mem_flight_deliver hflight hf')
  catchUp r hr k hne := by
    have hcatchUp := h.catchUp r hr k hne
    have hf : q ≠ owner k → f k = none := fun hq ↦ h.foreign q p k hq f (by simp [hflight])
    by_cases hrp : r = p
    · subst hrp
      simp only [Copies.deliver, Function.update_self, and_true, Function.update_of_ne hne.symm]
      split
      · next ho =>
          rw [ho, hflight, Patch.applyAll_cons] at hcatchUp
          rw [hcatchUp, ho]
      · next ho =>
          rw [← hcatchUp]
          exact Patch.applyAll_congr (Patch.apply_of_eq_none (hf (Ne.symm ho)))
    · simp only [Copies.deliver, hrp, and_false, if_false, ne_eq, not_false_eq_true,
        Function.update_of_ne]
      rw [hcatchUp]
      by_cases ho : owner k = p
      · rw [ho, Function.update_self, Patch.apply_of_eq_none (hf (ho ▸ hqp))]
      · rw [Function.update_of_ne ho]

omit [DecidableEq ι] in
theorem value_eq (h : OneWriter group owner written s) (hsent : ∀ p, s.known p = s.value p)
    (hp : p ∈ group) (hflight : ∀ q, s.flight q p = []) : s.value p = written := by
  funext k
  rw [← h.own k]
  by_cases ho : p = owner k
  · rw [← ho]
  · have hcatchUp := h.catchUp p hp k ho
    rwa [hflight, Patch.applyAll_nil, hsent, hsent] at hcatchUp

end OneWriter

/-! ## One writer at a time -/

/-- Of the changes of a position on their way to one node, those of its last writer are
the ones that count. -/
structure Coherent (group : List ι) (committed : κ → α) (writer : κ → ι) (s : Copies ι κ α) :
    Prop where
  settled : ∀ p ∈ group, ∀ k, (∀ q, Patch.join (s.flight q p) k = none) →
    s.known p k = committed k
  newest : ∀ p ∈ group, ∀ k, (∃ q, Patch.join (s.flight q p) k ≠ none) →
    Patch.join (s.flight (writer k) p) k = some (committed k)

/-- The newest change of a position is applied after all the others. -/
def InOrder (writer : κ → ι) (s : Copies ι κ α) (q p : ι) (f : Patch κ α) (fs : List (Patch κ α)) :
    Prop :=
  ∀ k, f k ≠ none → Patch.join fs k = none → q = writer k →
    ∀ r, r ≠ q → Patch.join (s.flight r p) k = none

namespace Coherent

variable {group : List ι} {committed : κ → α} {writer : κ → ι}

/-- The writer knows of all changes when it sends its own. -/
theorem publish (h : Coherent group committed writer s) (hqs : ∀ r ∈ group, r ≠ p → r ∈ qs)
    (hp : p ∉ qs) (hfs : IsDiff fs (s.known p) (s.value p)) (hflight : ∀ q, s.flight q p = []) :
    Coherent group ((Patch.join fs).apply committed)
      (fun k ↦ if (Patch.join fs k).isSome then p else writer k) (s.publish p qs fs) := by
  have hknown : ∀ k, ((Patch.join fs).apply (s.known p)) k = s.value p k := by
    rw [Patch.apply_join, hfs.applyAll]
    exact fun _ ↦ rfl
  have hjoin : ∀ q r k, Patch.join ((s.publish p qs fs).flight q r) k =
      if q = p ∧ r ∈ qs then (Patch.join fs k).or (Patch.join (s.flight q r) k)
      else Patch.join (s.flight q r) k := by
    intro q r k
    simp only [Copies.publish]
    split
    · exact Patch.join_append _ _ k
    · rfl
  have hsame : ∀ k, Patch.join fs k = none → ∀ q r,
      Patch.join ((s.publish p qs fs).flight q r) k = Patch.join (s.flight q r) k := by
    intro k hnone q r
    rw [hjoin, hnone, Option.none_or, ite_self]
  have hself : ∀ k, (s.publish p qs fs).known p k = (Patch.join fs).apply (s.known p) k := by
    intro k
    rw [hknown]
    exact congrFun (Function.update_self p (s.value p) s.known) k
  have hother : ∀ r, r ≠ p → (s.publish p qs fs).known r = s.known r :=
    fun r hrp ↦ Function.update_of_ne hrp _ _
  constructor
  · intro r hr k hall
    cases hj : Patch.join fs k with
    | none =>
        have hsettled := h.settled r hr k fun q ↦ (hsame k hj q r) ▸ hall q
        rw [Patch.apply_of_eq_none hj, ← hsettled]
        by_cases hrp : r = p
        · subst hrp
          rw [hself, Patch.apply_of_eq_none hj]
        · rw [hother r hrp]
    | some a =>
        by_cases hrp : r = p
        · subst hrp
          rw [hself, Patch.apply_of_eq_some hj, Patch.apply_of_eq_some hj]
        · have hnone := hall p
          rw [hjoin, if_pos ⟨rfl, hqs r hr hrp⟩, hj] at hnone
          cases hnone
  · rintro r hr k ⟨q, hq⟩
    cases hj : Patch.join fs k with
    | none =>
        rw [hsame k hj] at hq
        simp only [Option.isSome_none, Bool.false_eq_true, if_false]
        rw [hsame k hj, h.newest r hr k ⟨q, hq⟩, Patch.apply_of_eq_none hj]
    | some a =>
        by_cases hrp : r = p
        · subst hrp
          rw [hjoin, if_neg (fun hmem ↦ hp hmem.2), hflight, Patch.join_nil] at hq
          exact absurd rfl hq
        · simp only [Option.isSome_some, if_true]
          rw [hjoin, if_pos ⟨rfl, hqs r hr hrp⟩, hj, Option.some_or, Patch.apply_of_eq_some hj]

theorem deliver (h : Coherent group committed writer s) (hflight : s.flight q p = f :: fs)
    (horder : InOrder writer s q p f fs) :
    Coherent group committed writer (s.deliver q p f fs) := by
  have hsame : ∀ a r k, ¬ (a = q ∧ r = p) →
      Patch.join ((s.deliver q p f fs).flight a r) k = Patch.join (s.flight a r) k := by
    intro a r k har
    simp only [Copies.deliver, if_neg har]
  have hself : ∀ k, Patch.join ((s.deliver q p f fs).flight q p) k = Patch.join fs k := by
    intro k
    simp only [Copies.deliver, and_self, if_true]
  have hbefore : ∀ k, Patch.join (s.flight q p) k = (Patch.join fs k).or (f k) :=
    fun k ↦ hflight ▸ Patch.join_cons f fs k
  have hother : ∀ r, r ≠ p → (s.deliver q p f fs).known r = s.known r :=
    fun r hrp ↦ Function.update_of_ne hrp _ _
  have hknown : (s.deliver q p f fs).known p = f.apply (s.known p) := Function.update_self _ _ _
  -- unless this patch is the last one with `k` from `q`, nothing changes on the way to `p`
  have hstill : ∀ k, (f k = none ∨ Patch.join fs k ≠ none) → ∀ a,
      Patch.join ((s.deliver q p f fs).flight a p) k = Patch.join (s.flight a p) k := by
    intro k hk a
    by_cases ha : a = q
    · subst ha
      rw [hself, hbefore]
      rcases hk with hnone | hsome
      · rw [hnone, Option.or_none]
      · cases hj : Patch.join fs k with
        | none => exact absurd hj hsome
        | some v => rfl
    · exact hsame a p k fun hmem ↦ ha hmem.1
  constructor
  · intro r hr k hall
    by_cases hrp : r = p
    · subst hrp
      have hj : Patch.join fs k = none := hself k ▸ hall q
      rw [hknown]
      cases hf : f k with
      | none =>
          rw [Patch.apply_of_eq_none hf]
          exact h.settled r hr k fun a ↦ hstill k (.inl hf) a ▸ hall a
      | some v =>
          have hq : Patch.join (s.flight q r) k = some v := by
            rw [hbefore, hj, hf, Option.none_or]
          have hnewest := h.newest r hr k ⟨q, by rw [hq]; exact Option.some_ne_none v⟩
          by_cases hwriter : q = writer k
          · rw [← hwriter, hq] at hnewest
            rw [Patch.apply_of_eq_some hf]
            exact Option.some.inj hnewest
          · have hnone := hall (writer k)
            rw [hsame _ _ k fun hmem ↦ hwriter hmem.1.symm, hnewest] at hnone
            cases hnone
    · rw [hother r hrp]
      exact h.settled r hr k fun a ↦ hsame a r k (fun hmem ↦ hrp hmem.2) ▸ hall a
  · rintro r hr k ⟨a, ha⟩
    by_cases hrp : r = p
    · subst hrp
      by_cases hk : f k = none ∨ Patch.join fs k ≠ none
      · rw [hstill k hk] at ha ⊢
        exact h.newest r hr k ⟨a, ha⟩
      · obtain ⟨hf, hj⟩ : f k ≠ none ∧ Patch.join fs k = none := by simpa [not_or] using hk
        by_cases hwriter : q = writer k
        · refine absurd ?_ ha
          by_cases haq : a = q
          · rw [haq, hself, hj]
          · rw [hsame a r k fun hmem ↦ haq hmem.1]
            exact horder k hf hj hwriter a haq
        · rw [hsame _ r k fun hmem ↦ hwriter hmem.1.symm]
          exact h.newest r hr k ⟨q, by rw [hbefore, hj, Option.none_or]; exact hf⟩
    · have hne : ∀ b, ¬ (b = q ∧ r = p) := fun b hmem ↦ hrp hmem.2
      rw [hsame a r k (hne a)] at ha
      rw [hsame _ r k (hne _)]
      exact h.newest r hr k ⟨a, ha⟩

omit [DecidableEq ι] in
theorem known_eq (h : Coherent group committed writer s) (hp : p ∈ group)
    (hflight : ∀ q, s.flight q p = []) : s.known p = committed := by
  funext k
  exact h.settled p hp k fun q ↦ by rw [hflight, Patch.join_nil]

end Coherent

end Copies
