import Edsm.Library.Overlay

/-!
# Positions that are written once

Where each position has one writer that writes it at most once, a patch never has to
wait for another one: in whatever order the patches reach a node, and whatever else is
in the message with them, its copy ends with what was written.
-/

variable {ι κ α : Type*}

/-- The patches say what `new` has where `old` has something else, and say nothing where the
two agree. -/
structure Patch.Tells (fs : List (Patch κ α)) (old new : κ → α) : Prop where
  eq_new : ∀ f ∈ fs, ∀ k a, f k = some a → a = new k ∧ old k ≠ new k
  exists_patch : ∀ k, old k ≠ new k → ∃ f ∈ fs, f k = some (new k)

/-- The positions that have been written had `old` before and have `new` now: `value` is what a
node has, `known` is the same less what it has not sent, and `pending` are the patches from one
node that another one has not applied. -/
structure WriteOnce (group : List ι) (owner : κ → ι) (written sent : κ → Prop) (old new : κ → α)
    (value known : ι → κ → α) (pending : ι → ι → Patch κ α → Prop) : Prop where
  owner_mem : ∀ k, owner k ∈ group
  /-- The others have nothing to send. -/
  clean : ∀ p ∈ group, ∀ k, p ≠ owner k → value p k = known p k
  before : ∀ k, ¬ written k → value (owner k) k = old k ∧ known (owner k) k = old k
  after : ∀ k, written k → value (owner k) k = new k
  sent : ∀ k, sent k → written k ∧ known (owner k) k = new k
  carried : ∀ q, ∀ p ∈ group, ∀ f, pending q p f → ∀ k a, f k = some a →
    q = owner k ∧ written k ∧ a = new k ∧ known (owner k) k = new k
  catchUp : ∀ p ∈ group, ∀ k, p ≠ owner k → known p k = known (owner k) k ∨
    ∃ f, pending (owner k) p f ∧ f k = some (known (owner k) k)

namespace WriteOnce

variable {group : List ι} {owner : κ → ι} {written sent written' sent' : κ → Prop} {old new : κ → α}
variable {value known value' known' : ι → κ → α} {pending pending' : ι → ι → Patch κ α → Prop}
variable {p q : ι} {f : Patch κ α} {fs : List (Patch κ α)}

/-- What has been sent and is not on its way any more has arrived. -/
theorem value_eq (h : WriteOnce group owner written sent old new value known pending)
    (hp : p ∈ group) {k : κ} (hk : sent k) (hnone : ∀ f, pending (owner k) p f → f k = none) :
    value p k = new k := by
  obtain ⟨hwritten, hknown⟩ := h.sent k hk
  by_cases ho : p = owner k
  · rw [ho, h.after k hwritten]
  · rw [h.clean p hp k ho, ← hknown]
    rcases h.catchUp p hp k ho with heq | ⟨f, hf, hsome⟩
    · exact heq
    · rw [hnone f hf] at hsome
      cases hsome

/-- Patches may change hands. -/
theorem congr (h : WriteOnce group owner written sent old new value known pending)
    (hwritten : ∀ k, written' k ↔ written k) (hsent : ∀ k, sent' k → sent k)
    (hpending : ∀ q p f, pending' q p f ↔ pending q p f) :
    WriteOnce group owner written' sent' old new value known pending' := by
  obtain rfl : written' = written := funext fun k ↦ propext (hwritten k)
  obtain rfl : pending' = pending := by
    funext q p f
    exact propext (hpending q p f)
  exact { h with sent := fun k hk ↦ h.sent k (hsent k hk) }

variable [DecidableEq ι]

/-- A position that was not written cannot be on its way. -/
theorem write [DecidableEq κ] (h : WriteOnce group owner written sent old new value known pending)
    {k : κ} (hp : owner k = p) (hk : ¬ written k)
    (hwritten : ∀ k', written' k' ↔ written k' ∨ k' = k)
    (hvalue : value' = Function.update value p (Function.update (value p) k (new k))) :
    WriteOnce group owner written' sent old new value' known pending := by
  have hself : ∀ r k', k' ≠ k ∨ r ≠ p → value' r k' = value r k' := by
    intro r k' hne
    rw [hvalue]
    by_cases hr : r = p
    · subst hr
      rw [Function.update_self, Function.update_of_ne (hne.resolve_right (not_not.mpr rfl))]
    · rw [Function.update_of_ne hr]
  refine ⟨h.owner_mem, fun r hr k' hne ↦ ?_, fun k' hk' ↦ ?_, fun k' hk' ↦ ?_,
    fun k' hk' ↦ (h.sent k' hk').imp_left fun hw ↦ (hwritten k').mpr (.inl hw),
    fun a b hb f hf k' v hv ↦ ?_, h.catchUp⟩
  · rw [hself r k' ?_]
    · exact h.clean r hr k' hne
    · by_contra hnot
      rw [not_or, not_not, not_not] at hnot
      exact hne (by rw [hnot.1, hp, hnot.2])
  · rw [hwritten, not_or] at hk'
    rw [hself _ k' (.inl hk'.2)]
    exact h.before k' hk'.1
  · by_cases hkk : k' = k
    · subst hkk
      rw [hvalue, hp, Function.update_self, Function.update_self]
    · rw [hself _ k' (.inl hkk)]
      exact h.after k' (((hwritten k').mp hk').resolve_right hkk)
  · obtain ⟨hq, hw, hnew⟩ := h.carried a b hb f hf k' v hv
    exact ⟨hq, (hwritten k').mpr (.inl hw), hnew⟩

/-- A node lets the others know all that it has. -/
theorem publish (h : WriteOnce group owner written sent old new value known pending)
    (hfs : Patch.Tells fs (known p) (value p)) (hp : p ∈ group)
    (hknown : known' = Function.update known p (value p))
    (hnew : ∀ k, sent' k → sent k ∨ owner k = p ∧ written k)
    (hadded : ∀ q r f, pending' q r f → pending q r f ∨ q = p ∧ f ∈ fs)
    (hkept : ∀ q r f, pending q r f → pending' q r f)
    (hsent : ∀ r ∈ group, r ≠ p → ∀ f ∈ fs, pending' p r f) :
    WriteOnce group owner written sent' old new value known' pending' := by
  have hother : ∀ r, r ≠ p → known' r = known r := fun r hr ↦ by
    rw [hknown, Function.update_of_ne hr]
  have hself : known' p = value p := by rw [hknown, Function.update_self]
  -- what a node knows changes at its own positions only
  have hkeep : ∀ r ∈ group, ∀ k, r ≠ owner k → known' r k = known r k := by
    intro r hr k hne
    by_cases hrp : r = p
    · subst hrp
      rw [hself, h.clean r hr k hne]
    · rw [hother r hrp]
  have howner : ∀ k, known' (owner k) k = known (owner k) k ∨
      owner k = p ∧ written k ∧ known p k ≠ value p k ∧ known' p k = new k := by
    intro k
    by_cases ho : owner k = p
    · by_cases hsame : known p k = value p k
      · left
        rw [ho, hself, hsame]
      · have hwritten : written k := by
          by_contra hnot
          obtain ⟨hv, hkn⟩ := h.before k hnot
          rw [ho] at hv hkn
          exact hsame (hkn.trans hv.symm)
        exact .inr ⟨ho, hwritten, hsame, by rw [hself, ← ho, h.after k hwritten]⟩
    · exact .inl (congrFun (hother _ ho) k)
  refine ⟨h.owner_mem, fun r hr k hne ↦ ?_, fun k hk ↦ ?_, h.after, fun k hk ↦ ?_,
    fun a b hb f hf k v hv ↦ ?_, fun r hr k hne ↦ ?_⟩
  · rw [hkeep r hr k hne]
    exact h.clean r hr k hne
  · rcases howner k with heq | ⟨-, hwritten, -⟩
    · rw [heq]
      exact h.before k hk
    · exact absurd hwritten hk
  · rcases hnew k hk with hk | ⟨ho, hwritten⟩
    · obtain ⟨hwritten, heq⟩ := h.sent k hk
      refine ⟨hwritten, ?_⟩
      rcases howner k with heq' | ⟨ho, -, -, heq'⟩
      · rw [heq', heq]
      · rw [ho, heq']
    · exact ⟨hwritten, by rw [← h.after k hwritten, ho, hself]⟩
  · rcases hadded a b f hf with hf | ⟨rfl, hf⟩
    · obtain ⟨ha, hwritten, hnew, hkn⟩ := h.carried a b hb f hf k v hv
      refine ⟨ha, hwritten, hnew, ?_⟩
      rcases howner k with heq | ⟨ho, -, -, heq⟩
      · rw [heq, hkn]
      · rw [ho, heq]
    · obtain ⟨rfl, hdiff⟩ := hfs.eq_new f hf k v hv
      have ho : a = owner k := by
        by_contra hne
        exact hdiff (h.clean a hp k hne).symm
      have hwritten : written k := by
        by_contra hnot
        obtain ⟨hv, hkn⟩ := h.before k hnot
        rw [← ho] at hv hkn
        exact hdiff (hkn.trans hv.symm)
      have hnew := h.after k hwritten
      rw [← ho] at hnew ⊢
      exact ⟨rfl, hwritten, hnew, by rw [hself, hnew]⟩
  · rw [hkeep r hr k hne]
    rcases howner k with heq | ⟨ho, hwritten, hdiff, heq⟩
    · rw [heq]
      rcases h.catchUp r hr k hne with heq' | ⟨f, hf, hsome⟩
      · exact .inl heq'
      · exact .inr ⟨f, hkept _ r f hf, hsome⟩
    · obtain ⟨f, hf, hsome⟩ := hfs.exists_patch k hdiff
      refine .inr ⟨f, ho.symm ▸ hsent r hr (ho ▸ hne) f hf, ?_⟩
      rw [hsome, ho, hself]

/-- Any of the patches may be the next one to be applied. -/
theorem deliver (h : WriteOnce group owner written sent old new value known pending) (hqp : q ≠ p)
    (hf : pending q p f) (hvalue : value' = Function.update value p (f.apply (value p)))
    (hknown : known' = Function.update known p (f.apply (known p)))
    (hsub : ∀ a b f', pending' a b f' → pending a b f')
    (hkeep : ∀ a b f', pending a b f' → pending' a b f' ∨ b = p ∧ f' = f) :
    WriteOnce group owner written sent old new value' known' pending' := by
  -- a node's own positions are in no patch that it gets
  have hnone : ∀ k, owner k = p → f k = none := by
    intro k ho
    cases hk : f k with
    | none => rfl
    | some v =>
        exact absurd ((h.carried q p (ho ▸ h.owner_mem k) f hf k v hk).1.trans ho) hqp
  have hown : ∀ k, value' (owner k) k = value (owner k) k ∧
      known' (owner k) k = known (owner k) k := by
    intro k
    rw [hvalue, hknown]
    by_cases ho : owner k = p
    · rw [ho, Function.update_self, Function.update_self, Patch.apply_of_eq_none (hnone k ho),
        Patch.apply_of_eq_none (hnone k ho)]
      exact ⟨rfl, rfl⟩
    · rw [Function.update_of_ne ho, Function.update_of_ne ho]
      exact ⟨rfl, rfl⟩
  refine ⟨h.owner_mem, fun r hr k hne ↦ ?_, fun k hk ↦ ?_, fun k hk ↦ ?_, fun k hk ↦ ?_,
    fun a b hb f' hf' k v hv ↦ ?_, fun r hr k hne ↦ ?_⟩
  · have hclean := h.clean r hr k hne
    rw [hvalue, hknown]
    by_cases hrp : r = p
    · subst hrp
      rw [Function.update_self, Function.update_self, Patch.apply, Patch.apply, hclean]
    · rw [Function.update_of_ne hrp, Function.update_of_ne hrp, hclean]
  · rw [(hown k).1, (hown k).2]
    exact h.before k hk
  · rw [(hown k).1]
    exact h.after k hk
  · rw [(hown k).2]
    exact h.sent k hk
  · rw [(hown k).2]
    exact h.carried a b hb f' (hsub a b f' hf') k v hv
  · rw [(hown k).2]
    by_cases hrp : r = p
    · subst hrp
      have hself : known' r k = f.apply (known r) k := by rw [hknown, Function.update_self]
      cases hk : f k with
      | some v =>
          obtain ⟨-, -, rfl, hkn⟩ := h.carried q r hr f hf k v hk
          left
          rw [hself, Patch.apply_of_eq_some hk, hkn]
      | none =>
          rw [hself, Patch.apply_of_eq_none hk]
          rcases h.catchUp r hr k hne with heq | ⟨f', hf', hsome⟩
          · exact .inl heq
          · refine .inr ⟨f', ?_, hsome⟩
            rcases hkeep _ r f' hf' with hmem | ⟨-, rfl⟩
            · exact hmem
            · rw [hk] at hsome
              cases hsome
    · have hother : known' r k = known r k := by rw [hknown, Function.update_of_ne hrp]
      rw [hother]
      rcases h.catchUp r hr k hne with heq | ⟨f', hf', hsome⟩
      · exact .inl heq
      · refine .inr ⟨f', ?_, hsome⟩
        exact (hkeep _ r f' hf').resolve_right fun hcontra ↦ hrp hcontra.1

end WriteOnce
