import Mathlib.Algebra.Order.Group.Nat
import Mathlib.Logic.Relation

/-!
# Chains of threads that wait for locks

Each lock has a rank, and a thread that wants a lock holds only locks of rank zero or of a
smaller rank.  Along a chain of waiting threads that starts at a lock of positive rank the
ranks then go up.
-/

namespace LockRank

variable {T L : Type*}

/-- Thread `a` waits for a lock that `b` holds. -/
def WaitsFor (wants holds : T → L → Prop) (a b : T) : Prop := ∃ l, wants a l ∧ holds b l

/-- A thread wants one lock at a time, and one above those that it holds. -/
structure Ordered (wants holds : T → L → Prop) (rank : L → ℕ) : Prop where
  one : ∀ {a l l'}, wants a l → wants a l' → l = l'
  above : ∀ {a l l'}, wants a l → holds a l' → rank l' = 0 ∨ rank l' < rank l

namespace Ordered

variable {wants holds : T → L → Prop} {rank : L → ℕ} {a b : T} {l : L}

/-- Whoever is at the end of a chain holds the lock that is wanted at its start, or one above. -/
theorem held_of_chain (h : Ordered wants holds rank)
    (hchain : Relation.TransGen (WaitsFor wants holds) a b) (hl : wants a l) (hpos : 0 < rank l) :
    ∃ l', holds b l' ∧ (l' = l ∨ rank l < rank l') := by
  induction hchain using Relation.TransGen.head_induction_on generalizing l with
  | single hab =>
      obtain ⟨l', hwants, hholds⟩ := hab
      exact ⟨l', hholds, .inl (h.one hwants hl)⟩
  | head hac hcb ih =>
      obtain ⟨l', hwants, hholds⟩ := hac
      obtain rfl := h.one hwants hl
      obtain ⟨next, ⟨k, hk, -⟩, -⟩ := Relation.TransGen.head'_iff.mp hcb
      have hlt : rank l' < rank k := (h.above hk hholds).resolve_left hpos.ne'
      obtain ⟨last, hlast, heq | hgt⟩ := ih hk (hpos.trans hlt)
      · exact ⟨last, hlast, .inr (heq ▸ hlt)⟩
      · exact ⟨last, hlast, .inr (hlt.trans hgt)⟩

theorem irrefl_of_pos (h : Ordered wants holds rank) (hl : wants a l) (hpos : 0 < rank l) :
    ¬Relation.TransGen (WaitsFor wants holds) a a := by
  intro hchain
  obtain ⟨l', hholds, heq | hlt⟩ := h.held_of_chain hchain hl hpos
  · rcases h.above hl hholds with hzero | hless
    · exact hpos.ne' (heq ▸ hzero)
    · exact hless.ne (congrArg rank heq)
  · rcases h.above hl hholds with hzero | hless
    · exact Nat.not_lt_zero _ (hzero ▸ hlt)
    · exact hless.asymm hlt

end Ordered

end LockRank
