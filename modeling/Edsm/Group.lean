import Mathlib.Data.List.Nodup

/-!
# Groups of nodes

A fixed group whose nodes have all joined one object: the peers list of every
node holds every other node, in the order in which it learnt of them.
-/

namespace Edsm

structure Group where
  ids : List UInt32
  /-- Id 0 stands for a node that has no id yet. -/
  ne_zero : ∀ p ∈ ids, p ≠ 0
  nodup : ids.Nodup
  peers : UInt32 → List UInt32
  peers_nodup : ∀ p ∈ ids, (peers p).Nodup
  mem_peers : ∀ p ∈ ids, ∀ q, q ∈ peers p ↔ q ∈ ids ∧ q ≠ p

namespace Group

/-- Every node lists the others in the order of `ids`. -/
def ofIds (ids : List UInt32) (hzero : 0 ∉ ids) (hnodup : ids.Nodup) : Group where
  ids := ids
  ne_zero _ hp he := hzero (he ▸ hp)
  nodup := hnodup
  peers p := ids.filter (· ≠ p)
  peers_nodup p _ := hnodup.filter _
  mem_peers p _ q := by simp

/-- Decided along the list of the members, not over all ids. -/
instance decidableForallMember (G : Group) (P : UInt32 → Prop) [DecidablePred P] :
    Decidable (∀ p ∈ G.ids, P p) :=
  List.decidableBAll P G.ids

end Group

end Edsm
