import Mathlib.Data.Finset.Card
import Mathlib.Data.Finset.Lattice.Lemmas

/-!
# Quorum systems

A set of members and a family of quorums any two of which share a member.
`majority` is the instance used by replicated logs: more than half of the
members.
-/

structure QuorumSystem (ι : Type*) where
  members : Finset ι
  IsQuorum : Finset ι → Prop
  meet : ∀ {q q' : Finset ι}, IsQuorum q → IsQuorum q' → ∃ i, i ∈ q ∧ i ∈ q'

namespace QuorumSystem

variable {ι : Type*} [DecidableEq ι]

/-- The quorums are the subsets of `members` with at least
`members.card / 2 + 1` elements. -/
def majority (members : Finset ι) : QuorumSystem ι where
  members := members
  IsQuorum q := q ⊆ members ∧ members.card / 2 + 1 ≤ q.card
  meet := by
    rintro q q' ⟨hsub, hcard⟩ ⟨hsub', hcard'⟩
    have hlt : members.card < q.card + q'.card := by omega
    obtain ⟨i, hi⟩ := Finset.inter_nonempty_of_card_lt_card_add_card hsub hsub' hlt
    exact ⟨i, Finset.mem_inter.mp hi⟩

theorem majority_members {members : Finset ι} (h : 0 < members.card) :
    (majority members).IsQuorum members :=
  ⟨Finset.Subset.refl _, by omega⟩

end QuorumSystem
