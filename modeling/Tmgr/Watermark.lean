import Tmgr.LogInv

/-!
# The commit watermark

`try_decide` sorts the acknowledged slots and takes the one at position
`nreplicas_ - quorum`. `watermark_exact` says what that element is: the
largest slot below which a majority has acknowledged everything. The smallest
acknowledged slot, which `try_truncate` goes by, is never above it.
-/

namespace Tmgr

namespace PtPaxosReplica

variable {n i : Nat} {r : PtPaxosReplica}

/-- `follower_ack_slot_[j]` is the end of what replica `j` has acknowledged. -/
def Acked (r : PtPaxosReplica) (j slot : Nat) : Prop :=
  slot < r.followerAckSlot.getD j 0

instance (r : PtPaxosReplica) (j slot : Nat) : Decidable (r.Acked j slot) :=
  inferInstanceAs (Decidable (_ < _))

/-- The replicas that have acknowledged every slot below `d`. -/
def ackedBelow (n : Nat) (r : PtPaxosReplica) (d : Nat) : Finset Nat :=
  (Finset.range n).filter fun j => ∀ slot < d, r.Acked j slot

theorem forall_acked_iff {j d : Nat} :
    (∀ slot < d, r.Acked j slot) ↔ d ≤ r.followerAckSlot.getD j 0 := by
  constructor
  · intro h
    by_contra hlt
    exact lt_irrefl _ (h _ (not_le.mp hlt))
  · intro h slot hslot
    exact hslot.trans_le h

/-- Who acknowledged `slot` acknowledged everything below it. -/
theorem ackedBelow_succ (slot : Nat) :
    r.ackedBelow n (slot + 1) = (Finset.range n).filter fun j => r.Acked j slot := by
  refine Finset.filter_congr ?_
  intro j _
  rw [forall_acked_iff]
  exact Iff.rfl

theorem card_ackedBelow (hlen : r.followerAckSlot.length = n) (d : Nat) :
    (r.ackedBelow n d).card = r.followerAckSlot.countP (d ≤ ·) := by
  rw [Rank.countP_eq_card, hlen, ackedBelow]
  congr 1
  refine Finset.filter_congr ?_
  intro j _
  rw [forall_acked_iff, decide_eq_true_iff]
  exact Iff.rfl

/-- More than half, for odd and even `n`. -/
theorem quorum_le_iff {m : Nat} : quorum n ≤ m ↔ n < 2 * m := by
  unfold quorum
  omega

/-! ## try_decide -/

theorem isGreatest_watermark (hn : 0 < n) (hlen : r.followerAckSlot.length = n) :
    IsGreatest {d | quorum n ≤ (r.ackedBelow n d).card}
      (Rank.rank r.followerAckSlot (quorum n)) := by
  simp only [card_ackedBelow hlen]
  exact Rank.isGreatest_rank (quorum_pos n) (hlen.symm ▸ quorum_le hn)

/-- A slot is decided when it was before, or when a majority has acknowledged
it. -/
theorem lt_tryDecide_iff (hn : 0 < n) (hlen : r.followerAckSlot.length = n) (slot : Nat) :
    slot < (r.tryDecide n).decidedSlot
      ↔ slot < r.decidedSlot
        ∨ n < 2 * ((Finset.range n).filter fun j => r.Acked j slot).card := by
  have hrank : slot < Rank.rank r.followerAckSlot (quorum n)
      ↔ quorum n ≤ (r.ackedBelow n (slot + 1)).card := by
    rw [card_ackedBelow hlen, ← Rank.le_rank_iff (quorum_pos n) (hlen.symm ▸ quorum_le hn)]
    exact Iff.rfl
  rw [← quorum_le_iff, ← ackedBelow_succ, ← hrank]
  exact lt_max_iff

/-! ## try_truncate -/

/-- Truncation leaves the log where it starts, or moves its start to a
decided slot. -/
theorem tryTruncate_le_decided
    (h : r.followerAckSlot.min?.getD 0 ≤ r.decidedSlot) :
    r.tryTruncate.logBase = r.logBase ∨ r.tryTruncate.logBase ≤ r.decidedSlot := by
  rcases Nat.le_total r.logBase (r.followerAckSlot.min?.getD 0) with hle | hle
  · exact .inr ((max_eq_right hle).trans_le h)
  · exact .inl (max_eq_left hle)

theorem applyDecided_decidedSlot (n i : Nat) (r : PtPaxosReplica) :
    (r.applyDecided n i).decidedSlot = (r.tryDecide n).decidedSlot := by
  have hloop : (r.tryDecide n).applyLoop.decidedSlot = (r.tryDecide n).decidedSlot :=
    applyLoop_same (f := (·.decidedSlot)) (fun _ _ => rfl) _
  unfold applyDecided
  simp only
  split
  · exact hloop
  · exact hloop

theorem applyDecided_appliedSlot_le (n i : Nat) (r : PtPaxosReplica) :
    (r.applyDecided n i).appliedSlot ≤ max r.appliedSlot (r.tryDecide n).decidedSlot := by
  have hloop : (r.tryDecide n).applyLoop.appliedSlot
      ≤ max r.appliedSlot (r.tryDecide n).decidedSlot := applyUpTo_appliedSlot_le fun _ _ => rfl
  unfold applyDecided
  simp only
  split
  · exact hloop
  · exact hloop

/-- The slots `apply_decided` drops from the log are decided. -/
theorem applyDecided_le_decided (hn : 0 < n) (hlen : r.followerAckSlot.length = n) (i : Nat) :
    (r.applyDecided n i).logBase = r.logBase
      ∨ (r.applyDecided n i).logBase ≤ (r.tryDecide n).decidedSlot := by
  have hdecided : (r.tryDecide n).applyLoop.decidedSlot = (r.tryDecide n).decidedSlot :=
    applyLoop_same (f := (·.decidedSlot)) (fun _ _ => rfl) _
  have hmin : (r.tryDecide n).applyLoop.followerAckSlot.min?.getD 0
      ≤ (r.tryDecide n).applyLoop.decidedSlot := by
    rw [applyLoop_followerAckSlot, hdecided]
    exact (minAck_le_rank hn hlen).trans (le_max_right _ _)
  unfold applyDecided
  simp only
  split
  · have h := tryTruncate_le_decided hmin
    rw [applyLoop_logBase, hdecided] at h
    exact h
  · left
    rw [applyLoop_logBase]
    rfl

/-- **The commit watermark is the majority watermark.** `try_decide` raises
`decided_slot_` to the largest `d` such that at least `n / 2 + 1` replicas
have acknowledged every slot below `d`. So a slot is newly decided if and only
if more than half of the replicas have acknowledged it, and the truncation
that follows never passes `decided_slot_`. -/
theorem watermark_exact {n : Nat} {r : PtPaxosReplica} (hn : 0 < n)
    (hlen : r.followerAckSlot.length = n) :
    (∃ w, (r.followerAckSlot.insertionSort (· ≤ ·))[n - (n / 2 + 1)]? = some w
      ∧ IsGreatest {d | n / 2 + 1 ≤ (r.ackedBelow n d).card} w
      ∧ (r.tryDecide n).decidedSlot = max r.decidedSlot w)
    ∧ (∀ slot, slot < (r.tryDecide n).decidedSlot
        ↔ slot < r.decidedSlot
          ∨ n < 2 * ((Finset.range n).filter fun j => r.Acked j slot).card)
    ∧ ((r.tryDecide n).tryTruncate.logBase = r.logBase
        ∨ (r.tryDecide n).tryTruncate.logBase ≤ (r.tryDecide n).decidedSlot)
    ∧ ∀ i, (r.applyDecided n i).decidedSlot = (r.tryDecide n).decidedSlot
        ∧ ((r.applyDecided n i).logBase = r.logBase
          ∨ (r.applyDecided n i).logBase ≤ (r.applyDecided n i).decidedSlot) := by
  refine ⟨⟨_, sorted_acks hn hlen, isGreatest_watermark hn hlen, rfl⟩, lt_tryDecide_iff hn hlen,
    ?_, ?_⟩
  · exact tryTruncate_le_decided (r := r.tryDecide n)
      ((minAck_le_rank hn hlen).trans (le_max_right _ _))
  · intro i
    rw [applyDecided_decidedSlot]
    exact ⟨rfl, applyDecided_le_decided hn hlen i⟩

/-- Four replicas, two of them with the same slot: three have acknowledged
the slots below 2. -/
def fourAcks : PtPaxosReplica :=
  { followerAckSlot := [3, 1, 2, 2], decidedSlot := 1 }

theorem watermark_exact_fourAcks :
    ∃ w, IsGreatest {d | 4 / 2 + 1 ≤ (fourAcks.ackedBelow 4 d).card} w
      ∧ (fourAcks.tryDecide 4).decidedSlot = max 1 w := by
  obtain ⟨⟨w, -, hgreatest, hdecided⟩, -⟩ :=
    watermark_exact (n := 4) (r := fourAcks) (by decide) rfl
  exact ⟨w, hgreatest, hdecided⟩

end PtPaxosReplica

end Tmgr
