import Tmgr.PaxosStep

/-!
# The counters of the log

Five counters describe a replica's log: `log_base_`, `next_slot_`,
`applied_slot_`, `decided_slot_` and its own entry of `follower_ack_slot_`.
`LogInv` is what ties them together. It is kept by every turn, whatever the
messages say: all that is asked of a message is that it comes from another
replica (`Turn.logInv`). Rounds play no part, so a replica that was deposed
in the middle of a call is covered as well.
-/

namespace Tmgr

namespace PtPaxosReplica

structure LogInv (n i : Nat) (r : PtPaxosReplica) : Prop where
  acks_length : r.followerAckSlot.length = n
  base_le : r.logBase ≤ r.appliedSlot
  next : i = r.leaderIndex → r.nextSlot = r.logEnd
  own_ack : i = r.leaderIndex → r.followerAckSlot.getD i 0 = r.logEnd

theorem quorum_pos (n : Nat) : 0 < quorum n :=
  Nat.succ_pos _

theorem quorum_le {n i : Nat} (hi : i < n) : quorum n ≤ n := by
  unfold quorum
  omega

theorem initial_logInv {n i : Nat} (hi : i < n) (onApply : Bool) :
    LogInv n i (PtPaxosReplica.initial n onApply) where
  acks_length := by simp [PtPaxosReplica.initial]
  base_le := le_rfl
  next _ := rfl
  own_ack _ := by simp [PtPaxosReplica.initial, logEnd, hi]

variable {n i : Nat} {r : PtPaxosReplica}

/-- Of a replica that does not lead, little is asked. -/
theorem LogInv.of_follower (hacks : r.followerAckSlot.length = n)
    (hbase : r.logBase ≤ r.appliedSlot) (hne : i ≠ r.leaderIndex) : LogInv n i r where
  acks_length := hacks
  base_le := hbase
  next hl := absurd hl hne
  own_ack hl := absurd hl hne

theorem LogInv.stepDown {msg : PaxosMessage} (h : LogInv n i r) (now : Nat)
    (hs : msg.sender ≠ i) : LogInv n i (r.stepDown now msg) := by
  unfold PtPaxosReplica.stepDown
  split
  · exact .of_follower h.acks_length h.base_le hs.symm
  · exact h

/-! ## Applying and truncating -/

theorem applyLoop_le (h : r.logBase ≤ r.appliedSlot) :
    min r.decidedSlot r.logEnd ≤ r.applyLoop.appliedSlot :=
  applyUpTo_exit (fun _ _ => rfl) (fun _ _ => rfl) (fun _ _ => rfl) h le_rfl

theorem applyLoop_mono (r : PtPaxosReplica) : r.appliedSlot ≤ r.applyLoop.appliedSlot :=
  applyUpTo_appliedSlot_mono fun _ _ => rfl

theorem minAck_le {a : Nat} (h : a ∈ r.followerAckSlot) :
    r.followerAckSlot.min?.getD 0 ≤ a := by
  cases hm : r.followerAckSlot.min? with
  | none => exact Nat.zero_le a
  | some m => exact (List.min?_eq_some_iff.mp hm).2 a h

/-- The element `try_decide` takes from the sorted vector. -/
theorem sorted_acks (hi : i < n) (hlen : r.followerAckSlot.length = n) :
    (r.followerAckSlot.insertionSort (· ≤ ·))[n - quorum n]?
      = some (Rank.rank r.followerAckSlot (quorum n)) := by
  have h := Rank.getElem?_sorted (l := r.followerAckSlot) (quorum_pos n)
    (hlen.symm ▸ quorum_le hi)
  rwa [hlen] at h

/-- The slowest follower has acknowledged no more than a quorum has. -/
theorem minAck_le_rank (hi : i < n) (hlen : r.followerAckSlot.length = n) :
    r.followerAckSlot.min?.getD 0 ≤ Rank.rank r.followerAckSlot (quorum n) :=
  minAck_le (Rank.rank_mem (quorum_pos n) (hlen.symm ▸ quorum_le hi))

theorem getD_mem {l : List Nat} {i : Nat} (h : i < l.length) : l.getD i 0 ∈ l := by
  rw [List.getD_eq_getElem?_getD, List.getElem?_eq_getElem h, Option.getD_some]
  exact List.getElem_mem h

theorem tryTruncate_logEnd (h : r.followerAckSlot.min?.getD 0 ≤ r.logEnd) :
    r.tryTruncate.logEnd = r.logEnd := by
  simp only [tryTruncate, logEnd, List.length_drop] at h ⊢
  omega

theorem LogInv.tryTruncate (h : LogInv n i r) (hend : r.followerAckSlot.min?.getD 0 ≤ r.logEnd)
    (happlied : r.followerAckSlot.min?.getD 0 ≤ r.appliedSlot) : LogInv n i r.tryTruncate :=
  { h with
    base_le := max_le h.base_le happlied
    next := fun hl => (h.next hl).trans (tryTruncate_logEnd hend).symm
    own_ack := fun hl => (h.own_ack hl).trans (tryTruncate_logEnd hend).symm }

/-- A leader truncates no further than it has applied: the slowest follower
is behind the leader's own ACK, which is the end of the log, and behind a
quorum, which is decided. -/
theorem LogInv.minAck_le_applied (hi : i < n) (h : LogInv n i r) (hl : i = r.leaderIndex) :
    (r.tryDecide n).applyLoop.followerAckSlot.min?.getD 0 ≤ (r.tryDecide n).applyLoop.logEnd
      ∧ (r.tryDecide n).applyLoop.followerAckSlot.min?.getD 0
        ≤ (r.tryDecide n).applyLoop.appliedSlot := by
  rw [applyLoop_followerAckSlot]
  have hend : r.followerAckSlot.min?.getD 0 ≤ r.logEnd := by
    rw [← h.own_ack hl]
    exact minAck_le (getD_mem (h.acks_length.symm ▸ hi))
  refine ⟨by simpa [logEnd, PtPaxosReplica.tryDecide] using hend, ?_⟩
  calc r.followerAckSlot.min?.getD 0
      ≤ min (max r.decidedSlot (Rank.rank r.followerAckSlot (quorum n))) r.logEnd :=
        le_min ((minAck_le_rank hi h.acks_length).trans (le_max_right _ _)) hend
    _ ≤ (r.tryDecide n).applyLoop.appliedSlot := applyLoop_le (r := r.tryDecide n) h.base_le

theorem LogInv.applyDecided (hi : i < n) (h : LogInv n i r) :
    LogInv n i (r.applyDecided n i) := by
  refine applyDecided_induct (P := LogInv n i) { h with }
    (fun _ _ h _ => { h with base_le := h.base_le.trans (Nat.le_succ _) }) ?_
  intro hl hloop
  obtain ⟨hend, happlied⟩ := h.minAck_le_applied hi hl
  exact hloop.tryTruncate hend happlied

/-! ## Sending and elections -/

theorem LogInv.runSendPropose (hi : i < n) (h : LogInv n i r) (k : Nat) :
    LogInv n i (r.runSendPropose n i k).1 :=
  runSendPropose_induct h (fun h => h.applyDecided hi) (fun _ _ h => { h with }) k

theorem LogInv.callSendPropose (hi : i < n) (h : LogInv n i r) (c k : Nat) :
    LogInv n i (r.callSendPropose n i c k).1 :=
  callSendPropose_induct h (fun h => h.applyDecided hi) (fun _ _ _ h => { h with }) c k

theorem LogInv.catchUp (h : LogInv n i r) (best : PaxosMessage) :
    LogInv n i (r.catchUp best) :=
  applyUpTo_induct (P := LogInv n i) h fun _ _ h _ _ =>
    { h with base_le := h.base_le.trans (Nat.le_succ _) }

/-- Any log can be adopted. -/
theorem LogInv.adopt (hi : i < n) (h : LogInv n i r) (best : PaxosMessage) :
    LogInv n i (r.adopt i best) where
  acks_length := by simpa [PtPaxosReplica.adopt] using (h.catchUp best).acks_length
  base_le := le_max_right _ _
  next _ := rfl
  own_ack _ := by
    have hlen : i < (r.catchUp best).followerAckSlot.length :=
      (h.catchUp best).acks_length.symm ▸ hi
    simp [PtPaxosReplica.adopt, logEnd, hlen]

theorem LogInv.runProbe (hi : i < n) (h : LogInv n i r) (k : Nat) :
    LogInv n i (r.runProbe n i k).1 := by
  refine runProbe_induct (fun frame responses => { h with }) ?_ k
  intro best _
  have hadd : LogInv n i (r.addResponse (r.prepareMsg i r.electionRound)) := { h with }
  exact (hadd.adopt hi best).runSendPropose hi 0

/-! ## Messages and calls -/

/-- Whatever another replica is said to have acknowledged. -/
theorem LogInv.setAck (h : LogInv n i r) {j : Nat} (hj : j ≠ i) (a : Nat) :
    LogInv n i { r with followerAckSlot := r.followerAckSlot.set j a } := by
  refine { h with acks_length := ?_, own_ack := ?_ }
  · simpa using h.acks_length
  · intro hl
    have hset : (r.followerAckSlot.set j a)[i]? = r.followerAckSlot[i]? := List.getElem?_set_ne hj
    have := h.own_ack hl
    simp only [List.getD_eq_getElem?_getD, logEnd] at this hset ⊢
    rw [hset, this]

theorem LogInv.recordAck (h : LogInv n i r) {msg : PaxosMessage} (hs : msg.sender ≠ i) :
    LogInv n i (r.recordAck msg) := by
  unfold PtPaxosReplica.recordAck
  split
  · exact h.setAck hs _
  · exact h

theorem truncateFollower_logEnd (t : Nat) (r : PtPaxosReplica) :
    (r.truncateFollower t).logEnd = r.logEnd := by
  simp only [truncateFollower, logEnd, List.length_drop]
  omega

theorem LogInv.truncateFollower (h : LogInv n i r) (t : Nat) :
    LogInv n i (r.truncateFollower t) := by
  have hbase := h.base_le
  refine { h with base_le := ?_, next := ?_, own_ack := ?_ }
  · simp only [PtPaxosReplica.truncateFollower]
    omega
  · intro hl
    rw [truncateFollower_logEnd]
    exact h.next hl
  · intro hl
    rw [truncateFollower_logEnd]
    exact h.own_ack hl

/-- A gap reset moves `applied_slot_` along with `log_base_`; the rest of
the handler leaves both alone. -/
theorem install_base_le (h : r.logBase ≤ r.appliedSlot) (msg : PaxosMessage) :
    (r.install msg).logBase ≤ (r.install msg).appliedSlot := by
  have hgap : msg.slot ≤ max r.appliedSlot msg.slot := le_max_right _ _
  unfold install
  simp only
  split <;> split
  · exact hgap
  · exact h
  · exact hgap
  · exact h

/-- A follower installs any log: nothing is required of the message. -/
theorem LogInv.install (h : LogInv n i r) (hl : i ≠ r.leaderIndex) (msg : PaxosMessage) :
    LogInv n i (r.install msg) := by
  refine .of_follower ?_ (install_base_le h.base_le msg) ?_
  · rw [install_same (f := (·.followerAckSlot)) (fun _ _ _ _ _ => rfl)]
    exact h.acks_length
  · rw [install_same (f := (·.leaderIndex)) (fun _ _ _ _ _ => rfl)]
    exact hl

theorem LogInv.acceptPropose (hi : i < n) (h : LogInv n i r) (hl : i ≠ r.leaderIndex)
    (now : Nat) (msg : PaxosMessage) : LogInv n i (r.acceptPropose n i now msg) :=
  acceptPropose_induct (P := LogInv n i) { h.install hl msg with }
    (fun _ h => h.applyDecided hi) fun _ h => h.truncateFollower _

theorem LogInv.appendCall (hi : i < n) (h : LogInv n i r) (hl : i = r.leaderIndex)
    (nowUnix : Int) (req : Request) : LogInv n i (r.appendCall i nowUnix req) := by
  have hnext := h.next hl
  have hlen : i < r.followerAckSlot.length := h.acks_length.symm ▸ hi
  refine { h with acks_length := ?_, next := ?_, own_ack := ?_ }
  · simpa [PtPaxosReplica.appendCall] using h.acks_length
  · intro _
    simp only [PtPaxosReplica.appendCall, logEnd, List.length_append, List.length_singleton]
      at hnext ⊢
    omega
  · intro _
    simp only [PtPaxosReplica.appendCall, logEnd, List.length_append, List.length_singleton,
      List.getD_eq_getElem?_getD, List.getElem?_set_self hlen, Option.getD_some] at hnext ⊢
    omega

/-! ## Turns -/

/-- The message a turn receives, if any, comes from another replica. -/
def FromOther (i : Nat) : LocalEvent → Prop
  | .receive msg _ => msg.sender ≠ i
  | _ => True

theorem Turn.logInv {ev : LocalEvent} {x : PtPaxosReplica × List Packet} (ht : Turn n i r ev x)
    (hi : i < n) (h : LogInv n i r) (hfrom : FromOther i ev) : LogInv n i x.1 := by
  cases ht with
  | ignore => exact h.stepDown _ hfrom
  | @probe msg now => exact { h.stepDown now hfrom with }
  | @vote msg now => exact { h.stepDown now hfrom with }
  | @elect msg best now =>
      have hadd : LogInv n i ((r.stepDown now msg).addResponse msg) :=
        { h.stepDown now hfrom with }
      exact (hadd.adopt hi best).runSendPropose hi 0
  | ack => exact ((h.stepDown _ hfrom).recordAck hfrom).applyDecided hi
  | @stale msg now =>
      have hd := h.stepDown now hfrom
      exact .of_follower hd.acks_length hd.base_le hfrom.symm
  | @accept msg now =>
      have hd := h.stepDown now hfrom
      have hfollow : LogInv n i { r.stepDown now msg with leaderIndex := msg.sender } :=
        .of_follower hd.acks_length hd.base_le hfrom.symm
      exact { hfollow.acceptPropose hi hfrom.symm now msg with }
  | quiet => exact h
  | retransmit => exact h.runSendPropose hi 0
  | start =>
      have hpick : LogInv n i (r.pickRound n i) := { h with }
      exact hpick.runProbe hi 0
  | refuse => exact { h with }
  | append hleader => exact (h.appendCall hi hleader _ _).callSendPropose hi _ 0
  | replied => exact { h with }
  | probing => exact h.runProbe hi _
  | proposing => exact h.runSendPropose hi _
  | sending => exact h.callSendPropose hi _ _
  | finish => exact finishCall_induct h (fun pend calls => { h with }) _

end PtPaxosReplica

end Tmgr
