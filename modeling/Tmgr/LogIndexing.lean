import Tmgr.LogInv
import Tmgr.Strict

/-!
# Indexing never leaves the log

`LogInv` is enough for every checked operation of `Strict` to succeed. So the
checked functions return what those of `Tmgr.Paxos` return, function by
function up to `Strict.localStep_eq`, and `log_indexing_safe` says so of every
state a replica can be brought to.
-/

namespace Tmgr

namespace PtPaxosReplica

namespace Strict

open Loops

variable {n i : Nat} {r : PtPaxosReplica}

/-! ## Checked operations that succeed -/

@[simp] theorem ok_bind {α β : Type} (a : α) (f : α → Except Fault β) :
    ((Except.ok a : Except Fault α) >>= f) = f a := rfl

@[simp] theorem ok_map {α β : Type} (f : α → β) (a : α) :
    (f <$> (Except.ok a : Except Fault α)) = .ok (f a) := rfl

@[simp] theorem pure_eq {α : Type} (a : α) : (pure a : Except Fault α) = .ok a := rfl

theorem sub_of_le {a b : Nat} (h : b ≤ a) : sub a b = .ok (a - b) :=
  if_pos h

theorem orFault_of_lt {α : Type*} {e : Fault} {l : List α} {k : Nat} (h : k < l.length) (d : α) :
    orFault e l[k]? = .ok (l.getD k d) := by
  rw [List.getD_eq_getElem?_getD, List.getElem?_eq_getElem h]
  rfl

theorem assign_of_lt {α : Type*} {e : Fault} {l : List α} {k : Nat} (h : k < l.length) (a : α) :
    assign e l k a = .ok (l.set k a) :=
  if_pos h

theorem suffix_of_le {α : Type*} {l : List α} {k : Nat} (h : k ≤ l.length) :
    suffix l k = .ok (l.drop k) :=
  if_pos h

/-- The slots of the log are those from `log_base_` to its end. -/
theorem entry_of_mem {s : Nat} (hle : r.logBase ≤ s) (hlt : s < r.logEnd) :
    ∃ dv, r.log[s - r.logBase]? = some dv ∧ entry r s = .ok dv := by
  have hin : s - r.logBase < r.log.length := by
    rw [logEnd] at hlt
    omega
  have hget := List.getElem?_eq_getElem hin
  refine ⟨r.log[s - r.logBase], hget, ?_⟩
  rw [entry, sub_of_le hle, ok_bind, hget]
  rfl

/-! ## The loops -/

theorem applyUpTo_eq_of_fuel {body : PtPaxosReplica → DecidedValue → PtPaxosReplica}
    {bound fuel : Nat} (hslot : ∀ r dv, (body r dv).appliedSlot = r.appliedSlot + 1)
    (hbase : ∀ r dv, (body r dv).logBase = r.logBase) (hle : r.logBase ≤ r.appliedSlot)
    (hfuel : bound - r.appliedSlot ≤ fuel) :
    loop .endless (fun r => r.appliedSlot < bound && r.appliedSlot < r.logEnd)
      (fun r => do
        let dv ← entry r r.appliedSlot
        return body r dv) fuel r
      = .ok (PtPaxosReplica.applyUpTo body bound fuel r) := by
  induction fuel generalizing r with
  | zero =>
      have hbound : ¬r.appliedSlot < bound := by omega
      exact loop_of_not_guard (by simp [hbound])
  | succ fuel ih =>
      by_cases hguard : r.appliedSlot < bound ∧ r.appliedSlot < r.logEnd
      · obtain ⟨dv, hget, hentry⟩ := entry_of_mem hle hguard.2
        rw [loop_of_guard (t := body r dv) (by simpa using hguard) (by simp [hentry]),
          PtPaxosReplica.applyUpTo, if_pos hguard, hget]
        apply ih
        · rw [hbase, hslot]
          omega
        · rw [hslot]
          omega
      · rw [loop_of_not_guard (by simpa using hguard), PtPaxosReplica.applyUpTo,
          if_neg hguard]

theorem applyLoop_eq (h : r.logBase ≤ r.appliedSlot) :
    applyUpTo applySlot r.decidedSlot r = .ok r.applyLoop :=
  applyUpTo_eq_of_fuel (fun _ _ => rfl) (fun _ _ => rfl) h le_rfl

theorem catchUp_eq (h : r.logBase ≤ r.appliedSlot) (best : PaxosMessage) :
    applyUpTo processSlot best.slot r = .ok (r.catchUp best) :=
  applyUpTo_eq_of_fuel (fun _ _ => rfl) (fun _ _ => rfl) h le_rfl

/-- `r` without the first `k` entries of its log. -/
def dropFront (k : Nat) (r : PtPaxosReplica) : PtPaxosReplica :=
  { r with log := r.log.drop k, logBase := r.logBase + k }

theorem popFront_dropFront {k : Nat} (hlen : k < r.log.length)
    (happlied : r.logBase + k < r.appliedSlot) :
    popFront (dropFront k r) = .ok (dropFront (k + 1) r) := by
  rw [popFront, dropFront, List.drop_eq_getElem_cons hlen]
  exact if_pos happlied

/-- A loop of `pop_front` that stops after `last` entries, all of them in the
log and applied. -/
theorem popFronts_eq {guard : PtPaxosReplica → Bool} {last fuel : Nat}
    (hguard : ∀ k ≤ last, guard (dropFront k r) = decide (k < last))
    (hlen : last ≤ r.log.length) (happlied : last = 0 ∨ r.logBase + last ≤ r.appliedSlot)
    (hfuel : last ≤ fuel) :
    loop .endless guard popFront fuel r = .ok (dropFront last r) :=
  loop_of_states (f := fun k => dropFront k r) hguard
    (fun _ hk => popFront_dropFront (by omega) (by omega)) hfuel

theorem tryTruncate_eq (hacks : r.followerAckSlot ≠ [])
    (hend : r.followerAckSlot.min?.getD 0 ≤ r.logEnd)
    (happlied : r.followerAckSlot.min?.getD 0 ≤ r.appliedSlot) :
    tryTruncate r = .ok r.tryTruncate := by
  obtain ⟨minAck, hmin⟩ := Option.ne_none_iff_exists'.mp (mt List.min?_eq_none_iff.mp hacks)
  rw [hmin, Option.getD_some] at hend happlied
  have hdrop : dropFront (minAck - r.logBase) r = r.tryTruncate := by
    simp only [dropFront, PtPaxosReplica.tryTruncate, hmin, Option.getD_some]
    congr 1
    omega
  simp only [tryTruncate, hmin, orFault, ok_bind]
  rw [← hdrop]
  refine popFronts_eq ?_ ?_ (by omega) le_rfl
  · intro k _
    refine decide_eq_decide.mpr ?_
    show r.logBase + k < minAck ↔ k < minAck - r.logBase
    omega
  · rw [logEnd] at hend
    omega

theorem truncateFollower_eq (t : Nat) : truncateFollower t r = .ok (r.truncateFollower t) := by
  refine popFronts_eq ?_ (min_le_right _ _) (by omega) (min_le_left _ _)
  intro k hk
  have hempty : (r.log.drop k).isEmpty = false ↔ k < r.log.length := by
    rw [List.isEmpty_eq_false_iff, ne_eq, List.drop_eq_nil_iff, not_le]
  rw [Bool.eq_iff_iff, Bool.and_eq_true, decide_eq_true_iff, decide_eq_true_iff]
  simp only [dropFront, Bool.not_eq_true', hempty]
  omega

theorem popBack_take {k : Nat} (h : k < r.log.length) :
    popBack { r with log := r.log.take (k + 1) } = .ok { r with log := r.log.take k } := by
  have hlast : (r.log.take (k + 1)).dropLast = r.log.take k := by
    rw [List.dropLast_eq_take, List.take_take, List.length_take]
    congr 1
    omega
  obtain ⟨v, vs, hcons⟩ : ∃ v vs, r.log.take (k + 1) = v :: vs := by
    cases hlog : r.log with
    | nil => simp [hlog] at h
    | cons v vs => exact ⟨v, vs.take k, rfl⟩
  simp only [popBack, hcons]
  rw [← hcons, hlast]

/-- The loop at the back, for a PROPOSE that does not end below the log. -/
theorem popBacks_eq {stop : Nat} (h : r.logBase ≤ stop) :
    loop .endless (fun r => r.logEnd > stop) popBack (r.logEnd - stop) r
      = .ok { r with log := r.log.take (stop - r.logBase) } := by
  have hfirst : { r with log := r.log.take (r.log.length - 0) } = r := by
    rw [Nat.sub_zero, List.take_length]
  have hlast : r.log.take (r.log.length - (r.log.length - (stop - r.logBase)))
      = r.log.take (stop - r.logBase) := by
    rcases Nat.le_total (stop - r.logBase) r.log.length with hle | hle
    · rw [Nat.sub_sub_self hle]
    · rw [List.take_of_length_le hle, List.take_of_length_le (by omega)]
  have hfuel : r.log.length - (stop - r.logBase) ≤ r.logEnd - stop := by
    rw [logEnd]
    omega
  have hloop : loop .endless (fun r => r.logEnd > stop) popBack (r.logEnd - stop)
      { r with log := r.log.take (r.log.length - 0) }
      = .ok { r with log := r.log.take (r.log.length
          - (r.log.length - (stop - r.logBase))) } := by
    refine loop_of_states (f := fun k => { r with log := r.log.take (r.log.length - k) })
      ?_ ?_ hfuel
    · intro k hk
      refine decide_eq_decide.mpr ?_
      simp only [logEnd, List.length_take]
      omega
    · intro k hk
      obtain ⟨m, hm⟩ : ∃ m, r.log.length - k = m + 1 := ⟨r.log.length - k - 1, by omega⟩
      have hm' : r.log.length - (k + 1) = m := by omega
      simp only [hm, hm']
      exact popBack_take (by omega)
  rw [hfirst, hlast] at hloop
  exact hloop

theorem writeValues_eq (logBase s : Nat) (vs log : List DecidedValue) :
    writeValues logBase s vs log = .ok (PtPaxosReplica.writeValues logBase s vs log) := by
  induction vs generalizing s log with
  | nil => rfl
  | cons v vs ih =>
      rw [writeValues, PtPaxosReplica.writeValues]
      by_cases hbelow : s < logBase
      · rw [if_pos hbelow, if_pos hbelow, ih]
      · rw [if_neg hbelow, if_neg hbelow, sub_of_le (Nat.le_of_not_lt hbelow), ok_bind]
        by_cases hin : s - logBase < log.length
        · rw [if_pos hin, if_pos hin, assign_of_lt hin, ok_bind]
          exact ih _ _
        · rw [if_neg hin, if_neg hin]
          split
          · exact ih _ _
          · exact ih _ _

/-! ## The functions -/

theorem tryDecide_eq (hi : i < n) (hlen : r.followerAckSlot.length = n) :
    tryDecide n r = .ok (r.tryDecide n) := by
  simp only [tryDecide, sub_of_le (quorum_le hi), ok_bind, sorted_acks hi hlen, orFault, pure_eq,
    PtPaxosReplica.tryDecide]

theorem applyDecided_eq (hi : i < n) (h : LogInv n i r) :
    applyDecided n i r = .ok (r.applyDecided n i) := by
  have hloop : applyUpTo applySlot (r.tryDecide n).decidedSlot (r.tryDecide n)
      = .ok (r.tryDecide n).applyLoop := applyLoop_eq (r := r.tryDecide n) h.base_le
  simp only [applyDecided, tryDecide_eq hi h.acks_length, ok_bind, hloop,
    PtPaxosReplica.applyDecided]
  split
  · rename_i hl
    rw [applyLoop_leaderIndex] at hl
    obtain ⟨hend, happlied⟩ := h.minAck_le_applied hi hl
    refine tryTruncate_eq ?_ hend happlied
    rw [applyLoop_followerAckSlot]
    exact List.ne_nil_of_length_pos (h.acks_length.symm ▸ Nat.zero_lt_of_lt hi)
  · rfl

theorem proposeMsg_eq {j : Nat} (hj : j < r.followerAckSlot.length) :
    proposeMsg i r j = .ok (r.proposeMsg i j) := by
  have hstart : max r.logBase (min (r.followerAckSlot.getD j 0) r.logEnd) - r.logBase
      ≤ r.log.length := by
    rw [logEnd]
    omega
  simp only [proposeMsg, orFault_of_lt hj 0, ok_bind, sub_of_le (le_max_left _ _),
    sub_of_le hstart, suffix_of_le hstart, pure_eq, PtPaxosReplica.proposeMsg]

theorem runSendPropose_eq (hi : i < n) (h : LogInv n i r) (k : Nat) :
    runSendPropose n i k r = .ok (r.runSendPropose n i k) := by
  cases hpeer : nextPeer n i k with
  | some j =>
      have hj : j < r.followerAckSlot.length := h.acks_length.symm ▸ (nextPeer_eq_some hpeer).1
      simp only [runSendPropose, PtPaxosReplica.runSendPropose, hpeer, proposeMsg_eq hj, ok_bind,
        pure_eq]
  | none =>
      simp only [runSendPropose, PtPaxosReplica.runSendPropose, hpeer, applyDecided_eq hi h,
        ok_bind, pure_eq]

theorem callSendPropose_eq (hi : i < n) (h : LogInv n i r) (c k : Nat) :
    callSendPropose n i c k r = .ok (r.callSendPropose n i c k) := by
  cases hpeer : nextPeer n i k with
  | some j =>
      have hj : j < r.followerAckSlot.length := h.acks_length.symm ▸ (nextPeer_eq_some hpeer).1
      simp only [callSendPropose, PtPaxosReplica.callSendPropose, hpeer, proposeMsg_eq hj, ok_bind,
        pure_eq]
  | none =>
      simp only [callSendPropose, PtPaxosReplica.callSendPropose, hpeer, applyDecided_eq hi h,
        ok_bind, pure_eq]

theorem adopt_eq (hi : i < n) (h : LogInv n i r) (best : PaxosMessage) :
    adopt i best r = .ok (r.adopt i best) := by
  have hlen : i < ((r.catchUp best).followerAckSlot.map fun _ => best.slot).length := by
    rw [List.length_map, (h.catchUp best).acks_length]
    exact hi
  simp only [adopt, catchUp_eq h.base_le best, ok_bind, assign_of_lt hlen, pure_eq,
    PtPaxosReplica.adopt]

theorem becomeLeader_eq (hi : i < n) (h : LogInv n i r) (hne : r.prepareResponses ≠ []) :
    becomeLeader n i r = .ok (r.becomeLeader n i) := by
  obtain ⟨best, hbest⟩ := maxElement_isSome hne
  simp only [becomeLeader, PtPaxosReplica.becomeLeader, hbest, orFault, ok_bind,
    adopt_eq hi h best, runSendPropose_eq hi (h.adopt hi best)]

theorem addResponse_ne_nil (msg : PaxosMessage) (r : PtPaxosReplica) :
    (r.addResponse msg).prepareResponses ≠ [] :=
  List.append_ne_nil_of_right_ne_nil _ (List.cons_ne_nil _ _)

theorem runProbe_eq (hi : i < n) (h : LogInv n i r) (k : Nat) :
    runProbe n i k r = .ok (r.runProbe n i k) := by
  cases hpeer : nextPeer n i k with
  | some j => simp only [runProbe, PtPaxosReplica.runProbe, hpeer, pure_eq]
  | none =>
      simp only [runProbe, PtPaxosReplica.runProbe, hpeer]
      split
      · exact becomeLeader_eq hi { h with } (addResponse_ne_nil _ r)
      · rfl

/-! ## The handlers -/

theorem recordAck_eq {msg : PaxosMessage} (h : msg.sender < r.followerAckSlot.length) :
    recordAck msg r = .ok (r.recordAck msg) := by
  unfold recordAck PtPaxosReplica.recordAck
  split
  · simp only [orFault_of_lt h 0, ok_bind, assign_of_lt h, pure_eq]
  · rfl

theorem handleAck_eq (hi : i < n) (h : LogInv n i r) {msg : PaxosMessage}
    (hlt : msg.sender < n) (hne : msg.sender ≠ i) :
    handleAck n i msg r = .ok (r.handleAck n i msg, []) := by
  simp only [handleAck, recordAck_eq (h.acks_length.symm ▸ hlt), ok_bind,
    applyDecided_eq hi (h.recordAck hne), pure_eq, PtPaxosReplica.handleAck]

theorem handlePrepare_eq (hi : i < n) (h : LogInv n i r) (msg : PaxosMessage) :
    handlePrepare n i msg r = .ok (r.handlePrepare n i msg) := by
  unfold handlePrepare PtPaxosReplica.handlePrepare
  split
  · simp only
    split
    · exact becomeLeader_eq hi { h with } (addResponse_ne_nil msg r)
    · rfl
  · rfl

/-- The loop at the back starts from `r.log_base_`, or after a gap reset from
the slot of the PROPOSE; it ends where the PROPOSE does. -/
theorem install_eq {msg : PaxosMessage}
    (hend : r.ackRound < msg.round → r.logBase ≤ proposeEnd msg) :
    install msg r = .ok (r.install msg) := by
  by_cases hgap : msg.slot > logEnd { r with ackRound := msg.round }
  · by_cases hnew : msg.round > r.ackRound
    · simp only [install, PtPaxosReplica.install, if_pos hgap, if_pos hnew, writeValues_eq,
        ok_bind]
      exact popBacks_eq (r := { r with ackRound := msg.round, log := _, logBase := msg.slot,
                                       appliedSlot := _ }) (Nat.le_add_right _ _)
    · simp only [install, PtPaxosReplica.install, if_pos hgap, if_neg hnew, writeValues_eq,
        ok_bind, pure_eq]
  · by_cases hnew : msg.round > r.ackRound
    · simp only [install, PtPaxosReplica.install, if_neg hgap, if_pos hnew, writeValues_eq,
        ok_bind]
      exact popBacks_eq (r := { r with ackRound := msg.round, log := _ }) (hend hnew)
    · simp only [install, PtPaxosReplica.install, if_neg hgap, if_neg hnew, writeValues_eq,
        ok_bind, pure_eq]

theorem acceptPropose_eq (hi : i < n) (h : LogInv n i r) (hl : i ≠ r.leaderIndex) (now : Nat)
    {msg : PaxosMessage} (hend : r.ackRound < msg.round → r.logBase ≤ proposeEnd msg) :
    acceptPropose n i now msg r = .ok (r.acceptPropose n i now msg) := by
  have hinstall : LogInv n i { r.install msg with
      decidedSlot := max (r.install msg).decidedSlot msg.decidedSlot, lastLeaderMsg := now } :=
    { h.install hl msg with }
  simp only [acceptPropose, install_eq hend, ok_bind, applyDecided_eq hi hinstall,
    truncateFollower_eq, PtPaxosReplica.acceptPropose]

theorem handlePropose_eq (hi : i < n) (h : LogInv n i r) (now : Nat) {msg : PaxosMessage}
    (hne : msg.sender ≠ i) (hend : r.ackRound < msg.round → r.logBase ≤ proposeEnd msg) :
    handlePropose n i now msg r = .ok (r.handlePropose n i now msg) := by
  have hfollow : LogInv n i { r with leaderIndex := msg.sender } :=
    .of_follower h.acks_length h.base_le hne.symm
  unfold handlePropose PtPaxosReplica.handlePropose
  simp only
  split
  · rfl
  · simp only [acceptPropose_eq hi hfollow hne.symm now hend, ok_bind, pure_eq]

theorem handleMessage_eq (hi : i < n) (h : LogInv n i r) (now : Nat) {msg : PaxosMessage}
    (hlt : msg.sender < n) (hne : msg.sender ≠ i)
    (hend : msg.type = .propose → r.ackRound < msg.round → r.logBase ≤ proposeEnd msg) :
    handleMessage n i now msg r = .ok (r.handleMessage n i now msg) := by
  have hdown := h.stepDown now hne
  have hbase : (r.stepDown now msg).logBase = r.logBase :=
    stepDown_same (f := (·.logBase)) (fun _ _ _ _ => rfl) now msg r
  unfold handleMessage PtPaxosReplica.handleMessage
  simp only
  split
  · rfl
  cases htype : msg.type with
  | probe => rfl
  | prepare => exact handlePrepare_eq hi hdown msg
  | ack =>
      simp only
      split
      · exact handleAck_eq hi hdown hlt hne
      · rfl
  | propose =>
      simp only
      split
      · exact handleAck_eq hi hdown hlt hne
      · refine handlePropose_eq hi hdown now hne ?_
        rw [stepDown_ackRound, hbase]
        exact hend htype

theorem handleTimeout_eq (hi : i < n) (h : LogInv n i r) (now : Nat) :
    handleTimeout n i now r = .ok (r.handleTimeout n i now) := by
  have hpick : LogInv n i (r.pickRound n i) := { h with }
  unfold handleTimeout PtPaxosReplica.handleTimeout
  split
  · exact runSendPropose_eq hi h 0
  · split
    · exact runProbe_eq hi hpick 0
    · rfl

theorem resumeRun_eq (hi : i < n) (h : LogInv n i r) :
    resumeRun n i r = .ok (r.resumeRun n i) := by
  cases hframe : r.runFrame with
  | receiving => simp only [resumeRun, PtPaxosReplica.resumeRun, hframe, pure_eq]
  | replying => simp only [resumeRun, PtPaxosReplica.resumeRun, hframe, pure_eq]
  | probing k =>
      simp only [resumeRun, PtPaxosReplica.resumeRun, hframe, runProbe_eq hi h k, ok_map]
  | proposing k =>
      simp only [resumeRun, PtPaxosReplica.resumeRun, hframe, runSendPropose_eq hi h k, ok_map]

/-! ## propose_and_apply -/

theorem proposeAndApply_eq (hi : i < n) (h : LogInv n i r) (nowUnix : Int) (req : Request) :
    proposeAndApply n i nowUnix req r = .ok (r.proposeAndApply n i nowUnix req) := by
  have hlen : i < r.followerAckSlot.length := h.acks_length.symm ▸ hi
  have happend : appendCall i nowUnix req r = .ok (r.appendCall i nowUnix req) := by
    simp only [appendCall, assign_of_lt hlen, ok_bind, pure_eq, PtPaxosReplica.appendCall]
  unfold proposeAndApply PtPaxosReplica.proposeAndApply
  split
  · rfl
  · rename_i hl
    have hinv := h.appendCall hi (not_not.mp hl) nowUnix req
    simp only [happend, ok_bind, callSendPropose_eq hi hinv]

theorem resumeCall_eq (hi : i < n) (h : LogInv n i r) (c : Nat) :
    resumeCall n i c r = .ok (r.resumeCall n i c) := by
  cases hcall : r.calls[c]? with
  | none => simp only [resumeCall, PtPaxosReplica.resumeCall, hcall, pure_eq]
  | some call =>
      cases hframe : call.frame with
      | sending k =>
          simp only [resumeCall, PtPaxosReplica.resumeCall, hcall, hframe,
            callSendPropose_eq hi h c k, ok_map]
      | waiting => simp only [resumeCall, PtPaxosReplica.resumeCall, hcall, hframe, pure_eq]
      | returned result =>
          simp only [resumeCall, PtPaxosReplica.resumeCall, hcall, hframe, pure_eq]

/-! ## One step -/

/-- What is asked of the messages: slots, values, rounds, ACKs and decided
marks are arbitrary. -/
def Admissible (n i : Nat) (r : PtPaxosReplica) : LocalEvent → Prop
  | .receive msg _ =>
    msg.sender < n ∧ msg.sender ≠ i
      ∧ (msg.type = .propose → r.ackRound < msg.round → r.logBase ≤ proposeEnd msg)
  | _ => True

instance (n i : Nat) (r : PtPaxosReplica) : (ev : LocalEvent) → Decidable (Admissible n i r ev)
  | .receive msg _ => inferInstanceAs (Decidable (msg.sender < n ∧ msg.sender ≠ i
      ∧ (msg.type = .propose → r.ackRound < msg.round → r.logBase ≤ proposeEnd msg)))
  | .timeout _ => .isTrue trivial
  | .propose _ _ => .isTrue trivial
  | .resumeRun => .isTrue trivial
  | .resumeCall _ => .isTrue trivial

variable {ev : LocalEvent}

theorem Admissible.fromOther (h : Admissible n i r ev) : FromOther i ev := by
  cases ev with
  | receive msg now => exact h.2.1
  | _ => trivial

theorem localStep_eq (hi : i < n) (h : LogInv n i r) (hok : Admissible n i r ev) :
    localStep n i r ev = .ok (PtPaxosReplica.localStep n i r ev) := by
  cases ev with
  | receive msg now =>
      obtain ⟨hlt, hne, hend⟩ := hok
      simp only [localStep, PtPaxosReplica.localStep, handleMessage_eq hi h now hlt hne hend,
        ok_map, pure_eq]
      split <;> rfl
  | timeout now =>
      simp only [localStep, PtPaxosReplica.localStep, handleTimeout_eq hi h now, ok_map, pure_eq]
      split <;> rfl
  | propose req nowUnix =>
      simp only [localStep, PtPaxosReplica.localStep, proposeAndApply_eq hi h, ok_map]
  | resumeRun => exact resumeRun_eq hi h
  | resumeCall c => exact resumeCall_eq hi h c

end Strict

/-! ## Runs of one replica -/

/-- The state after a step. -/
def localNext (n i : Nat) (r : PtPaxosReplica) (ev : LocalEvent) : Option PtPaxosReplica :=
  (localStep n i r ev).map Prod.fst

/-- A run of replica `i` by itself, whatever the other replicas send it: it
can be switched away from at every send, and calls and timers interleave with
the messages in any order. -/
abbrev ReplicaRun (n i : Nat) (onApply : Bool) :
    List (PtPaxosReplica × LocalEvent) → PtPaxosReplica → Prop :=
  Runs.Run (localNext n i) (Strict.Admissible n i) (initial n onApply)

/-- The counters of `r` agree with its log, and whatever happens next does
nothing wrong: each step with checked operations is the step without. -/
structure IndexSafe (n i : Nat) (r : PtPaxosReplica) : Prop where
  base_le : r.logBase ≤ r.appliedSlot
  leader : i = r.leaderIndex →
    r.nextSlot = r.logBase + r.log.length ∧ r.followerAckSlot[i]? = some r.nextSlot
  step : ∀ ev, Strict.Admissible n i r ev →
    Strict.localStep n i r ev = .ok (localStep n i r ev)

variable {n i : Nat} {r : PtPaxosReplica}

theorem LogInv.indexSafe (hi : i < n) (h : LogInv n i r) : IndexSafe n i r where
  base_le := h.base_le
  leader hl := by
    have hlen : i < r.followerAckSlot.length := h.acks_length.symm ▸ hi
    have hown := h.own_ack hl
    rw [List.getD_eq_getElem?_getD, List.getElem?_eq_getElem hlen, Option.getD_some] at hown
    rw [List.getElem?_eq_getElem hlen, hown, h.next hl]
    exact ⟨rfl, rfl⟩
  step _ hok := Strict.localStep_eq hi h hok

theorem ReplicaRun.logInv (hi : i < n) {onApply : Bool}
    {tr : List (PtPaxosReplica × LocalEvent)} (hrun : ReplicaRun n i onApply tr r) :
    LogInv n i r := by
  refine hrun.invariant (I := LogInv n i) (initial_logInv hi onApply) ?_
  intro r ev r' h hok hstep
  obtain ⟨x, hx, rfl⟩ := Option.map_eq_some_iff.mp hstep
  exact (localStep_turn hx).logInv hi h hok.fromOther

/-- **Log indexing never leaves the deque.** In every state replica `i` can be
brought to, `log_base_` is at most `applied_slot_`; while the replica leads,
`next_slot_` is the end of the log and its own acknowledged slot; and no
further event reads `log_` or a vector out of range, forms a negative
difference or an iterator beyond the end, pops an empty deque, or pops an
entry at the front that was not applied. -/
theorem log_indexing_safe {n i : Nat} (hi : i < n) {onApply : Bool}
    {tr : List (PtPaxosReplica × LocalEvent)} {r : PtPaxosReplica}
    (hrun : ReplicaRun n i onApply tr r) : IndexSafe n i r :=
  (ReplicaRun.logInv hi hrun).indexSafe hi

/-- Replica 0 leads and appends a value. Both followers acknowledge it, one of
them far beyond the end of the log, and the value is truncated. Then replica 2
deposes it with a PROPOSE behind a gap, before the call has returned. -/
def deposedInCall : List LocalEvent :=
  [.propose (.swarmResume { serial := 1 }) 10, .resumeCall 0,
   .receive { type := .ack, sender := 1, ackSlot := 1 } 20,
   .receive { type := .ack, sender := 2, ackSlot := 7 } 30,
   .receive { type := .propose, sender := 2, slot := 9, values := [{ req := .taskList {} }],
              round := 5, decidedSlot := 40, truncationSlot := 10 } 40,
   .resumeRun, .resumeCall 0]

theorem log_indexing_safe_deposedInCall :
    ∃ r, Runs.exec (localNext 3 0) (initial 3 true) deposedInCall = some r ∧ IndexSafe 3 0 r :=
  have h : (Runs.exec (localNext 3 0) (initial 3 true) deposedInCall).isSome := by decide +kernel
  ⟨_, (Option.some_get h).symm,
    log_indexing_safe (by decide) (Runs.run_of_exec _ h (by decide +kernel))⟩

end PtPaxosReplica

end Tmgr
