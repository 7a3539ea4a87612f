import Tmgr.Rendezvous

/-!
# A follower's ACK is honest

The leader counts an ACK toward the quorum up to the slot it carries. The
handler of a PROPOSE overwrites, appends, resets its log over a gap, cuts it
at the back in a new round, applies and truncates at the front. `Installed`
says what all of this amounts to for the log; each step keeps it. A PROPOSE
that is ignored leaves the replica as it was, and its ACK carries the old end.
-/

namespace Tmgr

namespace PtPaxosReplica

variable {n i : Nat} {r r' r'' : PtPaxosReplica} {msg : PaxosMessage}

/-- The log of `r'` is that of `r` after the PROPOSE: it ends where the
PROPOSE ends, holds its values, and below it what `r` held. -/
structure Installed (msg : PaxosMessage) (r r' : PtPaxosReplica) : Prop where
  end_eq : r'.logEnd = proposeEnd msg
  values : ∀ s, max msg.slot r'.logBase ≤ s → s < proposeEnd msg →
    r'.log[s - r'.logBase]? = msg.values[s - msg.slot]?
  kept : msg.slot ≤ r.logEnd → ∀ s, r'.logBase ≤ s → s < msg.slot →
    r'.log[s - r'.logBase]? = r.log[s - r.logBase]?

/-- `Installed` is about the log alone. -/
theorem Installed.congr (h : Installed msg r r') (hlog : r''.log = r'.log)
    (hbase : r''.logBase = r'.logBase) : Installed msg r r'' := by
  obtain ⟨hend, hvalues, hkept⟩ := h
  simp only [logEnd, ← hlog, ← hbase] at hend hvalues hkept
  exact ⟨hend, hvalues, hkept⟩

/-- A gap: the log is the PROPOSE. -/
theorem install_log_of_gap (hgap : r.logEnd < msg.slot) :
    (r.install msg).log = msg.values ∧ (r.install msg).logBase = msg.slot := by
  have hgap' : msg.slot > logEnd { r with ackRound := msg.round } := hgap
  have hwrite : writeValues msg.slot msg.slot msg.values [] = msg.values := by
    rw [writeValues_eq msg.values [] (Nat.le_add_right _ _)]
    simp
  simp only [PtPaxosReplica.install, if_pos hgap', hwrite]
  split
  · exact ⟨List.take_of_length_le (by simp [proposeEnd]), rfl⟩
  · exact ⟨rfl, rfl⟩

theorem installed_install (hround : r.ackRound ≤ msg.round)
    (hbase : r.logBase ≤ proposeEnd msg) (hfresh : r.staleProposal msg = false) :
    Installed msg r (r.install msg) := by
  have hfresh' : msg.round = r.ackRound → r.logEnd ≤ proposeEnd msg := by
    intro heq
    simpa [staleProposal, heq] using hfresh
  rcases Nat.lt_or_ge r.logEnd msg.slot with hgap | hgap
  · obtain ⟨hlog, hslot⟩ := install_log_of_gap hgap
    refine ⟨?_, ?_, fun hin => absurd hgap (Nat.not_lt.mpr hin)⟩
    · rw [logEnd, hlog, hslot, proposeEnd]
    · intro s _ _
      rw [hlog, hslot]
  · obtain ⟨-, hslot, hentry⟩ := install_of_no_gap hgap
    refine ⟨?_, ?_, ?_⟩
    · rw [install_eq hgap hbase hround hfresh']
      simp only [logEnd, proposeEnd, List.length_append, List.length_take,
        List.length_drop] at hgap hbase ⊢
      omega
    · intro s hs hlt
      rw [hslot] at hs ⊢
      rw [hentry ((le_max_right _ _).trans hs) hlt, if_pos ((le_max_left _ _).trans hs)]
    · intro _ s hs hlt
      rw [hslot] at hs ⊢
      rw [hentry hs (hlt.trans_le (Nat.le_add_right _ _)), if_neg (Nat.not_le.mpr hlt)]

/-- The truncation at the front only forgets. -/
theorem Installed.truncateFollower (h : Installed msg r r') (t : Nat) :
    Installed msg r (r'.truncateFollower t) := by
  obtain ⟨hend, hvalues, hkept⟩ := h
  have hget : ∀ s, (r'.truncateFollower t).logBase ≤ s →
      r'.logBase ≤ s ∧ (r'.truncateFollower t).log[s - (r'.truncateFollower t).logBase]?
        = r'.log[s - r'.logBase]? := by
    intro s hs
    simp only [PtPaxosReplica.truncateFollower, List.getElem?_drop] at hs ⊢
    refine ⟨by omega, ?_⟩
    congr 1
    omega
  refine ⟨(truncateFollower_logEnd t r').trans hend, ?_, ?_⟩
  · intro s hs hlt
    obtain ⟨hle, heq⟩ := hget s ((le_max_right _ _).trans hs)
    rw [heq]
    exact hvalues s (max_le ((le_max_left _ _).trans hs) hle) hlt
  · intro hin s hs hlt
    obtain ⟨hle, heq⟩ := hget s hs
    rw [heq]
    exact hkept hin s hle hlt

/-- A follower's `apply_decided` leaves the log alone. -/
theorem applyDecided_log_of_follower (hfollower : i ≠ r.leaderIndex) :
    (r.applyDecided n i).log = r.log ∧ (r.applyDecided n i).logBase = r.logBase := by
  have hne : i ≠ (r.tryDecide n).applyLoop.leaderIndex := by
    rw [applyLoop_leaderIndex]
    exact hfollower
  simp only [applyDecided, if_neg hne, applyLoop_log, applyLoop_logBase]
  exact ⟨rfl, rfl⟩

theorem installed_acceptPropose (hfollower : i ≠ r.leaderIndex)
    (hround : r.ackRound ≤ msg.round) (hbase : r.logBase ≤ proposeEnd msg)
    (hfresh : r.staleProposal msg = false) (now : Nat) :
    Installed msg r (r.acceptPropose n i now msg) := by
  have hleader : (r.install msg).leaderIndex = r.leaderIndex :=
    install_same (f := (·.leaderIndex)) (fun _ _ _ _ _ => rfl) msg r
  refine Installed.truncateFollower ?_ msg.truncationSlot
  obtain ⟨hlog, hlogBase⟩ := applyDecided_log_of_follower (n := n) (i := i)
    (r := { r.install msg with
      decidedSlot := max (r.install msg).decidedSlot msg.decidedSlot, lastLeaderMsg := now })
    (hleader.symm ▸ hfollower)
  exact (installed_install hround hbase hfresh).congr hlog hlogBase

theorem acceptPropose_ackRound (now : Nat) :
    (r.acceptPropose n i now msg).ackRound = msg.round := by
  have hinstall : (r.install msg).ackRound = msg.round := by
    simp only [PtPaxosReplica.install]
    split <;> split <;> rfl
  simp only [acceptPropose, truncateFollower, applyDecided_ackRound, hinstall]

/-- **A follower's ACK is honest.** The PROPOSE of the round the follower
stands in is answered by one ACK. If it is not the ignored one, the log then
ends where the PROPOSE ends, has its values and keeps what is below them; if
it is, log, rounds, decided slot and database are as before. Either way the
ACK carries the end of the log. -/
theorem follower_ack_honest {sent : List Packet} (now : Nat)
    (hstep : localStep n i r (.receive msg now) = some (r', sent))
    (htype : msg.type = .propose) (hfollower : i ≠ r.leaderIndex) (hsender : msg.sender ≠ i)
    (hround : msg.round = r.probeRound) (hack : r.ackRound ≤ r.probeRound)
    (hend : r.logBase ≤ proposeEnd msg) :
    sent = [(msg.sender, r'.ackMsg i)]
    ∧ (r.staleProposal msg = false →
        (r'.ackMsg i).ackSlot = proposeEnd msg ∧ r'.logEnd = proposeEnd msg
        ∧ r'.ackRound = msg.round
        ∧ (∀ s, max msg.slot r'.logBase ≤ s → s < proposeEnd msg →
            r'.log[s - r'.logBase]? = msg.values[s - msg.slot]?)
        ∧ (msg.slot ≤ r.logEnd → ∀ s, r'.logBase ≤ s → s < msg.slot →
            r'.log[s - r'.logBase]? = r.log[s - r.logBase]?))
    ∧ (r.staleProposal msg = true →
        (r'.ackMsg i).ackSlot = r.logEnd ∧ r'.log = r.log ∧ r'.logBase = r.logBase
        ∧ r'.probeRound = r.probeRound ∧ r'.ackRound = r.ackRound
        ∧ r'.electionRound = r.electionRound ∧ r'.decidedSlot = r.decidedSlot
        ∧ r'.db = r.db) := by
  have hrecv : r.runFrame = .receiving := by
    by_contra hne
    simp [localStep, hne] at hstep
  have hmsg : r.handleMessage n i now msg = r.handlePropose n i now msg := by
    have hdown : r.stepDown now msg = r := stepDown_eq hround.le
    simp [handleMessage, hdown, hround, htype, hfollower]
  rw [localStep, if_pos hrecv, hmsg] at hstep
  have hstep' := Option.some.inj hstep
  have hsame : staleProposal msg { r with leaderIndex := msg.sender } = r.staleProposal msg := rfl
  cases hs : r.staleProposal msg with
  | true =>
      simp only [handlePropose, hsame, hs, if_true, reply, Prod.mk.injEq] at hstep'
      obtain ⟨rfl, rfl⟩ := hstep'
      exact ⟨rfl, by simp, fun _ => ⟨rfl, rfl, rfl, rfl, rfl, rfl, rfl, rfl⟩⟩
  | false =>
      simp only [handlePropose, hsame, hs, Bool.false_eq_true, if_false, reply,
        Prod.mk.injEq] at hstep'
      obtain ⟨rfl, rfl⟩ := hstep'
      obtain ⟨hlogEnd, hvalues, hkept⟩ :=
        installed_acceptPropose (n := n) (i := i) (r := { r with leaderIndex := msg.sender })
          hsender.symm (hround ▸ hack) hend hs now
      exact ⟨rfl, fun _ => ⟨hlogEnd, hlogEnd, acceptPropose_ackRound now, hvalues, hkept⟩,
        by simp⟩

/-- A follower that holds two values of an older round. -/
def behindRound : PtPaxosReplica :=
  { initial 3 false with
    log := [{ req := .taskCreate {} }, { req := .taskClaim {} }], probeRound := 4 }

/-- The new leader's log, one value long. -/
def shorterLog : PaxosMessage :=
  { type := .propose, sender := 2, values := [{ req := .taskList {} }], round := 4 }

theorem follower_ack_honest_shorterLog :
    ∃ r' sent, localStep 3 1 behindRound (.receive shorterLog 0) = some (r', sent)
      ∧ (r'.ackMsg 1).ackSlot = 1 ∧ r'.logEnd = 1 :=
  have h := (follower_ack_honest (n := 3) (i := 1) (r := behindRound) 0
    (show localStep 3 1 behindRound (.receive shorterLog 0) = some (_, _) from rfl)
    rfl (by decide) (by decide) rfl (by decide) (by decide)).2.1 rfl
  ⟨_, _, rfl, h.1, h.2.1⟩

end PtPaxosReplica

end Tmgr
