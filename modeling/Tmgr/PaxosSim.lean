import Tmgr.PaxosMoves

/-!
# Every run follows one history

`Turn.simulates` puts the moves together: whatever a coroutine does until its
next suspension point, the replicas and the packets in flight go on following
the history. `run_inv` is the induction over the run.
-/

namespace Tmgr

open LogPaxos

namespace PtPaxosReplica

variable {n i : Nat} {h : PaxosHistory} {r : PtPaxosReplica}

/-! ## Elections -/

theorem ReplicaInv.addResponse (hinv : ReplicaInv n h i r) {msg : PaxosMessage}
    (hp : ReportOk n h r.electionRound msg) : ReplicaInv n h i (r.addResponse msg) where
  follows := { hinv.follows with window := { hinv.follows.window with } }
  leads hl := { hinv.leads hl with }
  stands :=
    { opened := fun hne hmod hopen => by
        obtain ⟨hle, hquorum⟩ := hinv.stands.opened hne hmod hopen
        refine ⟨hle, ?_⟩
        intro heq
        have := hquorum heq
        simp only [PtPaxosReplica.addResponse, List.length_append]
        omega
      responses := fun p hmem => by
        rcases List.mem_append.mp hmem with hmem | hmem
        · exact hinv.stands.responses p hmem
        · exact List.mem_singleton.mp hmem ▸ hp }

/-- The election ends: the response of `msg` makes the quorum. -/
theorem elect_simulates (hinv : ReplicaInv n h i r) (hv : h.Valid (majorities n))
    (hwf : Wf n i r) (hi : i < n) (hround : r.electionRound = r.probeRound)
    (hne : r.electionRound ≠ 0) {msg best : PaxosMessage} (hp : ReportOk n h r.electionRound msg)
    (hfew : r.prepareResponses.length < quorum n)
    (hquorum : quorum n ≤ r.prepareResponses.length + 1)
    (hnodup : ((r.prepareResponses ++ [msg]).map (·.sender)).Nodup)
    (hbest : maxElement (r.prepareResponses ++ [msg]) = some best) :
    Simulates n i h (((r.addResponse msg).adopt i best).runSendPropose n i 0) := by
  have hnew : ¬h.Opened r.electionRound := fun hopen => by
    have := (hinv.stands.opened hne (hwf.election_owner hne) hopen).2 rfl
    omega
  have hwf' := hwf.addResponse msg
  obtain ⟨h', hch, hv', hinv'⟩ := (hinv.addResponse hp).adopt hv hwf' hi hround hne hnew
    (by simpa [PtPaxosReplica.addResponse] using hquorum) hnodup hbest
  exact (runSendPropose_simulates hinv' hv' (hwf'.adopt hi rfl hround hne best) hi rfl 0).after hch

theorem runProbe_simulates (hinv : ReplicaInv n h i r) (hv : h.Valid (majorities n))
    (hwf : Wf n i r) (hi : i < n) (hround : r.electionRound = r.probeRound)
    (hne : r.electionRound ≠ 0) (hnil : r.prepareResponses = []) (k : Nat) :
    Simulates n i h (r.runProbe n i k) := by
  unfold runProbe
  split
  · refine (hinv.frames _ _ _ _ _).simulates hv ?_
    intro p hp
    obtain rfl := List.mem_singleton.mp hp
    trivial
  · have hp := prepareMsg_ok hinv hv hi hround.symm
    simp only
    split
    · rename_i hquorum
      obtain ⟨best, hbest⟩ := maxElement_isSome
        (l := r.prepareResponses ++ [r.prepareMsg i r.electionRound]) (by simp)
      have hlen : (r.addResponse (r.prepareMsg i r.electionRound)).prepareResponses
          = r.prepareResponses ++ [r.prepareMsg i r.electionRound] := rfl
      rw [becomeLeader, hlen, hbest]
      refine elect_simulates hinv hv hwf hi hround hne hp ?_ ?_ ?_ hbest
      · rw [hnil]
        exact quorum_pos n
      · simpa [PtPaxosReplica.addResponse] using hquorum
      · simp [hnil]
    · exact (hinv.addResponse hp).simulates hv (by simp)

/-! ## Turns -/

theorem packetOk_of_received {ev : LocalEvent} {msg : PaxosMessage} {now : Nat}
    (hev : ev = .receive msg now) (hok : ∀ p ∈ System.received i ev, PacketOk n h p) :
    PacketOk n h (i, msg) := by
  subst hev
  exact hok _ (List.mem_singleton_self _)

theorem reportOk_of_received {ev : LocalEvent} {msg : PaxosMessage} {now : Nat}
    (hev : ev = .receive msg now) (hok : ∀ p ∈ System.received i ev, PacketOk n h p)
    (htype : msg.type = .prepare) : ReportOk n h msg.round msg := by
  have := packetOk_of_received hev hok
  rwa [PacketOk, htype] at this

/-- Another replica is taken for the leader. -/
theorem ReplicaInv.follow (hinv : ReplicaInv n h i r) {j : Nat} (hj : j ≠ i) (last : Nat) :
    ReplicaInv n h i { r with leaderIndex := j, lastLeaderMsg := last } :=
  { follows := { hinv.follows with window := { hinv.follows.window with } }
    leads := fun hl => absurd hl.symm hj
    stands := { hinv.stands with } }

/-- Every turn is a move of its replica in the history, if a call sends on
only at a leader. `hnodup` says that the responses collected by then come
from different replicas. -/
theorem Turn.simulates {ev : LocalEvent} {x : PtPaxosReplica × List Packet}
    (ht : Turn n i r ev x) (hi : i < n) (hwf : Wf n i r) (hv : h.Valid (majorities n))
    (hinv : ReplicaInv n h i r) (hrec : ∀ p ∈ System.received i ev, PacketWf n p)
    (hok : ∀ p ∈ System.received i ev, PacketOk n h p)
    (hnodup : (x.1.prepareResponses.map (·.sender)).Nodup)
    (hsend : ∀ c, ev = .resumeCall c → ∀ call ∈ r.calls[c]?,
      CallFrame.hasPeer n i call.frame = true → i = r.leaderIndex) :
    Simulates n i h x := by
  cases ht with
  | @ignore msg now hrecv =>
      have hm := sender_ne_of_received rfl hrec
      obtain ⟨h', hch, hv', hinv'⟩ := hinv.stepDown hv now hm.sender_ne
      exact (hinv'.simulates hv' (by simp)).after hch
  | @probe msg now hrecv htype hround =>
      have hm := sender_ne_of_received rfl hrec
      obtain ⟨h', hch, hv', hinv'⟩ := hinv.stepDown hv now hm.sender_ne
      refine ((hinv'.frames _ _ _ _ _).simulates hv' ?_).after hch
      intro p hp
      obtain rfl := List.mem_singleton.mp hp
      exact prepareMsg_ok hinv' hv' hi (stepDown_probeRound hround)
  | @vote msg now hrecv htype hround helection =>
      have hle := hwf.election_le
      have hreport : ReportOk n h r.electionRound msg :=
        helection ▸ reportOk_of_received rfl hok htype
      rw [stepDown_eq (by omega)]
      exact (hinv.addResponse hreport).simulates hv (by simp)
  | @elect msg best now hrecv htype hround helection hquorum hbest =>
      have hm := sender_ne_of_received rfl hrec
      have hle := hwf.election_le
      have hreport : ReportOk n h r.electionRound msg :=
        helection ▸ reportOk_of_received rfl hok htype
      have hnodup' : ((r.prepareResponses ++ [msg]).map (·.sender)).Nodup := by
        have hsame := (runSendPropose_election n i 0
          (((r.stepDown now msg).addResponse msg).adopt i best)).2.1
        rw [hsame, (adopt_election i best _).2, stepDown_eq (by omega)] at hnodup
        exact hnodup
      rw [stepDown_eq (by omega)]
      exact elect_simulates hinv hv hwf hi (by omega)
        (helection ▸ (hm.prepare htype).1) hreport (by omega) hquorum.ge hnodup' hbest
  | @ack msg now hrecv htype hround hleader =>
      have hm := sender_ne_of_received rfl hrec
      obtain ⟨h', hch, hv', hinv'⟩ := hinv.stepDown hv now hm.sender_ne
      have hwf' := hwf.stepDown now hm.sender_ne hrecv
      have hrecord := hinv'.recordAck hv' hwf' hi hleader msg fun htype => by
        have := (packetOk_of_received rfl hok).mono hv hch.le
        rwa [PacketOk, htype] at this
      exact ((hrecord.applyDecided (hwf'.recordAck hm.sender_ne) hi).simulates hv'
        (by simp)).after hch
  | @stale msg now hrecv htype hround hfollower hstale =>
      have hm := sender_ne_of_received rfl hrec
      obtain ⟨h', hch, hv', hinv'⟩ := hinv.stepDown hv now hm.sender_ne
      have hfollow := hinv'.follow hm.sender_ne now
      refine ((hfollow.frames .replying _ _ _ _).simulates hv' ?_).after hch
      intro p hp
      obtain rfl := List.mem_singleton.mp hp
      refine ackMsg_ok hfollow ?_
      have hsame : msg.round = (r.stepDown now msg).ackRound := by
        simp only [staleProposal, Bool.and_eq_true, beq_iff_eq] at hstale
        exact hstale.1
      exact hsame.symm.trans (stepDown_probeRound hround).symm
  | @accept msg now hrecv htype hround hfollower hfresh =>
      have hm := sender_ne_of_received rfl hrec
      obtain ⟨h', hch, hv', hinv'⟩ := hinv.stepDown hv now hm.sender_ne
      have hfollow : ReplicaInv n h' i { r.stepDown now msg with leaderIndex := msg.sender } :=
        hinv'.follow hm.sender_ne (r.stepDown now msg).lastLeaderMsg
      have hwf' : Wf n i { r.stepDown now msg with leaderIndex := msg.sender } :=
        (hwf.stepDown now hm.sender_ne hrecv).follow
          ((stepDown_runFrame now msg r).trans hrecv) hm.sender_ne
      have hpropose : ProposeOk n h' i msg := by
        have := (packetOk_of_received rfl hok).mono hv hch.le
        rwa [PacketOk, htype] at this
      exact (acceptPropose_simulates hfollow hv' hwf' hi hm.sender_ne.symm hpropose
        (stepDown_probeRound hround) hfresh now).after hch
  | quiet => exact hinv.simulates hv (by simp)
  | retransmit hrecv hleader => exact runSendPropose_simulates hinv hv hwf hi hleader 0
  | start hrecv hfollower =>
      obtain ⟨h', hch, hv', hinv'⟩ := hinv.pickRound hv hi hwf hfollower
      exact (runProbe_simulates hinv' hv' (hwf.pickRound hi hrecv hfollower) hi rfl
        (Nat.ne_of_gt (Nat.zero_lt_of_lt (lt_pickRound hi r))) rfl 0).after hch
  | refuse => exact (hinv.frames _ _ _ _ _).simulates hv (by simp)
  | @append req nowUnix hleader =>
      obtain ⟨h', hch, hv', hinv'⟩ := hinv.appendCall hv hwf hi hleader nowUnix req
      exact (callSendPropose_simulates hinv' hv' (hwf.appendCall hi hleader nowUnix req) hi
        fun _ => hleader).after hch
  | replied => exact (hinv.frames _ _ _ _ _).simulates hv (by simp)
  | probing hframe =>
      obtain ⟨-, hround, hne, hnil⟩ := hwf.probing hframe
      exact runProbe_simulates hinv hv hwf hi hround hne hnil _
  | proposing hframe => exact runSendPropose_simulates hinv hv hwf hi (hwf.proposing hframe) _
  | @sending c k call hcall hframe =>
      refine callSendPropose_simulates hinv hv hwf hi fun hpeer => hsend c rfl call hcall ?_
      rw [hframe]
      exact hpeer
  | finish =>
      exact (finishCall_induct (P := ReplicaInv n h i) hinv
        (fun _ _ => hinv.frames _ _ _ _ _) _).simulates hv (by simp)

end PtPaxosReplica

namespace System

open PtPaxosReplica

/-! ## Runs -/

/-- The group follows the history `h`. -/
structure Inv (n : Nat) (h : PaxosHistory) (s : System) : Prop where
  votes : s.GroupVotes n
  valid : h.Valid (majorities n)
  replicas : ∀ i < n, ReplicaInv n h i (s.replicas i)
  packets : ∀ p ∈ s.network, PacketOk n h p

theorem initial_inv (n : Nat) (onApply : Nat → Bool) :
    Inv n (History.start Nat DecidedValue) (initial n onApply) where
  votes := initial_groupVotes n onApply
  valid := History.start_valid _
  replicas i hi := by
    have hall : ∀ j, (History.start Nat DecidedValue).Accepted j 0 0 := fun j => ⟨0, rfl, le_rfl⟩
    have hsettled : (History.start Nat DecidedValue).Settled (majorities n) 0 0 :=
      ⟨0, le_rfl, fun j _ => hall j⟩
    have hlead : Leads n (History.start Nat DecidedValue)
        (PtPaxosReplica.initial n (onApply i)) :=
      ⟨rfl, rfl, fun j hj => .inl (by
        have hzero : (PtPaxosReplica.initial n (onApply i)).followerAckSlot.getD j 0 = 0 := by
          simp [PtPaxosReplica.initial, hj]
        rw [hzero]
        exact hall j)⟩
    have hlen : (PtPaxosReplica.initial n (onApply i)).followerAckSlot.length = n := by
      simp [PtPaxosReplica.initial]
    refine ⟨?_, fun _ => hlead, ⟨fun hne _ ho => ?_, by simp [initial, PtPaxosReplica.initial]⟩⟩
    · exact
        { promised := rfl
          accepted := rfl
          last := fun q hq => by
            simp [History.start, Nat.ne_of_gt (Nat.zero_lt_of_lt hq)]
          window := ⟨rfl, le_rfl, rfl, rfl⟩
          base := hsettled
          decided := hsettled.committed (majorities_members hi)
          decided_le := le_rfl
          applied_le := le_rfl
          acks := committed_rank hi hlen hlead.reached
          acks_le := hlead.rank_le hi (History.start_valid _) ⟨[], rfl⟩ hlen
          adoptions := by simp [initial, PtPaxosReplica.initial] }
    · obtain ⟨A, hA⟩ := ho
      simp [History.start, hne] at hA
  packets := by simp [initial]

theorem Inv.step {n : Nat} {h : PaxosHistory} {s s' : System} {e : Event} (hinv : Inv n h s)
    (hsend : s.leaderSends n e) (hstep : s.step n e = some s') : ∃ h', h ≤ h' ∧ Inv n h' s' := by
  have hvotes' := hinv.votes.step hstep
  obtain ⟨hP, hM⟩ := hinv.votes.1
  rcases step_cases hstep with ⟨k, p, -, hperm, hsame⟩ | ⟨i, ev, rest, x, hi, htarget, hlocal,
    rfl⟩
  · refine ⟨h, le_rfl, hvotes', hinv.valid, fun i hi => hsame ▸ hinv.replicas i hi, ?_⟩
    intro q hq
    exact hinv.packets q (hperm.mem_iff.mpr (List.mem_cons_of_mem _ hq))
  · have hmem : ∀ p ∈ received i ev ++ rest, p ∈ s.network := fun p hp =>
      (target_perm htarget).mem_iff.mpr hp
    obtain ⟨h', hch, hv', hinv', hout⟩ := (localStep_turn hlocal).simulates hi (hP i hi)
      hinv.valid (hinv.replicas i hi) (fun p hp => hM p (hmem p (List.mem_append_left _ hp)))
      (fun p hp => hinv.packets p (hmem p (List.mem_append_left _ hp)))
      (by simpa using (hvotes'.2 i hi).senders_nodup) (fun c hev call hcall hpeer => by
        subst hev
        obtain rfl := target_resumeCall htarget
        exact hsend call hcall hpeer)
    refine ⟨h', hch.le, hvotes', hv', ?_, ?_⟩
    · intro j hj
      by_cases hji : j = i
      · subst hji
        simpa using hinv'
      · simpa [hji] using (hinv.replicas j hj).mono hinv.valid (hP j hj) hch hji
    · intro q hq
      rcases List.mem_append.mp hq with hq | hq
      · exact (hinv.packets q (hmem q (List.mem_append_right _ hq))).mono hinv.valid hch.le
      · exact hout q hq

/-- A run in which calls send on only at a leader follows one history: the
states it left followed it too, as far as it had got. -/
theorem run_inv {n : Nat} {onApply : Nat → Bool} {tr : List (System × Event)} {s : System}
    (hrun : PaxosRun n onApply (fun s e => s.leaderSends n e) tr s) :
    ∃ h, Inv n h s ∧ ∀ p ∈ tr, ∃ h' ≤ h, Inv n h' p.1 :=
  hrun.ghost (initial_inv n onApply) fun hinv hok hstep => hinv.step hok hstep

end System

end Tmgr
