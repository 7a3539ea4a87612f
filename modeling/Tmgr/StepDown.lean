import Tmgr.PaxosSchedule

/-!
# Stepping down

Who sends PROPOSE, and in which round. A call may be suspended in
`send_propose` when its replica steps down; if the call goes on before the
replica is the leader again, the rest of the loop goes out under the round that
made it step down. `step_down_complete` says that this is the only way: in a
run in which calls send on only at leaders, wherever in the loop the replica
steps down, it is silent until it becomes the leader again, and every PROPOSE
belongs to its sender's own round.
-/

namespace Tmgr

namespace PtPaxosReplica

variable {n i : Nat} {r : PtPaxosReplica} {ev : LocalEvent} {x : PtPaxosReplica × List Packet}

/-! ## Where proposals come from -/

theorem runSendPropose_probeRound (n i k : Nat) (r : PtPaxosReplica) :
    (r.runSendPropose n i k).1.probeRound = r.probeRound :=
  runSendPropose_same (f := (·.probeRound)) n i k (applyDecided_probeRound n i) (fun _ _ => rfl) r

theorem runSendPropose_out {n i k : Nat} {r : PtPaxosReplica} {p : Packet}
    (hp : p ∈ (r.runSendPropose n i k).2) : p.2.sender = i ∧ p.2.round = r.probeRound := by
  unfold runSendPropose at hp
  split at hp
  · obtain rfl := List.mem_singleton.mp hp
    exact ⟨rfl, rfl⟩
  · cases hp

theorem callSendPropose_probeRound (n i c k : Nat) (r : PtPaxosReplica) :
    (r.callSendPropose n i c k).1.probeRound = r.probeRound :=
  callSendPropose_same (f := (·.probeRound)) n i c k (applyDecided_probeRound n i)
    (fun _ _ _ => rfl) r

theorem callSendPropose_out {n i c k : Nat} {r : PtPaxosReplica} {p : Packet}
    (hp : p ∈ (r.callSendPropose n i c k).2) :
    (nextPeer n i k).isSome ∧ p.2.sender = i ∧ p.2.round = r.probeRound := by
  unfold callSendPropose at hp
  split at hp
  · rename_i j hj
    obtain rfl := List.mem_singleton.mp hp
    exact ⟨by simp [hj], rfl, rfl⟩
  · cases hp

/-- The packets of `start_election` are PROBEs, unless it ends in an
election. -/
theorem runProbe_out {n i k : Nat} {r : PtPaxosReplica} {p : Packet}
    (hp : p ∈ (r.runProbe n i k).2) (htype : p.2.type = .propose) :
    p.2.sender = i ∧ p.2.round = (r.runProbe n i k).1.probeRound
      ∧ i = (r.runProbe n i k).1.leaderIndex := by
  cases hpeer : nextPeer n i k with
  | some j =>
      simp only [runProbe, hpeer] at hp
      obtain rfl := List.mem_singleton.mp hp
      cases htype
  | none =>
      simp only [runProbe, hpeer] at hp ⊢
      split at hp
      · rename_i hquorum
        rw [if_pos hquorum]
        cases hbest : maxElement (r.addResponse
            (r.prepareMsg i r.electionRound)).prepareResponses with
        | none => simp [becomeLeader, hbest] at hp
        | some best =>
            simp only [becomeLeader, hbest] at hp ⊢
            rw [runSendPropose_leaderIndex, runSendPropose_probeRound]
            exact ⟨(runSendPropose_out hp).1, (runSendPropose_out hp).2, rfl⟩
      · cases hp

/-- A PROPOSE carries its sender's round and comes from a leader, if calls
send on only at a leader. -/
theorem Turn.propose (ht : Turn n i r ev x) (hwf : Wf n i r)
    (hsend : ∀ c, ev = .resumeCall c → ∀ call ∈ r.calls[c]?,
      CallFrame.hasPeer n i call.frame = true → i = r.leaderIndex)
    {p : Packet} (hp : p ∈ x.2) (htype : p.2.type = .propose) :
    p.2.sender = i ∧ p.2.round = x.1.probeRound ∧ i = x.1.leaderIndex := by
  have hrun : ∀ {r : PtPaxosReplica} {k : Nat}, i = r.leaderIndex →
      p ∈ (r.runSendPropose n i k).2 →
      p.2.sender = i ∧ p.2.round = (r.runSendPropose n i k).1.probeRound
        ∧ i = (r.runSendPropose n i k).1.leaderIndex := by
    intro r k hl hp
    rw [runSendPropose_leaderIndex, runSendPropose_probeRound]
    exact ⟨(runSendPropose_out hp).1, (runSendPropose_out hp).2, hl⟩
  have hcall : ∀ {r : PtPaxosReplica} {c k : Nat}, i = r.leaderIndex →
      p ∈ (r.callSendPropose n i c k).2 →
      p.2.sender = i ∧ p.2.round = (r.callSendPropose n i c k).1.probeRound
        ∧ i = (r.callSendPropose n i c k).1.leaderIndex := by
    intro r c k hl hp
    rw [callSendPropose_leaderIndex, callSendPropose_probeRound]
    exact ⟨(callSendPropose_out hp).2.1, (callSendPropose_out hp).2.2, hl⟩
  cases ht with
  | probe =>
      obtain rfl := List.mem_singleton.mp hp
      cases htype
  | elect => exact hrun rfl hp
  | stale =>
      obtain rfl := List.mem_singleton.mp hp
      cases htype
  | accept =>
      obtain rfl := List.mem_singleton.mp hp
      cases htype
  | retransmit hrecv hleader => exact hrun hleader hp
  | start => exact runProbe_out hp htype
  | append hleader => exact hcall hleader hp
  | probing => exact runProbe_out hp htype
  | proposing hframe => exact hrun (hwf.proposing hframe) hp
  | @sending c k call hc hframe =>
      refine hcall (hsend c rfl call hc ?_) hp
      rw [hframe, CallFrame.hasPeer]
      exact (callSendPropose_out hp).1
  | _ => cases hp

/-! ## Where leadership comes from -/

theorem runSendPropose_adoptions (n i k : Nat) (r : PtPaxosReplica) :
    (r.runSendPropose n i k).1.adoptions = r.adoptions :=
  runSendPropose_same (f := (·.adoptions)) n i k (applyDecided_adoptions n i) (fun _ _ => rfl) r

theorem callSendPropose_adoptions (n i c k : Nat) (r : PtPaxosReplica) :
    (r.callSendPropose n i c k).1.adoptions = r.adoptions :=
  callSendPropose_same (f := (·.adoptions)) n i c k (applyDecided_adoptions n i)
    (fun _ _ _ => rfl) r

theorem adopt_adoptions_length (i : Nat) (best : PaxosMessage) (r : PtPaxosReplica) :
    (r.adopt i best).adoptions.length = r.adoptions.length + 1 := by
  have : (r.catchUp best).adoptions = r.adoptions :=
    catchUp_same (f := (·.adoptions)) (fun _ _ => rfl) best r
  simp [adopt, this]

theorem runProbe_adoptions (n i k : Nat) (r : PtPaxosReplica) :
    (r.runProbe n i k).1.adoptions.length = r.adoptions.length + 1
    ∨ (r.runProbe n i k).1.adoptions = r.adoptions
      ∧ (r.runProbe n i k).1.leaderIndex = r.leaderIndex := by
  refine runProbe_induct (P := fun r' => r'.adoptions.length = r.adoptions.length + 1
    ∨ r'.adoptions = r.adoptions ∧ r'.leaderIndex = r.leaderIndex)
    (fun _ _ => .inr ⟨rfl, rfl⟩) ?_ k
  intro best _
  left
  rw [runSendPropose_adoptions, adopt_adoptions_length]
  rfl

theorem acceptPropose_leaderIndex (n i now : Nat) (msg : PaxosMessage) (r : PtPaxosReplica) :
    (r.acceptPropose n i now msg).leaderIndex = r.leaderIndex :=
  acceptPropose_same (f := (·.leaderIndex)) n i (fun _ _ => rfl) (fun _ _ _ _ _ _ _ => rfl)
    now msg r

/-- A turn adopts a log, or it leaves the replica no more of a leader than it
was. -/
theorem Turn.leader (ht : Turn n i r ev x)
    (hrec : ∀ p ∈ System.received i ev, PacketWf n p) :
    x.1.adoptions.length = r.adoptions.length + 1
    ∨ x.1.adoptions = r.adoptions ∧ (i = x.1.leaderIndex → i = r.leaderIndex) := by
  have hdown : ∀ msg now, ev = .receive msg now →
      (r.stepDown now msg).adoptions = r.adoptions
        ∧ (i = (r.stepDown now msg).leaderIndex → i = r.leaderIndex) := by
    intro msg now hev
    have hm := sender_ne_of_received hev hrec
    refine ⟨stepDown_adoptions now msg r, ?_⟩
    unfold stepDown
    split
    · exact fun h => absurd h.symm hm.sender_ne
    · exact id
  cases ht with
  | ignore => exact .inr (hdown _ _ rfl)
  | probe => exact .inr (hdown _ _ rfl)
  | vote => exact .inr (hdown _ _ rfl)
  | @elect msg best now =>
      left
      rw [runSendPropose_adoptions, adopt_adoptions_length]
      exact congrArg (·.length + 1) (hdown msg now rfl).1
  | @ack msg now hrecv htype hround hleader =>
      right
      rw [handleAck, applyDecided_leaderIndex, applyDecided_adoptions,
        recordAck_same (f := (·.leaderIndex)) (fun _ _ => rfl),
        recordAck_same (f := (·.adoptions)) (fun _ _ => rfl)]
      exact hdown msg now rfl
  | @stale msg now =>
      have hm := sender_ne_of_received rfl hrec
      exact .inr ⟨(hdown msg now rfl).1, fun h => absurd h.symm hm.sender_ne⟩
  | @accept msg now =>
      have hm := sender_ne_of_received rfl hrec
      right
      refine ⟨(acceptPropose_same (f := (·.adoptions)) n i (fun _ _ => rfl)
        (fun _ _ _ _ _ _ _ => rfl) now msg _).trans (hdown msg now rfl).1, ?_⟩
      intro hl
      exact absurd (hl.trans (acceptPropose_leaderIndex n i now msg _)).symm hm.sender_ne
  | quiet => exact .inr ⟨rfl, id⟩
  | retransmit =>
      right
      rw [runSendPropose_adoptions, runSendPropose_leaderIndex]
      exact ⟨rfl, id⟩
  | start =>
      rcases runProbe_adoptions n i 0 (r.pickRound n i) with h | ⟨h, hl⟩
      · exact .inl h
      · exact .inr ⟨h, fun hx => hx.trans hl⟩
  | refuse => exact .inr ⟨rfl, id⟩
  | append hleader =>
      right
      rw [callSendPropose_adoptions, callSendPropose_leaderIndex]
      exact ⟨rfl, id⟩
  | replied => exact .inr ⟨rfl, id⟩
  | probing =>
      rcases runProbe_adoptions n i _ r with h | ⟨h, hl⟩
      · exact .inl h
      · exact .inr ⟨h, fun hx => hx.trans hl⟩
  | proposing =>
      right
      rw [runSendPropose_adoptions, runSendPropose_leaderIndex]
      exact ⟨rfl, id⟩
  | sending =>
      right
      rw [callSendPropose_adoptions, callSendPropose_leaderIndex]
      exact ⟨rfl, id⟩
  | finish =>
      exact .inr ⟨finishCall_induct (P := fun r' => r'.adoptions = r.adoptions) rfl
        (fun _ _ => rfl) _, fun h => h.trans (finishCall_induct
          (P := fun r' => r'.leaderIndex = r.leaderIndex) rfl (fun _ _ => rfl) _)⟩

/-- The message that makes a replica step down does not make it the leader. -/
theorem Turn.stepsDown {msg : PaxosMessage} {now : Nat} (ht : Turn n i r (.receive msg now) x)
    (hwf : Wf n i r) (hm : PacketWf n (i, msg)) (hround : r.probeRound < msg.round) :
    i ≠ x.1.leaderIndex := by
  have hne : i ≠ (r.stepDown now msg).leaderIndex := by
    unfold stepDown
    rw [if_pos hround]
    exact hm.sender_ne.symm
  cases ht with
  | ignore => exact hne
  | probe => exact hne
  | vote => exact hne
  | elect hrecv htype hr helection =>
      -- its own election is for a round it has already seen
      have := hwf.election_le
      omega
  | ack hrecv htype hr hleader => exact absurd hleader hne
  | stale => exact hm.sender_ne.symm
  | accept =>
      exact fun hl => hm.sender_ne (hl.trans (acceptPropose_leaderIndex n i now msg _)).symm

end PtPaxosReplica

/-! ## Runs -/

namespace System

open PtPaxosReplica

/-- Replica `i` puts a PROPOSE on the network. -/
def Proposes (n : Nat) (s : System) (e : Event) (i : Nat) : Prop :=
  ∃ q ∈ s.sent n e, q.2.type = .propose ∧ q.2.sender = i

/-- Replica `i` adopts a log in `become_leader`. -/
def BecomesLeader (n : Nat) (s : System) (e : Event) (i : Nat) : Prop :=
  ∃ s', s.step n e = some s'
    ∧ (s'.replicas i).adoptions.length = (s.replicas i).adoptions.length + 1

/-- Stepping down is complete in the run that left the trace `tr`. -/
structure StepDownComplete (n : Nat) (tr : List (System × Event)) : Prop where
  silent : ∀ {tr₁ a tr₂ b tr₃ i}, tr = tr₁ ++ a :: (tr₂ ++ b :: tr₃) → StepsDown a.1 a.2 i →
    Proposes n b.1 b.2 i → ∃ c ∈ tr₂ ++ [b], BecomesLeader n c.1 c.2 i
  owner : ∀ p ∈ tr, ∀ q ∈ p.1.sent n p.2, q.2.type = .propose → q.2.round % n = q.2.sender
  unique : ∀ p ∈ tr, ∀ p' ∈ tr, ∀ q ∈ p.1.sent n p.2, ∀ q' ∈ p'.1.sent n p'.2,
    q.2.type = .propose → q'.2.type = .propose → q.2.round = q'.2.round →
    q.2.sender = q'.2.sender

variable {n : Nat} {s s' : System} {e : Event}

/-- The packets of a step are those of a replica's turn. -/
theorem sent_turn {q : Packet} (hstep : s.step n e = some s') (hq : q ∈ s.sent n e) :
    ∃ i ev rest x, i < n ∧ s.target e = some (i, ev, rest)
      ∧ localStep n i (s.replicas i) ev = some x ∧ s'.replicas i = x.1 ∧ q ∈ x.2 := by
  unfold sent at hq
  rcases step_cases hstep with ⟨k, p, rfl, -⟩ | ⟨i, ev, rest, x, hi, htarget, hlocal, rfl⟩
  · simp [target] at hq
  · simp only [htarget, hlocal, Option.map_some, Option.getD_some] at hq
    exact ⟨i, ev, rest, x, hi, htarget, hlocal, by simp, hq⟩

/-- A PROPOSE comes from a leader and carries a round of its own. -/
theorem sent_propose (hwf : s.GroupWf n) (hstep : s.step n e = some s')
    (hsend : s.leaderSends n e) {q : Packet} (hq : q ∈ s.sent n e) (htype : q.2.type = .propose) :
    q.2.round % n = q.2.sender ∧ q.2.sender < n
      ∧ q.2.sender = (s'.replicas q.2.sender).leaderIndex := by
  obtain ⟨i, ev, rest, x, hi, htarget, hlocal, hx, hq⟩ := sent_turn hstep hq
  have ht := localStep_turn hlocal
  have hrec : ∀ p ∈ received i ev, PacketWf n p := fun p hp =>
    hwf.2 p ((target_perm htarget).mem_iff.mpr (List.mem_append_left _ hp))
  obtain ⟨hs, hround, hl⟩ := ht.propose (hwf.1 i hi) (fun c hev call hcall hpeer => by
    subst hev
    obtain rfl := target_resumeCall htarget
    exact hsend call hcall hpeer) hq htype
  rw [hs, hx, hround]
  exact ⟨(ht.wf hi (hwf.1 i hi) hrec).1.leader_round hl, hi, hl⟩

/-- One step of a replica that is not the leader. -/
theorem becomesLeader_or_follower (hwf : s.GroupWf n) (hstep : s.step n e = some s') {i : Nat}
    (hne : i ≠ (s.replicas i).leaderIndex) :
    BecomesLeader n s e i ∨ i ≠ (s'.replicas i).leaderIndex := by
  rcases step_cases hstep with ⟨k, p, -, -, hsame⟩ | ⟨j, ev, rest, x, hj, htarget, hlocal, rfl⟩
  · exact .inr (hsame ▸ hne)
  · by_cases hij : i = j
    · subst hij
      have hrec : ∀ p ∈ received i ev, PacketWf n p := fun p hp =>
        hwf.2 p ((target_perm htarget).mem_iff.mpr (List.mem_append_left _ hp))
      rcases (localStep_turn hlocal).leader hrec with h | ⟨-, h⟩
      · exact .inl ⟨_, hstep, by simpa using h⟩
      · right
        simpa using fun hx => hne (h hx)
    · right
      simpa [hij] using hne

/-- A follower that does not become the leader stays one. -/
theorem follower_of_run {ok : System → Event → Prop} {tr : List (System × Event)} {i : Nat}
    (hrun : Runs.Run (step n) ok s tr s') (hwf : s.GroupWf n)
    (hne : i ≠ (s.replicas i).leaderIndex) :
    s'.GroupWf n ∧ ((∃ c ∈ tr, BecomesLeader n c.1 c.2 i) ∨ i ≠ (s'.replicas i).leaderIndex) := by
  induction hrun with
  | nil => exact ⟨hwf, .inr hne⟩
  | @snoc tr t t' e _ _ hstep ih =>
      obtain ⟨hwf', h⟩ := ih
      refine ⟨hwf'.step hstep, ?_⟩
      rcases h with ⟨c, hc, hlead⟩ | h
      · exact .inl ⟨c, List.mem_append_left _ hc, hlead⟩
      · rcases becomesLeader_or_follower hwf' hstep h with hlead | h'
        · exact .inl ⟨(t, e), by simp, hlead⟩
        · exact .inr h'

theorem stepsDown_follower (hwf : s.GroupWf n) (hstep : s.step n e = some s') {i : Nat}
    (hdown : StepsDown s e i) : i ≠ (s'.replicas i).leaderIndex := by
  obtain ⟨k, now, msg, rfl, hk, hround⟩ := hdown
  rcases step_cases hstep with ⟨_, _, he, -⟩ | ⟨j, ev, rest, x, hj, htarget, hlocal, rfl⟩
  · cases he
  · simp only [target, hk, Option.some.injEq, Prod.mk.injEq] at htarget
    obtain ⟨rfl, rfl, rfl⟩ := htarget
    simpa using (localStep_turn hlocal).stepsDown (hwf.1 _ hj)
      (hwf.2 _ (List.mem_of_getElem? hk)) hround

/-- Stepping down is complete in every run in which calls send on only at
leaders. -/
theorem step_down_complete {n : Nat} {onApply : Nat → Bool} {tr : List (System × Event)}
    {s : System} (hrun : PaxosRun n onApply (fun s e => s.leaderSends n e) tr s) :
    StepDownComplete n tr := by
  have howner : ∀ p ∈ tr, ∀ q ∈ p.1.sent n p.2, q.2.type = .propose →
      q.2.round % n = q.2.sender := by
    intro p hp q hq htype
    obtain ⟨tr₁, s', hr, hok, hstep⟩ := hrun.reach_of_mem hp
    exact (sent_propose (run_wf hr) hstep hok hq htype).1
  refine ⟨?_, howner, ?_⟩
  · rintro tr₁ a tr₂ b tr₃ i rfl hdown ⟨q, hq, htype, rfl⟩
    obtain ⟨sa, hra, -, hstepa, hrest⟩ := hrun.split
    obtain ⟨sb, hrb, hokb, hstepb, -⟩ := hrest.split
    have hwfa := run_wf hra
    have hne := stepsDown_follower hwfa hstepa hdown
    obtain ⟨hwfb, hlead | hne'⟩ := follower_of_run hrb (hwfa.step hstepa) hne
    · obtain ⟨c, hc, hlead⟩ := hlead
      exact ⟨c, List.mem_append_left _ hc, hlead⟩
    · -- the proposal comes from a leader, so `b` itself is the election
      rcases becomesLeader_or_follower hwfb hstepb hne' with hlead | hfollower
      · exact ⟨b, by simp, hlead⟩
      · exact absurd (sent_propose hwfb hstepb hokb hq htype).2.2 hfollower
  · intro p hp p' hp' q hq q' hq' htype htype' hround
    rw [← howner p hp q hq htype, ← howner p' hp' q' hq' htype', hround]

/-- Replica 0 proposes, and steps down for replica 1 before the call has sent to
replica 2. It is elected once more, and then the call goes on. -/
def reElectedInSend : List Event :=
  [.propose 0 (.swarmResume { serial := 1 }) 10, .timeout 1 600, .deliver 1 600, .resumeRun 0,
   .timeout 0 1300, .resumeRun 0, .resumeRun 0, .deliver 3 1300, .deliver 3 1300, .resumeCall 0 0]

theorem step_down_complete_reElectedInSend :
    StepDownComplete 3 ((initial 3 fun _ => true).trace 3 reElectedInSend) :=
  step_down_complete (Runs.run_of_exec reElectedInSend (by decide +kernel) (by decide +kernel))

/-- Replica 0 proposes and steps down for replica 1 likewise, and the call goes
on at once. -/
def steppedDownInSend : List Event :=
  [.propose 0 (.swarmResume { serial := 1 }) 10, .timeout 1 600, .deliver 1 600, .resumeCall 0 0]

/-- The rest of the loop goes out in round 4, which belongs to replica 1. -/
theorem not_step_down_complete :
    ¬∀ (n : Nat) (onApply : Nat → Bool) (tr : List (System × Event)) (s : System),
      PaxosRun n onApply (fun _ _ => True) tr s → StepDownComplete n tr := by
  intro h
  have hc := h 3 (fun _ => true) _ _
    (Runs.run_of_exec steppedDownInSend (by decide +kernel) fun _ _ => trivial)
  have howner := hc.owner
  revert howner
  decide +kernel

end System

end Tmgr
