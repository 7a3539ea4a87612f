import Tmgr.PaxosElection
import Tmgr.StepDown

/-!
# Elections and rounds

A round belongs to the replica it is congruent to, and a replica picks only
rounds above `probe_round_`, which bounds every round it has seen and never
goes down. So no round is picked twice, and two leaders are never in the same
round. Nothing is assumed about the schedule.
-/

namespace Tmgr

namespace PtPaxosReplica

variable {n i : Nat} {r : PtPaxosReplica} {ev : LocalEvent} {x : PtPaxosReplica × List Packet}

/-! ## The rounds of a replica in one turn -/

/-- `probe_round_`, `ack_round_` and `election_round_`. -/
def rounds (r : PtPaxosReplica) : Nat × Nat × Nat := (r.probeRound, r.ackRound, r.electionRound)

theorem applyDecided_rounds (n i : Nat) (r : PtPaxosReplica) :
    (r.applyDecided n i).rounds = r.rounds :=
  applyDecided_same n i (fun _ _ => rfl) (fun _ => rfl) (fun _ => rfl) r

theorem runSendPropose_rounds (n i k : Nat) (r : PtPaxosReplica) :
    (r.runSendPropose n i k).1.rounds = r.rounds :=
  runSendPropose_same n i k (applyDecided_rounds n i) (fun _ _ => rfl) r

theorem callSendPropose_rounds (n i c k : Nat) (r : PtPaxosReplica) :
    (r.callSendPropose n i c k).1.rounds = r.rounds :=
  callSendPropose_same n i c k (applyDecided_rounds n i) (fun _ _ _ => rfl) r

theorem finishCall_rounds (c : Nat) (r : PtPaxosReplica) :
    (r.finishCall c).rounds = r.rounds :=
  finishCall_induct (P := fun r' => r'.rounds = r.rounds) rfl (fun _ _ => rfl) c

/-- Becoming the leader accepts the log of one's own round. -/
theorem adopt_rounds (i : Nat) (best : PaxosMessage) (r : PtPaxosReplica) :
    (r.adopt i best).rounds = (r.probeRound, r.electionRound, r.electionRound) := by
  have hcatch : (r.catchUp best).rounds = r.rounds := catchUp_same (fun _ _ => rfl) best r
  simp only [rounds, Prod.mk.injEq] at hcatch
  obtain ⟨hprobe, -, helection⟩ := hcatch
  simp only [rounds, adopt, Prod.mk.injEq]
  exact ⟨hprobe, helection, helection⟩

theorem runProbe_rounds (n i k : Nat) (r : PtPaxosReplica) :
    (r.runProbe n i k).1.rounds = r.rounds
      ∨ (r.runProbe n i k).1.rounds = (r.probeRound, r.electionRound, r.electionRound) := by
  refine runProbe_induct (P := fun r' => r'.rounds = r.rounds
    ∨ r'.rounds = (r.probeRound, r.electionRound, r.electionRound)) (fun _ _ => .inl rfl) ?_ k
  intro best _
  exact .inr ((runSendPropose_rounds n i 0 _).trans (adopt_rounds i best _))

theorem acceptPropose_rounds (n i now : Nat) (msg : PaxosMessage) (r : PtPaxosReplica) :
    (r.acceptPropose n i now msg).rounds = (r.probeRound, msg.round, r.electionRound) := by
  have hinstall : (r.install msg).rounds = (r.probeRound, msg.round, r.electionRound) := by
    simp only [install]
    split <;> split <;> rfl
  exact (applyDecided_rounds n i _).trans hinstall

theorem stepDown_probeRound_eq (now : Nat) (msg : PaxosMessage) (r : PtPaxosReplica) :
    (r.stepDown now msg).probeRound = max r.probeRound msg.round := by
  unfold stepDown
  split
  · rename_i hround
    exact (max_eq_right (Nat.le_of_lt hround)).symm
  · rename_i hround
    exact (max_eq_left (Nat.not_lt.mp hround)).symm

/-- Handling a message, the replica has seen its round. -/
theorem Turn.probeRound_receive {msg : PaxosMessage} {now : Nat}
    (ht : Turn n i r (.receive msg now) x) : x.1.probeRound = max r.probeRound msg.round := by
  rw [← stepDown_probeRound_eq now msg r]
  cases ht with
  | elect =>
      have hsend := runSendPropose_rounds n i 0
      exact (congrArg Prod.fst (hsend _)).trans (congrArg Prod.fst (adopt_rounds i _ _))
  | ack =>
      refine (applyDecided_probeRound n i _).trans ?_
      exact recordAck_same (f := (·.probeRound)) (fun _ _ => rfl) msg _
  | accept => exact congrArg Prod.fst (acceptPropose_rounds n i now msg _)
  | _ => rfl

/-- Rounds a replica picked are rounds it has seen. -/
theorem startElection_rounds (n i : Nat) (r : PtPaxosReplica) :
    (r.startElection n i).1.probeRound = r.probeRound + n - r.probeRound % n + i
      ∧ (r.startElection n i).1.electionRound = r.probeRound + n - r.probeRound % n + i := by
  rcases runProbe_rounds n i 0 (r.pickRound n i) with h | h
  · exact ⟨congrArg Prod.fst h, congrArg (·.2.2) h⟩
  · exact ⟨congrArg Prod.fst h, congrArg (·.2.2) h⟩

/-- `probe_round_` never goes down. -/
theorem Turn.probeRound_le (ht : Turn n i r ev x) (hi : i < n) :
    r.probeRound ≤ x.1.probeRound := by
  cases ev with
  | receive msg now =>
      rw [ht.probeRound_receive]
      exact le_max_left _ _
  | timeout now =>
      cases ht with
      | quiet => exact le_rfl
      | retransmit => exact (congrArg Prod.fst (runSendPropose_rounds n i 0 r)).ge
      | start =>
          rw [(startElection_rounds n i r).1]
          exact Nat.le_of_lt (lt_pickRound hi r)
  | propose req nowUnix =>
      cases ht with
      | refuse => exact le_rfl
      | append => exact (congrArg Prod.fst (callSendPropose_rounds n i _ 0
          (r.appendCall i nowUnix req))).ge
  | resumeRun =>
      cases ht with
      | replied => exact le_rfl
      | probing =>
          rcases runProbe_rounds n i _ r with h | h
          · exact (congrArg Prod.fst h).ge
          · exact (congrArg Prod.fst h).ge
      | proposing => exact (congrArg Prod.fst (runSendPropose_rounds n i _ r)).ge
  | resumeCall c =>
      cases ht with
      | sending => exact (congrArg Prod.fst (callSendPropose_rounds n i c _ r)).ge
      | finish => exact (congrArg Prod.fst (finishCall_rounds c r)).ge

/-- What a replica takes for the round of its log. -/
theorem Turn.ackRound_cases (ht : Turn n i r ev x) :
    x.1.ackRound = r.ackRound ∨ x.1.ackRound = r.electionRound
      ∨ x.1.ackRound = x.1.probeRound := by
  have hrun : ∀ k, (r.runSendPropose n i k).1.ackRound = r.ackRound :=
    fun k => congrArg (·.2.1) (runSendPropose_rounds n i k r)
  have hcall : ∀ c k r, (callSendPropose n i c k r).1.ackRound = r.ackRound :=
    fun c k r => congrArg (·.2.1) (callSendPropose_rounds n i c k r)
  have hprobe : ∀ k r, (runProbe n i k r).1.ackRound = r.ackRound
      ∨ (runProbe n i k r).1.ackRound = r.electionRound := by
    intro k r
    rcases runProbe_rounds n i k r with h | h
    · exact .inl (congrArg (·.2.1) h)
    · exact .inr (congrArg (·.2.1) h)
  have hseen : ∀ {msg : PaxosMessage} {now : Nat}, Turn n i r (.receive msg now) x →
      r.probeRound ≤ msg.round → x.1.ackRound = msg.round → x.1.ackRound = x.1.probeRound := by
    intro msg now ht hround hack
    rw [hack, ht.probeRound_receive, max_eq_right hround]
  cases ht with
  | ignore => exact .inl (stepDown_ackRound _ _ r)
  | probe => exact .inl (stepDown_ackRound _ _ r)
  | vote => exact .inl (stepDown_ackRound _ _ r)
  | @elect msg best now hrecv htype hround helection hquorum hbest =>
      refine .inr (.inr (hseen (.elect hrecv htype hround helection hquorum hbest) hround ?_))
      refine (congrArg (·.2.1) (runSendPropose_rounds n i 0 _)).trans ?_
      refine (congrArg (·.2.1) (adopt_rounds i best _)).trans ?_
      exact (stepDown_electionRound now msg r).trans helection.symm
  | @ack msg now =>
      refine .inl ((applyDecided_ackRound n i _).trans ?_)
      refine (recordAck_same (f := (·.ackRound)) (fun _ _ => rfl) msg _).trans ?_
      exact stepDown_ackRound now msg r
  | stale => exact .inl (stepDown_ackRound _ _ r)
  | @accept msg now hrecv htype hround hfollower hfresh =>
      refine .inr (.inr (hseen (.accept hrecv htype hround hfollower hfresh) hround ?_))
      exact congrArg (·.2.1) (acceptPropose_rounds n i now msg _)
  | quiet => exact .inl rfl
  | retransmit => exact .inl (hrun 0)
  | start =>
      rcases hprobe 0 (r.pickRound n i) with h | h
      · exact .inl h
      · exact .inr (.inr (h.trans (startElection_rounds n i r).1.symm))
  | refuse => exact .inl rfl
  | append => exact .inl (hcall _ 0 _)
  | replied => exact .inl rfl
  | probing =>
      rcases hprobe _ r with h | h
      · exact .inl h
      · exact .inr (.inl h)
  | proposing => exact .inl (hrun _)
  | sending => exact .inl (hcall _ _ r)
  | finish => exact .inl (congrArg (·.2.1) (finishCall_rounds _ r))

/-- The log of a replica is of a round it has seen. -/
theorem Turn.ackRound_le (ht : Turn n i r ev x) (hi : i < n) (hwf : Wf n i r)
    (h : r.ackRound ≤ r.probeRound) : x.1.ackRound ≤ x.1.probeRound := by
  have hle := ht.probeRound_le hi
  rcases ht.ackRound_cases with hack | hack | hack
  · exact hack ▸ h.trans hle
  · exact hack ▸ hwf.election_le.trans hle
  · exact hack.le

end PtPaxosReplica

/-! ## Runs -/

namespace System

open PtPaxosReplica

/-- The event makes replica `i` call `start_election`, which picks `round`. -/
def Picks (n : Nat) (s : System) (e : Event) (i round : Nat) : Prop :=
  ∃ now, e = .timeout i now ∧ (s.replicas i).runFrame = .receiving
    ∧ i ≠ (s.replicas i).leaderIndex ∧ now - (s.replicas i).lastLeaderMsg > 500
    ∧ ((s.replicas i).startElection n i).1.electionRound = round

/-- `round` is the round of a message that replica `i` handled, or one that
it picked. -/
def Seen (n : Nat) (tr : List (System × Event)) (i round : Nat) : Prop :=
  ∃ p ∈ tr, Picks n p.1 p.2 i round
    ∨ ∃ msg now rest, p.1.target p.2 = some (i, .receive msg now, rest) ∧ msg.round = round

variable {n : Nat} {s s' : System} {e : Event}

/-- What the replicas keep in a step in which `i` takes no turn. -/
theorem step_replica (hstep : s.step n e = some s') (i : Nat) :
    s'.replicas i = s.replicas i
      ∨ ∃ ev rest x, i < n ∧ s.target e = some (i, ev, rest)
        ∧ localStep n i (s.replicas i) ev = some x ∧ s'.replicas i = x.1 := by
  rcases step_cases hstep with ⟨k, p, -, -, hsame⟩ | ⟨j, ev, rest, x, hj, htarget, hlocal, rfl⟩
  · exact .inl (congrFun hsame i)
  · by_cases hij : i = j
    · subst hij
      exact .inr ⟨ev, rest, x, hj, htarget, hlocal, by simp⟩
    · exact .inl (by simp [hij])

theorem probeRound_le_step (hstep : s.step n e = some s') (i : Nat) :
    (s.replicas i).probeRound ≤ (s'.replicas i).probeRound := by
  rcases step_replica hstep i with hsame | ⟨ev, rest, x, hi, -, hlocal, hx⟩
  · rw [hsame]
  · rw [hx]
    exact (localStep_turn hlocal).probeRound_le hi

theorem probeRound_le_run {ok : System → Event → Prop} {tr : List (System × Event)}
    (hrun : Runs.Run (step n) ok s tr s') (i : Nat) :
    (s.replicas i).probeRound ≤ (s'.replicas i).probeRound :=
  hrun.invariant (I := fun t => (s.replicas i).probeRound ≤ (t.replicas i).probeRound) le_rfl
    fun h _ hstep => h.trans (probeRound_le_step hstep i)

/-- The picked round is the next one of its replica. -/
theorem Picks.round {i round : Nat} (h : Picks n s e i round) (hstep : s.step n e = some s') :
    i < n ∧ (s.replicas i).probeRound < round ∧ round % n = i
      ∧ (s'.replicas i).probeRound = round := by
  obtain ⟨now, rfl, hrecv, hfollower, htime, hround⟩ := h
  rcases step_cases hstep with ⟨_, _, he, -⟩ | ⟨j, ev, rest, x, hj, htarget, hlocal, rfl⟩
  · cases he
  · simp only [target, Option.some.injEq, Prod.mk.injEq] at htarget
    obtain ⟨rfl, rfl, rfl⟩ := htarget
    simp only [localStep, hrecv, handleTimeout, if_neg hfollower, if_pos htime, if_true,
      Option.some.injEq] at hlocal
    obtain ⟨hprobe, helection⟩ := startElection_rounds n i (s.replicas i)
    rw [helection] at hround
    refine ⟨hj, hround ▸ lt_pickRound hj _, hround ▸ pickRound_mod hj _, ?_⟩
    simp only [Function.update_self, ← hlocal, hprobe, hround]

/-- A replica has not seen a round above its `probe_round_`. -/
theorem Seen.le {onApply : Nat → Bool} {ok : System → Event → Prop}
    {tr : List (System × Event)} {i round : Nat} (hseen : Seen n tr i round)
    (hrun : PaxosRun n onApply ok tr s) : round ≤ (s.replicas i).probeRound := by
  obtain ⟨⟨t, e⟩, hp, hround⟩ := hseen
  obtain ⟨tr₁, tr₂, rfl⟩ := List.append_of_mem hp
  obtain ⟨t', -, -, hstep, hrest⟩ := hrun.split
  refine le_trans ?_ (probeRound_le_run hrest i)
  rcases hround with hpick | ⟨msg, now, rest, htarget, rfl⟩
  · exact (hpick.round hstep).2.2.2.ge
  · rcases step_cases hstep with ⟨_, _, rfl, -⟩ | ⟨j, ev, rest', x, hj, htarget', hlocal, rfl⟩
    · cases htarget
    · obtain ⟨rfl, rfl, rfl⟩ : j = i ∧ ev = .receive msg now ∧ rest' = rest := by
        simpa using htarget'.symm.trans htarget
      simp only [Function.update_self, (localStep_turn hlocal).probeRound_receive]
      exact le_max_right _ _

theorem ackRound_le_run {onApply : Nat → Bool} {ok : System → Event → Prop}
    {tr : List (System × Event)} (hrun : PaxosRun n onApply ok tr s) :
    s.GroupWf n ∧ ∀ i < n, (s.replicas i).ackRound ≤ (s.replicas i).probeRound := by
  refine hrun.invariant (I := fun s => s.GroupWf n
    ∧ ∀ i < n, (s.replicas i).ackRound ≤ (s.replicas i).probeRound)
    ⟨initial_groupWf n onApply, fun i _ => le_rfl⟩ ?_
  rintro s e s' ⟨hwf, hle⟩ - hstep
  refine ⟨hwf.step hstep, fun i hi => ?_⟩
  rcases step_replica hstep i with hsame | ⟨ev, rest, x, -, -, hlocal, hx⟩
  · rw [hsame]
    exact hle i hi
  · rw [hx]
    exact (localStep_turn hlocal).ackRound_le hi (hwf.1 i hi) (hle i hi)

/-- **Election safety.** -/
structure ElectionSafe (n : Nat) (tr : List (System × Event)) (s : System) : Prop where
  picked : ∀ {tr₁ t e tr₂ i round}, tr = tr₁ ++ (t, e) :: tr₂ → Picks n t e i round →
    round % n = i ∧ (t.replicas i).probeRound < round
      ∧ ∀ {round'}, Seen n tr₁ i round' → round' < round
  once : ∀ {tr₁ t e tr₂ t' e' tr₃ i j round round'},
    tr = tr₁ ++ (t, e) :: (tr₂ ++ (t', e') :: tr₃) → Picks n t e i round →
    Picks n t' e' j round' → round ≠ round'
  mono : ∀ p ∈ tr, ∀ i, (p.1.replicas i).probeRound ≤ (s.replicas i).probeRound
  ack_le : ∀ i < n, (s.replicas i).ackRound ≤ (s.replicas i).probeRound
  leader : ∀ i < n, (s.replicas i).leaderIndex = i → (s.replicas i).probeRound % n = i
  unique : ∀ i < n, ∀ j < n, i ≠ j → (s.replicas i).leaderIndex = i →
    (s.replicas j).leaderIndex = j → (s.replicas i).probeRound ≠ (s.replicas j).probeRound

/-- Elections are safe in every run, however its steps are interleaved. -/
theorem election_safety {onApply : Nat → Bool} {tr : List (System × Event)}
    (hrun : PaxosRun n onApply (fun _ _ => True) tr s) : ElectionSafe n tr s := by
  obtain ⟨hwf, hack⟩ := ackRound_le_run hrun
  have hleader : ∀ i < n, (s.replicas i).leaderIndex = i → (s.replicas i).probeRound % n = i :=
    fun i hi hl => (hwf.1 i hi).leader_round hl.symm
  refine ⟨?_, ?_, ?_, hack, hleader, ?_⟩
  · rintro tr₁ t e tr₂ i round rfl hpick
    obtain ⟨t', hr, -, hstep, -⟩ := hrun.split
    obtain ⟨-, hlt, hmod, -⟩ := hpick.round hstep
    exact ⟨hmod, hlt, fun hseen => lt_of_le_of_lt (hseen.le hr) hlt⟩
  · rintro tr₁ t e tr₂ t' e' tr₃ i j round round' rfl hpick hpick' rfl
    obtain ⟨t₁, hr, -, hstep, hrest⟩ := hrun.split
    obtain ⟨t₂, hr', -, hstep', -⟩ := hrest.split
    obtain ⟨-, -, hmod, hprobe⟩ := hpick.round hstep
    obtain ⟨-, hlt, hmod', -⟩ := hpick'.round hstep'
    obtain rfl : i = j := hmod.symm.trans hmod'
    -- the replica picks again after it has seen its own round
    have hmono := probeRound_le_run hr' i
    exact absurd hlt (Nat.not_lt.mpr (hprobe.ge.trans hmono))
  · intro p hp i
    obtain ⟨tr₁, tr₂, rfl⟩ := List.append_of_mem hp
    obtain ⟨t', -, -, hstep, hrest⟩ := hrun.split
    exact (probeRound_le_step hstep i).trans (probeRound_le_run hrest i)
  · intro i hi j hj hij hli hlj heq
    exact hij ((hleader i hi hli).symm.trans ((congrArg (· % n) heq).trans (hleader j hj hlj)))

/-- Replicas 1 and 2 both start an election, and replica 1 is elected. -/
def twoElections : List Event :=
  [.timeout 1 600, .resumeRun 1, .timeout 2 600, .resumeRun 1, .deliver 0 610, .resumeRun 0,
   .deliver 2 620]

theorem election_safety_twoElections :
    ElectionSafe 3 ((initial 3 fun _ => true).trace 3 twoElections)
      (((initial 3 fun _ => true).exec 3 twoElections).get (by decide +kernel)) :=
  election_safety (Runs.run_of_exec twoElections (by decide +kernel) fun _ _ => trivial)

end System

end Tmgr
