import Tmgr.LogInv

/-!
# What holds of a replica in every run

`Wf` holds at every replica in every reachable state, under no assumption on
the schedule: the counters of the log (`LogInv`), who owns which round, and
the database as the replay of the `process_req` calls. `PacketWf` is its
counterpart for the packets in flight. Both are about one replica or one
packet, so that `run_wf` follows from what one turn preserves.
-/

namespace Tmgr

namespace PtPaxosReplica

structure Wf (n i : Nat) (r : PtPaxosReplica) : Prop where
  acks_length : r.followerAckSlot.length = n
  base_le : r.logBase ≤ r.appliedSlot
  next : i = r.leaderIndex → r.nextSlot = r.logEnd
  own_ack : i = r.leaderIndex → r.followerAckSlot.getD i 0 = r.logEnd
  leader_round : i = r.leaderIndex → r.probeRound % n = i
  election_le : r.electionRound ≤ r.probeRound
  election_owner : r.electionRound ≠ 0 → r.electionRound % n = i
  probing : ∀ {k}, r.runFrame = .probing k → i ≠ r.leaderIndex ∧ r.electionRound = r.probeRound
    ∧ r.electionRound ≠ 0 ∧ r.prepareResponses = []
  proposing : ∀ {k}, r.runFrame = .proposing k → i = r.leaderIndex
  db : r.db = TaskManagerDb.replay (r.processed.map fun p => (p.dv.req, p.dv.nowUnix))

/-- A packet goes from one replica to another; a PROBE comes from the owner
of its round, a PREPARE goes to it. -/
structure PacketWf (n : Nat) (p : Packet) : Prop where
  dest_lt : p.1 < n
  sender_lt : p.2.sender < n
  sender_ne : p.2.sender ≠ p.1
  probe : p.2.type = .probe → p.2.round ≠ 0 ∧ p.2.round % n = p.2.sender
  prepare : p.2.type = .prepare → p.2.round ≠ 0 ∧ p.2.round % n = p.1

theorem Wf.logInv {n i : Nat} {r : PtPaxosReplica} (h : Wf n i r) : LogInv n i r :=
  { h with }

theorem initial_wf {n i : Nat} (hi : i < n) (onApply : Bool) :
    Wf n i (PtPaxosReplica.initial n onApply) :=
  { initial_logInv hi onApply with
    leader_round := fun h => by
      have : i = 0 := h
      simp [PtPaxosReplica.initial, this]
    election_le := le_rfl
    election_owner := fun h => absurd rfl h
    probing := fun h => by cases h
    proposing := fun h => by cases h
    db := rfl }

variable {n i : Nat} {r : PtPaxosReplica}

/-- `run()` comes to a point where it waits for a message or ends a reply. -/
theorem Wf.toFrame (h : Wf n i r) {f : RunFrame} (hf : f = .receiving ∨ f = .replying) :
    Wf n i { r with runFrame := f } :=
  { h with
    probing := fun {k} hk => by
      have : f = .probing k := hk
      simp [this] at hf
    proposing := fun {k} hk => by
      have : f = .proposing k := hk
      simp [this] at hf }

/-- Another replica is taken for the leader. -/
theorem Wf.follow (h : Wf n i r) (hrecv : r.runFrame = .receiving) {j : Nat} (hj : j ≠ i) :
    Wf n i { r with leaderIndex := j } :=
  { LogInv.of_follower (r := { r with leaderIndex := j }) h.acks_length h.base_le hj.symm, h with
    leader_round := fun hl => absurd hl.symm hj
    probing := fun {k} hk => by
      have : r.runFrame = .probing k := hk
      simp [hrecv] at this
    proposing := fun {k} hk => by
      have : r.runFrame = .proposing k := hk
      simp [hrecv] at this }

/-! ## Stepping down -/

theorem Wf.stepDown {msg : PaxosMessage} (h : Wf n i r) (now : Nat) (hs : msg.sender ≠ i)
    (hrecv : r.runFrame = .receiving) : Wf n i (r.stepDown now msg) := by
  unfold PtPaxosReplica.stepDown
  split
  · rename_i hround
    exact { h.follow hrecv hs with
      leader_round := fun hl => absurd hl.symm hs
      election_le := h.election_le.trans (Nat.le_of_lt hround)
      probing := fun {k} hk => by
        have : r.runFrame = .probing k := hk
        simp [hrecv] at this }
  · exact h

theorem stepDown_probeRound {now : Nat} {msg : PaxosMessage} (h : r.probeRound ≤ msg.round) :
    (r.stepDown now msg).probeRound = msg.round := by
  unfold stepDown
  split
  · rfl
  · omega

/-- A message that is not of a higher round changes nothing. -/
theorem stepDown_eq {now : Nat} {msg : PaxosMessage} (h : msg.round ≤ r.probeRound) :
    r.stepDown now msg = r := by
  unfold stepDown
  rw [if_neg (Nat.not_lt.mpr h)]

/-! ## Applying and truncating -/

theorem applySlot_db (dv : DecidedValue)
    (h : r.db = TaskManagerDb.replay (r.processed.map fun p => (p.dv.req, p.dv.nowUnix))) :
    (applySlot r dv).db = TaskManagerDb.replay
      ((applySlot r dv).processed.map fun p => (p.dv.req, p.dv.nowUnix)) := by
  simp only [applySlot, processSlot, List.map_append, List.map_cons, List.map_nil]
  rw [TaskManagerDb.replay_snoc, ← h]

theorem Wf.tryTruncate (h : Wf n i r) (hend : r.followerAckSlot.min?.getD 0 ≤ r.logEnd)
    (happlied : r.followerAckSlot.min?.getD 0 ≤ r.appliedSlot) : Wf n i r.tryTruncate :=
  { h.logInv.tryTruncate hend happlied, h with }

theorem Wf.applyDecided (hi : i < n) (h : Wf n i r) : Wf n i (r.applyDecided n i) := by
  refine applyDecided_induct (P := Wf n i) { h with } (fun _ dv h _ => { h with
    base_le := h.base_le.trans (Nat.le_succ _), db := applySlot_db dv h.db }) ?_
  intro hl hloop
  obtain ⟨hend, happlied⟩ := h.logInv.minAck_le_applied hi hl
  exact hloop.tryTruncate hend happlied

/-! ## Sending -/

theorem proposeMsg_wf {j : Nat} (hi : i < n) (hj : j < n) (hne : j ≠ i) (r : PtPaxosReplica) :
    PacketWf n (j, r.proposeMsg i j) :=
  ⟨hj, hi, hne.symm, fun h => by simp [proposeMsg] at h, fun h => by simp [proposeMsg] at h⟩

theorem Wf.runSendPropose (hi : i < n) (h : Wf n i r) (hl : i = r.leaderIndex) (k : Nat) :
    Wf n i (r.runSendPropose n i k).1 ∧ ∀ p ∈ (r.runSendPropose n i k).2, PacketWf n p := by
  unfold PtPaxosReplica.runSendPropose
  split
  · rename_i j hj
    obtain ⟨hjn, hji, -⟩ := nextPeer_eq_some hj
    refine ⟨{ h with probing := nofun, proposing := fun _ => hl }, ?_⟩
    rintro p hp
    obtain rfl := List.mem_singleton.mp hp
    exact proposeMsg_wf hi hjn hji r
  · exact ⟨(h.applyDecided hi).toFrame (.inl rfl), by simp⟩

theorem Wf.callSendPropose (hi : i < n) (h : Wf n i r) (c k : Nat) :
    Wf n i (r.callSendPropose n i c k).1 ∧ ∀ p ∈ (r.callSendPropose n i c k).2, PacketWf n p := by
  unfold PtPaxosReplica.callSendPropose
  split
  · rename_i j hj
    obtain ⟨hjn, hji, -⟩ := nextPeer_eq_some hj
    refine ⟨{ h with }, ?_⟩
    rintro p hp
    obtain rfl := List.mem_singleton.mp hp
    exact proposeMsg_wf hi hjn hji r
  · refine ⟨awaitCall_induct (h.applyDecided hi) ?_ c, by simp⟩
    intro pend calls
    exact { h.applyDecided hi with }

/-! ## Elections -/

theorem Wf.catchUp (h : Wf n i r) (best : PaxosMessage) : Wf n i (r.catchUp best) :=
  applyUpTo_induct (P := Wf n i) h fun _ dv h _ _ =>
    { h with base_le := h.base_le.trans (Nat.le_succ _), db := applySlot_db dv h.db }

theorem catchUp_le (h : Wf n i r) (best : PaxosMessage) :
    min best.slot r.logEnd ≤ (r.catchUp best).appliedSlot :=
  applyUpTo_exit (fun _ _ => rfl) (fun _ _ => rfl) (fun _ _ => rfl) h.base_le le_rfl

/-- The election is for the round the replica has seen last. -/
theorem Wf.adopt (hi : i < n) (h : Wf n i r) (hrecv : r.runFrame = .receiving)
    (hround : r.electionRound = r.probeRound) (hne : r.electionRound ≠ 0)
    (best : PaxosMessage) : Wf n i (r.adopt i best) := by
  have hcatch := h.catchUp best
  have hframe : (r.catchUp best).runFrame = .receiving :=
    (catchUp_same (f := (·.runFrame)) (fun _ _ => rfl) best r).trans hrecv
  have helection : (r.catchUp best).electionRound = r.electionRound :=
    catchUp_same (f := (·.electionRound)) (fun _ _ => rfl) best r
  have hprobe : (r.catchUp best).probeRound = r.probeRound :=
    catchUp_same (f := (·.probeRound)) (fun _ _ => rfl) best r
  exact
    { h.logInv.adopt hi best with
      leader_round := fun _ => by
        show (r.catchUp best).probeRound % n = i
        rw [hprobe, ← hround]
        exact h.election_owner hne
      election_le := hcatch.election_le
      election_owner := hcatch.election_owner
      probing := fun hf => by
        have : (r.catchUp best).runFrame = _ := hf
        simp [hframe] at this
      proposing := fun _ => rfl
      db := hcatch.db }

theorem Wf.addResponse (h : Wf n i r) (msg : PaxosMessage) : Wf n i (r.addResponse msg) :=
  { h.toFrame (.inl rfl) with probing := nofun }

theorem Wf.becomeLeader (hi : i < n) (h : Wf n i r) (hrecv : r.runFrame = .receiving)
    (hround : r.electionRound = r.probeRound) (hne : r.electionRound ≠ 0) :
    Wf n i (r.becomeLeader n i).1 ∧ ∀ p ∈ (r.becomeLeader n i).2, PacketWf n p := by
  unfold PtPaxosReplica.becomeLeader
  split
  · rename_i best _
    exact (h.adopt hi hrecv hround hne best).runSendPropose hi rfl 0
  · exact ⟨h, by simp⟩

theorem Wf.runProbe (hi : i < n) (h : Wf n i r) (hl : i ≠ r.leaderIndex)
    (hround : r.electionRound = r.probeRound) (hne : r.electionRound ≠ 0)
    (hnil : r.prepareResponses = []) (k : Nat) :
    Wf n i (r.runProbe n i k).1 ∧ ∀ p ∈ (r.runProbe n i k).2, PacketWf n p := by
  unfold PtPaxosReplica.runProbe
  split
  · rename_i j hj
    obtain ⟨hjn, hji, -⟩ := nextPeer_eq_some hj
    refine ⟨{ h with
      probing := fun _ => ⟨hl, hround, hne, hnil⟩, proposing := nofun }, ?_⟩
    rintro p hp
    obtain rfl := List.mem_singleton.mp hp
    exact ⟨hjn, hi, hji.symm, fun _ => ⟨hne, h.election_owner hne⟩,
      fun hf => by simp [probeMsg] at hf⟩
  · simp only
    split
    · exact (h.addResponse _).becomeLeader hi rfl hround hne
    · exact ⟨h.addResponse _, by simp⟩

theorem pickRound_mod (hi : i < n) (r : PtPaxosReplica) :
    (r.probeRound + n - r.probeRound % n + i) % n = i := by
  have hmod := Nat.mod_lt r.probeRound (Nat.zero_lt_of_lt hi)
  have hdiv := Nat.div_add_mod r.probeRound n
  have heq : r.probeRound + n - r.probeRound % n + i = i + n * (r.probeRound / n + 1) := by
    rw [Nat.mul_add]
    omega
  rw [heq, Nat.add_mul_mod_self_left, Nat.mod_eq_of_lt hi]

theorem lt_pickRound (hi : i < n) (r : PtPaxosReplica) :
    r.probeRound < r.probeRound + n - r.probeRound % n + i := by
  have := Nat.mod_lt r.probeRound (Nat.zero_lt_of_lt hi)
  omega

theorem Wf.pickRound (hi : i < n) (h : Wf n i r) (hrecv : r.runFrame = .receiving)
    (hl : i ≠ r.leaderIndex) : Wf n i (r.pickRound n i) :=
  { h with
    leader_round := fun h => absurd h hl
    election_le := le_rfl
    election_owner := fun _ => pickRound_mod hi r
    probing := fun hf => by
      have : r.runFrame = _ := hf
      simp [hrecv] at this }

/-! ## Messages and calls -/

theorem Wf.recordAck (h : Wf n i r) {msg : PaxosMessage} (hs : msg.sender ≠ i) :
    Wf n i (r.recordAck msg) := by
  unfold PtPaxosReplica.recordAck
  split
  · exact { h.logInv.setAck hs _, h with }
  · exact h

theorem Wf.truncateFollower (h : Wf n i r) (t : Nat) : Wf n i (r.truncateFollower t) :=
  { h.logInv.truncateFollower t, h with }

/-- A follower installs any log: nothing is required of the message. -/
theorem Wf.install (h : Wf n i r) (hl : i ≠ r.leaderIndex) (msg : PaxosMessage) :
    Wf n i (r.install msg) := by
  have hgap : r.logBase ≤ r.appliedSlot ∧ msg.slot ≤ max r.appliedSlot msg.slot :=
    ⟨h.base_le, le_max_right _ _⟩
  unfold PtPaxosReplica.install
  simp only
  split <;> split <;>
    exact { h with
      base_le := by first | exact hgap.1 | exact hgap.2
      next := fun h => absurd h hl
      own_ack := fun h => absurd h hl
      leader_round := fun h => absurd h hl }

theorem Wf.acceptPropose (hi : i < n) (h : Wf n i r) (hl : i ≠ r.leaderIndex) (now : Nat)
    (msg : PaxosMessage) : Wf n i (r.acceptPropose n i now msg) :=
  acceptPropose_induct (P := Wf n i) { h.install hl msg with }
    (fun _ h => h.applyDecided hi) fun _ h => h.truncateFollower _

theorem Wf.appendCall (hi : i < n) (h : Wf n i r) (hl : i = r.leaderIndex) (nowUnix : Int)
    (req : Request) : Wf n i (r.appendCall i nowUnix req) :=
  { h.logInv.appendCall hi hl nowUnix req, h with }

/-! ## Turns and runs -/

/-- The packet a turn receives comes from another replica. -/
theorem sender_ne_of_received {ev : LocalEvent} {msg : PaxosMessage} {now : Nat}
    (hev : ev = .receive msg now) (h : ∀ p ∈ System.received i ev, PacketWf n p) :
    PacketWf n (i, msg) := by
  subst hev
  exact h _ (List.mem_singleton_self _)

theorem reply_wf {msg : PaxosMessage} (hi : i < n) (hm : PacketWf n (i, msg))
    (r : PtPaxosReplica) : ∀ p ∈ (r.reply i msg).2, PacketWf n p := by
  intro p hp
  obtain rfl := List.mem_singleton.mp hp
  exact ⟨hm.sender_lt, hi, hm.sender_ne.symm, fun hf => by simp [ackMsg] at hf,
    fun hf => by simp [ackMsg] at hf⟩

theorem Turn.wf {ev : LocalEvent} {x : PtPaxosReplica × List Packet} (ht : Turn n i r ev x)
    (hi : i < n) (h : Wf n i r) (hrec : ∀ p ∈ System.received i ev, PacketWf n p) :
    Wf n i x.1 ∧ ∀ p ∈ x.2, PacketWf n p := by
  cases ht with
  | ignore hrecv =>
      have hm := sender_ne_of_received rfl hrec
      exact ⟨h.stepDown _ hm.sender_ne hrecv, by simp⟩
  | @probe msg now hrecv htype hround =>
      have hm := sender_ne_of_received rfl hrec
      refine ⟨(h.stepDown now hm.sender_ne hrecv).toFrame (.inr rfl), ?_⟩
      intro p hp
      obtain rfl := List.mem_singleton.mp hp
      exact ⟨hm.sender_lt, hi, hm.sender_ne.symm, fun hf => by simp [prepareMsg] at hf,
        fun _ => hm.probe htype⟩
  | vote hrecv =>
      have hm := sender_ne_of_received rfl hrec
      exact ⟨(h.stepDown _ hm.sender_ne hrecv).addResponse _, by simp⟩
  | @elect msg best now hrecv htype hround helection =>
      have hm := sender_ne_of_received rfl hrec
      refine (((h.stepDown now hm.sender_ne hrecv).addResponse msg).adopt hi rfl ?_ ?_
        best).runSendPropose hi rfl 0
      · show (r.stepDown now msg).electionRound = (r.stepDown now msg).probeRound
        rw [stepDown_electionRound, stepDown_probeRound hround, helection]
      · show (r.stepDown now msg).electionRound ≠ 0
        rw [stepDown_electionRound, ← helection]
        exact (hm.prepare htype).1
  | ack hrecv =>
      have hm := sender_ne_of_received rfl hrec
      exact ⟨((h.stepDown _ hm.sender_ne hrecv).recordAck hm.sender_ne).applyDecided hi, by simp⟩
  | @stale msg now hrecv =>
      have hm := sender_ne_of_received rfl hrec
      have hd := (h.stepDown now hm.sender_ne hrecv).follow
        ((stepDown_runFrame now msg r).trans hrecv) hm.sender_ne
      exact ⟨{ hd.toFrame (.inr rfl) with }, reply_wf hi hm _⟩
  | @accept msg now hrecv =>
      have hm := sender_ne_of_received rfl hrec
      have hd := (h.stepDown now hm.sender_ne hrecv).follow
        ((stepDown_runFrame now msg r).trans hrecv) hm.sender_ne
      exact ⟨(hd.acceptPropose hi hm.sender_ne.symm now msg).toFrame (.inr rfl),
        reply_wf hi hm _⟩
  | quiet => exact ⟨h, by simp⟩
  | retransmit hrecv hleader => exact h.runSendPropose hi hleader 0
  | start hrecv hfollower =>
      exact (h.pickRound hi hrecv hfollower).runProbe hi hfollower rfl
        (Nat.ne_of_gt (Nat.zero_lt_of_lt (lt_pickRound hi r))) rfl 0
  | refuse => exact ⟨{ h with }, by simp⟩
  | append hleader => exact (h.appendCall hi hleader _ _).callSendPropose hi _ 0
  | replied =>
      exact ⟨h.toFrame (.inl rfl), by simp⟩
  | probing hframe =>
      obtain ⟨hl, hround, hne, hnil⟩ := h.probing hframe
      exact h.runProbe hi hl hround hne hnil _
  | proposing hframe => exact h.runSendPropose hi (h.proposing hframe) _
  | sending => exact h.callSendPropose hi _ _
  | finish =>
      exact ⟨finishCall_induct h (fun pend calls => { h with }) _, by simp⟩

end PtPaxosReplica

namespace System

open PtPaxosReplica

/-- Every replica and every packet in flight is well formed. -/
def GroupWf (n : Nat) (s : System) : Prop :=
  (∀ i < n, Wf n i (s.replicas i)) ∧ ∀ p ∈ s.network, PacketWf n p

theorem initial_groupWf (n : Nat) (onApply : Nat → Bool) : GroupWf n (initial n onApply) :=
  ⟨fun i hi => initial_wf hi (onApply i), by simp [initial]⟩

theorem GroupWf.step {n : Nat} {s s' : System} {e : Event} (h : GroupWf n s)
    (hstep : s.step n e = some s') : GroupWf n s' :=
  step_invariant (fun hi _ hP hM hlocal => (localStep_turn hlocal).wf hi hP hM) h hstep

end System

theorem run_wf {n : Nat} {onApply : Nat → Bool} {ok : System → Event → Prop}
    {tr : List (System × Event)} {s : System} (hrun : PaxosRun n onApply ok tr s) :
    s.GroupWf n :=
  hrun.invariant (System.initial_groupWf n onApply) fun h _ hstep => h.step hstep

end Tmgr
