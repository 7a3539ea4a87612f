import Tmgr.PaxosSystem

/-!
# What one turn of a coroutine does

`Turn` lists the ways a replica's coroutine can get from one suspension point
to the next, each with its guard and its result; `localStep_turn` says that
there are no others. The invariants of the later modules are proved by cases
on it and never unfold the handlers.

The two loops that call `process_req` are instances of `applyUpTo`:
`applyUpTo_induct` is their invariant rule, `applyUpTo_exit` says where they
stop.
-/

namespace Tmgr

namespace PtPaxosReplica

/-! ## The send loops -/

theorem nextPeer_eq_some {n i k j : Nat} (h : nextPeer n i k = some j) :
    j < n ∧ j ≠ i ∧ k ≤ j := by
  simp only [nextPeer, Option.ite_none_right_eq_some, Option.some.injEq] at h
  obtain ⟨hlt, rfl⟩ := h
  split at hlt <;> split <;> omega

/-! ## The apply loops -/

section Loop

variable {body : PtPaxosReplica → DecidedValue → PtPaxosReplica} {bound fuel : Nat}
  {r : PtPaxosReplica}

/-- The invariant rule of the loop. -/
theorem applyUpTo_induct {P : PtPaxosReplica → Prop} (h0 : P r)
    (hbody : ∀ r dv, P r → r.appliedSlot < bound →
      r.log[r.appliedSlot - r.logBase]? = some dv → P (body r dv)) :
    P (applyUpTo body bound fuel r) := by
  induction fuel generalizing r with
  | zero => exact h0
  | succ fuel ih =>
      rw [applyUpTo]
      split
      · rename_i hlt
        split
        · rename_i dv hdv
          exact ih (hbody r dv h0 hlt.1 hdv)
        · exact h0
      · exact h0

/-- What the body leaves alone, the loop leaves alone. -/
theorem applyUpTo_same {α : Type} {f : PtPaxosReplica → α}
    (hbody : ∀ r dv, f (body r dv) = f r) : f (applyUpTo body bound fuel r) = f r :=
  applyUpTo_induct (P := fun r' => f r' = f r) rfl
    fun r' dv h _ _ => (hbody r' dv).trans h

/-- With a turn for every slot below the bound the loop ends at the bound or
at the end of the log. -/
theorem applyUpTo_exit (hslot : ∀ r dv, (body r dv).appliedSlot = r.appliedSlot + 1)
    (hlog : ∀ r dv, (body r dv).log = r.log) (hbase : ∀ r dv, (body r dv).logBase = r.logBase)
    (hle : r.logBase ≤ r.appliedSlot) (hfuel : bound - r.appliedSlot ≤ fuel) :
    min bound r.logEnd ≤ (applyUpTo body bound fuel r).appliedSlot := by
  induction fuel generalizing r with
  | zero =>
      rw [applyUpTo]
      omega
  | succ fuel ih =>
      rw [applyUpTo]
      split
      · rename_i hlt
        have hin : r.appliedSlot - r.logBase < r.log.length := by
          have := hlt.2
          rw [logEnd] at this
          omega
        rw [List.getElem?_eq_getElem hin]
        have hend : (body r r.log[r.appliedSlot - r.logBase]).logEnd = r.logEnd := by
          rw [logEnd, logEnd, hlog, hbase]
        rw [← hend]
        apply ih
        · rw [hslot, hbase]
          omega
        · rw [hslot]
          omega
      · omega

theorem applyUpTo_appliedSlot_mono (hslot : ∀ r dv, (body r dv).appliedSlot = r.appliedSlot + 1) :
    r.appliedSlot ≤ (applyUpTo body bound fuel r).appliedSlot :=
  applyUpTo_induct (P := fun r' => r.appliedSlot ≤ r'.appliedSlot) le_rfl
    fun r' dv h _ _ => by
      rw [hslot]
      exact h.trans (Nat.le_succ _)

theorem applyUpTo_appliedSlot_le (hslot : ∀ r dv, (body r dv).appliedSlot = r.appliedSlot + 1) :
    (applyUpTo body bound fuel r).appliedSlot ≤ max r.appliedSlot bound :=
  applyUpTo_induct (P := fun r' => r'.appliedSlot ≤ max r.appliedSlot bound)
    (le_max_left _ _) fun r' dv _ hlt _ => by
      rw [hslot]
      exact (Nat.succ_le_of_lt hlt).trans (le_max_right _ _)

end Loop

section Same

variable {α : Type} {f : PtPaxosReplica → α}

theorem applyLoop_same (h : ∀ r dv, f (applySlot r dv) = f r) (r : PtPaxosReplica) :
    f r.applyLoop = f r :=
  applyUpTo_same h

theorem catchUp_same (h : ∀ r dv, f (processSlot r dv) = f r) (best : PaxosMessage)
    (r : PtPaxosReplica) : f (r.catchUp best) = f r :=
  applyUpTo_same h

/-- A field that neither the loop nor the two updates around it write. -/
theorem applyDecided_same (n i : Nat) (h : ∀ r dv, f (applySlot r dv) = f r)
    (hdecide : ∀ r, f (tryDecide n r) = f r) (htruncate : ∀ r, f (tryTruncate r) = f r)
    (r : PtPaxosReplica) : f (r.applyDecided n i) = f r := by
  have hloop : f (r.tryDecide n).applyLoop = f r := (applyLoop_same h _).trans (hdecide r)
  unfold applyDecided
  simp only
  split
  · rw [htruncate, hloop]
  · exact hloop

theorem stepDown_same
    (h : ∀ r round leader last,
      f { r with probeRound := round, leaderIndex := leader, lastLeaderMsg := last } = f r)
    (now : Nat) (msg : PaxosMessage) (r : PtPaxosReplica) : f (r.stepDown now msg) = f r := by
  unfold stepDown
  split
  · exact h r _ _ _
  · rfl

theorem recordAck_same (h : ∀ r acks, f { r with followerAckSlot := acks } = f r)
    (msg : PaxosMessage) (r : PtPaxosReplica) : f (r.recordAck msg) = f r := by
  unfold recordAck
  split
  · exact h r _
  · rfl

theorem install_same
    (h : ∀ r ack log base applied,
      f { r with ackRound := ack, log := log, logBase := base, appliedSlot := applied } = f r)
    (msg : PaxosMessage) (r : PtPaxosReplica) : f (r.install msg) = f r := by
  simp only [install]
  split <;> split <;> exact h r _ _ _ _

/-- A field that the handler of PROPOSE does not write. -/
theorem acceptPropose_same (n i : Nat) (happly : ∀ r dv, f (applySlot r dv) = f r)
    (h : ∀ r ack log base applied decided last,
      f { r with ackRound := ack, log := log, logBase := base, appliedSlot := applied,
                 decidedSlot := decided, lastLeaderMsg := last } = f r)
    (now : Nat) (msg : PaxosMessage) (r : PtPaxosReplica) :
    f (r.acceptPropose n i now msg) = f r := by
  have hinstall : f (r.install msg) = f r := install_same (fun r _ _ _ _ => h r _ _ _ _ _ _) msg r
  have happly := applyDecided_same n i happly (fun r => h r _ _ _ _ _ _)
    (fun r => h r _ _ _ _ _ _) { r.install msg with
      decidedSlot := max (r.install msg).decidedSlot msg.decidedSlot, lastLeaderMsg := now }
  exact (h _ _ _ _ _ _ _).trans (happly.trans ((h _ _ _ _ _ _ _).trans hinstall))

end Same

@[simp] theorem applyLoop_log (r : PtPaxosReplica) : r.applyLoop.log = r.log :=
  applyLoop_same (fun _ _ => rfl) r

@[simp] theorem applyLoop_logBase (r : PtPaxosReplica) : r.applyLoop.logBase = r.logBase :=
  applyLoop_same (fun _ _ => rfl) r

@[simp] theorem applyLoop_followerAckSlot (r : PtPaxosReplica) :
    r.applyLoop.followerAckSlot = r.followerAckSlot :=
  applyLoop_same (f := (·.followerAckSlot)) (fun _ _ => rfl) r

@[simp] theorem applyLoop_leaderIndex (r : PtPaxosReplica) :
    r.applyLoop.leaderIndex = r.leaderIndex :=
  applyLoop_same (f := (·.leaderIndex)) (fun _ _ => rfl) r

@[simp] theorem catchUp_decidedSlot (best : PaxosMessage) (r : PtPaxosReplica) :
    (r.catchUp best).decidedSlot = r.decidedSlot :=
  catchUp_same (f := (·.decidedSlot)) (fun _ _ => rfl) best r

/-- The invariant rule of `apply_decided`. Only a leader truncates. -/
theorem applyDecided_induct {P : PtPaxosReplica → Prop} {n i : Nat} {r : PtPaxosReplica}
    (hdecide : P (r.tryDecide n))
    (hslot : ∀ r dv, P r → r.log[r.appliedSlot - r.logBase]? = some dv → P (applySlot r dv))
    (htruncate : i = r.leaderIndex → P (r.tryDecide n).applyLoop →
      P (r.tryDecide n).applyLoop.tryTruncate) : P (r.applyDecided n i) := by
  have hloop : P (r.tryDecide n).applyLoop :=
    applyUpTo_induct hdecide fun r dv h _ hdv => hslot r dv h hdv
  unfold applyDecided
  simp only
  split
  · rename_i hl
    rw [applyLoop_leaderIndex] at hl
    exact htruncate hl hloop
  · exact hloop

/-- The invariant rule of the handler of PROPOSE. -/
theorem acceptPropose_induct {P : PtPaxosReplica → Prop} {n i now : Nat} {msg : PaxosMessage}
    {r : PtPaxosReplica}
    (hinstall : P { r.install msg with
      decidedSlot := max (r.install msg).decidedSlot msg.decidedSlot, lastLeaderMsg := now })
    (happly : ∀ r, P r → P (r.applyDecided n i))
    (htruncate : ∀ r, P r → P (r.truncateFollower msg.truncationSlot)) :
    P (r.acceptPropose n i now msg) :=
  htruncate _ (happly _ hinstall)

/-! ## The fields `apply_decided` leaves alone -/

section Fields

variable (n i : Nat) (r : PtPaxosReplica)

@[simp] theorem applyDecided_leaderIndex :
    (r.applyDecided n i).leaderIndex = r.leaderIndex :=
  applyDecided_same (f := (·.leaderIndex)) n i (fun _ _ => rfl) (fun _ => rfl) (fun _ => rfl) r

@[simp] theorem applyDecided_nextSlot : (r.applyDecided n i).nextSlot = r.nextSlot :=
  applyDecided_same (f := (·.nextSlot)) n i (fun _ _ => rfl) (fun _ => rfl) (fun _ => rfl) r

@[simp] theorem applyDecided_followerAckSlot :
    (r.applyDecided n i).followerAckSlot = r.followerAckSlot :=
  applyDecided_same (f := (·.followerAckSlot)) n i (fun _ _ => rfl) (fun _ => rfl)
    (fun _ => rfl) r

@[simp] theorem applyDecided_probeRound : (r.applyDecided n i).probeRound = r.probeRound :=
  applyDecided_same (f := (·.probeRound)) n i (fun _ _ => rfl) (fun _ => rfl) (fun _ => rfl) r

@[simp] theorem applyDecided_ackRound : (r.applyDecided n i).ackRound = r.ackRound :=
  applyDecided_same (f := (·.ackRound)) n i (fun _ _ => rfl) (fun _ => rfl) (fun _ => rfl) r

@[simp] theorem applyDecided_electionRound :
    (r.applyDecided n i).electionRound = r.electionRound :=
  applyDecided_same (f := (·.electionRound)) n i (fun _ _ => rfl) (fun _ => rfl)
    (fun _ => rfl) r

@[simp] theorem applyDecided_prepareResponses :
    (r.applyDecided n i).prepareResponses = r.prepareResponses :=
  applyDecided_same (f := (·.prepareResponses)) n i (fun _ _ => rfl) (fun _ => rfl)
    (fun _ => rfl) r

@[simp] theorem applyDecided_runFrame : (r.applyDecided n i).runFrame = r.runFrame :=
  applyDecided_same (f := (·.runFrame)) n i (fun _ _ => rfl) (fun _ => rfl) (fun _ => rfl) r

@[simp] theorem applyDecided_adoptions : (r.applyDecided n i).adoptions = r.adoptions :=
  applyDecided_same (f := (·.adoptions)) n i (fun _ _ => rfl) (fun _ => rfl) (fun _ => rfl) r

end Fields

/-! ## The fields a replica keeps when it steps down -/

section Fields

variable (now : Nat) (msg : PaxosMessage) (r : PtPaxosReplica)

@[simp] theorem stepDown_electionRound :
    (r.stepDown now msg).electionRound = r.electionRound :=
  stepDown_same (f := (·.electionRound)) (fun _ _ _ _ => rfl) now msg r

@[simp] theorem stepDown_prepareResponses :
    (r.stepDown now msg).prepareResponses = r.prepareResponses :=
  stepDown_same (f := (·.prepareResponses)) (fun _ _ _ _ => rfl) now msg r

@[simp] theorem stepDown_runFrame : (r.stepDown now msg).runFrame = r.runFrame :=
  stepDown_same (f := (·.runFrame)) (fun _ _ _ _ => rfl) now msg r

@[simp] theorem stepDown_ackRound : (r.stepDown now msg).ackRound = r.ackRound :=
  stepDown_same (f := (·.ackRound)) (fun _ _ _ _ => rfl) now msg r

@[simp] theorem stepDown_logEnd : (r.stepDown now msg).logEnd = r.logEnd :=
  stepDown_same (f := logEnd) (fun _ _ _ _ => rfl) now msg r

@[simp] theorem stepDown_calls : (r.stepDown now msg).calls = r.calls :=
  stepDown_same (f := (·.calls)) (fun _ _ _ _ => rfl) now msg r

@[simp] theorem stepDown_appliedSlot : (r.stepDown now msg).appliedSlot = r.appliedSlot :=
  stepDown_same (f := (·.appliedSlot)) (fun _ _ _ _ => rfl) now msg r

@[simp] theorem stepDown_adoptions : (r.stepDown now msg).adoptions = r.adoptions :=
  stepDown_same (f := (·.adoptions)) (fun _ _ _ _ => rfl) now msg r

end Fields

/-! ## Turns -/

/-- The ways `ev` can take the replica `r` to the next suspension point. -/
inductive Turn (n i : Nat) (r : PtPaxosReplica) :
    LocalEvent → PtPaxosReplica × List Packet → Prop
  /-- a stale message, or one that nobody waits for -/
  | ignore {msg : PaxosMessage} {now : Nat} (hrecv : r.runFrame = .receiving) :
      Turn n i r (.receive msg now) (r.stepDown now msg, [])
  | probe {msg : PaxosMessage} {now : Nat} (hrecv : r.runFrame = .receiving)
      (htype : msg.type = .probe) (hround : r.probeRound ≤ msg.round) :
      Turn n i r (.receive msg now)
        ({ r.stepDown now msg with runFrame := .replying },
          [(msg.sender, (r.stepDown now msg).prepareMsg i msg.round)])
  | vote {msg : PaxosMessage} {now : Nat} (hrecv : r.runFrame = .receiving)
      (htype : msg.type = .prepare) (hround : r.probeRound ≤ msg.round)
      (helection : msg.round = r.electionRound)
      (hfew : r.prepareResponses.length + 1 ≠ quorum n) :
      Turn n i r (.receive msg now) ((r.stepDown now msg).addResponse msg, [])
  | elect {msg best : PaxosMessage} {now : Nat} (hrecv : r.runFrame = .receiving)
      (htype : msg.type = .prepare) (hround : r.probeRound ≤ msg.round)
      (helection : msg.round = r.electionRound)
      (hquorum : r.prepareResponses.length + 1 = quorum n)
      (hbest : maxElement (r.prepareResponses ++ [msg]) = some best) :
      Turn n i r (.receive msg now)
        ((((r.stepDown now msg).addResponse msg).adopt i best).runSendPropose n i 0)
  /-- the leader's branch: an ACK is recorded, any other message only makes
  the leader apply what is decided -/
  | ack {msg : PaxosMessage} {now : Nat} (hrecv : r.runFrame = .receiving)
      (htype : msg.type = .ack ∨ msg.type = .propose) (hround : r.probeRound ≤ msg.round)
      (hleader : i = (r.stepDown now msg).leaderIndex) :
      Turn n i r (.receive msg now) ((r.stepDown now msg).handleAck n i msg, [])
  | stale {msg : PaxosMessage} {now : Nat} (hrecv : r.runFrame = .receiving)
      (htype : msg.type = .propose) (hround : r.probeRound ≤ msg.round)
      (hfollower : i ≠ (r.stepDown now msg).leaderIndex)
      (hstale : (r.stepDown now msg).staleProposal msg = true) :
      Turn n i r (.receive msg now)
        ({ r.stepDown now msg with leaderIndex := msg.sender, lastLeaderMsg := now }.reply i msg)
  | accept {msg : PaxosMessage} {now : Nat} (hrecv : r.runFrame = .receiving)
      (htype : msg.type = .propose) (hround : r.probeRound ≤ msg.round)
      (hfollower : i ≠ (r.stepDown now msg).leaderIndex)
      (hfresh : (r.stepDown now msg).staleProposal msg = false) :
      Turn n i r (.receive msg now)
        (({ r.stepDown now msg with leaderIndex := msg.sender }.acceptPropose n i now msg).reply
          i msg)
  | quiet {now : Nat} : Turn n i r (.timeout now) (r, [])
  | retransmit {now : Nat} (hrecv : r.runFrame = .receiving) (hleader : i = r.leaderIndex) :
      Turn n i r (.timeout now) (r.runSendPropose n i 0)
  | start {now : Nat} (hrecv : r.runFrame = .receiving) (hfollower : i ≠ r.leaderIndex) :
      Turn n i r (.timeout now) (r.startElection n i)
  | refuse {req : Request} {nowUnix : Int} (hfollower : i ≠ r.leaderIndex) :
      Turn n i r (.propose req nowUnix)
        ({ r with refused := r.refused ++ [(req, notLeader req)] }, [])
  | append {req : Request} {nowUnix : Int} (hleader : i = r.leaderIndex) :
      Turn n i r (.propose req nowUnix)
        ((r.appendCall i nowUnix req).callSendPropose n i r.calls.length 0)
  | replied (hframe : r.runFrame = .replying) :
      Turn n i r .resumeRun ({ r with runFrame := .receiving }, [])
  | probing {k : Nat} (hframe : r.runFrame = .probing k) :
      Turn n i r .resumeRun (r.runProbe n i k)
  | proposing {k : Nat} (hframe : r.runFrame = .proposing k) :
      Turn n i r .resumeRun (r.runSendPropose n i k)
  | sending {c k : Nat} {call : Call} (hcall : r.calls[c]? = some call)
      (hframe : call.frame = .sending k) :
      Turn n i r (.resumeCall c) (r.callSendPropose n i c k)
  | finish {c : Nat} {call : Call} (hcall : r.calls[c]? = some call)
      (hframe : call.frame = .waiting) (hdone : call.pending.done = true) :
      Turn n i r (.resumeCall c) (r.finishCall c, [])

theorem maxElement_isSome {l : List PaxosMessage} (h : l ≠ []) : ∃ m, maxElement l = some m := by
  cases l with
  | nil => exact absurd rfl h
  | cons m ms => exact ⟨_, rfl⟩

theorem handlePrepare_turn {n i now : Nat} {msg : PaxosMessage} {r : PtPaxosReplica}
    (hrecv : r.runFrame = .receiving) (htype : msg.type = .prepare)
    (hround : r.probeRound ≤ msg.round) :
    Turn n i r (.receive msg now) ((r.stepDown now msg).handlePrepare n i msg) := by
  unfold handlePrepare
  split
  · rename_i helection
    rw [stepDown_electionRound] at helection
    have hlen : ((r.stepDown now msg).addResponse msg).prepareResponses
        = r.prepareResponses ++ [msg] := by
      rw [addResponse, stepDown_prepareResponses]
    simp only [hlen, List.length_append, List.length_singleton]
    split
    · rename_i hquorum
      obtain ⟨best, hbest⟩ := maxElement_isSome (l := r.prepareResponses ++ [msg]) (by simp)
      rw [becomeLeader, hlen, hbest]
      exact .elect hrecv htype hround helection.1 hquorum hbest
    · rename_i hfew
      exact .vote hrecv htype hround helection.1 hfew
  · exact .ignore hrecv

theorem handleMessage_turn {n i now : Nat} {msg : PaxosMessage} {r : PtPaxosReplica}
    (hrecv : r.runFrame = .receiving) :
    Turn n i r (.receive msg now) (r.handleMessage n i now msg) := by
  unfold handleMessage
  simp only
  split
  · exact .ignore hrecv
  rename_i hstale
  have hround : r.probeRound ≤ msg.round := by
    unfold stepDown at hstale
    split at hstale
    · omega
    · omega
  split
  · rename_i htype
    exact .probe hrecv htype hround
  · rename_i htype
    exact handlePrepare_turn hrecv htype hround
  · rename_i htype
    split
    · rename_i hleader
      exact .ack hrecv (.inl htype) hround hleader
    · exact .ignore hrecv
  · rename_i htype
    split
    · rename_i hleader
      exact .ack hrecv (.inr htype) hround hleader
    · rename_i hfollower
      unfold handlePropose
      simp only
      split
      · rename_i hs
        exact .stale hrecv htype hround hfollower hs
      · rename_i hs
        exact .accept hrecv htype hround hfollower (Bool.eq_false_iff.mpr hs)

/-- `Turn` covers every step of a replica. -/
theorem localStep_turn {n i : Nat} {r : PtPaxosReplica} {ev : LocalEvent}
    {x : PtPaxosReplica × List Packet} (h : localStep n i r ev = some x) : Turn n i r ev x := by
  cases ev with
  | receive msg now =>
      simp only [localStep, Option.ite_none_right_eq_some, Option.some.injEq] at h
      obtain ⟨hrecv, rfl⟩ := h
      exact handleMessage_turn hrecv
  | timeout now =>
      simp only [localStep, Option.ite_none_right_eq_some, Option.some.injEq] at h
      obtain ⟨hrecv, rfl⟩ := h
      unfold handleTimeout
      split
      · rename_i hleader
        exact .retransmit hrecv hleader
      · rename_i hfollower
        split
        · exact .start hrecv hfollower
        · exact .quiet
  | propose req nowUnix =>
      simp only [localStep, Option.some.injEq] at h
      subst h
      unfold proposeAndApply
      split
      · rename_i hfollower
        exact .refuse hfollower
      · rename_i hleader
        exact .append (not_not.mp hleader)
  | resumeRun =>
      simp only [localStep, PtPaxosReplica.resumeRun] at h
      split at h
      · cases h
      · rename_i hframe
        obtain rfl := Option.some.inj h
        exact .replied hframe
      · rename_i k hframe
        obtain rfl := Option.some.inj h
        exact .probing hframe
      · rename_i k hframe
        obtain rfl := Option.some.inj h
        exact .proposing hframe
  | resumeCall c =>
      simp only [localStep, PtPaxosReplica.resumeCall] at h
      split at h
      · cases h
      · rename_i call hcall
        split at h
        · rename_i k hframe
          obtain rfl := Option.some.inj h
          exact .sending hcall hframe
        · rename_i hframe
          simp only [Option.ite_none_right_eq_some, Option.some.injEq] at h
          obtain ⟨hdone, rfl⟩ := h
          exact .finish hcall hframe hdone
        · cases h

/-! ## Updates of the calls only -/

theorem finishCall_induct {P : PtPaxosReplica → Prop} {r : PtPaxosReplica} (h0 : P r)
    (hcalls : ∀ pend calls, P { r with pendingResponses := pend, calls := calls }) (c : Nat) :
    P (r.finishCall c) := by
  unfold finishCall
  split
  · exact h0
  · exact hcalls _ _

theorem awaitCall_induct {P : PtPaxosReplica → Prop} {r : PtPaxosReplica} (h0 : P r)
    (hcalls : ∀ pend calls, P { r with pendingResponses := pend, calls := calls }) (c : Nat) :
    P (r.awaitCall c) := by
  unfold awaitCall
  split
  · exact h0
  · split
    · exact hcalls r.pendingResponses _
    · exact finishCall_induct h0 hcalls c

/-! ## Sending proposals -/

section Sending

variable {P : PtPaxosReplica → Prop} {n i : Nat} {r : PtPaxosReplica}

theorem runSendPropose_induct (h0 : P r) (happly : P r → P (r.applyDecided n i))
    (hframe : ∀ r frame, P r → P { r with runFrame := frame }) (k : Nat) :
    P (r.runSendPropose n i k).1 := by
  unfold runSendPropose
  split
  · exact hframe _ _ h0
  · exact hframe _ _ (happly h0)

theorem callSendPropose_induct (h0 : P r) (happly : P r → P (r.applyDecided n i))
    (hcalls : ∀ r pend calls, P r → P { r with pendingResponses := pend, calls := calls })
    (c k : Nat) : P (r.callSendPropose n i c k).1 := by
  unfold callSendPropose
  split
  · exact hcalls r r.pendingResponses _ h0
  · exact awaitCall_induct (happly h0) (fun _ _ => hcalls _ _ _ (happly h0)) c

end Sending

theorem runSendPropose_same {α : Type*} {f : PtPaxosReplica → α} (n i k : Nat)
    (happly : ∀ r, f (r.applyDecided n i) = f r)
    (hframe : ∀ r frame, f { r with runFrame := frame } = f r) (r : PtPaxosReplica) :
    f (r.runSendPropose n i k).1 = f r :=
  runSendPropose_induct (P := fun r' => f r' = f r) rfl (fun _ => happly r)
    (fun _ _ h => (hframe _ _).trans h) k

theorem callSendPropose_same {α : Type*} {f : PtPaxosReplica → α} (n i c k : Nat)
    (happly : ∀ r, f (r.applyDecided n i) = f r)
    (hcalls : ∀ r pend calls, f { r with pendingResponses := pend, calls := calls } = f r)
    (r : PtPaxosReplica) : f (r.callSendPropose n i c k).1 = f r :=
  callSendPropose_induct (P := fun r' => f r' = f r) rfl (fun _ => happly r)
    (fun _ _ _ h => (hcalls _ _ _).trans h) c k

/-! ## The PROBE loop -/

/-- `start_election` leaves the replica waiting for responses, unless it is a
quorum by itself. -/
theorem runProbe_induct {P : PtPaxosReplica → Prop} {n i : Nat} {r : PtPaxosReplica}
    (hwait : ∀ frame responses, P { r with runFrame := frame, prepareResponses := responses })
    (helect : ∀ best,
      maxElement (r.prepareResponses ++ [r.prepareMsg i r.electionRound]) = some best →
      P (((r.addResponse (r.prepareMsg i r.electionRound)).adopt i best).runSendPropose n i 0).1)
    (k : Nat) : P (r.runProbe n i k).1 := by
  unfold runProbe
  split
  · exact hwait _ r.prepareResponses
  · simp only
    split
    · unfold becomeLeader
      split
      · rename_i best hbest
        exact helect best hbest
      · exact hwait _ _
    · exact hwait _ _

end PtPaxosReplica

/-! ## Steps of the group -/

namespace System

open PtPaxosReplica

/-- The packet an event of replica `i` takes off the network. -/
def received (i : Nat) : LocalEvent → List Packet
  | .receive msg _ => [(i, msg)]
  | _ => []

theorem target_perm {s : System} {e : Event} {i : Nat} {ev : LocalEvent} {rest : List Packet}
    (h : s.target e = some (i, ev, rest)) : s.network.Perm (received i ev ++ rest) := by
  cases e with
  | deliver k now =>
      simp only [target] at h
      split at h
      · cases h
      · rename_i p hp
        obtain ⟨hk, rfl⟩ := List.getElem?_eq_some_iff.mp hp
        simp only [Option.some.injEq, Prod.mk.injEq] at h
        obtain ⟨rfl, rfl, rfl⟩ := h
        exact (List.getElem_cons_eraseIdx_perm hk).symm
  | lose k => cases h
  | _ =>
      simp only [target, Option.some.injEq, Prod.mk.injEq] at h
      obtain ⟨rfl, rfl, rfl⟩ := h
      exact .refl _

/-- A step loses a packet or is a turn of one replica. -/
theorem step_cases {n : Nat} {s s' : System} {e : Event} (h : s.step n e = some s') :
    (∃ k p, e = .lose k ∧ s.network.Perm (p :: s'.network) ∧ s'.replicas = s.replicas)
    ∨ ∃ i ev rest x, i < n ∧ s.target e = some (i, ev, rest)
      ∧ localStep n i (s.replicas i) ev = some x
      ∧ s' = ⟨Function.update s.replicas i x.1, rest ++ x.2⟩ := by
  unfold step at h
  split at h
  · rename_i i ev rest htarget
    split at h
    · rename_i hi
      split at h
      · rename_i r sent hlocal
        exact .inr ⟨i, ev, rest, (r, sent), hi, htarget, hlocal, (Option.some.inj h).symm⟩
      · cases h
    · cases h
  · split at h
    · rename_i k _
      split at h
      · rename_i hk
        obtain rfl := Option.some.inj h
        exact .inl ⟨k, s.network[k], rfl, (List.getElem_cons_eraseIdx_perm hk).symm, rfl⟩
      · cases h
    · cases h

section Invariant

variable {n : Nat} {P : Nat → PtPaxosReplica → Prop} {M : Packet → Prop}

/-- A property of each replica and one of each packet in flight are kept by a
step if a turn keeps them; the turn may use those of its replica and of the
packet it receives. -/
theorem step_invariant {s s' : System} {e : Event}
    (hturn : ∀ {i ev rest x}, i < n → s.target e = some (i, ev, rest) → P i (s.replicas i) →
      (∀ p ∈ received i ev, M p) → localStep n i (s.replicas i) ev = some x →
      P i x.1 ∧ ∀ p ∈ x.2, M p)
    (h : (∀ i < n, P i (s.replicas i)) ∧ ∀ p ∈ s.network, M p) (hstep : s.step n e = some s') :
    (∀ i < n, P i (s'.replicas i)) ∧ ∀ p ∈ s'.network, M p := by
  obtain ⟨hP, hM⟩ := h
  rcases step_cases hstep with ⟨k, p, -, hperm, hsame⟩ | ⟨i, ev, rest, x, hi, htarget, hlocal,
    rfl⟩
  · refine ⟨fun i hi => hsame ▸ hP i hi, fun q hq => hM q ?_⟩
    exact hperm.mem_iff.mpr (List.mem_cons_of_mem _ hq)
  · have hperm := target_perm htarget
    obtain ⟨hP', hM'⟩ := hturn hi htarget (hP i hi)
      (fun p hp => hM p (hperm.mem_iff.mpr (List.mem_append_left _ hp))) hlocal
    refine ⟨?_, ?_⟩
    · intro j hj
      by_cases hji : j = i
      · subst hji
        simpa using hP'
      · simpa [hji] using hP j hj
    · intro q hq
      rcases List.mem_append.mp hq with hq | hq
      · exact hM q (hperm.mem_iff.mpr (List.mem_append_right _ hq))
      · exact hM' q hq

end Invariant

end System

end Tmgr
