import Tmgr.ElectionSafety
import Tmgr.Rendezvous

/-!
# Where the entries of a log come from

Paxos invents nothing: what a replica holds, sends or applies for a slot was
appended for that slot by a call of `propose_and_apply`, and by a client. The
invariant `Sourced` is about one replica and any relation `K` between slots
and values; a turn keeps it if the packets it receives have it and `K` covers
the value that the turn appends (`Turn.sourced`). For runs, `K` is what the
calls of the group have appended so far.
-/

namespace Tmgr

namespace PtPaxosReplica

/-- The values from slot `base` on are each one that `K` has for its slot. -/
def EntriesIn (K : Nat → DecidedValue → Prop) (base : Nat) (values : List DecidedValue) : Prop :=
  ∀ k v, values[k]? = some v → K (base + k) v

section Entries

variable {K K' : Nat → DecidedValue → Prop} {base : Nat} {values : List DecidedValue}

theorem EntriesIn.mono (h : EntriesIn K base values) (hle : ∀ k v, K k v → K' k v) :
    EntriesIn K' base values :=
  fun k v hk => hle _ _ (h k v hk)

theorem EntriesIn.drop (h : EntriesIn K base values) (k : Nat) :
    EntriesIn K (base + k) (values.drop k) := by
  intro j v hj
  rw [List.getElem?_drop] at hj
  rw [Nat.add_assoc]
  exact h _ v hj

theorem EntriesIn.take (h : EntriesIn K base values) (k : Nat) :
    EntriesIn K base (values.take k) := by
  intro j v hj
  rw [List.getElem?_take] at hj
  split at hj
  · exact h j v hj
  · cases hj

theorem EntriesIn.concat (h : EntriesIn K base values) {v : DecidedValue}
    (hv : K (base + values.length) v) : EntriesIn K base (values ++ [v]) := by
  intro k w hk
  rcases getElem?_concat_cases hk with hk | ⟨rfl, rfl⟩
  · exact h k w hk
  · exact hv

theorem EntriesIn.writeValues {s : Nat} {vs log : List DecidedValue}
    (hlog : EntriesIn K base log) (hvs : EntriesIn K s vs) :
    EntriesIn K base (writeValues base s vs log) := by
  induction vs generalizing s log with
  | nil => exact hlog
  | cons v vs ih =>
      have hv : K s v := hvs 0 v rfl
      have hrest : EntriesIn K (s + 1) vs := by
        intro k w hk
        have := hvs (k + 1) w hk
        rwa [← Nat.add_assoc, Nat.add_right_comm] at this
      refine ih ?_ hrest
      split
      · exact hlog
      · rename_i hbase
        split
        · rename_i hlt
          intro k w hk
          by_cases heq : s - base = k
          · subst heq
            rw [List.getElem?_set_self hlt, Option.some.injEq] at hk
            rwa [Nat.add_sub_cancel' (Nat.not_lt.mp hbase), ← hk]
          · rw [List.getElem?_set_ne heq] at hk
            exact hlog k w hk
        · split
          · rename_i hend
            refine hlog.concat ?_
            rwa [← hend, Nat.add_sub_cancel' (Nat.not_lt.mp hbase)]
          · exact hlog

end Entries

/-- Everything a replica holds or has applied for a slot is in `K`. -/
structure Sourced (K : Nat → DecidedValue → Prop) (r : PtPaxosReplica) : Prop where
  log : EntriesIn K r.logBase r.log
  responses : ∀ m ∈ r.prepareResponses, EntriesIn K m.slot m.values
  processed : ∀ p ∈ r.processed, K p.slot p.dv

variable {n i : Nat} {r : PtPaxosReplica} {K K' : Nat → DecidedValue → Prop}

theorem Sourced.mono (h : Sourced K r) (hle : ∀ k v, K k v → K' k v) : Sourced K' r where
  log := h.log.mono hle
  responses m hm := (h.responses m hm).mono hle
  processed p hp := hle _ _ (h.processed p hp)

theorem initial_sourced (K : Nat → DecidedValue → Prop) (n : Nat) (onApply : Bool) :
    Sourced K (PtPaxosReplica.initial n onApply) where
  log k v hk := by simp [PtPaxosReplica.initial] at hk
  responses m hm := by simp [PtPaxosReplica.initial] at hm
  processed p hp := by simp [PtPaxosReplica.initial] at hp

theorem Sourced.stepDown (h : Sourced K r) (now : Nat) (msg : PaxosMessage) :
    Sourced K (r.stepDown now msg) := by
  unfold PtPaxosReplica.stepDown
  split
  · exact { h with }
  · exact h

/-! ## Applying -/

theorem Sourced.processSlot (h : Sourced K r) (hbase : r.logBase ≤ r.appliedSlot)
    {dv : DecidedValue} (hdv : r.log[r.appliedSlot - r.logBase]? = some dv) :
    Sourced K (r.processSlot dv) where
  log := h.log
  responses := h.responses
  processed p hp := by
    rcases List.mem_append.mp hp with hp | hp
    · exact h.processed p hp
    · obtain rfl := List.mem_singleton.mp hp
      have := h.log _ dv hdv
      rwa [Nat.add_sub_cancel' hbase] at this

theorem Sourced.applyLoop (h : Sourced K r) (hbase : r.logBase ≤ r.appliedSlot) :
    Sourced K r.applyLoop := by
  refine (applyUpTo_induct (P := fun r => Sourced K r ∧ r.logBase ≤ r.appliedSlot)
    ⟨h, hbase⟩ ?_).1
  rintro r dv ⟨h, hbase⟩ _ hdv
  exact ⟨{ h.processSlot hbase hdv with }, hbase.trans (Nat.le_succ _)⟩

theorem Sourced.catchUp (h : Sourced K r) (hbase : r.logBase ≤ r.appliedSlot)
    (best : PaxosMessage) : Sourced K (r.catchUp best) := by
  refine (applyUpTo_induct (P := fun r => Sourced K r ∧ r.logBase ≤ r.appliedSlot)
    ⟨h, hbase⟩ ?_).1
  rintro r dv ⟨h, hbase⟩ _ hdv
  exact ⟨h.processSlot hbase hdv, hbase.trans (Nat.le_succ _)⟩

theorem Sourced.tryTruncate (h : Sourced K r) : Sourced K r.tryTruncate where
  log := by
    have hdrop := h.log.drop (r.followerAckSlot.min?.getD 0 - r.logBase)
    rwa [show r.logBase + (r.followerAckSlot.min?.getD 0 - r.logBase)
      = max r.logBase (r.followerAckSlot.min?.getD 0) by omega] at hdrop
  responses := h.responses
  processed := h.processed

theorem Sourced.applyDecided (h : Sourced K r) (hbase : r.logBase ≤ r.appliedSlot) :
    Sourced K (r.applyDecided n i) := by
  have hdecide : Sourced K (r.tryDecide n) := { h with }
  have hloop := hdecide.applyLoop hbase
  unfold PtPaxosReplica.applyDecided
  simp only
  split
  · exact hloop.tryTruncate
  · exact hloop

/-! ## Writing the log -/

theorem Sourced.install (h : Sourced K r) {msg : PaxosMessage}
    (hmsg : EntriesIn K msg.slot msg.values) : Sourced K (r.install msg) where
  log := by
    have hempty : EntriesIn K msg.slot [] := fun k v hk => by simp at hk
    simp only [PtPaxosReplica.install]
    split <;> split
    · exact (hempty.writeValues hmsg).take _
    · exact (h.log.writeValues hmsg).take _
    · exact hempty.writeValues hmsg
    · exact h.log.writeValues hmsg
  responses m hm := by
    rw [install_same (f := (·.prepareResponses)) (fun _ _ _ _ _ => rfl) msg r] at hm
    exact h.responses m hm
  processed p hp := by
    rw [install_same (f := (·.processed)) (fun _ _ _ _ _ => rfl) msg r] at hp
    exact h.processed p hp

theorem Sourced.truncateFollower (h : Sourced K r) (t : Nat) :
    Sourced K (r.truncateFollower t) where
  log := h.log.drop _
  responses := h.responses
  processed := h.processed

theorem Sourced.acceptPropose (h : Sourced K r) (hinv : LogInv n i r) (hl : i ≠ r.leaderIndex)
    (now : Nat) {msg : PaxosMessage} (hmsg : EntriesIn K msg.slot msg.values) :
    Sourced K (r.acceptPropose n i now msg) := by
  have hinstall : Sourced K { r.install msg with
      decidedSlot := max (r.install msg).decidedSlot msg.decidedSlot, lastLeaderMsg := now } :=
    { h.install hmsg with }
  exact (hinstall.applyDecided (hinv.install hl msg).base_le).truncateFollower _

theorem Sourced.adopt (h : Sourced K r) (hbase : r.logBase ≤ r.appliedSlot) {best : PaxosMessage}
    (hbest : EntriesIn K best.slot best.values) : Sourced K (r.adopt i best) where
  log := hbest
  responses := (h.catchUp hbase best).responses
  processed := (h.catchUp hbase best).processed

theorem Sourced.appendCall (h : Sourced K r) (hnext : r.nextSlot = r.logEnd) (nowUnix : Int)
    (req : Request) (hK : K r.nextSlot ⟨nowUnix, req.base.agentId, req.base.serial, req⟩) :
    Sourced K (r.appendCall i nowUnix req) where
  log := h.log.concat (by rwa [hnext] at hK)
  responses := h.responses
  processed := h.processed

/-! ## Messages -/

theorem Sourced.proposeMsg (h : Sourced K r) (i j : Nat) :
    EntriesIn K (r.proposeMsg i j).slot (r.proposeMsg i j).values := by
  have hdrop := h.log.drop
    (max r.logBase (min (r.followerAckSlot.getD j 0) r.logEnd) - r.logBase)
  rwa [Nat.add_sub_cancel' (le_max_left _ _)] at hdrop

theorem Sourced.runSendPropose (h : Sourced K r) (hbase : r.logBase ≤ r.appliedSlot) (k : Nat) :
    Sourced K (r.runSendPropose n i k).1
      ∧ ∀ p ∈ (r.runSendPropose n i k).2, EntriesIn K p.2.slot p.2.values := by
  refine ⟨runSendPropose_induct h (fun h => h.applyDecided hbase) (fun _ _ h => { h with }) k, ?_⟩
  unfold PtPaxosReplica.runSendPropose
  split
  · simpa using h.proposeMsg i _
  · simp

theorem Sourced.callSendPropose (h : Sourced K r) (hbase : r.logBase ≤ r.appliedSlot)
    (c k : Nat) : Sourced K (r.callSendPropose n i c k).1
      ∧ ∀ p ∈ (r.callSendPropose n i c k).2, EntriesIn K p.2.slot p.2.values := by
  refine ⟨callSendPropose_induct h (fun h => h.applyDecided hbase)
    (fun _ _ _ h => { h with }) c k, ?_⟩
  unfold PtPaxosReplica.callSendPropose
  split
  · simpa using h.proposeMsg i _
  · simp

theorem Sourced.addResponse (h : Sourced K r) {msg : PaxosMessage}
    (hmsg : EntriesIn K msg.slot msg.values) : Sourced K (r.addResponse msg) :=
  { h with
    responses := fun m hm => by
      rcases List.mem_append.mp hm with hm | hm
      · exact h.responses m hm
      · exact List.mem_singleton.mp hm ▸ hmsg }

/-- A candidate adopts one of the logs it was sent, or its own. -/
theorem Sourced.elect (h : Sourced K r) (hbase : r.logBase ≤ r.appliedSlot)
    {msg best : PaxosMessage} (hmsg : EntriesIn K msg.slot msg.values)
    (hbest : maxElement (r.prepareResponses ++ [msg]) = some best) :
    Sourced K (((r.addResponse msg).adopt i best).runSendPropose n i 0).1
      ∧ ∀ p ∈ (((r.addResponse msg).adopt i best).runSendPropose n i 0).2,
        EntriesIn K p.2.slot p.2.values := by
  have hadd := h.addResponse hmsg
  have hadopt := hadd.adopt (i := i) hbase (hadd.responses best (maxElement_spec hbest).1)
  exact hadopt.runSendPropose (le_max_right _ _) 0

theorem Sourced.runProbe (h : Sourced K r) (hbase : r.logBase ≤ r.appliedSlot) (k : Nat) :
    Sourced K (r.runProbe n i k).1
      ∧ ∀ p ∈ (r.runProbe n i k).2, EntriesIn K p.2.slot p.2.values := by
  unfold PtPaxosReplica.runProbe
  split
  · refine ⟨{ h with }, ?_⟩
    rintro p hp
    obtain rfl := List.mem_singleton.mp hp
    exact fun j v hv => by simp [probeMsg] at hv
  · have hadd : Sourced K (r.addResponse (r.prepareMsg i r.electionRound)) :=
      h.addResponse h.log
    simp only
    split
    · unfold becomeLeader
      split
      · rename_i best hbest
        exact h.elect hbase h.log hbest
      · exact ⟨hadd, by simp⟩
    · exact ⟨hadd, by simp⟩

/-! ## Turns -/

/-- A turn sends and applies what the replica and its message had, and what
the turn appends. -/
theorem Turn.sourced {ev : LocalEvent} {x : PtPaxosReplica × List Packet}
    (ht : Turn n i r ev x) (hwf : Wf n i r) (h : Sourced K r)
    (hwfrec : ∀ p ∈ System.received i ev, PacketWf n p)
    (hrec : ∀ p ∈ System.received i ev, EntriesIn K p.2.slot p.2.values)
    (happend : ∀ req nowUnix, ev = .propose req nowUnix → i = r.leaderIndex →
      K r.nextSlot ⟨nowUnix, req.base.agentId, req.base.serial, req⟩) :
    Sourced K x.1 ∧ ∀ p ∈ x.2, EntriesIn K p.2.slot p.2.values := by
  have hmsg : ∀ {msg now}, ev = .receive msg now → EntriesIn K msg.slot msg.values := by
    rintro msg now rfl
    exact hrec (i, msg) (List.mem_singleton_self _)
  have hack : ∀ r : PtPaxosReplica, EntriesIn K (r.ackMsg i).slot (r.ackMsg i).values :=
    fun r k v hv => by simp [ackMsg] at hv
  have hdown : ∀ now msg, (r.stepDown now msg).logBase ≤ (r.stepDown now msg).appliedSlot := by
    intro now msg
    rw [stepDown_appliedSlot, stepDown_same (f := (·.logBase)) (fun _ _ _ _ => rfl)]
    exact hwf.base_le
  cases ht with
  | ignore => exact ⟨h.stepDown _ _, by simp⟩
  | @probe msg now =>
      refine ⟨{ h.stepDown now msg with }, ?_⟩
      intro p hp
      obtain rfl := List.mem_singleton.mp hp
      exact (h.stepDown now msg).log
  | @vote msg now =>
      refine ⟨(h.stepDown now msg).addResponse (hmsg rfl), by simp⟩
  | @elect msg best now hrecv htype hround helection hquorum hbest =>
      refine (h.stepDown now msg).elect (hdown now msg) (hmsg rfl) ?_
      rwa [stepDown_prepareResponses]
  | @ack msg now =>
      have hrecord : Sourced K ((r.stepDown now msg).recordAck msg)
          ∧ ((r.stepDown now msg).recordAck msg).logBase
            ≤ ((r.stepDown now msg).recordAck msg).appliedSlot := by
        unfold recordAck
        split
        · exact ⟨{ h.stepDown now msg with }, hdown now msg⟩
        · exact ⟨h.stepDown now msg, hdown now msg⟩
      exact ⟨hrecord.1.applyDecided hrecord.2, by simp⟩
  | @stale msg now =>
      refine ⟨{ h.stepDown now msg with }, ?_⟩
      intro p hp
      obtain rfl := List.mem_singleton.mp hp
      exact hack _
  | @accept msg now hrecv htype hround hfollower =>
      have hs := sender_ne_of_received rfl hwfrec
      have hfollow : Sourced K { r.stepDown now msg with leaderIndex := msg.sender } :=
        { h.stepDown now msg with }
      have hwf' := (hwf.stepDown now hs.sender_ne hrecv).follow
        ((stepDown_runFrame now msg r).trans hrecv) hs.sender_ne
      refine ⟨{ hfollow.acceptPropose hwf'.logInv hs.sender_ne.symm now (hmsg rfl) with }, ?_⟩
      intro p hp
      obtain rfl := List.mem_singleton.mp hp
      exact hack _
  | quiet => exact ⟨h, by simp⟩
  | retransmit => exact h.runSendPropose hwf.base_le 0
  | start =>
      have hpick : Sourced K (r.pickRound n i) := { h with responses := by simp [pickRound] }
      exact hpick.runProbe hwf.base_le 0
  | refuse => exact ⟨{ h with }, by simp⟩
  | @append req nowUnix hleader =>
      have hcall := h.appendCall (i := i) (hwf.next hleader) nowUnix req
        (happend req nowUnix rfl hleader)
      exact hcall.callSendPropose hwf.base_le _ 0
  | replied => exact ⟨{ h with }, by simp⟩
  | probing => exact h.runProbe hwf.base_le _
  | proposing => exact h.runSendPropose hwf.base_le _
  | sending => exact h.callSendPropose hwf.base_le _ _
  | finish => exact ⟨finishCall_induct h (fun _ _ => { h with }) _, by simp⟩

/-- A leader appends the request for its next slot. -/
theorem proposeAndApply_keys (hl : i = r.leaderIndex) (nowUnix : Int) (req : Request) :
    (r.proposeAndApply n i nowUnix req).1.keys
      = r.keys ++ [(r.nextSlot, ⟨nowUnix, req.base.agentId, req.base.serial, req⟩)] := by
  rw [proposeAndApply, if_neg (not_not.mpr hl), callSendPropose_keys]
  simp [keys, PtPaxosReplica.appendCall]

end PtPaxosReplica

/-! ## Runs -/

namespace System

open PtPaxosReplica

/-- A call at some replica appended `v` for `slot`. -/
def Appended (n : Nat) (s : System) (slot : Nat) (v : DecidedValue) : Prop :=
  ∃ i < n, (slot, v) ∈ (s.replicas i).keys

variable {n : Nat} {s s' : System} {e : Event}

theorem Appended.step {slot : Nat} {v : DecidedValue} (h : Appended n s slot v)
    (hstep : s.step n e = some s') : Appended n s' slot v := by
  obtain ⟨i, hi, hmem⟩ := h
  exact ⟨i, hi, (step_keys hstep i).subset hmem⟩

/-- What a step appends is among the calls after it. -/
theorem appended_propose {i : Nat} {req : Request} {nowUnix : Int}
    (hstep : s.step n (.propose i req nowUnix) = some s') (hl : i = (s.replicas i).leaderIndex) :
    i < n ∧ (s'.replicas i).keys = (s.replicas i).keys
      ++ [((s.replicas i).nextSlot, ⟨nowUnix, req.base.agentId, req.base.serial, req⟩)] := by
  obtain ⟨hi, rfl⟩ := step_propose hstep
  refine ⟨hi, ?_⟩
  simp only [Function.update_self]
  exact proposeAndApply_keys hl nowUnix req

theorem target_propose {i : Nat} {req : Request} {nowUnix : Int} {rest : List Packet}
    (h : s.target e = some (i, .propose req nowUnix, rest)) : e = .propose i req nowUnix := by
  cases e with
  | deliver k now =>
      simp only [target] at h
      split at h <;> cases h
  | _ => cases h <;> rfl

/-- The replicas and the packets in flight have appended entries only. -/
structure AllSourced (n : Nat) (s : System) : Prop where
  replicas : ∀ i < n, Sourced (Appended n s) (s.replicas i)
  packets : ∀ p ∈ s.network, EntriesIn (Appended n s) p.2.slot p.2.values

theorem AllSourced.step (h : AllSourced n s) (hwf : GroupWf n s) (hstep : s.step n e = some s') :
    AllSourced n s' := by
  have hold : (∀ i < n, Wf n i (s.replicas i) ∧ Sourced (Appended n s') (s.replicas i))
      ∧ ∀ p ∈ s.network, PacketWf n p ∧ EntriesIn (Appended n s') p.2.slot p.2.values :=
    ⟨fun i hi => ⟨hwf.1 i hi, (h.replicas i hi).mono fun _ _ h => h.step hstep⟩,
      fun p hp => ⟨hwf.2 p hp, (h.packets p hp).mono fun _ _ h => h.step hstep⟩⟩
  have hnew := step_invariant (P := fun i r => Wf n i r ∧ Sourced (Appended n s') r)
    (M := fun p => PacketWf n p ∧ EntriesIn (Appended n s') p.2.slot p.2.values)
    (fun {i ev rest x} hi htarget hP hM hlocal => by
    have ht := localStep_turn hlocal
    obtain ⟨hwf', hout⟩ := ht.wf hi hP.1 fun p hp => (hM p hp).1
    obtain ⟨hs', hout'⟩ := ht.sourced hP.1 hP.2 (fun p hp => (hM p hp).1)
      (fun p hp => (hM p hp).2) fun req nowUnix hev hl => by
        subst hev
        obtain rfl := target_propose htarget
        exact ⟨i, hi, (appended_propose hstep hl).2 ▸ by simp⟩
    exact ⟨⟨hwf', hs'⟩, fun p hp => ⟨hout p hp, hout' p hp⟩⟩) hold hstep
  exact ⟨fun i hi => (hnew.1 i hi).2, fun p hp => (hnew.2 p hp).2⟩

theorem run_sourced {onApply : Nat → Bool} {ok : System → Event → Prop}
    {tr : List (System × Event)} (hrun : PaxosRun n onApply ok tr s) : AllSourced n s := by
  have hinv := hrun.invariant (I := fun s => GroupWf n s ∧ AllSourced n s)
    ⟨initial_groupWf n onApply, fun i _ => initial_sourced _ n _, by simp [initial]⟩
    fun h _ hstep => ⟨h.1.step hstep, h.2.step h.1 hstep⟩
  exact hinv.2

/-- A client asked for `v` where replica `i` led and had `slot` next. -/
def Proposed (n : Nat) (tr : List (System × Event)) (slot : Nat) (v : DecidedValue) : Prop :=
  ∃ p ∈ tr, ∃ i < n, ∃ req nowUnix, p.2 = .propose i req nowUnix
    ∧ i = (p.1.replicas i).leaderIndex ∧ (p.1.replicas i).nextSlot = slot
    ∧ v = ⟨nowUnix, req.base.agentId, req.base.serial, req⟩

/-- Every call comes from a client. -/
theorem run_appended {onApply : Nat → Bool} {ok : System → Event → Prop}
    {tr : List (System × Event)} (hrun : PaxosRun n onApply ok tr s) {slot : Nat}
    {v : DecidedValue} (h : Appended n s slot v) : Proposed n tr slot v := by
  obtain ⟨i, hi, hmem⟩ := h
  induction hrun with
  | nil => simp [initial, keys, PtPaxosReplica.initial] at hmem
  | @snoc tr t t' e _ _ hstep ih =>
      have hold : (slot, v) ∈ (t.replicas i).keys → Proposed n (tr ++ [(t, e)]) slot v := by
        intro h
        obtain ⟨p, hp, hrest⟩ := ih h
        exact ⟨p, List.mem_append_left _ hp, hrest⟩
      rcases step_replica hstep i with hsame | ⟨ev, rest, x, -, htarget, hlocal, hx⟩
      · exact hold (hsame ▸ hmem)
      · rw [hx] at hmem
        rcases (localStep_turn hlocal).keys with heq | ⟨req, nowUnix, rfl, hl, heq⟩
        · exact hold (heq ▸ hmem)
        · rw [heq] at hmem
          rcases List.mem_append.mp hmem with hmem | hmem
          · exact hold hmem
          · obtain ⟨rfl, rfl⟩ := Prod.mk.inj (List.mem_singleton.mp hmem)
            exact ⟨(t, e), by simp, i, hi, req, nowUnix, target_propose htarget, hl, rfl, rfl⟩

/-- What any replica has in its log, has applied or is about to be sent for
some slot is what a client asked for, stamped and appended for that slot. -/
structure Integrity (n : Nat) (tr : List (System × Event)) (s : System) : Prop where
  log : ∀ i < n, ∀ k v, (s.replicas i).log[k]? = some v →
    Proposed n tr ((s.replicas i).logBase + k) v
  applied : ∀ i < n, ∀ p ∈ (s.replicas i).processed, Proposed n tr p.slot p.dv
  sent : ∀ p ∈ s.network, ∀ k v, p.2.values[k]? = some v → Proposed n tr (p.2.slot + k) v

/-- In every run, whatever the schedule. -/
theorem integrity (onApply : Nat → Bool) {tr : List (System × Event)}
    (hrun : PaxosRun n onApply (fun _ _ => True) tr s) : Integrity n tr s := by
  have hs := run_sourced hrun
  refine ⟨?_, ?_, ?_⟩
  · intro i hi k v hk
    exact run_appended hrun ((hs.replicas i hi).log k v hk)
  · intro i hi p hp
    exact run_appended hrun ((hs.replicas i hi).processed p hp)
  · intro p hp k v hk
    exact run_appended hrun (hs.packets p hp k v hk)

/-- Replica 1 accepts the value of a call at replica 0. -/
def valueAccepted : List Event :=
  [.propose 0 (.taskCreate { serial := 1, spec := { title := "a" } }) 10, .deliver 0 11,
   .resumeRun 1, .deliver 0 12]

theorem integrity_valueAccepted :
    Integrity 3 ((initial 3 fun _ => true).trace 3 valueAccepted)
      (((initial 3 fun _ => true).exec 3 valueAccepted).get (by decide +kernel)) :=
  integrity (fun _ => true) (Runs.run_of_exec valueAccepted (by decide +kernel) fun _ _ => trivial)

end System

end Tmgr
