import Tmgr.Rendezvous

/-!
# Callers that wait for a slot

`propose_and_apply` waits until `apply_decided` reaches its slot and triggers
whoever is registered for it in `pending_responses_`. `applied_slot_` also
advances in `become_leader` and where a PROPOSE leaves a gap, without looking
at the registrations, and a second call on the same slot takes the entry of
the first. `orphanedCaller` is a run in which a re-elected leader passes the
slot of its own waiting call that way. `no_orphaned_caller` is the converse:
while no log that begins past a waiting call's slot is installed, and no call
is made on the slot of another one that is still open, every call is resumed
as soon as its slot is passed.
-/

namespace Tmgr

namespace PtPaxosReplica

/-- How a call stands: registered for a slot still to be applied, past its
slot and resumed if it waited, or returned. -/
inductive AwaitOk (applied : Nat) (registered : Option Nat) (c : Nat) (call : Call) : Prop
  | pending (hopen : call.isReturned = false) (hdone : call.pending.done = false)
      (hslot : applied ≤ call.mySlot) (hreg : registered = some c)
  | passed (hslot : call.mySlot < applied)
      (hdone : call.frame = .waiting → call.pending.done = true)
  | returned (hret : call.isReturned = true)

structure Awaited (r : PtPaxosReplica) : Prop where
  calls : ∀ {c call}, r.calls[c]? = some call →
    AwaitOk r.appliedSlot (r.pendingResponses.lookup call.mySlot) c call
  registered : ∀ {slot c}, r.pendingResponses.lookup slot = some c →
    ∃ call, r.calls[c]? = some call ∧ call.mySlot = slot

variable {n i : Nat} {r r' : PtPaxosReplica}

theorem Awaited.toRegistered (h : Awaited r) : Registered r :=
  registered_iff.mpr h.registered

theorem initial_awaited (n : Nat) (onApply : Bool) :
    Awaited (PtPaxosReplica.initial n onApply) where
  calls h := by simp [PtPaxosReplica.initial] at h
  registered h := by simp [PtPaxosReplica.initial] at h

/-- `applied_slot_` advances, but not past the slot of a call that waits. -/
theorem Awaited.transfer (h : Awaited r) (hcalls : r'.calls = r.calls)
    (hpend : r'.pendingResponses = r.pendingResponses) (hslot : r.appliedSlot ≤ r'.appliedSlot)
    (hkeep : ∀ call ∈ r.unapplied, call.frame = .waiting → r'.appliedSlot ≤ call.mySlot) :
    Awaited r' where
  calls {c call} hc := by
    rw [hcalls] at hc
    rw [hpend]
    cases h.calls hc with
    | pending hopen hdone hle hreg =>
        rcases Nat.lt_or_ge call.mySlot r'.appliedSlot with hlt | hge
        · refine .passed hlt fun hw => ?_
          have hmem := mem_unapplied.mpr ⟨List.mem_of_getElem? hc, hopen, hle⟩
          exact absurd (hkeep call hmem hw) (Nat.not_le.mpr hlt)
        · exact .pending hopen hdone hge hreg
    | passed hlt hdone => exact .passed (hlt.trans_le hslot) hdone
    | returned hret => exact .returned hret
  registered := registered_iff.mp (h.toRegistered.congr (by rw [hcalls]) hpend)

theorem Awaited.stepDown (h : Awaited r) (now : Nat) (msg : PaxosMessage) :
    Awaited (r.stepDown now msg) := by
  unfold PtPaxosReplica.stepDown
  split
  · exact { h with }
  · exact h

/-! ## Applying -/

/-- The call registered for the slot is triggered; no other call waits for
it. -/
theorem Awaited.applySlot (h : Awaited r) (dv : DecidedValue) : Awaited (applySlot r dv) where
  calls {c call} hc := by
    have hnext := Nat.lt_succ_self r.appliedSlot
    rcases applySlot_call hc with ⟨hne, hc⟩ | ⟨hlook, old, hold, rfl⟩
    · cases h.calls hc with
      | pending hopen hdone hle hreg =>
          refine .pending hopen hdone (Nat.lt_of_le_of_ne hle fun heq => hne ?_) hreg
          rw [heq, hreg]
      | passed hlt hdone => exact .passed (hlt.trans hnext) hdone
      | returned hret => exact .returned hret
    · obtain ⟨call₀, hcall₀, hslot₀⟩ := h.registered hlook
      obtain rfl : call₀ = old := Option.some.inj (hcall₀.symm.trans hold)
      exact .passed (hslot₀.trans_lt hnext) fun _ => rfl
  registered := registered_iff.mp (h.toRegistered.congr (applySlot_slots r dv) rfl)

theorem Awaited.applyDecided (h : Awaited r) (n i : Nat) : Awaited (r.applyDecided n i) :=
  applyDecided_induct (P := Awaited) { h with } (fun _ dv h _ => h.applySlot dv)
    fun _ h => { h with }

theorem Awaited.runSendPropose (h : Awaited r) (n i k : Nat) :
    Awaited (r.runSendPropose n i k).1 :=
  runSendPropose_induct (P := Awaited) h (fun h => h.applyDecided n i) (fun _ _ h => { h with }) k

/-! ## Installing a log -/

/-- A log that does not begin past the slot of a waiting call. -/
theorem Awaited.install (h : Awaited r) {msg : PaxosMessage}
    (hkeep : r.logEnd < msg.slot → ∀ call ∈ r.unapplied, call.frame = .waiting →
      msg.slot ≤ call.mySlot) : Awaited (r.install msg) := by
  have hcalls : (r.install msg).calls = r.calls :=
    install_same (f := (·.calls)) (fun _ _ _ _ _ => rfl) msg r
  have hpend : (r.install msg).pendingResponses = r.pendingResponses :=
    install_same (f := (·.pendingResponses)) (fun _ _ _ _ _ => rfl) msg r
  rcases Nat.lt_or_ge r.logEnd msg.slot with hgap | hgap
  · have happlied := install_of_gap hgap
    refine h.transfer hcalls hpend (happlied ▸ le_max_left _ _) fun call hcall hw => ?_
    rw [happlied]
    exact max_le (mem_unapplied.mp hcall).2.2 (hkeep hgap call hcall hw)
  · have happlied := (install_of_no_gap hgap).1
    refine h.transfer hcalls hpend happlied.ge fun call hcall _ => ?_
    rw [happlied]
    exact (mem_unapplied.mp hcall).2.2

theorem Awaited.acceptPropose (h : Awaited r) (n i now : Nat) {msg : PaxosMessage}
    (hkeep : r.logEnd < msg.slot → ∀ call ∈ r.unapplied, call.frame = .waiting →
      msg.slot ≤ call.mySlot) : Awaited (r.acceptPropose n i now msg) :=
  acceptPropose_induct (P := Awaited) { h.install hkeep with } (fun _ h => h.applyDecided n i)
    fun _ h => { h with }

/-- `become_leader` applies its own entries below the log it adopts, and
triggers nobody. -/
theorem Awaited.adopt (h : Awaited r) (i : Nat) {best : PaxosMessage}
    (hkeep : ∀ call ∈ r.unapplied, call.frame = .waiting → best.slot ≤ call.mySlot) :
    Awaited (r.adopt i best) := by
  have hmono : r.appliedSlot ≤ (r.catchUp best).appliedSlot :=
    applyUpTo_appliedSlot_mono fun _ _ => rfl
  have hle : (r.catchUp best).appliedSlot ≤ max r.appliedSlot best.slot :=
    applyUpTo_appliedSlot_le fun _ _ => rfl
  have happlied : (r.adopt i best).appliedSlot = max (r.catchUp best).appliedSlot best.slot := rfl
  refine h.transfer (catchUp_same (f := (·.calls)) (fun _ _ => rfl) best r)
    (catchUp_same (f := (·.pendingResponses)) (fun _ _ => rfl) best r) (by omega) ?_
  intro call hcall hw
  have hslot := (mem_unapplied.mp hcall).2.2
  have hbest := hkeep call hcall hw
  omega

/-! ## The calls themselves -/

/-- One call changes, and its slot does not. -/
theorem Awaited.modify (h : Awaited r) {c : Nat} {f : Call → Call}
    (hslot : ∀ call, (f call).mySlot = call.mySlot)
    (hok : ∀ call, r.calls[c]? = some call →
      AwaitOk r.appliedSlot (r.pendingResponses.lookup call.mySlot) c (f call)) :
    Awaited { r with calls := r.calls.modify c f } where
  calls {c' call} hc := by
    rcases getElem?_modify_cases hc with ⟨rfl, old, hold, rfl⟩ | ⟨-, hold⟩
    · rw [hslot old]
      exact hok old hold
    · exact h.calls hold
  registered := registered_iff.mp (h.toRegistered.modify c hslot)

/-- A call that returns takes the entry of its slot with it, which has been
passed. -/
theorem Awaited.finishCall (h : Awaited r) {c : Nat} {call : Call}
    (hc : r.calls[c]? = some call) (hslot : call.mySlot < r.appliedSlot) :
    Awaited (r.finishCall c) := by
  have hmod : Awaited { r with
      calls := r.calls.modify c fun call =>
        { call with frame := .returned ⟨call.pending.resp, call.pending.nowUnix⟩ } } :=
    h.modify (fun _ => rfl) fun _ _ => .returned rfl
  refine ⟨fun {c' call'} hc' => ?_, registered_iff.mp (h.toRegistered.finishCall c)⟩
  simp only [PtPaxosReplica.finishCall, hc] at hc' ⊢
  cases hmod.calls hc' with
  | pending hopen' hdone' hle hreg =>
      refine .pending hopen' hdone' hle ?_
      rw [Finmap.lookup_erase_ne (Nat.ne_of_gt (hslot.trans_le hle))]
      exact hreg
  | passed hlt hdone => exact .passed hlt hdone
  | returned hret => exact .returned hret

theorem Awaited.awaitCall (h : Awaited r) {c k : Nat} {call : Call}
    (hc : r.calls[c]? = some call) (hframe : call.frame = .sending k) :
    Awaited (r.awaitCall c) := by
  unfold PtPaxosReplica.awaitCall
  simp only [hc]
  split
  · rename_i hle
    refine h.modify (fun _ => rfl) ?_
    intro call' hc'
    obtain rfl : call = call' := Option.some.inj (hc.symm.trans hc')
    cases h.calls hc with
    | pending _ _ hslot hreg => exact .pending rfl rfl hslot hreg
    | passed hlt => omega
    | returned hret => simp [Call.isReturned, Call.result, hframe] at hret
  · rename_i hlt
    exact h.finishCall hc (Nat.not_le.mp hlt)

theorem Awaited.callSendPropose (h : Awaited r) (n i : Nat) {c k k' : Nat} {call : Call}
    (hc : r.calls[c]? = some call) (hframe : call.frame = .sending k') :
    Awaited (r.callSendPropose n i c k).1 := by
  unfold PtPaxosReplica.callSendPropose
  split
  · refine h.modify (fun _ => rfl) ?_
    intro call' hc'
    obtain rfl : call = call' := Option.some.inj (hc.symm.trans hc')
    cases h.calls hc with
    | pending _ hdone hslot hreg => exact .pending rfl hdone hslot hreg
    | passed hlt => exact .passed hlt fun hf => by cases hf
    | returned hret => simp [Call.isReturned, Call.result, hframe] at hret
  · obtain ⟨call', hc', hframe'⟩ := applyDecided_call n i hc
    exact (h.applyDecided n i).awaitCall hc' (hframe'.trans hframe)

/-- A call on a slot that no open call has. -/
theorem Awaited.appendCall (h : Awaited r) (hfree : ∀ call ∈ r.unapplied, call.mySlot ≠ r.nextSlot)
    (i : Nat) (nowUnix : Int) (req : Request) : Awaited (r.appendCall i nowUnix req) := by
  refine ⟨fun {c call} hc => ?_,
    registered_iff.mp (h.toRegistered.appendCall i nowUnix req)⟩
  simp only [PtPaxosReplica.appendCall]
  rcases getElem?_concat_cases hc with hc | ⟨rfl, rfl⟩
  · cases h.calls hc with
    | pending hopen hdone hle hreg =>
        refine .pending hopen hdone hle ?_
        have hmem := mem_unapplied.mpr ⟨List.mem_of_getElem? hc, hopen, hle⟩
        rw [Finmap.lookup_insert_of_ne _ (hfree call hmem)]
        exact hreg
    | passed hlt hdone => exact .passed hlt hdone
    | returned hret => exact .returned hret
  · rcases Nat.lt_or_ge r.nextSlot r.appliedSlot with hlt | hge
    · exact .passed hlt fun hf => by cases hf
    · exact .pending rfl rfl hge (Finmap.lookup_insert _)

/-! ## Turns -/

/-- The log that the event installs, if it does, does not begin past the slot
of a call that waits; a call is made only on a slot that no other open call
has, unless it has been applied. -/
def keepsWaiting (n i : Nat) (r : PtPaxosReplica) : LocalEvent → Prop
  | .receive msg now =>
    (r.accepts i now msg → r.logEnd < msg.slot →
      ∀ call ∈ r.unapplied, call.frame = .waiting → msg.slot ≤ call.mySlot)
    ∧ ∀ best ∈ r.elects n msg, ∀ call ∈ r.unapplied, call.frame = .waiting →
      best.slot ≤ call.mySlot
  | .propose _ _ => i = r.leaderIndex → ∀ call ∈ r.unapplied, call.mySlot ≠ r.nextSlot
  | _ => True

instance (n i : Nat) (r : PtPaxosReplica) : ∀ ev, Decidable (r.keepsWaiting n i ev)
  | .receive msg now => inferInstanceAs (Decidable ((r.accepts i now msg → r.logEnd < msg.slot →
      ∀ call ∈ r.unapplied, call.frame = .waiting → msg.slot ≤ call.mySlot)
    ∧ ∀ best ∈ r.elects n msg, ∀ call ∈ r.unapplied, call.frame = .waiting →
      best.slot ≤ call.mySlot))
  | .propose _ _ => inferInstanceAs (Decidable
      (i = r.leaderIndex → ∀ call ∈ r.unapplied, call.mySlot ≠ r.nextSlot))
  | .timeout _ => isTrue trivial
  | .resumeRun => isTrue trivial
  | .resumeCall _ => isTrue trivial

/-- A replica that elects itself alone adopts its own log. -/
theorem Awaited.runProbe (h : Awaited r) (hbase : r.logBase ≤ r.appliedSlot)
    (hnil : r.prepareResponses = []) (n i k : Nat) : Awaited (r.runProbe n i k).1 := by
  refine runProbe_induct (fun _ _ => { h with }) ?_ k
  intro best hbest
  rw [hnil] at hbest
  obtain rfl := Option.some.inj hbest
  have hadd : Awaited (r.addResponse (r.prepareMsg i r.electionRound)) := { h with }
  refine (hadd.adopt i fun call hcall _ => ?_).runSendPropose n i 0
  exact hbase.trans (mem_unapplied.mp hcall).2.2

theorem Turn.awaited {ev : LocalEvent} {x : PtPaxosReplica × List Packet}
    (ht : Turn n i r ev x) (hwf : Wf n i r) (h : Awaited r) (hok : r.keepsWaiting n i ev) :
    Awaited x.1 := by
  cases ht with
  | ignore => exact h.stepDown _ _
  | probe => exact { h.stepDown _ _ with }
  | vote => exact { h.stepDown _ _ with }
  | @elect msg best now hrecv htype hround helection hquorum hbest =>
      have hle := hwf.election_le
      have helects := elects_of_quorum htype hround helection hquorum hbest
      rw [stepDown_eq (by omega)]
      have hadd : Awaited (r.addResponse msg) := { h with }
      exact (hadd.adopt i (hok.2 best helects)).runSendPropose n i 0
  | @ack msg now =>
      refine Awaited.applyDecided ?_ n i
      unfold recordAck
      split
      · exact { h.stepDown now msg with }
      · exact h.stepDown now msg
  | stale => exact { h.stepDown _ _ with }
  | @accept msg now hrecv htype hround hfollower hfresh =>
      have hfollow : Awaited { r.stepDown now msg with leaderIndex := msg.sender } :=
        { h.stepDown now msg with }
      have hkeep := hok.1 ⟨htype, hround, hfollower, hfresh⟩
      refine { hfollow.acceptPropose n i now ?_ with }
      intro hgap call hcall hw
      have hend : (r.stepDown now msg).logEnd < msg.slot := hgap
      rw [stepDown_logEnd] at hend
      refine hkeep hend call ?_ hw
      obtain ⟨hmem, hopen, hslot⟩ := mem_unapplied.mp hcall
      have hmem' : call ∈ (r.stepDown now msg).calls := hmem
      have hslot' : (r.stepDown now msg).appliedSlot ≤ call.mySlot := hslot
      rw [stepDown_calls] at hmem'
      rw [stepDown_appliedSlot] at hslot'
      exact mem_unapplied.mpr ⟨hmem', hopen, hslot'⟩
  | quiet => exact h
  | retransmit => exact h.runSendPropose n i 0
  | start =>
      have hpick : Awaited (r.pickRound n i) := { h with }
      exact hpick.runProbe hwf.base_le rfl n i 0
  | refuse => exact { h with }
  | @append req nowUnix hleader =>
      have happend := h.appendCall (hok hleader) i nowUnix req
      exact happend.callSendPropose n i List.getElem?_concat_length
        (rfl : CallFrame.sending 0 = .sending 0)
  | replied => exact { h with }
  | probing hframe =>
      obtain ⟨-, -, -, hnil⟩ := hwf.probing hframe
      exact h.runProbe hwf.base_le hnil n i _
  | proposing => exact h.runSendPropose n i _
  | sending hcall hframe => exact h.callSendPropose n i hcall hframe
  | @finish c call hcall hframe hdone =>
      refine h.finishCall hcall ?_
      cases h.calls hcall with
      | pending _ hnot => simp [hnot] at hdone
      | passed hlt => exact hlt
      | returned hret => simp [Call.isReturned, Call.result, hframe] at hret

end PtPaxosReplica

/-! ## Runs -/

namespace System

open PtPaxosReplica

/-- No step installs a log past a waiting call, or reuses the slot of an open
one. -/
def keepsWaiting (n : Nat) (s : System) (e : Event) : Prop :=
  ∀ x ∈ s.target e, (s.replicas x.1).keepsWaiting n x.1 x.2.1

instance (n : Nat) (s : System) (e : Event) : Decidable (s.keepsWaiting n e) :=
  inferInstanceAs (Decidable (∀ x ∈ s.target e, (s.replicas x.1).keepsWaiting n x.1 x.2.1))

/-- At replica `i` nobody is left waiting for a slot that has been applied or
passed: such a call was triggered, and returns as soon as it is resumed. -/
def NoOrphan (n : Nat) (s : System) (i : Nat) : Prop :=
  ∀ (c : Nat) call, (s.replicas i).calls[c]? = some call → call.frame = .waiting →
    call.mySlot < (s.replicas i).appliedSlot →
    call.pending.done = true ∧ ∃ s', s.step n (.resumeCall i c) = some s'
      ∧ ∀ call' ∈ (s'.replicas i).calls[c]?,
        call'.result = some ⟨call.pending.resp, call.pending.nowUnix⟩

variable {n : Nat} {s : System}

theorem run_awaited {onApply : Nat → Bool} {tr : List (System × Event)}
    (hrun : PaxosRun n onApply (keepsWaiting n) tr s) : ∀ i < n, Awaited (s.replicas i) := by
  let P := fun i r => Wf n i r ∧ Awaited r
  have hinv := hrun.invariant (I := fun s =>
    (∀ i < n, P i (s.replicas i)) ∧ ∀ p ∈ s.network, PacketWf n p)
    ⟨fun i hi => ⟨initial_wf hi _, initial_awaited n _⟩, by simp [initial]⟩
    fun hI hok hstep => step_invariant (P := P) (fun hi htarget hP hM hlocal => by
      have ht := localStep_turn hlocal
      obtain ⟨hwf, hout⟩ := ht.wf hi hP.1 hM
      exact ⟨⟨hwf, ht.awaited hP.1 hP.2 (hok _ htarget)⟩, hout⟩) hI hstep
  exact fun i hi => (hinv.1 i hi).2

/-- A triggered call returns what its `pending_propose` holds. -/
theorem step_resumeCall {i c : Nat} {call : Call} (hi : i < n)
    (hc : (s.replicas i).calls[c]? = some call) (hframe : call.frame = .waiting)
    (hdone : call.pending.done = true) :
    ∃ s', s.step n (.resumeCall i c) = some s' ∧ ∀ call' ∈ (s'.replicas i).calls[c]?,
      call'.result = some ⟨call.pending.resp, call.pending.nowUnix⟩ := by
  refine ⟨⟨Function.update s.replicas i ((s.replicas i).finishCall c), s.network ++ []⟩, ?_, ?_⟩
  · simp [step, target, localStep, PtPaxosReplica.resumeCall, hi, hc, hframe, hdone]
  · intro call' hcall'
    simp only [Function.update_self, PtPaxosReplica.finishCall, hc, Option.mem_def] at hcall'
    rcases getElem?_modify_cases hcall' with ⟨-, old, hold, rfl⟩ | ⟨hne, -⟩
    · obtain rfl := Option.some.inj (hc.symm.trans hold)
      rfl
    · exact absurd rfl hne

/-- **No orphaned caller**, in every run in which no log that begins past a
waiting call is installed and no call reuses the slot of an open one. -/
theorem no_orphaned_caller (onApply : Nat → Bool) {tr : List (System × Event)}
    (hrun : PaxosRun n onApply (keepsWaiting n) tr s) : ∀ i < n, NoOrphan n s i := by
  intro i hi c call hc hframe hslot
  have hdone : call.pending.done = true := by
    cases (run_awaited hrun i hi).calls hc with
    | pending _ _ hle => omega
    | passed _ hdone => exact hdone hframe
    | returned hret => simp [Call.isReturned, Call.result, hframe] at hret
  exact ⟨hdone, step_resumeCall hi hc hframe hdone⟩

/-- Replica 0 has applied slot 0, and the call on it is yet to be resumed. -/
theorem no_orphaned_caller_callTriggered :
    NoOrphan 3 (((initial 3 fun _ => true).exec 3 callAnswered.dropLast).get
      (by decide +kernel)) 0 :=
  no_orphaned_caller (fun _ => true)
    (Runs.run_of_exec callAnswered.dropLast (by decide +kernel) (by decide +kernel)) 0 (by decide)

/-- Replica 0 proposes at slot 0 and is superseded by replica 1, which gets
the entry decided by everybody and truncates it; then replica 0 is elected
again and installs replica 1's log, which begins at slot 1. -/
def orphanedCaller : List Event :=
  [.propose 0 (.taskCreate { serial := 1 }) 10, .resumeCall 0 0, .resumeCall 0 0,
   .deliver 0 11, .resumeRun 1, .lose 0, .lose 0,
   .timeout 1 600, .resumeRun 1, .resumeRun 1, .deliver 0 601, .resumeRun 0,
   .deliver 1 602, .resumeRun 1, .resumeRun 1, .deliver 0 603, .resumeRun 2,
   .deliver 0 604, .resumeRun 0, .deliver 0 605, .resumeRun 2,
   .deliver 0 606, .deliver 0 607, .deliver 0 607,
   .propose 1 (.taskCreate { serial := 2 }) 608, .resumeCall 1 0, .lose 0, .lose 0,
   .timeout 0 1200, .resumeRun 0, .resumeRun 0, .deliver 0 1201, .resumeRun 1, .deliver 1 1202]

theorem not_no_orphaned_caller :
    ¬∀ (n : Nat) (onApply : Nat → Bool) (tr : List (System × Event)) (s : System),
      PaxosRun n onApply (fun _ _ => True) tr s → ∀ i < n, NoOrphan n s i := by
  intro h
  have hno := h 3 (fun _ => true) _
    (((initial 3 fun _ => true).exec 3 orphanedCaller).get (by decide +kernel))
    (Runs.run_of_exec orphanedCaller (by decide +kernel) fun _ _ => trivial) 0 (by decide) 0
  have hdone : ∀ call ∈ (((initial 3 fun _ => true).exec 3 orphanedCaller).get
      (by decide +kernel)).replicas 0 |>.calls[0]?, call.frame = .waiting →
      call.mySlot < ((((initial 3 fun _ => true).exec 3 orphanedCaller).get
        (by decide +kernel)).replicas 0).appliedSlot → call.pending.done = true :=
    fun call hcall hframe hslot => (hno call hcall hframe hslot).1
  revert hdone
  decide +kernel

end System

end Tmgr
