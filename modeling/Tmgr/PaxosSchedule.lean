import Tmgr.PaxosWf

/-!
# Schedules

A call of `propose_and_apply` that is suspended in `send_propose` reads the
replica's fields again when it goes on. Whether that is harmless depends on
what happened in between. Three guards on the steps of a run, each implying
the next:

- `atomicSends`: a handler, or a call up to its wait, starts only where no
  coroutine of the replica is suspended in a send; these are the runs in
  which sends complete without suspending;
- `quietStepDown`: a message of a higher round is handled only where no call
  has a follower left to send to;
- `leaderSends`: a call sends on only while its replica is the leader.
-/

namespace Tmgr

namespace PtPaxosReplica

/-- Suspended in the loop of `send_propose` with a follower left. -/
def CallFrame.hasPeer (n i : Nat) : CallFrame → Bool
  | .sending k => (nextPeer n i k).isSome
  | _ => false

def CallFrame.isSending : CallFrame → Bool
  | .sending _ => true
  | _ => false

/-- Some call has a follower left to send to. -/
def midSend (n i : Nat) (r : PtPaxosReplica) : Prop :=
  ∃ frame ∈ r.calls.map (·.frame), CallFrame.hasPeer n i frame = true

/-- No coroutine of the replica is suspended in a send. -/
def atRest (r : PtPaxosReplica) : Prop :=
  r.runFrame = .receiving ∧ ∀ frame ∈ r.calls.map (·.frame), CallFrame.isSending frame = false

instance (n i : Nat) (r : PtPaxosReplica) : Decidable (midSend n i r) :=
  inferInstanceAs (Decidable (∃ frame ∈ r.calls.map (·.frame), CallFrame.hasPeer n i frame = true))

instance (r : PtPaxosReplica) : Decidable r.atRest :=
  inferInstanceAs (Decidable (r.runFrame = .receiving
    ∧ ∀ frame ∈ r.calls.map (·.frame), CallFrame.isSending frame = false))

theorem atRest.not_midSend {n i : Nat} {r : PtPaxosReplica} (h : r.atRest) : ¬r.midSend n i := by
  rintro ⟨frame, hmem, hpeer⟩
  have := h.2 frame hmem
  cases frame <;> simp_all [CallFrame.hasPeer, CallFrame.isSending]

/-! ## What a message makes the replica do -/

/-- The replica installs the PROPOSE `msg`. -/
def accepts (i now : Nat) (msg : PaxosMessage) (r : PtPaxosReplica) : Prop :=
  msg.type = .propose ∧ r.probeRound ≤ msg.round ∧ i ≠ (r.stepDown now msg).leaderIndex
    ∧ (r.stepDown now msg).staleProposal msg = false

/-- The PREPARE whose log `become_leader` adopts, when `msg` makes the quorum
of the replica's election. -/
def elects (n : Nat) (msg : PaxosMessage) (r : PtPaxosReplica) : Option PaxosMessage :=
  if msg.type = .prepare ∧ r.probeRound ≤ msg.round ∧ msg.round = r.electionRound
      ∧ r.prepareResponses.length + 1 = quorum n then
    maxElement (r.prepareResponses ++ [msg])
  else none

instance (i now : Nat) (msg : PaxosMessage) (r : PtPaxosReplica) :
    Decidable (r.accepts i now msg) :=
  inferInstanceAs (Decidable (_ ∧ _ ∧ _ ∧ _))

variable {n i : Nat} {r r' : PtPaxosReplica}

theorem elects_of_quorum {msg best : PaxosMessage} (htype : msg.type = .prepare)
    (hround : r.probeRound ≤ msg.round) (helection : msg.round = r.electionRound)
    (hquorum : r.prepareResponses.length + 1 = quorum n)
    (hbest : best ∈ maxElement (r.prepareResponses ++ [msg])) : best ∈ r.elects n msg := by
  rw [elects, if_pos ⟨htype, hround, helection, hquorum⟩]
  exact hbest

/-! ## The frames of the calls -/

theorem midSend_congr (h : r'.calls.map (·.frame) = r.calls.map (·.frame)) :
    r'.midSend n i ↔ r.midSend n i := by
  unfold midSend
  rw [h]

theorem map_modify_same {α : Type*} {f : Call → Call} {g : Call → α}
    (h : ∀ call, g (f call) = g call) (calls : List Call) (c : Nat) :
    (calls.modify c f).map g = calls.map g := by
  induction calls generalizing c with
  | nil => simp
  | cons call calls ih => cases c <;> simp [ih, h]

/-- Filling in a `pending_propose` changes nothing else of a call. -/
theorem applySlot_map {α : Type*} {g : Call → α}
    (h : ∀ call pending, g { call with pending := pending } = g call) (r : PtPaxosReplica)
    (dv : DecidedValue) : (applySlot r dv).calls.map g = r.calls.map g := by
  simp only [applySlot]
  split
  · rfl
  · exact map_modify_same (fun call => h call _) _ _

theorem applySlot_frames (r : PtPaxosReplica) (dv : DecidedValue) :
    (applySlot r dv).calls.map (·.frame) = r.calls.map (·.frame) :=
  applySlot_map (fun _ _ => rfl) r dv

theorem applyDecided_frames (n i : Nat) (r : PtPaxosReplica) :
    (r.applyDecided n i).calls.map (·.frame) = r.calls.map (·.frame) :=
  applyDecided_same (f := fun r => r.calls.map (·.frame)) n i applySlot_frames
    (fun _ => rfl) (fun _ => rfl) r

/-- A call that ends, or starts to wait, is not the one that sends. -/
theorem midSend_modify {c : Nat} {f : Call → Call}
    (hf : ∀ call, CallFrame.hasPeer n i (f call).frame = false) {calls : List Call}
    {frame : CallFrame} (hmem : frame ∈ (calls.modify c f).map (·.frame))
    (hpeer : CallFrame.hasPeer n i frame = true) : frame ∈ calls.map (·.frame) := by
  induction calls generalizing c with
  | nil => simp at hmem
  | cons call calls ih =>
      cases c with
      | zero =>
          simp only [List.modify_zero_cons, List.map_cons, List.mem_cons] at hmem ⊢
          rcases hmem with rfl | hmem
          · simp [hf call] at hpeer
          · exact .inr hmem
      | succ c =>
          simp only [List.modify_succ_cons, List.map_cons, List.mem_cons] at hmem ⊢
          exact hmem.imp_right ih

theorem midSend_finishCall {c : Nat} (h : (r.finishCall c).midSend n i) : r.midSend n i := by
  unfold finishCall at h
  split at h
  · exact h
  · obtain ⟨frame, hmem, hpeer⟩ := h
    exact ⟨frame, midSend_modify (fun _ => rfl) hmem hpeer, hpeer⟩

theorem midSend_awaitCall {c : Nat} (h : (r.awaitCall c).midSend n i) : r.midSend n i := by
  unfold awaitCall at h
  split at h
  · exact h
  · split at h
    · obtain ⟨frame, hmem, hpeer⟩ := h
      exact ⟨frame, midSend_modify (fun _ => rfl) hmem hpeer, hpeer⟩
    · exact midSend_finishCall h

/-! ## A call that sends on has a leader -/

theorem runSendPropose_leaderIndex (n i k : Nat) (r : PtPaxosReplica) :
    (r.runSendPropose n i k).1.leaderIndex = r.leaderIndex :=
  runSendPropose_same (f := (·.leaderIndex)) n i k (applyDecided_leaderIndex n i)
    (fun _ _ => rfl) r

theorem callSendPropose_leaderIndex (n i c k : Nat) (r : PtPaxosReplica) :
    (r.callSendPropose n i c k).1.leaderIndex = r.leaderIndex :=
  callSendPropose_same (f := (·.leaderIndex)) n i c k (applyDecided_leaderIndex n i)
    (fun _ _ _ => rfl) r

theorem runProbe_leader_or_frames (n i k : Nat) (r : PtPaxosReplica) :
    i = (r.runProbe n i k).1.leaderIndex
    ∨ ((r.runProbe n i k).1.calls = r.calls
        ∧ (r.runProbe n i k).1.leaderIndex = r.leaderIndex) := by
  refine runProbe_induct (P := fun r' => i = r'.leaderIndex
    ∨ r'.calls = r.calls ∧ r'.leaderIndex = r.leaderIndex) (fun _ _ => .inr ⟨rfl, rfl⟩) ?_ k
  intro best _
  left
  rw [runSendPropose_leaderIndex]
  rfl

/-- The invariant behind `leaderSends`, when nobody steps down in the middle
of a call's loop. -/
theorem Turn.midSend {ev : LocalEvent} {x : PtPaxosReplica × List Packet}
    (ht : Turn n i r ev x) (hwf : Wf n i r) (hinv : r.midSend n i → i = r.leaderIndex)
    (hquiet : ∀ msg now, ev = .receive msg now → r.probeRound < msg.round → ¬r.midSend n i) :
    x.1.midSend n i → i = x.1.leaderIndex := by
  -- stepping down is covered by the guard
  have hdown : ∀ msg now, ev = .receive msg now → (r.stepDown now msg).midSend n i →
      i = (r.stepDown now msg).leaderIndex := by
    intro msg now hev
    unfold stepDown
    split
    · rename_i hround
      exact fun hm => absurd hm (hquiet msg now hev hround)
    · exact hinv
  cases ht with
  | ignore => exact hdown _ _ rfl
  | probe => exact hdown _ _ rfl
  | vote => exact hdown _ _ rfl
  | @elect msg best now =>
      exact fun _ => (runSendPropose_leaderIndex n i 0
        (((r.stepDown now msg).addResponse msg).adopt i best)).symm
  | @ack msg now hrecv htype hround hleader =>
      intro _
      rw [handleAck, applyDecided_leaderIndex,
        recordAck_same (f := (·.leaderIndex)) (fun _ _ => rfl)]
      exact hleader
  | stale hrecv htype hround hfollower =>
      exact fun hm => absurd (hdown _ _ rfl hm) hfollower
  | @accept msg now hrecv htype hround hfollower =>
      intro hm
      refine absurd (hdown _ _ rfl ?_) hfollower
      exact (midSend_congr (acceptPropose_same (f := fun r => r.calls.map (·.frame)) n i
        applySlot_frames (fun _ _ _ _ _ _ _ => rfl) now msg _)).mp hm
  | quiet => exact hinv
  | retransmit hrecv hleader =>
      exact fun _ => hleader.trans (runSendPropose_leaderIndex n i 0 _).symm
  | start hrecv hfollower =>
      rcases runProbe_leader_or_frames n i 0 (r.pickRound n i) with h | ⟨hcalls, -⟩
      · exact fun _ => h
      · intro hm
        exact absurd (hinv ((midSend_congr (congrArg (List.map (·.frame)) hcalls)).mp hm)) hfollower
  | refuse => exact hinv
  | @append req nowUnix hleader =>
      exact fun _ => hleader.trans
        (callSendPropose_leaderIndex n i _ 0 (r.appendCall i nowUnix req)).symm
  | replied => exact hinv
  | probing hframe =>
      rcases runProbe_leader_or_frames n i _ r with h | ⟨hcalls, -⟩
      · exact fun _ => h
      · intro hm
        exact absurd (hinv ((midSend_congr (congrArg (List.map (·.frame)) hcalls)).mp hm))
          (hwf.probing hframe).1
  | proposing hframe =>
      exact fun _ => (hwf.proposing hframe).trans (runSendPropose_leaderIndex n i _ _).symm
  | @sending c k call hcall hframe =>
      intro hm
      rw [callSendPropose_leaderIndex]
      apply hinv
      unfold callSendPropose at hm
      split at hm
      · rename_i j hj
        refine ⟨call.frame, List.mem_map_of_mem (List.mem_of_getElem? hcall), ?_⟩
        simp [hframe, CallFrame.hasPeer, hj]
      · exact (midSend_congr (applyDecided_frames n i r)).mp (midSend_awaitCall hm)
  | finish =>
      intro hm
      exact (hinv (midSend_finishCall hm)).trans
        (finishCall_induct (P := fun r' => r.leaderIndex = r'.leaderIndex) rfl (fun _ _ => rfl) _)

end PtPaxosReplica

namespace System

open PtPaxosReplica

def atomicSends (s : System) : Event → Prop
  | .deliver k _ => ∀ p ∈ s.network[k]?, (s.replicas p.1).atRest
  | .timeout i _ => (s.replicas i).atRest
  | .propose i _ _ => (s.replicas i).atRest
  | _ => True

/-- The event hands replica `i` a message of a higher round. -/
def StepsDown (s : System) (e : Event) (i : Nat) : Prop :=
  ∃ k now msg, e = .deliver k now ∧ s.network[k]? = some (i, msg)
    ∧ (s.replicas i).probeRound < msg.round

def quietStepDown (n : Nat) (s : System) : Event → Prop
  | .deliver k _ => ∀ p ∈ s.network[k]?,
      (s.replicas p.1).probeRound < p.2.round → ¬(s.replicas p.1).midSend n p.1
  | _ => True

def leaderSends (n : Nat) (s : System) : Event → Prop
  | .resumeCall i c => ∀ call ∈ (s.replicas i).calls[c]?,
      CallFrame.hasPeer n i call.frame = true → i = (s.replicas i).leaderIndex
  | _ => True

instance (s : System) (e : Event) : Decidable (s.atomicSends e) := by
  cases e <;> unfold atomicSends <;> infer_instance

instance (n : Nat) (s : System) (e : Event) : Decidable (s.quietStepDown n e) := by
  cases e <;> unfold quietStepDown <;> infer_instance

instance (n : Nat) (s : System) (e : Event) : Decidable (s.leaderSends n e) := by
  cases e <;> unfold leaderSends <;> infer_instance

/-! ## From one guard to the next -/

theorem atomicSends_quietStepDown (n : Nat) {s : System} {e : Event} (h : s.atomicSends e) :
    s.quietStepDown n e := by
  cases e with
  | deliver k now => exact fun p hp _ => (h p hp).not_midSend
  | _ => trivial

theorem target_receive {s : System} {e : Event} {i : Nat} {msg : PaxosMessage} {now : Nat}
    {rest : List Packet} (h : s.target e = some (i, .receive msg now, rest)) :
    ∃ k, e = .deliver k now ∧ s.network[k]? = some (i, msg) := by
  cases e with
  | deliver k now' =>
      simp only [target] at h
      split at h
      · cases h
      · rename_i p hp
        simp only [Option.some.injEq, Prod.mk.injEq, LocalEvent.receive.injEq] at h
        obtain ⟨rfl, ⟨rfl, rfl⟩, -⟩ := h
        exact ⟨k, rfl, hp⟩
  | lose k => cases h
  | _ => simp [target] at h

theorem target_resumeCall {s : System} {e : Event} {i c : Nat} {rest : List Packet}
    (h : s.target e = some (i, .resumeCall c, rest)) : e = .resumeCall i c := by
  cases e with
  | deliver k now =>
      simp only [target] at h
      split at h <;> simp at h
  | lose k => cases h
  | resumeCall j d =>
      simp only [target, Option.some.injEq, Prod.mk.injEq, LocalEvent.resumeCall.injEq] at h
      obtain ⟨rfl, rfl, -⟩ := h
      rfl
  | _ => simp [target] at h

theorem quietStepDown_leaderSends {n : Nat} {onApply : Nat → Bool}
    {tr : List (System × Event)} {s : System}
    (hrun : PaxosRun n onApply (fun s e => s.quietStepDown n e) tr s) :
    PaxosRun n onApply (fun s e => s.leaderSends n e) tr s := by
  let P := fun i r => Wf n i r ∧ (r.midSend n i → i = r.leaderIndex)
  refine (hrun.strengthen (I := fun s =>
    (∀ i < n, P i (s.replicas i)) ∧ ∀ p ∈ s.network, PacketWf n p) ?_ ?_).2
  · refine ⟨fun i hi => ⟨initial_wf hi _, ?_⟩, by simp [initial]⟩
    rintro ⟨frame, hmem, -⟩
    simp [initial, PtPaxosReplica.initial] at hmem
  · intro s e s' hI hok hstep
    refine ⟨step_invariant (P := P) (fun hi htarget hP hM hlocal => ?_) hI hstep, ?_⟩
    · have ht := localStep_turn hlocal
      obtain ⟨hwf, hout⟩ := ht.wf hi hP.1 hM
      refine ⟨⟨hwf, ht.midSend hP.1 hP.2 ?_⟩, hout⟩
      intro msg now hev
      subst hev
      obtain ⟨k, rfl, hk⟩ := target_receive htarget
      exact hok _ hk
    · cases e with
      | resumeCall i c =>
          intro call hcall hpeer
          have hi : i < n := by
            rcases step_cases hstep with ⟨k, p, he, -⟩ | ⟨j, ev, rest, x, hj, htarget, -⟩
            · cases he
            · simp only [target, Option.some.injEq, Prod.mk.injEq] at htarget
              exact htarget.1 ▸ hj
          exact (hI.1 i hi).2
            ⟨call.frame, List.mem_map_of_mem (List.mem_of_getElem? hcall), hpeer⟩
      | _ => trivial

theorem atomicSends_leaderSends {n : Nat} {onApply : Nat → Bool}
    {tr : List (System × Event)} {s : System}
    (hrun : PaxosRun n onApply atomicSends tr s) :
    PaxosRun n onApply (fun s e => s.leaderSends n e) tr s :=
  quietStepDown_leaderSends (hrun.mono fun _ _ => atomicSends_quietStepDown n)

end System

end Tmgr
