import Tmgr.ClientHistory

/-!
# What a call may be answered

Where no log is installed over the values of calls, a call returns the answer to
its own request. Where one is, the registration for a slot outlives the value,
and the call may get the response to the request decided there, or none at all:
the default response of its `pending_propose`. That is all that can happen, on
every schedule: a call returns only when its slot has been applied, and never
with the response of another slot. No replica applies a slot twice.
-/

namespace Tmgr

namespace PtPaxosReplica

variable {n i : Nat} {r r' : PtPaxosReplica}

/-- The default response, or that of the request applied in `slot`. -/
def AnswersSlot (processed : List Processed) (slot : Nat) (resp : Response) : Prop :=
  resp = default ∨ ∃ p ∈ processed, p.slot = slot ∧ p.resp = resp

theorem AnswersSlot.mono {ps qs : List Processed} {slot : Nat} {resp : Response}
    (h : AnswersSlot ps slot resp) (hle : ps ⊆ qs) : AnswersSlot qs slot resp :=
  h.imp_right fun ⟨p, hp, hrest⟩ => ⟨p, hle hp, hrest⟩

/-- How a call stands, whatever was installed over its value. -/
structure CallServed (applied : Nat) (processed : List Processed) (call : Call) : Prop where
  /-- a call that has returned, or can, was on a slot that has been applied -/
  passed : call.isReturned = true ∨ call.pending.done = true → call.mySlot < applied
  pending : AnswersSlot processed call.mySlot call.pending.resp
  returned : ∀ b, call.result = some b → AnswersSlot processed call.mySlot b.resp

theorem CallServed.mono {applied applied' : Nat} {ps qs : List Processed} {call : Call}
    (h : CallServed applied ps call) (happlied : applied ≤ applied') (hle : ps ⊆ qs) :
    CallServed applied' qs call where
  passed hdone := (h.passed hdone).trans_le happlied
  pending := h.pending.mono hle
  returned b hb := (h.returned b hb).mono hle

/-- The slots below `applied` that `process_req` was called for, each once and in
order; some may have been skipped. -/
structure InOrder (applied : Nat) (processed : List Processed) : Prop where
  below : ∀ p ∈ processed, p.slot < applied
  ordered : processed.Pairwise fun p q => p.slot < q.slot

theorem InOrder.mono {applied applied' : Nat} {ps : List Processed} (h : InOrder applied ps)
    (hle : applied ≤ applied') : InOrder applied' ps :=
  ⟨fun p hp => (h.below p hp).trans_le hle, h.ordered⟩

theorem InOrder.next {applied : Nat} {ps : List Processed} (h : InOrder applied ps)
    (dv : DecidedValue) (resp : Response) :
    InOrder (applied + 1) (ps ++ [⟨applied, dv, resp⟩]) where
  below p hp := by
    rcases List.mem_append.mp hp with hp | hp
    · exact (h.below p hp).trans (Nat.lt_succ_self applied)
    · obtain rfl := List.mem_singleton.mp hp
      exact Nat.lt_succ_self applied
  ordered := List.pairwise_append.mpr ⟨h.ordered, List.pairwise_singleton _ _,
    fun p hp q hq => List.mem_singleton.mp hq ▸ h.below p hp⟩

/-- A slot has one place among those applied. -/
theorem InOrder.unique {applied : Nat} {ps : List Processed} (h : InOrder applied ps) {k k' : Nat}
    {p p' : Processed} (hp : ps[k]? = some p) (hp' : ps[k']? = some p')
    (hslot : p.slot = p'.slot) : k = k' := by
  obtain ⟨hlt, rfl⟩ := List.getElem?_eq_some_iff.mp hp
  obtain ⟨hlt', rfl⟩ := List.getElem?_eq_some_iff.mp hp'
  have hord := List.pairwise_iff_getElem.mp h.ordered
  rcases Nat.lt_trichotomy k k' with hk | rfl | hk
  · exact absurd hslot (Nat.ne_of_lt (hord k k' hlt hlt' hk))
  · rfl
  · exact absurd hslot (Nat.ne_of_gt (hord k' k hlt' hlt hk))

structure Served (r : PtPaxosReplica) : Prop where
  registered : Registered r
  calls : ∀ call ∈ r.calls, CallServed r.appliedSlot r.processed call
  inOrder : InOrder r.appliedSlot r.processed

theorem initial_served (n : Nat) (onApply : Bool) : Served (PtPaxosReplica.initial n onApply) where
  registered := fun slot c h => by simp [PtPaxosReplica.initial] at h
  calls := fun call h => by simp [PtPaxosReplica.initial] at h
  inOrder := ⟨fun p h => by simp [PtPaxosReplica.initial] at h, .nil⟩

/-- Slots may be skipped. -/
theorem Served.congr (h : Served r) (hcalls : r'.calls = r.calls)
    (hpend : r'.pendingResponses = r.pendingResponses) (hproc : r'.processed = r.processed)
    (hslot : r.appliedSlot ≤ r'.appliedSlot) : Served r' where
  registered := h.registered.congr (by rw [hcalls]) hpend
  calls call hcall := by
    rw [hcalls] at hcall
    exact (h.calls call hcall).mono hslot (hproc ▸ List.Subset.refl _)
  inOrder := hproc ▸ h.inOrder.mono hslot

/-- Nothing changes but fields that calls do not read. -/
theorem Served.same (h : Served r) (hcalls : r'.calls = r.calls)
    (hpend : r'.pendingResponses = r.pendingResponses) (hproc : r'.processed = r.processed)
    (hslot : r'.appliedSlot = r.appliedSlot) : Served r' :=
  h.congr hcalls hpend hproc hslot.ge

/-- The catch-up of a new leader looks for no call. -/
theorem Served.processSlot (h : Served r) (dv : DecidedValue) : Served (processSlot r dv) where
  registered := h.registered
  calls call hcall := (h.calls call hcall).mono (Nat.le_succ _) (List.subset_append_left _ _)
  inOrder := h.inOrder.next dv _

theorem Served.applySlot (h : Served r) (dv : DecidedValue) : Served (applySlot r dv) where
  registered := h.registered.congr (applySlot_slots r dv) rfl
  inOrder := h.inOrder.next dv _
  calls call hcall := by
    have hnext : r.appliedSlot ≤ (PtPaxosReplica.applySlot r dv).appliedSlot := Nat.le_succ _
    have hproc : r.processed ⊆ (PtPaxosReplica.applySlot r dv).processed :=
      List.subset_append_left _ _
    obtain ⟨c, hc⟩ := List.getElem?_of_mem hcall
    rcases applySlot_call hc with ⟨-, hold⟩ | ⟨hlook, old, hold, rfl⟩
    · exact (h.calls call (List.mem_of_getElem? hold)).mono hnext hproc
    · -- the registered call gets the response
      obtain ⟨call, hcall, hslot⟩ := registered_iff.mp h.registered hlook
      obtain rfl : call = old := Option.some.inj (hcall.symm.trans hold)
      have hserved := (h.calls call (List.mem_of_getElem? hold)).mono hnext hproc
      exact ⟨fun _ => hslot.trans_lt (Nat.lt_succ_self _),
        .inr ⟨⟨r.appliedSlot, dv, _⟩, List.mem_append_right _ (List.mem_singleton_self _),
          hslot.symm, rfl⟩, hserved.returned⟩

theorem Served.applyDecided (h : Served r) (n i : Nat) : Served (r.applyDecided n i) :=
  applyDecided_induct (P := Served) (h.same rfl rfl rfl rfl) (fun _ dv h _ => h.applySlot dv)
    fun _ h => h.same rfl rfl rfl rfl

theorem Served.runSendPropose (h : Served r) (n i k : Nat) : Served (r.runSendPropose n i k).1 :=
  runSendPropose_induct (P := Served) h (fun h => h.applyDecided n i)
    (fun _ _ h => h.same rfl rfl rfl rfl) k

/-- One call changes, and is still served. -/
theorem Served.modify (h : Served r) {c : Nat} {f : Call → Call}
    (hslot : ∀ call, (f call).mySlot = call.mySlot)
    (hserved : ∀ call, r.calls[c]? = some call → CallServed r.appliedSlot r.processed call →
      CallServed r.appliedSlot r.processed (f call)) :
    Served { r with calls := r.calls.modify c f } where
  registered := h.registered.modify c hslot
  inOrder := h.inOrder
  calls call hcall := by
    obtain ⟨k, hk⟩ := List.getElem?_of_mem hcall
    rcases getElem?_modify_cases hk with ⟨rfl, old, hold, rfl⟩ | ⟨-, hold⟩
    · exact hserved old hold (h.calls old (List.mem_of_getElem? hold))
    · exact h.calls call (List.mem_of_getElem? hold)

theorem Served.finishCall (h : Served r) {c : Nat}
    (hslot : ∀ call, r.calls[c]? = some call → call.mySlot < r.appliedSlot) :
    Served (r.finishCall c) where
  registered := h.registered.finishCall c
  inOrder := by
    unfold PtPaxosReplica.finishCall
    split
    · exact h.inOrder
    · exact h.inOrder
  calls call hcall := by
    unfold PtPaxosReplica.finishCall at hcall ⊢
    split at hcall
    · exact h.calls call hcall
    · refine (h.modify (f := fun call => { call with
        frame := .returned ⟨call.pending.resp, call.pending.nowUnix⟩ }) (fun _ => rfl)
        fun call hc hserved => ?_).calls call hcall
      refine ⟨fun _ => hslot call hc, hserved.pending, fun b hb => ?_⟩
      obtain rfl := Option.some.inj hb
      exact hserved.pending

/-- A call that has not returned goes on to a point where it waits or sends. -/
theorem CallServed.suspend {applied : Nat} {ps : List Processed} {call call' : Call}
    (h : CallServed applied ps call) (hslot : call'.mySlot = call.mySlot)
    (hresp : call'.pending.resp = call.pending.resp)
    (hdone : call'.pending.done = true → call.pending.done = true)
    (hopen : call'.result = none) : CallServed applied ps call' where
  passed hret := by
    rw [hslot]
    refine h.passed (.inr (hdone ?_))
    simpa [Call.isReturned, hopen] using hret
  pending := by
    rw [hslot, hresp]
    exact h.pending
  returned b hb := by
    rw [hopen] at hb
    cases hb

theorem Served.awaitCall (h : Served r) (c : Nat) : Served (r.awaitCall c) := by
  unfold PtPaxosReplica.awaitCall
  split
  · exact h
  · rename_i call hc
    split
    · exact h.modify (fun _ => rfl) fun call' _ hserved =>
        hserved.suspend rfl rfl (fun hdone => by cases hdone) rfl
    · rename_i hlt
      refine h.finishCall fun call' hc' => ?_
      obtain rfl := Option.some.inj (hc.symm.trans hc')
      exact Nat.not_le.mp hlt

theorem Served.callSendPropose (h : Served r) (n i c k : Nat) :
    Served (r.callSendPropose n i c k).1 := by
  unfold PtPaxosReplica.callSendPropose
  split
  · exact h.modify (fun _ => rfl) fun call _ hserved => hserved.suspend rfl rfl id rfl
  · exact (h.applyDecided n i).awaitCall c

theorem Served.appendCall (h : Served r) (i : Nat) (nowUnix : Int) (req : Request) :
    Served (r.appendCall i nowUnix req) where
  registered := h.registered.appendCall i nowUnix req
  inOrder := h.inOrder
  calls call hcall := by
    rcases List.mem_append.mp hcall with hcall | hcall
    · exact h.calls call hcall
    · obtain rfl := List.mem_singleton.mp hcall
      exact ⟨fun hret => by simp [Call.isReturned, Call.result] at hret, .inl rfl,
        fun b hb => by cases hb⟩

theorem Served.adopt (h : Served r) (i : Nat) (best : PaxosMessage) : Served (r.adopt i best) :=
  have hcatch : Served (r.catchUp best) :=
    applyUpTo_induct (P := Served) h fun _ dv h _ _ => h.processSlot dv
  hcatch.congr rfl rfl rfl (le_max_left _ _)

theorem Served.runProbe (h : Served r) (n i k : Nat) : Served (r.runProbe n i k).1 := by
  refine runProbe_induct (fun _ _ => h.same rfl rfl rfl rfl) (fun best _ => ?_) k
  have hadd : Served (r.addResponse (r.prepareMsg i r.electionRound)) := h.same rfl rfl rfl rfl
  exact (hadd.adopt i best).runSendPropose n i 0

theorem Served.acceptPropose (h : Served r) (n i now : Nat) (msg : PaxosMessage) :
    Served (r.acceptPropose n i now msg) := by
  refine acceptPropose_induct (P := Served) ?_ (fun _ h => h.applyDecided n i)
    fun _ h => h.same rfl rfl rfl rfl
  refine h.congr (install_same (f := (·.calls)) (fun _ _ _ _ _ => rfl) msg r)
    (install_same (f := (·.pendingResponses)) (fun _ _ _ _ _ => rfl) msg r)
    (install_same (f := (·.processed)) (fun _ _ _ _ _ => rfl) msg r) ?_
  show r.appliedSlot ≤ (r.install msg).appliedSlot
  rcases Nat.lt_or_ge r.logEnd msg.slot with hgap | hgap
  · rw [install_of_gap hgap]
    exact le_max_left _ _
  · exact (install_of_no_gap hgap).1.ge

theorem Turn.served {ev : LocalEvent} {x : PtPaxosReplica × List Packet} (ht : Turn n i r ev x)
    (h : Served r) : Served x.1 := by
  have hdown : ∀ now msg, Served (r.stepDown now msg) := fun now msg =>
    h.same (stepDown_calls now msg r)
      (stepDown_same (f := (·.pendingResponses)) (fun _ _ _ _ => rfl) now msg r)
      (stepDown_same (f := (·.processed)) (fun _ _ _ _ => rfl) now msg r)
      (stepDown_appliedSlot now msg r)
  cases ht with
  | ignore => exact hdown _ _
  | probe => exact (hdown _ _).same rfl rfl rfl rfl
  | vote => exact (hdown _ _).same rfl rfl rfl rfl
  | @elect msg best now =>
      have hadd : Served ((r.stepDown now msg).addResponse msg) :=
        (hdown now msg).same rfl rfl rfl rfl
      exact (hadd.adopt i best).runSendPropose n i 0
  | @ack msg now =>
      refine Served.applyDecided ?_ n i
      exact (hdown now msg).same (recordAck_same (f := (·.calls)) (fun _ _ => rfl) msg _)
        (recordAck_same (f := (·.pendingResponses)) (fun _ _ => rfl) msg _)
        (recordAck_same (f := (·.processed)) (fun _ _ => rfl) msg _)
        (recordAck_same (f := (·.appliedSlot)) (fun _ _ => rfl) msg _)
  | stale => exact (hdown _ _).same rfl rfl rfl rfl
  | @accept msg now =>
      have hfollow : Served { r.stepDown now msg with leaderIndex := msg.sender } :=
        (hdown now msg).same rfl rfl rfl rfl
      exact (hfollow.acceptPropose n i now msg).same rfl rfl rfl rfl
  | quiet => exact h
  | retransmit => exact h.runSendPropose n i 0
  | start =>
      have hpick : Served (r.pickRound n i) := h.same rfl rfl rfl rfl
      exact hpick.runProbe n i 0
  | refuse => exact h.same rfl rfl rfl rfl
  | append => exact (h.appendCall i _ _).callSendPropose n i _ 0
  | replied => exact h.same rfl rfl rfl rfl
  | probing => exact h.runProbe n i _
  | proposing => exact h.runSendPropose n i _
  | sending => exact h.callSendPropose n i _ _
  | @finish c call hcall hframe hdone =>
      refine h.finishCall fun call' hc' => ?_
      obtain rfl := Option.some.inj (hcall.symm.trans hc')
      exact (h.calls call (List.mem_of_getElem? hcall)).passed (.inr hdone)

/-- What a call has returned, on the slot that it was registered for. -/
theorem Served.answered (h : Served r) {c slot : Nat} {dv : DecidedValue} {b : ApplyResult}
    (hkey : r.keys[c]? = some (slot, dv)) (hret : r.resultOf c = some b) :
    AnswersSlot r.processed slot b.resp := by
  obtain ⟨call, hcall, hresult⟩ := Option.bind_eq_some_iff.mp hret
  simp only [keys, List.getElem?_map, hcall, Option.map_some, Option.some.injEq,
    Prod.mk.injEq] at hkey
  exact hkey.1 ▸ (h.calls call (List.mem_of_getElem? hcall)).returned b hresult

end PtPaxosReplica

namespace System

open PtPaxosReplica

variable {n : Nat} {onApply : Nat → Bool} {tr : List (System × Event)} {s : System}

theorem run_served {ok : System → Event → Prop} (hrun : PaxosRun n onApply ok tr s) (i : Nat) :
    Served (s.replicas i) :=
  hrun.invariant (I := fun s => Served (s.replicas i)) (initial_served n (onApply i))
    fun h _ hstep => by
      rcases step_replica hstep i with hsame | ⟨ev, rest, x, -, -, hlocal, hx⟩
      · rw [hsame]
        exact h
      · rw [hx]
        exact (localStep_turn hlocal).served h

end System

end Tmgr
