import Tmgr.PaxosSafety

/-!
# The rendezvous of propose_and_apply

A call of `propose_and_apply` waits for a slot: `apply_decided` hands the
response to whoever is registered in `pending_responses_` for the slot it
applies. That is the response to the call's own request as long as the
call's value stays in the log until it is applied. A replica that steps down
keeps the registration but lets the new leader overwrite the log;
`answersSwapped` is a run in which a call returns the response to another
request that way.

`answers_own` is the converse: in every run in which no log is installed
over the unapplied value of an unanswered call, every call returns what
`process_req` answered for its own value.
-/

namespace Tmgr

/-! ## Calls -/

namespace Call

def result (call : Call) : Option ApplyResult :=
  match call.frame with
  | .returned result => some result
  | _ => none

def isReturned (call : Call) : Bool := call.result.isSome

/-- What the call has returned, or would return now. -/
def answer (call : Call) : ApplyResult :=
  call.result.getD ⟨call.pending.resp, call.pending.nowUnix⟩

theorem answer_of_not_returned {call : Call} (h : call.isReturned = false) :
    call.answer = ⟨call.pending.resp, call.pending.nowUnix⟩ := by
  rw [answer, Option.not_isSome_iff_eq_none.mp (Bool.eq_false_iff.mp h), Option.getD_none]

/-- A log of `values` from `slot` on has the call's value in the call's slot;
or it begins later, and the call waits: then it never returns. -/
def carriedBy (slot : Nat) (values : List DecidedValue) (call : Call) : Prop :=
  if slot ≤ call.mySlot then values[call.mySlot - slot]? = some call.dv
  else call.frame = .waiting

instance (slot : Nat) (values : List DecidedValue) (call : Call) :
    Decidable (call.carriedBy slot values) :=
  inferInstanceAs (Decidable (if slot ≤ call.mySlot then
    values[call.mySlot - slot]? = some call.dv else call.frame = .waiting))

end Call

theorem getElem?_modify_cases {α : Type*} {l : List α} {c k : Nat} {f : α → α} {x : α}
    (h : (l.modify c f)[k]? = some x) :
    k = c ∧ (∃ y, l[c]? = some y ∧ x = f y) ∨ k ≠ c ∧ l[k]? = some x := by
  rw [List.getElem?_modify] at h
  obtain ⟨y, hy, rfl⟩ := Option.map_eq_some_iff.mp h
  by_cases hk : c = k
  · subst hk
    exact .inl ⟨rfl, y, hy, if_pos rfl⟩
  · exact .inr ⟨Ne.symm hk, by rw [hy, if_neg hk]⟩

theorem getElem?_concat_cases {α : Type*} {l : List α} {a x : α} {k : Nat}
    (h : (l ++ [a])[k]? = some x) : l[k]? = some x ∨ k = l.length ∧ x = a := by
  rcases Nat.lt_trichotomy k l.length with hk | rfl | hk
  · rw [List.getElem?_append_left hk] at h
    exact .inl h
  · rw [List.getElem?_concat_length] at h
    exact .inr ⟨rfl, (Option.some.inj h).symm⟩
  · have hin := (List.getElem?_eq_some_iff.mp h).1
    rw [List.length_append, List.length_singleton] at hin
    omega

namespace PtPaxosReplica

variable {n i : Nat} {r r' : PtPaxosReplica}

theorem applySlot_slots (r : PtPaxosReplica) (dv : DecidedValue) :
    (applySlot r dv).calls.map (·.mySlot) = r.calls.map (·.mySlot) :=
  applySlot_map (fun _ _ => rfl) r dv

/-- The response goes to the call registered for the slot. -/
theorem applySlot_call {dv : DecidedValue} {c : Nat} {call : Call}
    (hc : (applySlot r dv).calls[c]? = some call) :
    r.pendingResponses.lookup r.appliedSlot ≠ some c ∧ r.calls[c]? = some call
    ∨ r.pendingResponses.lookup r.appliedSlot = some c ∧ ∃ old, r.calls[c]? = some old
      ∧ call = { old with
          pending := ⟨true, (r.db.processReq dv.req dv.nowUnix).2, dv.nowUnix⟩ } := by
  cases hlook : r.pendingResponses.lookup r.appliedSlot with
  | none =>
      simp only [applySlot, hlook] at hc
      exact .inl ⟨by simp, hc⟩
  | some c₀ =>
      simp only [applySlot, hlook] at hc
      rcases getElem?_modify_cases hc with ⟨rfl, hold⟩ | ⟨hne, hold⟩
      · exact .inr ⟨rfl, hold⟩
      · exact .inl ⟨by simpa using hne.symm, hold⟩

theorem applyDecided_call (n i : Nat) {c : Nat} {call : Call} (hc : r.calls[c]? = some call) :
    ∃ call', (r.applyDecided n i).calls[c]? = some call' ∧ call'.frame = call.frame := by
  have hframes := congrArg (·[c]?) (applyDecided_frames n i r)
  simp only [List.getElem?_map, hc, Option.map_some] at hframes
  exact Option.map_eq_some_iff.mp hframes

/-! ## Who is registered -/

/-- Whoever is registered for a slot is a call on it. -/
def Registered (r : PtPaxosReplica) : Prop :=
  ∀ slot c, r.pendingResponses.lookup slot = some c → (r.calls.map (·.mySlot))[c]? = some slot

theorem registered_iff : Registered r ↔ ∀ {slot c}, r.pendingResponses.lookup slot = some c →
    ∃ call, r.calls[c]? = some call ∧ call.mySlot = slot := by
  simp only [Registered, List.getElem?_map, Option.map_eq_some_iff]

theorem Registered.congr (h : Registered r)
    (hslots : r'.calls.map (·.mySlot) = r.calls.map (·.mySlot))
    (hpend : r'.pendingResponses = r.pendingResponses) : Registered r' := by
  intro slot c hreg
  rw [hslots]
  rw [hpend] at hreg
  exact h slot c hreg

theorem Registered.modify (h : Registered r) (c : Nat) {f : Call → Call}
    (hslot : ∀ call, (f call).mySlot = call.mySlot) :
    Registered { r with calls := r.calls.modify c f } :=
  h.congr (map_modify_same (g := (·.mySlot)) hslot _ _) rfl

theorem Registered.finishCall (h : Registered r) (c : Nat) : Registered (r.finishCall c) := by
  unfold PtPaxosReplica.finishCall
  split
  · exact h
  · rename_i call hc
    intro slot c' hreg
    rw [map_modify_same (g := (·.mySlot)) (by simp)]
    by_cases heq : slot = call.mySlot
    · subst heq
      simp at hreg
    · rw [Finmap.lookup_erase_ne heq] at hreg
      exact h slot c' hreg

theorem Registered.appendCall (h : Registered r) (i : Nat) (nowUnix : Int) (req : Request) :
    Registered (r.appendCall i nowUnix req) := by
  intro slot c hreg
  simp only [PtPaxosReplica.appendCall, List.map_append, List.map_singleton] at hreg ⊢
  by_cases hs : slot = r.nextSlot
  · subst hs
    rw [Finmap.lookup_insert, Option.some.injEq] at hreg
    subst hreg
    rw [← List.length_map (·.mySlot), List.getElem?_concat_length]
  · rw [Finmap.lookup_insert_of_ne _ hs] at hreg
    have hc := h slot c hreg
    rw [List.getElem?_append_left (List.getElem?_eq_some_iff.mp hc).1]
    exact hc

/-! ## The invariant -/

/-- How a call stands with respect to its slot: `entry` is what the log has
there, `registered` who waits for it. -/
inductive CallOk (applied : Nat) (entry : Option DecidedValue) (registered : Option Nat)
    (processed : List Processed) (c : Nat) (call : Call) : Prop
  | pending (hopen : call.isReturned = false) (hdone : call.pending.done = false)
      (hslot : applied ≤ call.mySlot) (hentry : entry = some call.dv)
      (hreg : registered = some c)
  /-- its value was applied, and the call holds the response -/
  | landed {p : Processed} (hp : p ∈ processed) (hpslot : p.slot = call.mySlot)
      (hdv : p.dv = call.dv) (hslot : call.mySlot < applied)
      (hanswer : call.answer = ⟨p.resp, p.dv.nowUnix⟩)
  /-- its slot was passed while it waited: it never returns -/
  | passed (hframe : call.frame = .waiting) (hdone : call.pending.done = false)
      (hslot : call.mySlot < applied)

structure Rendezvous (r : PtPaxosReplica) : Prop where
  calls : ∀ {c call}, r.calls[c]? = some call →
    CallOk r.appliedSlot r.log[call.mySlot - r.logBase]? (r.pendingResponses.lookup call.mySlot)
      r.processed c call
  registered : ∀ {slot c}, r.pendingResponses.lookup slot = some c →
    ∃ call, r.calls[c]? = some call ∧ call.mySlot = slot

theorem Rendezvous.toRegistered (h : Rendezvous r) : Registered r :=
  registered_iff.mpr h.registered

theorem initial_rendezvous (n : Nat) (onApply : Bool) :
    Rendezvous (PtPaxosReplica.initial n onApply) where
  calls h := by simp [PtPaxosReplica.initial] at h
  registered h := by simp [PtPaxosReplica.initial] at h

/-- The log changes, and `applied_slot_` may advance: what matters is the
values of the calls that are pending. -/
theorem Rendezvous.transfer (h : Rendezvous r) (hcalls : r'.calls = r.calls)
    (hpend : r'.pendingResponses = r.pendingResponses) (hproc : r.processed ⊆ r'.processed)
    (hslot : r.appliedSlot ≤ r'.appliedSlot)
    (hkeep : ∀ call ∈ r.calls, call.isReturned = false → r.appliedSlot ≤ call.mySlot →
      r.log[call.mySlot - r.logBase]? = some call.dv →
      r'.appliedSlot ≤ call.mySlot ∧ r'.log[call.mySlot - r'.logBase]? = some call.dv
        ∨ call.frame = .waiting ∧ call.mySlot < r'.appliedSlot) : Rendezvous r' where
  calls {c call} hc := by
    rw [hcalls] at hc
    rw [hpend]
    cases h.calls hc with
    | pending hopen hdone hle hentry hreg =>
        have hmem := List.mem_of_getElem? hc
        rcases hkeep call hmem hopen hle hentry with ⟨hle', hentry'⟩ | ⟨hw, hlt⟩
        · exact .pending hopen hdone hle' hentry' hreg
        · exact .passed hw hdone hlt
    | landed hp hpslot hdv hlt hanswer =>
        exact .landed (hproc hp) hpslot hdv (hlt.trans_le hslot) hanswer
    | passed hframe hdone hlt => exact .passed hframe hdone (hlt.trans_le hslot)
  registered := registered_iff.mp (h.toRegistered.congr (by rw [hcalls]) hpend)

theorem Rendezvous.stepDown (h : Rendezvous r) (now : Nat) (msg : PaxosMessage) :
    Rendezvous (r.stepDown now msg) := by
  unfold PtPaxosReplica.stepDown
  split
  · exact { h with }
  · exact h

/-- What a call has returned was computed for its own value. -/
theorem Rendezvous.returned (h : Rendezvous r) {call : Call} (hcall : call ∈ r.calls)
    {result : ApplyResult} (hresult : call.result = some result) :
    ∃ p ∈ r.processed, p.slot = call.mySlot ∧ p.dv = call.dv
      ∧ result = ⟨p.resp, p.dv.nowUnix⟩ := by
  obtain ⟨c, hc⟩ := List.getElem?_of_mem hcall
  cases h.calls hc with
  | pending hopen => simp [Call.isReturned, hresult] at hopen
  | landed hp hpslot hdv _ hanswer =>
      refine ⟨_, hp, hpslot, hdv, ?_⟩
      rw [← hanswer, Call.answer, hresult, Option.getD_some]
  | passed hframe => simp [Call.result, hframe] at hresult

/-! ## Applying -/

/-- The call registered for the slot is the one whose value is applied. -/
theorem Rendezvous.applySlot (h : Rendezvous r) {dv : DecidedValue}
    (hdv : r.log[r.appliedSlot - r.logBase]? = some dv) : Rendezvous (applySlot r dv) where
  calls {c call} hc := by
    have hnext := Nat.lt_succ_self r.appliedSlot
    rcases applySlot_call hc with ⟨hne, hc⟩ | ⟨hlook, old, hold, rfl⟩
    · cases h.calls hc with
      | pending hopen hdone hle hentry hreg =>
          refine .pending hopen hdone (Nat.lt_of_le_of_ne hle fun heq => hne ?_) hentry hreg
          rw [heq, hreg]
      | landed hp hpslot hpdv hlt hanswer =>
          exact .landed (List.mem_append_left _ hp) hpslot hpdv (hlt.trans hnext) hanswer
      | passed hframe hdone hlt => exact .passed hframe hdone (hlt.trans hnext)
    · -- the call gets the response
      obtain ⟨call₀, hcall₀, hslot₀⟩ := h.registered hlook
      obtain rfl : call₀ = old := Option.some.inj (hcall₀.symm.trans hold)
      cases h.calls hold with
      | pending hopen hdone hle hentry hreg =>
          rw [hslot₀, hdv] at hentry
          obtain rfl := Option.some.inj hentry
          refine .landed (p := ⟨r.appliedSlot, call₀.dv, _⟩)
            (List.mem_append_right _ (List.mem_singleton_self _)) hslot₀.symm rfl
            (hslot₀.trans_lt hnext) ?_
          exact Call.answer_of_not_returned hopen
      | landed hp hpslot hpdv hlt => omega
      | passed hframe hdone hlt => omega
  registered := registered_iff.mp (h.toRegistered.congr (applySlot_slots r dv) rfl)

theorem Rendezvous.applyDecided (h : Rendezvous r) (hwf : Wf n i r) (hi : i < n) :
    Rendezvous (r.applyDecided n i) := by
  refine applyDecided_induct (P := Rendezvous) { h with } (fun _ _ h hdv => h.applySlot hdv) ?_
  intro hl hloop
  obtain ⟨-, happlied⟩ := hwf.logInv.minAck_le_applied hi hl
  have hbase : (r.tryDecide n).applyLoop.logBase ≤ (r.tryDecide n).applyLoop.appliedSlot := by
    rw [applyLoop_logBase]
    exact hwf.base_le.trans (applyLoop_mono (r.tryDecide n))
  refine hloop.transfer rfl rfl (fun _ h => h) le_rfl fun call _ _ hle hentry => .inl ⟨hle, ?_⟩
  simp only [tryTruncate, List.getElem?_drop]
  rw [← hentry]
  congr 1
  omega

/-! ## Writing the log -/

theorem getElem?_writeValues {base s k : Nat} {vs log : List DecidedValue}
    (hs : s ≤ base + log.length) (hk : base ≤ k) :
    (writeValues base s vs log)[k - base]?
      = if s ≤ k ∧ k < s + vs.length then vs[k - s]? else log[k - base]? := by
  rw [writeValues_eq vs log hs]
  simp only [List.getElem?_append, List.length_append, List.length_take, List.length_drop,
    List.getElem?_take, List.getElem?_drop]
  split_ifs <;> first | omega | (congr 1 <;> omega)

theorem install_of_gap {msg : PaxosMessage} (hgap : r.logEnd < msg.slot) :
    (r.install msg).appliedSlot = max r.appliedSlot msg.slot := by
  have hgap' : msg.slot > logEnd { r with ackRound := msg.round } := hgap
  simp only [PtPaxosReplica.install, if_pos hgap']
  split <;> rfl

/-- Without a gap a slot up to the end of the PROPOSE keeps its value or gets
that of the PROPOSE. -/
theorem install_of_no_gap {msg : PaxosMessage} (hgap : msg.slot ≤ r.logEnd) :
    (r.install msg).appliedSlot = r.appliedSlot ∧ (r.install msg).logBase = r.logBase
      ∧ ∀ {k}, r.logBase ≤ k → k < proposeEnd msg →
        (r.install msg).log[k - r.logBase]?
          = if msg.slot ≤ k then msg.values[k - msg.slot]? else r.log[k - r.logBase]? := by
  have hgap' : ¬msg.slot > logEnd { r with ackRound := msg.round } := Nat.not_lt.mpr hgap
  have hwrite : ∀ {k}, r.logBase ≤ k → k < proposeEnd msg →
      (writeValues r.logBase msg.slot msg.values r.log)[k - r.logBase]?
        = if msg.slot ≤ k then msg.values[k - msg.slot]? else r.log[k - r.logBase]? := by
    intro k hbase hk
    rw [getElem?_writeValues hgap hbase]
    simp only [proposeEnd] at hk
    simp only [hk, and_true]
  simp only [PtPaxosReplica.install, if_neg hgap']
  split
  · refine ⟨rfl, rfl, fun hbase hk => ?_⟩
    rw [List.getElem?_take_of_lt (by omega)]
    exact hwrite hbase hk
  · exact ⟨rfl, rfl, hwrite⟩

/-- An accepted PROPOSE that has the values of the calls it overwrites. -/
theorem Rendezvous.install (h : Rendezvous r) (hbase : r.logBase ≤ r.appliedSlot)
    {msg : PaxosMessage}
    (hkeep : ∀ call ∈ r.calls, call.isReturned = false → r.appliedSlot ≤ call.mySlot →
      call.carriedBy msg.slot msg.values ∨ call.mySlot < msg.slot ∧ msg.slot ≤ r.logEnd) :
    Rendezvous (r.install msg) := by
  have hcalls : (r.install msg).calls = r.calls :=
    install_same (f := (·.calls)) (fun _ _ _ _ _ => rfl) msg r
  have hpend : (r.install msg).pendingResponses = r.pendingResponses :=
    install_same (f := (·.pendingResponses)) (fun _ _ _ _ _ => rfl) msg r
  have hproc : (r.install msg).processed = r.processed :=
    install_same (f := (·.processed)) (fun _ _ _ _ _ => rfl) msg r
  rcases Nat.lt_or_ge r.logEnd msg.slot with hgap | hgap
  · -- the log is reset: calls that wait are passed over
    have happlied := install_of_gap hgap
    refine h.transfer hcalls hpend (fun _ hp => hproc ▸ hp) (happlied ▸ le_max_left _ _) ?_
    intro call hcall hopen hle hentry
    have hlt : call.mySlot < msg.slot := by
      have := (List.getElem?_eq_some_iff.mp hentry).1
      simp only [logEnd] at hgap
      omega
    right
    rcases hkeep call hcall hopen hle with hc | ⟨-, hle'⟩
    · rw [Call.carriedBy, if_neg (Nat.not_le.mpr hlt)] at hc
      exact ⟨hc, by omega⟩
    · omega
  · obtain ⟨happlied, hbase', hlog⟩ := install_of_no_gap hgap
    refine h.transfer hcalls hpend (fun _ hp => hproc ▸ hp) happlied.ge ?_
    intro call hcall hopen hle hentry
    left
    rw [happlied, hbase']
    refine ⟨hle, ?_⟩
    by_cases hlt : call.mySlot < msg.slot
    · rw [hlog (hbase.trans hle) (hlt.trans_le (Nat.le_add_right _ _)),
        if_neg (Nat.not_le.mpr hlt)]
      exact hentry
    · have hc := (hkeep call hcall hopen hle).resolve_right fun hx => hlt hx.1
      rw [Call.carriedBy, if_pos (Nat.not_lt.mp hlt)] at hc
      have := (List.getElem?_eq_some_iff.mp hc).1
      rw [hlog (hbase.trans hle) (by rw [proposeEnd]; omega), if_pos (Nat.not_lt.mp hlt)]
      exact hc

theorem Rendezvous.truncateFollower (h : Rendezvous r) (hbase : r.logBase ≤ r.appliedSlot)
    (t : Nat) : Rendezvous (r.truncateFollower t) := by
  refine h.transfer rfl rfl (fun _ hp => hp) le_rfl fun call _ _ hle hentry => .inl ⟨hle, ?_⟩
  simp only [PtPaxosReplica.truncateFollower, List.getElem?_drop]
  rw [← hentry]
  congr 1
  omega

theorem catchUp_processed (best : PaxosMessage) (r : PtPaxosReplica) :
    r.processed ⊆ (r.catchUp best).processed :=
  applyUpTo_induct (P := fun r' => r.processed ⊆ r'.processed) (fun _ hp => hp)
    fun _ _ hsub _ _ _ hp => List.mem_append_left _ (hsub hp)

/-- An adopted log that has the values of the calls it replaces. -/
theorem Rendezvous.adopt (h : Rendezvous r) {best : PaxosMessage}
    (hkeep : ∀ call ∈ r.calls, call.isReturned = false → r.appliedSlot ≤ call.mySlot →
      r.log[call.mySlot - r.logBase]? = some call.dv → call.carriedBy best.slot best.values) :
    Rendezvous (r.adopt i best) := by
  have hmono : r.appliedSlot ≤ (r.catchUp best).appliedSlot :=
    applyUpTo_appliedSlot_mono fun _ _ => rfl
  have hle : (r.catchUp best).appliedSlot ≤ max r.appliedSlot best.slot :=
    applyUpTo_appliedSlot_le fun _ _ => rfl
  have happlied : (r.adopt i best).appliedSlot = max (r.catchUp best).appliedSlot best.slot := rfl
  refine h.transfer (catchUp_same (f := (·.calls)) (fun _ _ => rfl) best r)
    (catchUp_same (f := (·.pendingResponses)) (fun _ _ => rfl) best r)
    (catchUp_processed best r) (by omega) ?_
  intro call hcall hopen hslot hentry
  have hc := hkeep call hcall hopen hslot hentry
  unfold Call.carriedBy at hc
  split at hc
  · exact .inl ⟨by omega, hc⟩
  · exact .inr ⟨hc, by omega⟩

theorem Rendezvous.acceptPropose (h : Rendezvous r) (hwf : Wf n i r) (hi : i < n)
    (hl : i ≠ r.leaderIndex) (now : Nat) (msg : PaxosMessage)
    (hkeep : ∀ call ∈ r.calls, call.isReturned = false → r.appliedSlot ≤ call.mySlot →
      call.carriedBy msg.slot msg.values ∨ call.mySlot < msg.slot ∧ msg.slot ≤ r.logEnd) :
    Rendezvous (r.acceptPropose n i now msg) := by
  refine (acceptPropose_induct (P := fun r => Rendezvous r ∧ Wf n i r) ?_ ?_ ?_).1
  · exact ⟨{ h.install hwf.base_le hkeep with }, { hwf.install hl msg with }⟩
  · rintro r ⟨h, hwf⟩
    exact ⟨h.applyDecided hwf hi, hwf.applyDecided hi⟩
  · rintro r ⟨h, hwf⟩
    exact ⟨h.truncateFollower hwf.base_le _, hwf.truncateFollower _⟩

/-! ## The calls themselves -/

/-- One call changes, and its slot does not. -/
theorem Rendezvous.modify (h : Rendezvous r) {c : Nat} {f : Call → Call}
    (hslot : ∀ call, (f call).mySlot = call.mySlot)
    (hok : ∀ call, r.calls[c]? = some call →
      CallOk r.appliedSlot r.log[call.mySlot - r.logBase]? (r.pendingResponses.lookup call.mySlot)
        r.processed c (f call)) :
    Rendezvous { r with calls := r.calls.modify c f } where
  calls {c' call} hc := by
    rcases getElem?_modify_cases hc with ⟨rfl, old, hold, rfl⟩ | ⟨-, hold⟩
    · rw [hslot old]
      exact hok old hold
    · exact h.calls hold
  registered := registered_iff.mp (h.toRegistered.modify c hslot)

/-- A call whose slot has been passed is not registered any more once it
returns. -/
theorem Rendezvous.finishCall (h : Rendezvous r) {c : Nat} {call : Call}
    (hc : r.calls[c]? = some call) (hopen : call.isReturned = false)
    (hslot : call.mySlot < r.appliedSlot)
    (hdone : call.frame = .waiting → call.pending.done = true) :
    Rendezvous (r.finishCall c) := by
  have hmod : Rendezvous { r with
      calls := r.calls.modify c fun call =>
        { call with frame := .returned ⟨call.pending.resp, call.pending.nowUnix⟩ } } := by
    refine h.modify (fun _ => rfl) ?_
    intro call' hc'
    obtain rfl : call = call' := Option.some.inj (hc.symm.trans hc')
    cases h.calls hc with
    | pending _ _ hle => omega
    | landed hp hpslot hdv hlt hanswer =>
        exact .landed hp hpslot hdv hlt ((Call.answer_of_not_returned hopen).symm.trans hanswer)
    | passed hframe hnot => simp [hdone hframe] at hnot
  refine ⟨fun {c' call'} hc' => ?_, registered_iff.mp (h.toRegistered.finishCall c)⟩
  simp only [PtPaxosReplica.finishCall, hc] at hc' ⊢
  cases hmod.calls hc' with
  | pending hopen' hdone' hle hentry hreg =>
      refine .pending hopen' hdone' hle hentry ?_
      rw [Finmap.lookup_erase_ne (Nat.ne_of_gt (hslot.trans_le hle))]
      exact hreg
  | landed hp hpslot hdv hlt hanswer => exact .landed hp hpslot hdv hlt hanswer
  | passed hframe hnot hlt => exact .passed hframe hnot hlt

theorem Rendezvous.awaitCall (h : Rendezvous r) {c k : Nat} {call : Call}
    (hc : r.calls[c]? = some call) (hframe : call.frame = .sending k) :
    Rendezvous (r.awaitCall c) := by
  have hopen : call.isReturned = false := by simp [Call.isReturned, Call.result, hframe]
  unfold PtPaxosReplica.awaitCall
  simp only [hc]
  split
  · rename_i hle
    refine h.modify (fun _ => rfl) ?_
    intro call' hc'
    obtain rfl : call = call' := Option.some.inj (hc.symm.trans hc')
    cases h.calls hc with
    | pending _ _ hslot hentry hreg => exact .pending rfl rfl hslot hentry hreg
    | landed _ _ _ hlt => omega
    | passed _ _ hlt => omega
  · rename_i hlt
    exact h.finishCall hc hopen (Nat.not_le.mp hlt) (by simp [hframe])

theorem Rendezvous.callSendPropose (h : Rendezvous r) (hwf : Wf n i r) (hi : i < n) {c k k' : Nat}
    {call : Call} (hc : r.calls[c]? = some call) (hframe : call.frame = .sending k') :
    Rendezvous (r.callSendPropose n i c k).1 := by
  unfold PtPaxosReplica.callSendPropose
  split
  · rename_i j _
    refine h.modify (fun _ => rfl) ?_
    intro call' hc'
    obtain rfl : call = call' := Option.some.inj (hc.symm.trans hc')
    cases h.calls hc with
    | pending _ hdone hslot hentry hreg => exact .pending rfl hdone hslot hentry hreg
    | landed hp hpslot hdv hlt hanswer =>
        have hopen : call.isReturned = false := by simp [Call.isReturned, Call.result, hframe]
        exact .landed hp hpslot hdv hlt ((Call.answer_of_not_returned hopen).symm.trans hanswer)
    | passed hw => simp [hframe] at hw
  · obtain ⟨call', hc', hframe'⟩ := applyDecided_call n i hc
    exact (h.applyDecided hwf hi).awaitCall hc' (hframe'.trans hframe)

theorem Rendezvous.appendCall (h : Rendezvous r) (hwf : Wf n i r) (hl : i = r.leaderIndex)
    (hnext : r.appliedSlot ≤ r.nextSlot) (nowUnix : Int) (req : Request) :
    Rendezvous (r.appendCall i nowUnix req) := by
  have hend : r.nextSlot - r.logBase = r.log.length := by
    rw [hwf.next hl, logEnd, Nat.add_sub_cancel_left]
  have hbase := hwf.base_le
  refine ⟨fun {c call} hc => ?_,
    registered_iff.mp (h.toRegistered.appendCall i nowUnix req)⟩
  simp only [PtPaxosReplica.appendCall, List.getElem?_append]
  rcases getElem?_concat_cases hc with hc | ⟨rfl, rfl⟩
  · cases h.calls hc with
    | pending hopen hdone hle hentry hreg =>
        have hin := (List.getElem?_eq_some_iff.mp hentry).1
        refine .pending hopen hdone hle (by rw [if_pos hin, hentry]) ?_
        rw [Finmap.lookup_insert_of_ne _ (by omega)]
        exact hreg
    | landed hp hpslot hdv hlt hanswer => exact .landed hp hpslot hdv hlt hanswer
    | passed hframe hdone hlt => exact .passed hframe hdone hlt
  · refine .pending rfl rfl hnext ?_ (Finmap.lookup_insert _)
    simp [hend]

/-! ## Turns -/

/-- The unanswered calls whose slot has not been applied. -/
def unapplied (r : PtPaxosReplica) : List Call :=
  r.calls.filter fun call => !call.isReturned && decide (r.appliedSlot ≤ call.mySlot)

/-- The log that the event installs, if it does, leaves the values of the
unapplied calls in place, and a call is made only where `next_slot_` is not
behind `applied_slot_`. -/
def keepsCalls (n i : Nat) (r : PtPaxosReplica) : LocalEvent → Prop
  | .receive msg now =>
    (r.accepts i now msg → ∀ call ∈ r.unapplied,
      call.carriedBy msg.slot msg.values ∨ call.mySlot < msg.slot ∧ msg.slot ≤ r.logEnd)
    ∧ ∀ best ∈ r.elects n msg, ∀ call ∈ r.unapplied, call.carriedBy best.slot best.values
  | .propose _ _ => i = r.leaderIndex → r.appliedSlot ≤ r.nextSlot
  | _ => True

instance (n i : Nat) (r : PtPaxosReplica) : ∀ ev, Decidable (r.keepsCalls n i ev)
  | .receive msg now => inferInstanceAs (Decidable ((r.accepts i now msg → ∀ call ∈ r.unapplied,
      call.carriedBy msg.slot msg.values ∨ call.mySlot < msg.slot ∧ msg.slot ≤ r.logEnd)
    ∧ ∀ best ∈ r.elects n msg, ∀ call ∈ r.unapplied, call.carriedBy best.slot best.values))
  | .propose _ _ => inferInstanceAs (Decidable (i = r.leaderIndex → r.appliedSlot ≤ r.nextSlot))
  | .timeout _ => isTrue trivial
  | .resumeRun => isTrue trivial
  | .resumeCall _ => isTrue trivial

theorem mem_unapplied {call : Call} : call ∈ r.unapplied ↔
    call ∈ r.calls ∧ call.isReturned = false ∧ r.appliedSlot ≤ call.mySlot := by
  simp [unapplied]

theorem Rendezvous.runSendPropose (h : Rendezvous r) (hwf : Wf n i r) (hi : i < n) (k : Nat) :
    Rendezvous (r.runSendPropose n i k).1 :=
  runSendPropose_induct (P := Rendezvous) h (fun h => h.applyDecided hwf hi)
    (fun _ _ h => { h with }) k

/-- A replica that elects itself alone adopts its own log. -/
theorem Rendezvous.runProbe (h : Rendezvous r) (hwf : Wf n i r) (hi : i < n)
    (hround : r.electionRound = r.probeRound) (hne : r.electionRound ≠ 0)
    (hnil : r.prepareResponses = []) (k : Nat) : Rendezvous (r.runProbe n i k).1 := by
  refine runProbe_induct (fun _ _ => { h with }) ?_ k
  intro best hbest
  rw [hnil] at hbest
  obtain rfl := Option.some.inj hbest
  have hwf' : Wf n i ((r.addResponse (r.prepareMsg i r.electionRound)).adopt i
      (r.prepareMsg i r.electionRound)) :=
    (hwf.addResponse _).adopt hi rfl hround hne _
  have hadd : Rendezvous (r.addResponse (r.prepareMsg i r.electionRound)) := { h with }
  refine (hadd.adopt ?_).runSendPropose hwf' hi 0
  intro call _ _ hslot hentry
  have hle : (r.prepareMsg i r.electionRound).slot ≤ call.mySlot := hwf.base_le.trans hslot
  rw [Call.carriedBy, if_pos hle]
  exact hentry

theorem Turn.rendezvous {ev : LocalEvent} {x : PtPaxosReplica × List Packet}
    (ht : Turn n i r ev x) (hi : i < n) (hwf : Wf n i r)
    (hrec : ∀ p ∈ System.received i ev, PacketWf n p) (h : Rendezvous r)
    (hok : r.keepsCalls n i ev) : Rendezvous x.1 := by
  cases ht with
  | ignore => exact h.stepDown _ _
  | probe => exact { h.stepDown _ _ with }
  | vote => exact { h.stepDown _ _ with }
  | @elect msg best now hrecv htype hround helection hquorum hbest =>
      have hm := sender_ne_of_received rfl hrec
      have hle := hwf.election_le
      have helects := elects_of_quorum htype hround helection hquorum hbest
      rw [stepDown_eq (by omega)]
      have hwf' : Wf n i ((r.addResponse msg).adopt i best) :=
        (hwf.addResponse msg).adopt hi rfl (show r.electionRound = r.probeRound by omega)
          (show r.electionRound ≠ 0 from helection ▸ (hm.prepare htype).1) best
      have hadd : Rendezvous (r.addResponse msg) := { h with }
      refine (hadd.adopt ?_).runSendPropose hwf' hi 0
      intro call hcall hopen hslot _
      exact hok.2 best helects call (mem_unapplied.mpr ⟨hcall, hopen, hslot⟩)
  | @ack msg now hrecv =>
      have hm := sender_ne_of_received rfl hrec
      have hwf' := (hwf.stepDown now hm.sender_ne hrecv).recordAck hm.sender_ne
      refine Rendezvous.applyDecided ?_ hwf' hi
      unfold recordAck
      split
      · exact { h.stepDown now msg with }
      · exact h.stepDown now msg
  | stale => exact { h.stepDown _ _ with }
  | @accept msg now hrecv htype hround hfollower hfresh =>
      have hm := sender_ne_of_received rfl hrec
      have hwf' : Wf n i { r.stepDown now msg with leaderIndex := msg.sender } :=
        (hwf.stepDown now hm.sender_ne hrecv).follow
          ((stepDown_runFrame now msg r).trans hrecv) hm.sender_ne
      have hfollow : Rendezvous { r.stepDown now msg with leaderIndex := msg.sender } :=
        { h.stepDown now msg with }
      have hkeep := hok.1 ⟨htype, hround, hfollower, hfresh⟩
      have hkeep' : ∀ call ∈ (r.stepDown now msg).calls, call.isReturned = false →
          (r.stepDown now msg).appliedSlot ≤ call.mySlot → call.carriedBy msg.slot msg.values
            ∨ call.mySlot < msg.slot ∧ msg.slot ≤ (r.stepDown now msg).logEnd := by
        rw [stepDown_calls, stepDown_appliedSlot, stepDown_logEnd]
        intro call hcall hopen hslot
        exact hkeep call (mem_unapplied.mpr ⟨hcall, hopen, hslot⟩)
      exact { hfollow.acceptPropose hwf' hi hm.sender_ne.symm now msg hkeep' with }
  | quiet => exact h
  | retransmit => exact h.runSendPropose hwf hi 0
  | start hrecv hfollower =>
      have hpick : Rendezvous (r.pickRound n i) := { h with }
      exact hpick.runProbe (hwf.pickRound hi hrecv hfollower) hi rfl
        (Nat.ne_of_gt (Nat.zero_lt_of_lt (lt_pickRound hi r))) rfl 0
  | refuse => exact { h with }
  | @append req nowUnix hleader =>
      have happend := h.appendCall hwf hleader (hok hleader) nowUnix req
      exact happend.callSendPropose (hwf.appendCall hi hleader nowUnix req) hi
        List.getElem?_concat_length (rfl : CallFrame.sending 0 = .sending 0)
  | replied => exact { h with }
  | probing hframe =>
      obtain ⟨-, hround, hne, hnil⟩ := hwf.probing hframe
      exact h.runProbe hwf hi hround hne hnil _
  | proposing => exact h.runSendPropose hwf hi _
  | sending hcall hframe => exact h.callSendPropose hwf hi hcall hframe
  | @finish c call hcall hframe hdone =>
      have hopen : call.isReturned = false := by simp [Call.isReturned, Call.result, hframe]
      refine h.finishCall hcall hopen ?_ fun _ => hdone
      cases h.calls hcall with
      | pending _ hnot => simp [hnot] at hdone
      | landed _ _ _ hlt => exact hlt
      | passed _ hnot => simp [hnot] at hdone

/-! ## The values of the calls -/

/-- What a call keeps from the moment it is made. -/
def keys (r : PtPaxosReplica) : List (Nat × DecidedValue) :=
  r.calls.map fun call => (call.mySlot, call.dv)

theorem applySlot_keys (r : PtPaxosReplica) (dv : DecidedValue) :
    (PtPaxosReplica.applySlot r dv).keys = r.keys :=
  applySlot_map (fun _ _ => rfl) r dv

theorem applyDecided_keys (n i : Nat) (r : PtPaxosReplica) : (r.applyDecided n i).keys = r.keys :=
  applyDecided_same (f := keys) n i applySlot_keys (fun _ => rfl) (fun _ => rfl) r

theorem catchUp_keys (best : PaxosMessage) (r : PtPaxosReplica) :
    (r.catchUp best).keys = r.keys :=
  catchUp_same (f := keys) (fun _ _ => rfl) best r

theorem finishCall_keys (c : Nat) (r : PtPaxosReplica) : (r.finishCall c).keys = r.keys := by
  unfold PtPaxosReplica.finishCall
  split
  · rfl
  · exact map_modify_same (g := fun call => (call.mySlot, call.dv)) (by simp) _ _

theorem callSendPropose_keys (n i c k : Nat) (r : PtPaxosReplica) :
    (r.callSendPropose n i c k).1.keys = r.keys := by
  unfold PtPaxosReplica.callSendPropose
  split
  · exact map_modify_same (g := fun call => (call.mySlot, call.dv)) (by simp) _ _
  · refine Eq.trans ?_ (applyDecided_keys n i r)
    unfold PtPaxosReplica.awaitCall
    split
    · rfl
    · split
      · exact map_modify_same (g := fun call => (call.mySlot, call.dv)) (by simp) _ _
      · exact finishCall_keys c _

theorem runSendPropose_keys (n i k : Nat) (r : PtPaxosReplica) :
    (r.runSendPropose n i k).1.keys = r.keys :=
  runSendPropose_same (f := keys) n i k (applyDecided_keys n i) (fun _ _ => rfl) r

theorem runProbe_keys (n i k : Nat) (r : PtPaxosReplica) :
    (r.runProbe n i k).1.keys = r.keys := by
  refine runProbe_induct (P := fun r' => r'.keys = r.keys) (fun _ _ => rfl) ?_ k
  intro best _
  exact (runSendPropose_keys n i 0 _).trans (catchUp_keys _ _)

/-- A turn makes at most one call, for the request it is given. -/
theorem Turn.keys {ev : LocalEvent} {x : PtPaxosReplica × List Packet} (ht : Turn n i r ev x) :
    x.1.keys = r.keys
    ∨ ∃ req nowUnix, ev = .propose req nowUnix ∧ i = r.leaderIndex
      ∧ x.1.keys = r.keys
        ++ [(r.nextSlot, ⟨nowUnix, req.base.agentId, req.base.serial, req⟩)] := by
  have hdown : ∀ now msg, (r.stepDown now msg).keys = r.keys := fun now msg =>
    stepDown_same (f := PtPaxosReplica.keys) (fun _ _ _ _ => rfl) now msg r
  cases ht with
  | ignore => exact .inl (hdown _ _)
  | probe => exact .inl (hdown _ _)
  | vote => exact .inl (hdown _ _)
  | elect =>
      left
      rw [runSendPropose_keys]
      exact (catchUp_keys _ _).trans (hdown _ _)
  | ack =>
      left
      rw [handleAck, applyDecided_keys,
        recordAck_same (f := PtPaxosReplica.keys) (fun _ _ => rfl)]
      exact hdown _ _
  | stale => exact .inl (hdown _ _)
  | @accept msg now =>
      left
      exact (acceptPropose_same (f := PtPaxosReplica.keys) n i applySlot_keys
        (fun _ _ _ _ _ _ _ => rfl) now msg _).trans (hdown now msg)
  | retransmit => exact .inl (runSendPropose_keys n i 0 r)
  | start => exact .inl (runProbe_keys n i 0 _)
  | @append req nowUnix hleader =>
      refine .inr ⟨req, nowUnix, rfl, hleader, ?_⟩
      rw [callSendPropose_keys]
      simp [PtPaxosReplica.keys, PtPaxosReplica.appendCall]
  | probing => exact .inl (runProbe_keys n i _ r)
  | proposing => exact .inl (runSendPropose_keys n i _ r)
  | sending => exact .inl (callSendPropose_keys n i _ _ r)
  | finish => exact .inl (finishCall_keys _ r)
  | _ => exact .inl rfl

end PtPaxosReplica

/-! ## Runs -/

namespace System

open PtPaxosReplica

/-- Every log that a step installs keeps the values of the unapplied calls. -/
def keepsCalls (n : Nat) (s : System) (e : Event) : Prop :=
  ∀ x ∈ s.target e, (s.replicas x.1).keepsCalls n x.1 x.2.1

instance (n : Nat) (s : System) (e : Event) : Decidable (s.keepsCalls n e) :=
  inferInstanceAs (Decidable (∀ x ∈ s.target e, (s.replicas x.1).keepsCalls n x.1 x.2.1))

/-- Every call of `propose_and_apply` in the run that left the trace `tr` and
ended in `s` was refused and changed nothing else, or appended its request;
and what it returned is what `process_req` answered when this replica applied
what it had appended. -/
structure AnswersOwn (n : Nat) (tr : List (System × Event)) (s : System) : Prop where
  refused : ∀ p ∈ tr, ∀ i req nowUnix, p.2 = .propose i req nowUnix →
    i ≠ (p.1.replicas i).leaderIndex →
    p.1.step n p.2 = some { p.1 with
      replicas := Function.update p.1.replicas i { p.1.replicas i with
        refused := (p.1.replicas i).refused ++ [(req, notLeader req)] } }
  appended : ∀ p ∈ tr, ∀ i req nowUnix, p.2 = .propose i req nowUnix →
    i = (p.1.replicas i).leaderIndex →
    ∃ call, (s.replicas i).calls[(p.1.replicas i).calls.length]? = some call
      ∧ call.dv = ⟨nowUnix, req.base.agentId, req.base.serial, req⟩
  returned : ∀ i < n, ∀ call ∈ (s.replicas i).calls, ∀ result ∈ call.result,
    ∃ p ∈ (s.replicas i).processed, p.slot = call.mySlot ∧ p.dv = call.dv
      ∧ result = ⟨p.resp, p.dv.nowUnix⟩

variable {n : Nat} {s s' : System} {e : Event}

theorem run_rendezvous {onApply : Nat → Bool} {tr : List (System × Event)}
    (hrun : PaxosRun n onApply (keepsCalls n) tr s) : ∀ i < n, Rendezvous (s.replicas i) := by
  let P := fun i r => Wf n i r ∧ Rendezvous r
  have hinv := hrun.invariant (I := fun s =>
    (∀ i < n, P i (s.replicas i)) ∧ ∀ p ∈ s.network, PacketWf n p)
    ⟨fun i hi => ⟨initial_wf hi _, initial_rendezvous n _⟩, by simp [initial]⟩
    fun hI hok hstep => step_invariant (P := P) (fun hi htarget hP hM hlocal => by
      have ht := localStep_turn hlocal
      obtain ⟨hwf, hout⟩ := ht.wf hi hP.1 hM
      exact ⟨⟨hwf, ht.rendezvous hi hP.1 hM hP.2 (hok _ htarget)⟩, hout⟩) hI hstep
  exact fun i hi => (hinv.1 i hi).2

theorem step_propose {i : Nat} {req : Request} {nowUnix : Int}
    (hstep : s.step n (.propose i req nowUnix) = some s') :
    i < n ∧ s' = ⟨Function.update s.replicas i
        ((s.replicas i).proposeAndApply n i nowUnix req).1,
      s.network ++ ((s.replicas i).proposeAndApply n i nowUnix req).2⟩ := by
  rcases step_cases hstep with ⟨k, p, he, -⟩ | ⟨j, ev, rest, x, hj, htarget, hlocal, rfl⟩
  · cases he
  · simp only [target, Option.some.injEq, Prod.mk.injEq] at htarget
    obtain ⟨rfl, rfl, rfl⟩ := htarget
    obtain rfl := Option.some.inj hlocal
    exact ⟨hj, rfl⟩

/-- Calls are never forgotten, and keep their slot and value. -/
theorem step_keys (hstep : s.step n e = some s') (i : Nat) :
    (s.replicas i).keys <+: (s'.replicas i).keys := by
  rcases step_cases hstep with ⟨k, p, -, -, hsame⟩ | ⟨j, ev, rest, x, hj, htarget, hlocal, rfl⟩
  · rw [hsame]
  · by_cases hij : i = j
    · subst hij
      simp only [Function.update_self]
      rcases (localStep_turn hlocal).keys with heq | ⟨req, nowUnix, -, -, heq⟩
      · rw [heq]
      · rw [heq]
        exact List.prefix_append _ _
    · simp [hij]

theorem run_keys {ok : System → Event → Prop} {tr : List (System × Event)}
    (hrun : Runs.Run (step n) ok s tr s') (i : Nat) :
    (s.replicas i).keys <+: (s'.replicas i).keys :=
  hrun.invariant (I := fun t => (s.replicas i).keys <+: (t.replicas i).keys)
    (List.prefix_refl _) fun hI _ hstep => hI.trans (step_keys hstep i)

/-- A replica that is not the leader refuses, and changes nothing else. -/
theorem step_refused {i : Nat} {req : Request} {nowUnix : Int}
    (hstep : s.step n (.propose i req nowUnix) = some s') (hne : i ≠ (s.replicas i).leaderIndex) :
    s.step n (.propose i req nowUnix) = some { s with
      replicas := Function.update s.replicas i { s.replicas i with
        refused := (s.replicas i).refused ++ [(req, notLeader req)] } } := by
  rw [hstep, (step_propose hstep).2, proposeAndApply, if_pos hne, List.append_nil]

/-- A leader appends the request, and the call keeps its value. -/
theorem call_of_propose {ok : System → Event → Prop} {tr : List (System × Event)} {s₀ s₁ : System}
    {i : Nat} {req : Request} {nowUnix : Int}
    (hstep : s₀.step n (.propose i req nowUnix) = some s₁) (hl : i = (s₀.replicas i).leaderIndex)
    (hrest : Runs.Run (step n) ok s₁ tr s) :
    ∃ call, (s.replicas i).calls[(s₀.replicas i).calls.length]? = some call
      ∧ call.dv = ⟨nowUnix, req.base.agentId, req.base.serial, req⟩ := by
  have hkeys : (s₁.replicas i).keys = (s₀.replicas i).keys
      ++ [((s₀.replicas i).nextSlot, ⟨nowUnix, req.base.agentId, req.base.serial, req⟩)] := by
    rw [(step_propose hstep).2]
    simp only [Function.update_self, proposeAndApply, ne_eq, not_true_eq_false, ← hl, if_false]
    rw [callSendPropose_keys]
    simp [keys, appendCall]
  have hget : (s₁.replicas i).keys[(s₀.replicas i).calls.length]? = some
      ((s₀.replicas i).nextSlot, ⟨nowUnix, req.base.agentId, req.base.serial, req⟩) := by
    have hlen : (s₀.replicas i).calls.length = (s₀.replicas i).keys.length := by
      simp [keys]
    rw [hkeys, hlen]
    exact List.getElem?_concat_length
  have hfinal := getElem?_of_prefix (run_keys hrest i) hget
  simp only [keys, List.getElem?_map, Option.map_eq_some_iff, Prod.mk.injEq] at hfinal
  obtain ⟨call, hcall, -, hdv⟩ := hfinal
  exact ⟨call, hcall, hdv⟩

/-- Every call returns the answer to its own request, in every run in which
no log is installed over the unapplied value of an unanswered call. -/
theorem answers_own (onApply : Nat → Bool) {tr : List (System × Event)}
    (hrun : PaxosRun n onApply (keepsCalls n) tr s) : AnswersOwn n tr s := by
  refine ⟨?_, ?_, ?_⟩
  · intro p hp i req nowUnix he hne
    obtain ⟨-, t, -, -, hstep⟩ := hrun.reach_of_mem hp
    rw [he] at hstep ⊢
    exact step_refused hstep hne
  · intro p hp i req nowUnix he hl
    obtain ⟨tr₁, tr₂, rfl⟩ := List.append_of_mem hp
    obtain ⟨t, -, -, hstep, hrest⟩ := hrun.split
    rw [he] at hstep
    exact call_of_propose hstep hl hrest
  · intro i hi call hcall result hresult
    exact (run_rendezvous hrun i hi).returned hcall hresult

/-- A call at replica 0 returns, while replica 1 refuses one. -/
def callAnswered : List Event :=
  [.propose 0 (.taskCreate { serial := 1, spec := { title := "a" } }) 10,
   .resumeCall 0 0, .resumeCall 0 0, .propose 1 (.taskCreate { serial := 2 }) 10,
   .deliver 0 11, .resumeRun 1, .deliver 1 12, .resumeCall 0 0]

theorem answers_own_callAnswered :
    AnswersOwn 3 ((initial 3 fun _ => true).trace 3 callAnswered)
      (((initial 3 fun _ => true).exec 3 callAnswered).get (by decide +kernel)) :=
  answers_own (fun _ => true)
    (Runs.run_of_exec callAnswered (by decide +kernel) (by decide +kernel))

/-- Replica 0 appends a task "a" at slot 0, which reaches nobody; replica 1
is elected by replica 2 and gets a task "b" decided at slot 0; and when
replica 0 applies that, the call that waits for slot 0 returns. -/
def answersSwapped : List Event :=
  [.propose 0 (.taskCreate { serial := 1, spec := { title := "a" } }) 10, .lose 0,
   .resumeCall 0 0, .lose 0, .resumeCall 0 0,
   .timeout 1 600, .lose 0, .resumeRun 1, .resumeRun 1, .deliver 0 601, .resumeRun 2,
   .deliver 0 602, .lose 0, .resumeRun 1, .lose 0, .resumeRun 1,
   .propose 1 (.taskCreate { serial := 2, spec := { title := "b" } }) 603,
   .resumeCall 1 0, .resumeCall 1 0, .deliver 1 604, .resumeRun 2, .deliver 1 605,
   .deliver 0 606, .resumeRun 0, .timeout 1 700, .resumeRun 1, .resumeRun 1,
   .deliver 1 701, .resumeRun 0, .resumeCall 0 0]

/-- The run meets `atomicSends`: suspended sends have no part in it. -/
theorem not_answers_own :
    ¬∀ (n : Nat) (onApply : Nat → Bool) (tr : List (System × Event)) (s : System),
      PaxosRun n onApply atomicSends tr s → AnswersOwn n tr s := by
  intro h
  have hreturned := (h 3 (fun _ => true) _ _
    (Runs.run_of_exec answersSwapped (by decide +kernel) (by decide +kernel))).returned
  revert hreturned
  decide +kernel

end System

end Tmgr
