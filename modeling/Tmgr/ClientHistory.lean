import Tmgr.Integrity
import Tmgr.Lib.Linearizability

/-!
# What the clients see

`clientHistory` is the trace of a run as the callers of `propose_and_apply`
see it: a call that is not refused is invoked, and returns. `inv_mem_iff` and
`ret_mem_iff` read it back from the state at the end of the run: no call is
forgotten, and none returns twice.

A refused call is answered at once and changes nothing (`answers_own`); it is
not in the history.
-/

namespace Tmgr

/-- The replica a call is made at, and its number there. -/
abbrev CallId := Nat × Nat

abbrev ClientAct := Linear.Act CallId DecidedValue ApplyResult

/-- What a frame says the call has returned. -/
def CallFrame.result : CallFrame → Option ApplyResult
  | .returned result => some result
  | _ => none

theorem Call.result_eq (call : Call) : call.result = call.frame.result := by
  unfold Call.result CallFrame.result
  cases call.frame <;> rfl

namespace PtPaxosReplica

/-- What the call `c` has returned. -/
def resultOf (r : PtPaxosReplica) (c : Nat) : Option ApplyResult :=
  r.calls[c]?.bind Call.result

theorem resultOf_frames (r : PtPaxosReplica) (c : Nat) :
    r.resultOf c = (r.calls.map (·.frame))[c]?.bind CallFrame.result := by
  unfold resultOf
  rw [List.getElem?_map]
  cases r.calls[c]? with
  | none => rfl
  | some call => exact Call.result_eq call

/-- Whatever has returned stays. -/
def Returned (r r' : PtPaxosReplica) : Prop :=
  ∀ c b, r.resultOf c = some b → r'.resultOf c = some b

variable {n i : Nat} {r r' : PtPaxosReplica}

theorem Returned.of_frames (h : r'.calls.map (·.frame) = r.calls.map (·.frame)) :
    Returned r r' := by
  intro c b hb
  rwa [resultOf_frames, h, ← resultOf_frames]

theorem Returned.trans {r'' : PtPaxosReplica} (h : Returned r r') (h' : Returned r' r'') :
    Returned r r'' :=
  fun c b hb => h' c b (h c b hb)

/-- A call that has not returned is rewritten. -/
theorem Returned.modify {c : Nat} (hopen : r.resultOf c = none) {f : Call → Call}
    (hcalls : r'.calls = r.calls.modify c f) : Returned r r' := by
  intro d b hb
  have hne : c ≠ d := by
    rintro rfl
    rw [hopen] at hb
    cases hb
  rwa [resultOf, hcalls, List.getElem?_modify_ne _ _ hne]

theorem Returned.finishCall {c : Nat} (hopen : r.resultOf c = none) :
    Returned r (r.finishCall c) := by
  unfold PtPaxosReplica.finishCall
  split
  · exact .of_frames rfl
  · exact .modify hopen rfl

theorem Returned.applyDecided (n i : Nat) (r : PtPaxosReplica) :
    Returned r (r.applyDecided n i) :=
  .of_frames (applyDecided_frames n i r)

theorem Returned.runSendPropose (n i k : Nat) (r : PtPaxosReplica) :
    Returned r (r.runSendPropose n i k).1 :=
  .of_frames (runSendPropose_same (f := fun r => r.calls.map (·.frame)) n i k
    (applyDecided_frames n i) (fun _ _ => rfl) r)

theorem Returned.callSendPropose {c : Nat} (hopen : r.resultOf c = none) (k : Nat) :
    Returned r (r.callSendPropose n i c k).1 := by
  unfold PtPaxosReplica.callSendPropose
  split
  · exact .modify hopen rfl
  · have happly := Returned.applyDecided n i r
    have hopen' : (r.applyDecided n i).resultOf c = none := by
      rwa [resultOf_frames, applyDecided_frames, ← resultOf_frames]
    refine happly.trans ?_
    unfold PtPaxosReplica.awaitCall
    split
    · exact .of_frames rfl
    · split
      · exact .modify hopen' rfl
      · exact .finishCall hopen'

theorem Returned.runProbe (n i k : Nat) (r : PtPaxosReplica) :
    Returned r (r.runProbe n i k).1 := by
  refine runProbe_induct (P := Returned r) (fun _ _ => .of_frames rfl) ?_ k
  intro best _
  refine Returned.trans ?_ (.runSendPropose n i 0 _)
  exact .of_frames (catchUp_same (f := fun r => r.calls.map (·.frame)) (fun _ _ => rfl) best _)

theorem Turn.returned {ev : LocalEvent} {x : PtPaxosReplica × List Packet}
    (ht : Turn n i r ev x) : Returned r x.1 := by
  have hdown : ∀ now msg, (r.stepDown now msg).calls = r.calls := fun now msg =>
    stepDown_calls now msg r
  have hkeep : ∀ {r' : PtPaxosReplica}, r'.calls = r.calls → Returned r r' := fun h =>
    .of_frames (congrArg (List.map (·.frame)) h)
  cases ht with
  | ignore => exact hkeep (hdown _ _)
  | probe => exact hkeep (hdown _ _)
  | vote => exact hkeep (hdown _ _)
  | @elect msg best now =>
      refine Returned.trans ?_ (.runSendPropose n i 0 _)
      exact hkeep ((catchUp_same (f := (·.calls)) (fun _ _ => rfl) best _).trans (hdown now msg))
  | @ack msg now =>
      refine Returned.trans ?_ (.applyDecided n i _)
      exact hkeep ((recordAck_same (f := (·.calls)) (fun _ _ => rfl) msg _).trans (hdown now msg))
  | stale => exact hkeep (hdown _ _)
  | @accept msg now =>
      refine .of_frames ((acceptPropose_same (f := fun r => r.calls.map (·.frame)) n i
        applySlot_frames (fun _ _ _ _ _ _ _ => rfl) now msg _).trans ?_)
      exact congrArg (List.map (·.frame)) (hdown now msg)
  | quiet => exact hkeep rfl
  | retransmit => exact .runSendPropose n i 0 r
  | start => exact .runProbe n i 0 (r.pickRound n i)
  | refuse => exact hkeep rfl
  | @append req nowUnix =>
      have hsend : Returned (r.appendCall i nowUnix req)
          ((r.appendCall i nowUnix req).callSendPropose n i r.calls.length 0).1 := by
        refine .callSendPropose ?_ 0
        simp [resultOf, PtPaxosReplica.appendCall, Call.result]
      refine .trans ?_ hsend
      intro c b hb
      have hin : c < r.calls.length := by
        by_contra hout
        simp [resultOf, List.getElem?_eq_none (Nat.not_lt.mp hout)] at hb
      rwa [resultOf, PtPaxosReplica.appendCall, List.getElem?_append_left hin]
  | replied => exact hkeep rfl
  | probing => exact .runProbe n i _ r
  | proposing => exact .runSendPropose n i _ r
  | sending hcall hframe =>
      exact .callSendPropose (by simp [resultOf, hcall, Call.result, hframe]) _
  | finish hcall hframe =>
      exact .finishCall (by simp [resultOf, hcall, Call.result, hframe])

/-! ## The `process_req` calls -/

theorem applyDecided_processed (n i : Nat) (r : PtPaxosReplica) :
    r.processed <+: (r.applyDecided n i).processed :=
  applyDecided_induct (P := fun r' => r.processed <+: r'.processed) (List.prefix_refl _)
    (fun _ _ h _ => h.trans (List.prefix_append _ _)) fun _ h => h

theorem runSendPropose_processed (n i k : Nat) (r : PtPaxosReplica) :
    r.processed <+: (r.runSendPropose n i k).1.processed :=
  runSendPropose_induct (P := fun r' => r.processed <+: r'.processed) (List.prefix_refl _)
    (fun _ => applyDecided_processed n i r) (fun _ _ h => h) k

theorem callSendPropose_processed (n i c k : Nat) (r : PtPaxosReplica) :
    r.processed <+: (r.callSendPropose n i c k).1.processed :=
  callSendPropose_induct (P := fun r' => r.processed <+: r'.processed) (List.prefix_refl _)
    (fun _ => applyDecided_processed n i r) (fun _ _ _ h => h) c k

theorem adopt_processed (i : Nat) (best : PaxosMessage) (r : PtPaxosReplica) :
    r.processed <+: (r.adopt i best).processed :=
  applyUpTo_induct (P := fun r' => r.processed <+: r'.processed) (List.prefix_refl _)
    fun _ _ h _ _ => h.trans (List.prefix_append _ _)

theorem runProbe_processed (n i k : Nat) (r : PtPaxosReplica) :
    r.processed <+: (r.runProbe n i k).1.processed := by
  refine runProbe_induct (P := fun r' => r.processed <+: r'.processed)
    (fun _ _ => List.prefix_refl _) ?_ k
  intro best _
  exact (adopt_processed i best (r.addResponse (r.prepareMsg i r.electionRound))).trans
    (runSendPropose_processed n i 0 _)

/-- A turn calls `process_req` after the calls made before it. -/
theorem Turn.processed {ev : LocalEvent} {x : PtPaxosReplica × List Packet}
    (ht : Turn n i r ev x) : r.processed <+: x.1.processed := by
  have hdown : ∀ now msg, (r.stepDown now msg).processed = r.processed := fun now msg =>
    stepDown_same (f := (·.processed)) (fun _ _ _ _ => rfl) now msg r
  cases ht with
  | ignore => exact (hdown _ _).symm ▸ List.prefix_refl _
  | probe => exact (hdown _ _).symm ▸ List.prefix_refl _
  | vote => exact (hdown _ _).symm ▸ List.prefix_refl _
  | @elect msg best now =>
      rw [← hdown now msg]
      exact (adopt_processed i best ((r.stepDown now msg).addResponse msg)).trans
        (runSendPropose_processed n i 0 _)
  | @ack msg now =>
      rw [← hdown now msg, ← recordAck_same (f := (·.processed)) (fun _ _ => rfl) msg]
      exact applyDecided_processed n i _
  | stale => exact (hdown _ _).symm ▸ List.prefix_refl _
  | @accept msg now =>
      rw [← hdown now msg]
      refine acceptPropose_induct (P := fun r' => (r.stepDown now msg).processed <+: r'.processed)
        ?_ (fun r' h => h.trans (applyDecided_processed n i r')) fun _ h => h
      rw [install_same (f := (·.processed)) (fun _ _ _ _ _ => rfl)]
  | quiet => exact List.prefix_refl _
  | retransmit => exact runSendPropose_processed n i 0 r
  | start => exact runProbe_processed n i 0 (r.pickRound n i)
  | refuse => exact List.prefix_refl _
  | append => exact callSendPropose_processed n i _ 0 (r.appendCall i _ _)
  | replied => exact List.prefix_refl _
  | probing => exact runProbe_processed n i _ r
  | proposing => exact runSendPropose_processed n i _ r
  | sending => exact callSendPropose_processed n i _ _ r
  | finish =>
      exact finishCall_induct (P := fun r' => r.processed <+: r'.processed) (List.prefix_refl _)
        (fun _ _ => List.prefix_refl _) _

end PtPaxosReplica

/-! ## The history of a run -/

/-- A point of a list that is put together piece by piece lies in one of the
pieces. -/
theorem flatMap_split {α β : Type*} {f : α → List β} {l : List α} {p q : List β} {b : β}
    (h : l.flatMap f = p ++ b :: q) :
    ∃ l₁ a l₂ u v, l = l₁ ++ a :: l₂ ∧ f a = u ++ b :: v ∧ p = l₁.flatMap f ++ u := by
  induction l generalizing p with
  | nil => simp at h
  | cons a l ih =>
      rw [List.flatMap_cons, List.append_eq_append_iff] at h
      rcases h with ⟨p', rfl, hrest⟩ | ⟨v, hfirst, hrest⟩
      · obtain ⟨l₁, a', l₂, u, v, rfl, hf, rfl⟩ := ih hrest
        exact ⟨a :: l₁, a', l₂, u, v, rfl, hf, by simp⟩
      · cases v with
        | nil =>
            obtain ⟨l₁, a', l₂, u, v, rfl, hf, hu⟩ := ih (p := []) (by simpa using hrest.symm)
            obtain ⟨hl, rfl⟩ := List.append_eq_nil_iff.mp hu.symm
            exact ⟨a :: l₁, a', l₂, [], v, rfl, hf, by simpa [hl] using hfirst.symm⟩
        | cons b' v =>
            obtain ⟨rfl, rfl⟩ := List.cons.inj hrest
            exact ⟨[], a, l, p, v, rfl, hfirst, by simp⟩

namespace System

open PtPaxosReplica Linear

/-- The call an event makes, with the value it stamps. -/
def invocation (i : Nat) (r : PtPaxosReplica) : LocalEvent → List ClientAct
  | .propose req nowUnix =>
    if i = r.leaderIndex then
      [.inv (i, r.calls.length) ⟨nowUnix, req.base.agentId, req.base.serial, req⟩]
    else []
  | _ => []

/-- The calls that have returned since `before`. -/
def returns (i : Nat) (before after : PtPaxosReplica) : List ClientAct :=
  (List.range after.calls.length).filterMap fun c =>
    match after.resultOf c, before.resultOf c with
    | some b, none => some (.ret (i, c) b)
    | _, _ => none

def clientActs (n : Nat) (s : System) (e : Event) : List ClientAct :=
  match s.target e with
  | some (i, ev, _) =>
    match localStep n i (s.replicas i) ev with
    | some x => invocation i (s.replicas i) ev ++ returns i (s.replicas i) x.1
    | none => []
  | none => []

def clientHistory (n : Nat) (tr : List (System × Event)) : List ClientAct :=
  tr.flatMap fun p => clientActs n p.1 p.2

theorem inv_not_mem_returns {i : Nat} {before after : PtPaxosReplica} {o : CallId}
    {v : DecidedValue} : Act.inv o v ∉ returns i before after := by
  intro h
  obtain ⟨c, -, hc⟩ := List.mem_filterMap.mp h
  split at hc <;> simp at hc

theorem ret_mem_returns {i : Nat} {before after : PtPaxosReplica} {o : CallId}
    {b : ApplyResult} : Act.ret o b ∈ returns i before after
      ↔ o.1 = i ∧ after.resultOf o.2 = some b ∧ before.resultOf o.2 = none := by
  constructor
  · intro h
    obtain ⟨c, -, hc⟩ := List.mem_filterMap.mp h
    split at hc
    · rename_i b' hafter hbefore
      obtain ⟨rfl, rfl⟩ := Act.ret.inj (Option.some.inj hc)
      exact ⟨rfl, hafter, hbefore⟩
    · cases hc
  · rintro ⟨rfl, hafter, hbefore⟩
    refine List.mem_filterMap.mpr ⟨o.2, ?_, by simp only [hafter, hbefore]⟩
    rw [List.mem_range]
    by_contra hout
    simp [resultOf, List.getElem?_eq_none (Nat.not_lt.mp hout)] at hafter

theorem ret_not_mem_invocation {i : Nat} {r : PtPaxosReplica} {ev : LocalEvent} {o : CallId}
    {b : ApplyResult} : Act.ret o b ∉ invocation i r ev := by
  unfold invocation
  split
  · split <;> simp
  · simp

variable {n : Nat} {s s' : System} {e : Event}

/-- A step and what the clients see of it. -/
theorem clientActs_cases (hstep : s.step n e = some s') :
    (clientActs n s e = [] ∧ s'.replicas = s.replicas)
    ∨ ∃ i ev x, Turn n i (s.replicas i) ev x
      ∧ clientActs n s e = invocation i (s.replicas i) ev ++ returns i (s.replicas i) x.1
      ∧ s'.replicas = Function.update s.replicas i x.1 := by
  rcases step_cases hstep with ⟨k, p, rfl, -, hsame⟩ | ⟨i, ev, rest, x, -, htarget, hlocal, rfl⟩
  · exact .inl ⟨rfl, hsame⟩
  · exact .inr ⟨i, ev, x, localStep_turn hlocal, by simp [clientActs, htarget, hlocal], rfl⟩

/-- The calls a turn makes are those it invokes. -/
theorem keys_invocation {i : Nat} {r : PtPaxosReplica} {ev : LocalEvent}
    {x : PtPaxosReplica × List Packet} (ht : Turn n i r ev x) :
    ∃ new, x.1.keys = r.keys ++ new ∧ new.length ≤ 1
      ∧ ∀ c v, Act.inv (i, c) v ∈ invocation i r ev ↔ c = r.calls.length ∧ v ∈ new.map Prod.snd := by
  by_cases hcall : ∃ req nowUnix, ev = .propose req nowUnix ∧ i = r.leaderIndex
  · obtain ⟨req, nowUnix, rfl, hl⟩ := hcall
    refine ⟨[(r.nextSlot, ⟨nowUnix, req.base.agentId, req.base.serial, req⟩)], ?_, le_rfl, ?_⟩
    · cases ht with
      | refuse hne => exact absurd hl hne
      | append =>
          rw [callSendPropose_keys]
          simp [keys, appendCall]
    · simp [invocation, ← hl]
  · refine ⟨[], ?_, by simp, ?_⟩
    · rcases ht.keys with heq | ⟨req, nowUnix, hev, hl, -⟩
      · rw [heq, List.append_nil]
      · exact absurd ⟨req, nowUnix, hev, hl⟩ hcall
    · intro c v
      simp only [List.map_nil, List.not_mem_nil, and_false, iff_false]
      cases ev with
      | propose req nowUnix =>
          have hne : i ≠ r.leaderIndex := fun hl => hcall ⟨req, nowUnix, rfl, hl⟩
          simp [invocation, hne]
      | _ => simp [invocation]

theorem getElem?_append_short {α β : Type*} {l new : List α} (hnew : new.length ≤ 1) (f : α → β)
    (c : Nat) (b : β) : (l ++ new)[c]?.map f = some b
      ↔ l[c]?.map f = some b ∨ c = l.length ∧ b ∈ new.map f := by
  rcases new with _ | ⟨a, _ | ⟨a', new⟩⟩
  · simp
  · rcases Nat.lt_trichotomy c l.length with hc | rfl | hc
    · rw [List.getElem?_append_left hc]
      simp [Nat.ne_of_lt hc]
    · simp [eq_comm]
    · have hout : (l ++ [a])[c]? = none :=
        List.getElem?_eq_none (by simpa [Nat.succ_le_iff] using hc)
      rw [hout, List.getElem?_eq_none (Nat.le_of_lt hc)]
      simp [Nat.ne_of_gt hc]
  · simp at hnew

/-- The invocations are the calls. -/
theorem inv_mem_iff {onApply : Nat → Bool} {ok : System → Event → Prop}
    {tr : List (System × Event)} (hrun : PaxosRun n onApply ok tr s) {i c : Nat}
    {v : DecidedValue} : Act.inv (i, c) v ∈ clientHistory n tr
      ↔ (s.replicas i).keys[c]?.map Prod.snd = some v := by
  induction hrun with
  | nil => simp [clientHistory, initial, keys, PtPaxosReplica.initial]
  | @snoc tr t t' e _ _ hstep ih =>
      rw [clientHistory, List.flatMap_append, List.mem_append, ← clientHistory, ih]
      simp only [List.flatMap_cons, List.flatMap_nil, List.append_nil]
      rcases clientActs_cases hstep with ⟨hacts, hsame⟩ | ⟨j, ev, x, ht, hacts, hsame⟩
      · rw [hacts, hsame]
        simp
      · rw [hacts, hsame, List.mem_append]
        by_cases hij : i = j
        · subst hij
          obtain ⟨new, hkeys, hlen, hinv⟩ := keys_invocation ht
          rw [Function.update_self, hkeys, getElem?_append_short hlen, hinv]
          have hlength : (t.replicas i).keys.length = (t.replicas i).calls.length := by simp [keys]
          simp [inv_not_mem_returns, hlength]
        · have hother : Act.inv (i, c) v ∉ invocation j (t.replicas j) ev := by
            unfold invocation
            split
            · split <;> simp [hij]
            · simp
          rw [Function.update_of_ne hij]
          simp [inv_not_mem_returns, hother]

/-- The returns are the results of the calls. -/
theorem ret_mem_iff {onApply : Nat → Bool} {ok : System → Event → Prop}
    {tr : List (System × Event)} (hrun : PaxosRun n onApply ok tr s) {i c : Nat}
    {b : ApplyResult} : Act.ret (i, c) b ∈ clientHistory n tr
      ↔ (s.replicas i).resultOf c = some b := by
  induction hrun with
  | nil => simp [clientHistory, initial, resultOf, PtPaxosReplica.initial]
  | @snoc tr t t' e _ _ hstep ih =>
      rw [clientHistory, List.flatMap_append, List.mem_append, ← clientHistory, ih]
      simp only [List.flatMap_cons, List.flatMap_nil, List.append_nil]
      rcases clientActs_cases hstep with ⟨hacts, hsame⟩ | ⟨j, ev, x, ht, hacts, hsame⟩
      · rw [hacts, hsame]
        simp
      · rw [hacts, hsame, List.mem_append, ret_mem_returns]
        by_cases hij : i = j
        · subst hij
          rw [Function.update_self]
          simp only [ret_not_mem_invocation, false_or, true_and]
          constructor
          · rintro (hold | ⟨hnew, -⟩)
            · exact ht.returned c b hold
            · exact hnew
          · intro hnew
            cases hold : (t.replicas i).resultOf c with
            | none => exact .inr ⟨hnew, rfl⟩
            | some b' =>
                have := ht.returned c b' hold
                rw [hnew] at this
                exact .inl (this ▸ rfl)
        · rw [Function.update_of_ne hij]
          simp [ret_not_mem_invocation, hij]

theorem invocation_of_mem {i : Nat} {r : PtPaxosReplica} {ev : LocalEvent} {o : CallId}
    {v : DecidedValue} (h : Act.inv o v ∈ invocation i r ev) :
    o = (i, r.calls.length) ∧ invocation i r ev = [.inv o v] := by
  unfold invocation at h ⊢
  split at h
  · split at h
    · rename_i hl
      obtain ⟨rfl, rfl⟩ := Act.inv.inj (List.mem_singleton.mp h)
      simp [← hl]
    · simp at h
  · simp at h

/-- Where a call is invoked, the history so far is that of the run so far. -/
theorem inv_split {tr : List (System × Event)} {i c : Nat} {v : DecidedValue}
    {h₁ h₂ : List ClientAct} (h : clientHistory n tr = h₁ ++ Act.inv (i, c) v :: h₂) :
    ∃ tr₁ p tr₂, tr = tr₁ ++ p :: tr₂ ∧ h₁ = clientHistory n tr₁
      ∧ c = (p.1.replicas i).calls.length := by
  obtain ⟨tr₁, p, tr₂, u, w, rfl, hacts, rfl⟩ := flatMap_split h
  refine ⟨tr₁, p, tr₂, rfl, ?_⟩
  unfold clientActs at hacts
  split at hacts
  · rename_i j ev rest htarget
    split at hacts
    · rename_i x hlocal
      have hmem : Act.inv (i, c) v
          ∈ invocation j (p.1.replicas j) ev ++ returns j (p.1.replicas j) x.1 := by
        simp [hacts]
      obtain ⟨hid, heq⟩ := invocation_of_mem
        ((List.mem_append.mp hmem).resolve_right inv_not_mem_returns)
      obtain ⟨rfl, rfl⟩ := Prod.mk.inj hid
      refine ⟨?_, rfl⟩
      -- the invocation comes first
      rw [heq, List.singleton_append] at hacts
      cases u with
      | nil => simp [clientHistory]
      | cons a u =>
          have htail := (List.cons.inj hacts).2
          have hret : Act.inv (i, (p.1.replicas i).calls.length) v
              ∈ returns i (p.1.replicas i) x.1 := by
            simp [htail]
          exact absurd hret inv_not_mem_returns
    · simp at hacts
  · simp at hacts

theorem invokedOnce {onApply : Nat → Bool} {ok : System → Event → Prop}
    {tr : List (System × Event)} (hrun : PaxosRun n onApply ok tr s) :
    InvokedOnce (clientHistory n tr) := by
  rintro h₁ ⟨i, c⟩ v h₂ hsplit v' hearlier
  obtain ⟨tr₁, p, tr₂, rfl, rfl, rfl⟩ := inv_split hsplit
  obtain ⟨-, hrun₁, -⟩ := hrun.split
  rw [inv_mem_iff hrun₁] at hearlier
  simp [keys] at hearlier

end System

end Tmgr
