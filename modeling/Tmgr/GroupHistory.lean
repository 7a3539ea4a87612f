import Tmgr.Finish
import Tmgr.Linearizable

/-!
# The database's guarantees, for the clients of the group

What `fencing` and `finish` say about the histories of one database, said about
the calls that clients made anywhere in the group, at whatever leader. The
sequential order of `linearizable` is not known to the clients; what they know
is which calls returned before another was invoked, and which of two tokens is
greater. The statements mention only these.
-/

namespace Tmgr

open TaskManagerDb Linear

/-! ## The sequential history -/

/-- A decided value as a call of the database. -/
def DecidedValue.call (v : DecidedValue) : TaskManagerDb.Call := (v.req, v.nowUnix)

def sequentialCalls (l : List (CallId × DecidedValue)) : List TaskManagerDb.Call :=
  l.map fun p => p.2.call

theorem after_eq_replay (l : List (CallId × DecidedValue)) :
    after applyValue {} l = replay (sequentialCalls l) := by
  rw [after_applyValue, List.map_map]
  rfl

section Sequential

variable {l past past' : List (CallId × DecidedValue)} {o o' : CallId} {v v' : DecidedValue}
  {b b' : ApplyResult} {t : TaskId} {k k' : FencingToken}

theorem resp_of_answered (hans : Answered applyValue {} l past o v b) :
    b.resp = response (sequentialCalls past) v.call := by
  rw [hans.answer, after_eq_replay]
  rfl

theorem sequentialCalls_split (hpre : past ++ [(o, v)] <+: past') :
    ∃ mid, sequentialCalls past' = sequentialCalls past ++ v.call :: mid := by
  obtain ⟨rest, rfl⟩ := hpre
  exact ⟨sequentialCalls rest, by simp [sequentialCalls]⟩

/-- A token that is issued later is greater. -/
theorem issued_lt (hans : Answered applyValue {} l past o v b)
    (hans' : Answered applyValue {} l past' o' v' b') (hk : issuedToken b.resp = some k)
    (hk' : issuedToken b'.resp = some k') (hpre : past ++ [(o, v)] <+: past') : k < k' := by
  rw [resp_of_answered hans] at hk
  rw [resp_of_answered hans'] at hk'
  obtain ⟨mid, hsplit⟩ := sequentialCalls_split hpre
  obtain ⟨rfl, -⟩ := (processReq_effect _ v'.call.1 v'.call.2).issued hk'
  exact issued_lt_nextToken hsplit hk

theorem issued_of_granted (h : grantedClaim b.resp = some (t, k)) :
    issuedToken b.resp = some k := by
  unfold issuedToken
  split
  · rename_i heq
    rw [heq] at h
    cases h
  · rw [h]
    rfl

/-- After a call that took `t` away from the claim that got `k`, whatever
carries `k` is fenced. -/
theorem fenced_after {o₁ o₂ o₃ : CallId} {v₁ v₂ v₃ : DecidedValue} {b₁ b₂ b₃ : ApplyResult}
    {past₁ past₂ past₃ : List (CallId × DecidedValue)}
    (h₁ : Answered applyValue {} l past₁ o₁ v₁ b₁) (h₂ : Answered applyValue {} l past₂ o₂ v₂ b₂)
    (h₃ : Answered applyValue {} l past₃ o₃ v₃ b₃)
    (hpre : past₁ ++ [(o₁, v₁)] <+: past₂) (hpre' : past₂ ++ [(o₂, v₂)] <+: past₃)
    (hg : grantedClaim b₁.resp = some (t, k)) (hs : supersedes t v₂.call b₂.resp)
    (hc : carriedToken t v₃.req = some k) : b₃.resp.errcode = .fenced := by
  rw [resp_of_answered h₁] at hg
  rw [resp_of_answered h₂] at hs
  rw [resp_of_answered h₃]
  obtain ⟨mid, hmid⟩ := sequentialCalls_split hpre
  obtain ⟨mid', hmid'⟩ := sequentialCalls_split hpre'
  have hsup : superseded t (sequentialCalls past₁ ++ [v₁.call]) (mid ++ v₂.call :: mid') := by
    refine ⟨mid, v₂.call, mid', rfl, ?_⟩
    rwa [← List.append_cons, ← hmid]
  obtain ⟨-, -, u, hu, hne⟩ := tokenDead_of_superseded (tokenLive_of_granted hg) hsup
  have hall : sequentialCalls past₃
      = sequentialCalls past₁ ++ [v₁.call] ++ (mid ++ v₂.call :: mid') := by
    rw [hmid', hmid]
    simp
  rw [← hall] at hu
  exact (processReq_fenced v₃.nowUnix hu hne hc).1

/-- Once `t` is finished its record stays. -/
theorem finished_after (hans : Answered applyValue {} l past o v b)
    (hfin : finishes t v.call b.resp) (hpre : past ++ [(o, v)] <+: past') :
    ∃ u, (replay (sequentialCalls past')).find t = some u ∧ u.ownerToken = 0
      ∧ (u.status = .done ∨ u.status = .failed) := by
  rw [resp_of_answered hans] at hfin
  obtain ⟨mid, hmid⟩ := sequentialCalls_split hpre
  obtain ⟨-, u, -, -, hu, hzero, hstatus⟩ := finishes_inv hfin
  rw [← replay_snoc] at hu
  refine ⟨u, ?_, hzero, hstatus⟩
  rw [hmid, replay_append_cons]
  exact finished_run hu hstatus mid

/-- What a call reported as created is stored from then on. -/
theorem stored_after {id : TaskId} (hans : Answered applyValue {} l past o v b)
    (hid : id ∈ reportedIds b.resp) (hpre : past ++ [(o, v)] <+: past') :
    id ∈ (replay (sequentialCalls past')).taskOrder := by
  rw [resp_of_answered hans] at hid
  obtain ⟨mid, hmid⟩ := sequentialCalls_split hpre
  have hnew : id ∈ (replay (sequentialCalls past ++ [v.call])).taskOrder := by
    rw [replay_snoc, processReq_taskOrder]
    exact List.mem_append_right _ hid
  rw [hmid, replay_append_cons]
  refine replay_append_induction (I := fun db => id ∈ db.taskOrder) hnew ?_
  intro m₁ c _ _ hmem
  rw [processReq_taskOrder]
  exact List.mem_append_left _ hmem

end Sequential

/-- An unfiltered list has every task. -/
theorem mem_handleTaskList {db : TaskManagerDb} {r : TaskListRequest} {id : TaskId}
    {t : TaskRecord} (hstatus : r.filterStatus = none) (hmine : r.onlyMine = false)
    (horder : id ∈ db.taskOrder) (hf : db.find id = some t) :
    summarize t ∈ (db.handleTaskList r).2.tasks := by
  refine List.mem_filterMap.mpr ⟨id, horder, ?_⟩
  simp [hf, hstatus, hmine]

/-! ## Tokens -/

/-- What the tokens are worth to the clients. -/
structure TokensFence (h : List ClientAct) : Prop where
  /-- No token is issued twice. -/
  distinct : ∀ {o o' b b' k k'}, .ret o b ∈ h → .ret o' b' ∈ h → o ≠ o' →
    issuedToken b.resp = some k → issuedToken b'.resp = some k' → k ≠ k'
  /-- A call that is made after another returned gets a greater one. -/
  increasing : ∀ {h₁ o' v' h₂}, h = h₁ ++ .inv o' v' :: h₂ → ∀ {o b b' k k'},
    .ret o b ∈ h₁ → .ret o' b' ∈ h → issuedToken b.resp = some k →
    issuedToken b'.resp = some k' → k < k'
  /-- Once a claim of `t` with a greater token has returned, the smaller one
  is fenced. -/
  reclaimed : ∀ {o o' b b' t k k'}, .ret o b ∈ h → grantedClaim b.resp = some (t, k) →
    grantedClaim b'.resp = some (t, k') → k < k' → ∀ {h₁ c v h₂ b''},
    h = h₁ ++ .inv c v :: h₂ → .ret o' b' ∈ h₁ → .ret c b'' ∈ h →
    carriedToken t v.req = some k → b''.resp.errcode = .fenced
  /-- Once `t` was completed or failed, so are all. -/
  finished : ∀ {o v b t}, .inv o v ∈ h → finishes t v.call b.resp → ∀ {h₁ c w h₂ b'' k},
    h = h₁ ++ .inv c w :: h₂ → .ret o b ∈ h₁ → .ret c b'' ∈ h → k ≠ 0 →
    carriedToken t w.req = some k → b''.resp.errcode = .fenced

variable {h : List ClientAct} {l : List (CallId × DecidedValue)}

theorem tokensFence_of_linearization (hl : Linearization applyValue {} h l)
    (honce : InvokedOnce h) : TokensFence h where
  distinct {o o' b b' k k'} hret hret' hne hk hk' := by
    obtain ⟨past, v, hans⟩ := hl.returned hret
    obtain ⟨past', v', hans'⟩ := hl.returned hret'
    rcases hans.before_or_after hans' hne with hpre | hpre
    · exact Nat.ne_of_lt (issued_lt hans hans' hk hk' hpre)
    · exact Nat.ne_of_gt (issued_lt hans' hans hk' hk hpre)
  increasing {h₁ o' v' h₂} hsplit {o b b' k k'} hret hret' hk hk' := by
    obtain ⟨past, v, hans⟩ := hl.returned (hsplit ▸ List.mem_append_left _ hret)
    obtain ⟨past', hans'⟩ := hl.answered honce (o := o') (a := v') (by simp [hsplit]) hret'
    exact issued_lt hans hans' hk hk' (hl.before hans hans' hsplit hret)
  reclaimed {o o' b b' t k k'} hret hg hg' hlt {h₁ c w h₂ b''} hsplit hret' hretc hc := by
    obtain ⟨past, v, hans⟩ := hl.returned hret
    obtain ⟨past', v', hans'⟩ := hl.returned (hsplit ▸ List.mem_append_left _ hret')
    obtain ⟨pastc, hansc⟩ := hl.answered honce (o := c) (a := w) (by simp [hsplit]) hretc
    have hafter := hl.before hans' hansc hsplit hret'
    have hne : o ≠ o' := by
      rintro rfl
      obtain ⟨rfl, rfl⟩ := place_unique hl.nodup hans.place hans'.place
      rw [hans.answer, ← hans'.answer, hg', Option.some.injEq] at hg
      exact Nat.ne_of_gt hlt (Prod.mk.inj hg).2
    have hsup : supersedes t v'.call b'.resp := by
      rw [resp_of_answered hans'] at hg' ⊢
      obtain ⟨r, -, hreq, -⟩ := (processReq_effect _ v'.call.1 v'.call.2).granted (wf_replay _) hg'
      exact supersedes_iff.mpr (.inl ⟨r, k', hreq, hg'⟩)
    rcases hans.before_or_after hans' hne with hpre | hpre
    · exact fenced_after hans hans' hansc hpre hafter hg hsup hc
    · -- the greater token is the later one
      have := issued_lt hans' hans (issued_of_granted hg') (issued_of_granted hg) hpre
      exact absurd this (Nat.lt_asymm hlt)
  finished {o v b t} hinv hfin {h₁ c w h₂ b'' k} hsplit hret hretc hk hc := by
    obtain ⟨past, hans⟩ := hl.answered honce hinv (hsplit ▸ List.mem_append_left _ hret)
    obtain ⟨pastc, hansc⟩ := hl.answered honce (o := c) (a := w) (by simp [hsplit]) hretc
    obtain ⟨u, hu, hzero, -⟩ :=
      finished_after hans hfin (hl.before hans hansc hsplit hret)
    rw [resp_of_answered hansc]
    exact (processReq_fenced w.nowUnix hu (by rw [hzero]; exact hk.symm) hc).1

/-! ## Work -/

/-- What the clients can say about the tasks. -/
structure WorkOnce (h : List ClientAct) : Prop where
  /-- A task is completed or failed by at most one call. -/
  finishedOnce : ∀ {o o' v v' b b' t}, .inv o v ∈ h → .inv o' v' ∈ h → .ret o b ∈ h →
    .ret o' b' ∈ h → finishes t v.call b.resp → finishes t v'.call b'.resp → o = o'
  /-- No task is created by two calls. -/
  createdOnce : ∀ {o o' b b' id}, .ret o b ∈ h → .ret o' b' ∈ h →
    id ∈ reportedIds b.resp → id ∈ reportedIds b'.resp → o = o'
  /-- A list that is asked for after a call returned has the tasks that the
  call created. -/
  listed : ∀ {h₁ c w h₂ r}, h = h₁ ++ .inv c w :: h₂ → w.req = .taskList r →
    r.filterStatus = none → r.onlyMine = false → ∀ {o b b' id}, .ret o b ∈ h₁ →
    .ret c b' ∈ h → id ∈ reportedIds b.resp →
    ∃ p, b'.resp = .taskList p ∧ ∃ s ∈ p.tasks, s.id = id
  /-- And shows a task as finished that the call finished. -/
  listedFinished : ∀ {h₁ c w h₂ r}, h = h₁ ++ .inv c w :: h₂ → w.req = .taskList r →
    r.filterStatus = none → r.onlyMine = false → ∀ {o v b b' t}, .inv o v ∈ h →
    .ret o b ∈ h₁ → .ret c b' ∈ h → finishes t v.call b.resp →
    ∃ p, b'.resp = .taskList p ∧ ∃ s ∈ p.tasks, s.id = t ∧ (s.status = .done ∨ s.status = .failed)

/-- The answer to a list. -/
theorem listed_of_answered {past : List (CallId × DecidedValue)} {c : CallId} {w : DecidedValue}
    {b : ApplyResult} {r : TaskListRequest} (hans : Answered applyValue {} l past c w b)
    (hreq : w.req = .taskList r) (hstatus : r.filterStatus = none) (hmine : r.onlyMine = false)
    {id : TaskId} {t : TaskRecord}
    (hf : (replay (sequentialCalls past)).find id = some t) :
    ∃ p, b.resp = .taskList p ∧ summarize t ∈ p.tasks ∧ (summarize t).id = id := by
  have hw := wf_replay (sequentialCalls past)
  have horder := (hw.keys id).mp (Finmap.mem_iff.mpr ⟨t, hf⟩)
  refine ⟨_, ?_, mem_handleTaskList hstatus hmine horder hf, (hw.record id t hf).id_eq⟩
  rw [resp_of_answered hans, DecidedValue.call, hreq]
  rfl

theorem workOnce_of_linearization (hl : Linearization applyValue {} h l)
    (honce : InvokedOnce h) : WorkOnce h where
  finishedOnce {o o' v v' b b' t} hinv hinv' hret hret' hfin hfin' := by
    obtain ⟨past, hans⟩ := hl.answered honce hinv hret
    obtain ⟨past', hans'⟩ := hl.answered honce hinv' hret'
    by_contra hne
    rcases hans.before_or_after hans' hne with hpre | hpre
    · obtain ⟨u, hu, -, hstatus⟩ := finished_after hans hfin hpre
      rw [resp_of_answered hans'] at hfin'
      exact finished_not_superseded hu hstatus v'.call (supersedes_iff.mpr (.inr hfin'))
    · obtain ⟨u, hu, -, hstatus⟩ := finished_after hans' hfin' hpre
      rw [resp_of_answered hans] at hfin
      exact finished_not_superseded hu hstatus v.call (supersedes_iff.mpr (.inr hfin))
  createdOnce {o o' b b' id} hret hret' hid hid' := by
    obtain ⟨past, v, hans⟩ := hl.returned hret
    obtain ⟨past', v', hans'⟩ := hl.returned hret'
    have hfresh : ∀ {past : List (CallId × DecidedValue)} {o v b},
        Answered applyValue {} l past o v b → id ∈ reportedIds b.resp →
        id ∉ (replay (sequentialCalls past)).taskOrder := by
      intro past o v b hans hid hmem
      rw [resp_of_answered hans] at hid
      exact (processReq_growsAsReported (wf_replay _) v.call.1 v.call.2).fresh id hid
        (((wf_replay _).keys id).mpr hmem)
    by_contra hne
    rcases hans.before_or_after hans' hne with hpre | hpre
    · exact hfresh hans' hid' (stored_after hans hid hpre)
    · exact hfresh hans hid (stored_after hans' hid' hpre)
  listed {h₁ c w h₂ r} hsplit hreq hstatus hmine {o b b' id} hret hretc hid := by
    obtain ⟨past, v, hans⟩ := hl.returned (hsplit ▸ List.mem_append_left _ hret)
    obtain ⟨pastc, hansc⟩ := hl.answered honce (o := c) (a := w) (by simp [hsplit]) hretc
    have hmem := stored_after hans hid (hl.before hans hansc hsplit hret)
    obtain ⟨t, hf⟩ := Finmap.mem_iff.mp (((wf_replay _).keys id).mpr hmem)
    obtain ⟨p, hp, hs, heq⟩ := listed_of_answered hansc hreq hstatus hmine hf
    exact ⟨p, hp, _, hs, heq⟩
  listedFinished {h₁ c w h₂ r} hsplit hreq hstatus hmine {o v b b' t} hinv hret hretc hfin := by
    obtain ⟨past, hans⟩ := hl.answered honce hinv (hsplit ▸ List.mem_append_left _ hret)
    obtain ⟨pastc, hansc⟩ := hl.answered honce (o := c) (a := w) (by simp [hsplit]) hretc
    obtain ⟨u, hu, -, hdone⟩ := finished_after hans hfin (hl.before hans hansc hsplit hret)
    obtain ⟨p, hp, hs, heq⟩ := listed_of_answered hansc hreq hstatus hmine hu
    exact ⟨p, hp, _, hs, heq, hdone⟩

/-! ## Runs -/

namespace System

variable {n : Nat} {s : System}

theorem exists_linearization {onApply : Nat → Bool} {tr : List (System × Event)}
    (hrun : PaxosRun n onApply (fun s e => s.clientSafe n e) tr s)
    (hdistinct : DistinctRequests (clientHistory n tr)) :
    ∃ l, Linearization applyValue {} (clientHistory n tr) l := by
  obtain ⟨L, hL⟩ := exists_commonLog (hrun.mono fun _ _ h => h.1)
  obtain ⟨l, ho⟩ := hL.exists_origins (run_sourced hrun)
  exact ⟨l, ho.linearization hL hrun hdistinct⟩

theorem tokens_fence (onApply : Nat → Bool) {tr : List (System × Event)}
    (hrun : PaxosRun n onApply (fun s e => s.clientSafe n e) tr s)
    (hdistinct : DistinctRequests (clientHistory n tr)) : TokensFence (clientHistory n tr) := by
  obtain ⟨l, hl⟩ := exists_linearization hrun hdistinct
  exact tokensFence_of_linearization hl (invokedOnce hrun)

/-- Call number `c` at replica 0, which replica 1 acknowledges. -/
def answeredCall (c : Nat) (req : Request) (nowUnix : Int) : List Event :=
  [.propose 0 req nowUnix, .resumeCall 0 c, .resumeCall 0 c, .deliver 0 0, .resumeRun 1,
   .deliver 1 0, .resumeCall 0 c, .lose 0]

/-- A task is claimed, its lease expires, another agent claims it, and the
first one heartbeats. -/
def reclaimed : List Event :=
  answeredCall 0 (.taskCreate { serial := 1, spec := { title := "a" } }) 10
    ++ answeredCall 1 (.taskClaim { serial := 2, agentId := "a1" }) 20
    ++ answeredCall 2 (.taskClaim { serial := 3, agentId := "a2" }) 2000
    ++ answeredCall 3 (.taskHeartbeat { serial := 4, id := formatTaskId 1, token := 1 }) 2001

theorem tokens_fence_reclaimed :
    TokensFence (clientHistory 3 ((initial 3 fun _ => true).trace 3 reclaimed)) :=
  tokens_fence (fun _ => true)
    (s := ((initial 3 fun _ => true).exec 3 reclaimed).get (by decide +kernel))
    (Runs.run_of_exec reclaimed (by decide +kernel) (by decide +kernel)) (by decide +kernel)

theorem work_once (onApply : Nat → Bool) {tr : List (System × Event)}
    (hrun : PaxosRun n onApply (fun s e => s.clientSafe n e) tr s)
    (hdistinct : DistinctRequests (clientHistory n tr)) : WorkOnce (clientHistory n tr) := by
  obtain ⟨l, hl⟩ := exists_linearization hrun hdistinct
  exact workOnce_of_linearization hl (invokedOnce hrun)

/-- A task is claimed and failed, and the tasks are listed. -/
def failedThenListed : List Event :=
  answeredCall 0 (.taskCreate { serial := 1, spec := { title := "a" } }) 10
    ++ answeredCall 1 (.taskClaim { serial := 2, agentId := "a1" }) 20
    ++ answeredCall 2 (.taskFail { serial := 3, id := formatTaskId 1, token := 1 }) 30
    ++ answeredCall 3 (.taskList { serial := 4 }) 40

theorem work_once_failedThenListed :
    WorkOnce (clientHistory 3 ((initial 3 fun _ => true).trace 3 failedThenListed)) :=
  work_once (fun _ => true)
    (s := ((initial 3 fun _ => true).exec 3 failedThenListed).get (by decide +kernel))
    (Runs.run_of_exec failedThenListed (by decide +kernel) (by decide +kernel)) (by decide +kernel)

end System

end Tmgr
