import Tmgr.Fencing
import Tmgr.Lib.Run

/-!
# A live lease protects its owner

The owner of a task changes in three ways: it completes the task, it fails
the task, or a claim takes the task over after the lease ran out. The lease
is counted from `heartbeat_unix`, which is the clock of the latest accepted
claim or heartbeat of the task (`heartbeat_of_isLast`); no other request
moves it. So an owner whose heartbeats keep up with every clock the swarm
uses is never displaced, whatever the other agents do in between.
-/

namespace Tmgr

open Runs

namespace TaskManagerDb

/-- The call renews the lease of `t`: a claim that was granted `t`, or an
accepted heartbeat of `t`. -/
def beats (t : TaskId) (past : List Call) (c : Call) : Prop :=
  (∃ k, grantedClaim (response past c) = some (t, k))
    ∨ ∃ r, c.1 = .taskHeartbeat r ∧ r.id = t ∧ (response past c).errcode = .ok

/-- A request by the owner of `t` under `k`: a heartbeat, a failure, or a
completion without children. -/
def ownRequest (t : TaskId) (k : FencingToken) : Request → Prop
  | .taskHeartbeat r => r.id = t ∧ r.token = k
  | .taskFail r => r.id = t ∧ r.token = k
  | .taskComplete r => r.id = t ∧ r.token = k ∧ r.newChildren = []
  | _ => False

theorem ownedTask_eq {db : TaskManagerDb} {id : TaskId} {t : TaskRecord} {k : FencingToken}
    (serial : Nat) (hf : db.find id = some t) (htok : t.ownerToken = k) (hne : k ≠ 0) :
    db.ownedTask serial id k = .ok t := by
  simp [ownedTask, hf, htok, hne]

theorem TokenLive.accepts {t : TaskId} {k : FencingToken} {db : TaskManagerDb}
    (h : TokenLive t k db) {req : Request} (now : Int) (hown : ownRequest t k req) :
    (db.processReq req now).2.errcode = .ok := by
  obtain ⟨hne, -, u, hu, htok⟩ := h
  cases req with
  | taskHeartbeat r =>
      obtain ⟨rfl, rfl⟩ := hown
      simp [processReq, handleTaskHeartbeat, ownedTask_eq r.serial hu htok hne,
        Response.errcode, Response.base]
  | taskFail r =>
      obtain ⟨rfl, rfl⟩ := hown
      simp [processReq, handleTaskFail, ownedTask_eq r.serial hu htok hne,
        Response.errcode, Response.base]
  | taskComplete r =>
      obtain ⟨rfl, rfl, hnil⟩ := hown
      simp [processReq, handleTaskComplete, ownedTask_eq r.serial hu htok hne, hnil,
        Response.errcode, Response.base]
  | _ => exact absurd hown id

/-! ## How an owner is displaced -/

/-- The owner token of a task changes by its owner's own request or by a
claim that finds the lease run out. -/
theorem RecordStep.displaced {db : TaskManagerDb} {req : Request} {now : Int} {id : TaskId}
    {t t' : TaskRecord} (h : RecordStep db req now id t t') (hne : t.ownerToken ≠ 0)
    (hw : Wf db) (hf : db.find id = some t) (hchange : t'.ownerToken ≠ t.ownerToken) :
    (finishes id (req, now) (db.processReq req now).2
        ∧ carriedToken id req = some t.ownerToken)
      ∨ (∃ r, req = .taskClaim r) ∧ db.swarmHalted = false
        ∧ now - t.heartbeatUnix > LEASE_WINDOW_SECONDS
        ∧ t'.ownerToken = db.nextToken
        ∧ grantedClaim (db.processReq req now).2 = some (id, t'.ownerToken) := by
  cases h with
  | same => exact absurd rfl hchange
  | heartbeat hreq hid htok hne' => exact absurd rfl hchange
  | @claimed r hreq hh hpick =>
      have hrun := (hw.record id t hf).owned_iff.mp hne
      have hlapsed : leaseExpired t now = true := by
        have hpick' := (pick_eq_some hpick).2.2
        simp only [tryPick, hrun, Bool.and_eq_true] at hpick'
        simpa using hpick'.2
      subst hreq
      exact .inr ⟨⟨r, rfl⟩, hh, by simpa [leaseExpired] using hlapsed, rfl,
        hw.grantedClaim_of_pick hh hpick⟩
  | completed hreq hid htok hne' hok =>
      subst hreq
      exact .inl ⟨⟨hid, hok⟩, by simp [carriedToken, hid, htok]⟩
  | failed hreq hid htok hne' hok =>
      subst hreq
      exact .inl ⟨⟨hid, hok⟩, by simp [carriedToken, hid, htok]⟩

/-! ## The lease is counted from the last beat -/

/-- A call that beats stores its clock. -/
theorem heartbeat_of_beats {t : TaskId} {past : List Call} {c : Call} (h : beats t past c) :
    ∃ u, (replay (past ++ [c])).find t = some u ∧ u.heartbeatUnix = c.2 := by
  have hw := wf_replay past
  rw [replay_snoc]
  rcases h with ⟨k, hk⟩ | ⟨r, hreq, rfl, hok⟩
  · obtain ⟨r, u, hreq, -, -, hu, -⟩ := (processReq_effect _ c.1 c.2).granted hw hk
    exact ⟨_, hu, rfl⟩
  · have he := processReq_effect (replay past) c.1 c.2
    unfold response at hok
    rw [hreq] at he hok ⊢
    generalize ((replay past).processReq (.taskHeartbeat r) c.2).1 = db' at he ⊢
    generalize ((replay past).processReq (.taskHeartbeat r) c.2).2 = resp at he hok
    cases he with
    | refused herr hbusy => exact absurd hok herr
    | heartbeat hreq' hown =>
        obtain rfl := Request.taskHeartbeat.inj hreq'
        exact ⟨_, by rw [find_setTask, if_pos rfl], rfl⟩
    | _ => contradiction

/-- A call that does not beat keeps the clock. -/
theorem heartbeat_of_not_beats {t : TaskId} {past : List Call} {c : Call} {u : TaskRecord}
    (hu : (replay past).find t = some u) (h : ¬beats t past c) :
    ∃ u', (replay (past ++ [c])).find t = some u' ∧ u'.heartbeatUnix = u.heartbeatUnix := by
  obtain ⟨u', hu', hst⟩ := processReq_record c.1 c.2 hu
  rw [replay_snoc]
  refine ⟨u', hu', ?_⟩
  obtain ⟨req, now⟩ := c
  cases hst with
  | heartbeat hreq hid htok hne =>
      subst hreq hid
      refine absurd (.inr ⟨_, rfl, rfl, ?_⟩) h
      simp [response, processReq, handleTaskHeartbeat, ownedTask_eq _ hu htok hne,
        Response.errcode, Response.base]
  | claimed hreq hh hpick =>
      subst hreq
      exact absurd (.inl ⟨_, (wf_replay past).grantedClaim_of_pick hh hpick⟩) h
  | _ => rfl

theorem heartbeat_of_isLast {t : TaskId} {calls p : List Call} {b : Call}
    (h : IsLast (beats t) calls p b) :
    ∃ u, (replay calls).find t = some u ∧ u.heartbeatUnix = b.2 := by
  induction calls using List.reverseRecOn with
  | nil => exact absurd h not_isLast_nil
  | append_singleton calls c ih =>
      rcases isLast_concat.mp h with ⟨hbeat, rfl, rfl⟩ | ⟨hnot, hlast⟩
      · exact heartbeat_of_beats hbeat
      · obtain ⟨u, hu, heq⟩ := ih hlast
        obtain ⟨u', hu', heq'⟩ := heartbeat_of_not_beats hu hnot
        exact ⟨u', hu', heq'.trans heq⟩

/-! ## An owner that keeps up -/

/-- Every call of `mid`, made after `past`, comes within the lease window of
the last beat of `t` before it. -/
def withinLease (t : TaskId) (past mid : List Call) : Prop :=
  ∀ m₁ d m₂, mid = m₁ ++ d :: m₂ → ∀ p b, IsLast (beats t) (past ++ m₁) p b →
    d.2 - b.2 ≤ LEASE_WINDOW_SECONDS

/-- No call of `mid`, made after `past`, finishes `t` with token `k`. -/
def notFinished (t : TaskId) (k : FencingToken) (past mid : List Call) : Prop :=
  ∀ m₁ d m₂, mid = m₁ ++ d :: m₂ → carriedToken t d.1 = some k →
    ¬finishes t d (response (past ++ m₁) d)

/-- The step that takes a live task away is a finish under its token, or it
comes after the lease ran out. -/
theorem TokenLive.taken {past : List Call} {c : Call} {t : TaskId} {k : FencingToken}
    (h : TokenLive t k (replay past)) (hs : supersedes t c (response past c)) :
    finishes t c (response past c) ∧ carriedToken t c.1 = some k
      ∨ ∃ u, (replay past).find t = some u
        ∧ c.2 - u.heartbeatUnix > LEASE_WINDOW_SECONDS := by
  obtain ⟨hne, hlt, u, hu, htok⟩ := h
  have hw := wf_replay past
  obtain ⟨-, -, u', hu', hdead⟩ := tokenDead_of_supersedes hw hne hlt hs
  obtain ⟨u₁, hu₁, hst⟩ := processReq_record c.1 c.2 hu
  obtain rfl := Option.some.inj (hu₁.symm.trans hu')
  rcases hst.displaced (htok ▸ hne) hw hu (htok ▸ hdead) with ⟨hfin, hcarry⟩ | ⟨-, -, hlapsed, -⟩
  · exact .inl ⟨hfin, htok ▸ hcarry⟩
  · exact .inr ⟨u, hu, hlapsed⟩

/-- While every clock stays within the lease and the owner does not finish,
the token of a granted claim stays live. -/
theorem tokenLive_of_withinLease {past mid : List Call} {c : Call} {t : TaskId}
    {k : FencingToken} (hg : grantedClaim (response past c) = some (t, k))
    (hlease : withinLease t (past ++ [c]) mid) (hfin : notFinished t k (past ++ [c]) mid) :
    TokenLive t k (replay (past ++ [c] ++ mid)) := by
  have hlive := tokenLive_of_granted hg
  refine hlive.run ?_
  rintro ⟨m₁, d, m₂, hmid, hs⟩
  -- at the first call that takes the task away, the token is still live
  obtain ⟨m₁, d, m₂, hmid, hs, hfirst⟩ :=
    exists_first_split (P := fun m d => supersedes t d (response (past ++ [c] ++ m) d)) hmid hs
  have hlive' : TokenLive t k (replay (past ++ [c] ++ m₁)) :=
    hlive.run fun ⟨n₁, e, n₂, hsplit, hs'⟩ => hfirst n₁ e n₂ hsplit hs'
  rcases hlive'.taken hs with ⟨hf, hcarry⟩ | ⟨u, hu, hlapsed⟩
  · exact hfin m₁ d m₂ hmid hcarry hf
  · have hbeat : beats t past c := .inl ⟨k, hg⟩
    obtain ⟨p, b, hlast⟩ := exists_isLast (r := m₁) hbeat
    rw [show past ++ c :: m₁ = past ++ [c] ++ m₁ by simp] at hlast
    obtain ⟨u', hu', hb⟩ := heartbeat_of_isLast hlast
    obtain rfl := Option.some.inj (hu'.symm.trans hu)
    have hle := hlease m₁ d m₂ hmid p b hlast
    rw [hb] at hlapsed
    omega

/-- **A live lease protects its owner.** The owner token of a task changes
only by the owner's own finish, or by a claim that finds the lease run out
while the swarm is not halted, and then the new token is fresh. So an owner
whose beats keep up with the clock keeps the task, and its heartbeat, failure
or completion without children is accepted, until it finishes the task. -/
theorem live_lease_protects_owner :
    (∀ past c t u u', (replay past).find t = some u → u.ownerToken ≠ 0 →
      (replay (past ++ [c])).find t = some u' → u'.ownerToken ≠ u.ownerToken →
      (finishes t c (response past c) ∧ carriedToken t c.1 = some u.ownerToken)
        ∨ (∃ r, c.1 = .taskClaim r) ∧ (replay past).swarmHalted = false
          ∧ c.2 - u.heartbeatUnix > LEASE_WINDOW_SECONDS
          ∧ grantedClaim (response past c) = some (t, u'.ownerToken)
          ∧ ∀ p d r k, past = p ++ d :: r → issuedToken (response p d) = some k →
              k < u'.ownerToken)
    ∧ ∀ past c mid t k, grantedClaim (response past c) = some (t, k) →
        withinLease t (past ++ [c]) mid → notFinished t k (past ++ [c]) mid →
        (∃ u, (replay (past ++ c :: mid)).find t = some u ∧ u.status = .inProgress
          ∧ u.ownerToken = k)
        ∧ ∀ req now, ownRequest t k req →
            (response (past ++ c :: mid) (req, now)).errcode = .ok := by
  refine ⟨?_, ?_⟩
  · intro past c t u u' hu hne hu' hchange
    rw [replay_snoc] at hu'
    obtain ⟨u₁, hu₁, hst⟩ := processReq_record c.1 c.2 hu
    obtain rfl := Option.some.inj (hu₁.symm.trans hu')
    rcases hst.displaced hne (wf_replay past) hu hchange with
      hfin | ⟨hclaim, hh, hlapsed, htok, hgrant⟩
    · exact .inl hfin
    · refine .inr ⟨hclaim, hh, hlapsed, hgrant, ?_⟩
      intro p d r k hsplit hk
      rw [htok]
      exact issued_lt_nextToken hsplit hk
  · intro past c mid t k hg hlease hfin
    have hlive := tokenLive_of_withinLease hg hlease hfin
    rw [← replay_append_cons] at hlive
    refine ⟨?_, fun req now hown => hlive.accepts now hown⟩
    obtain ⟨hne, -, u, hu, htok⟩ := hlive
    exact ⟨u, hu, ((wf_replay _).record t u hu).owned_iff.mp (htok ▸ hne), htok⟩

end TaskManagerDb

end Tmgr
