import Tmgr.DbInv
import Tmgr.Lib.Run

/-!
# Fencing over whole histories

A token is minted for a claim or for the main lock. The owner token of a
task only ever goes to a fresh value (a claim) or to 0 (completion or
failure), so once a token has stopped being the current one of a task it
never becomes it again, and every request that carries it is fenced.

`RecordStep` is the one-step fact: what a request can do to one stored
record. `TokenDead` and `TokenLive` are the two state predicates a history
moves a token between; each has a step lemma and a run lemma.
-/

namespace Tmgr

namespace TaskManagerDb

/-- A request and the wall clock it was stamped with. -/
abbrev Call := Request × Int

/-- The response of the call `c` made after the calls `past`. -/
def response (past : List Call) (c : Call) : Response :=
  ((replay past).processReq c.1 c.2).2

/-- The task a granted claim hands out, with its token. -/
def grantedClaim : Response → Option (TaskId × FencingToken)
  | .taskClaim p => if p.errcode = .ok ∧ p.none = false then some (p.id, p.token) else none
  | _ => none

/-- The token a granted claim or lock acquisition hands out. -/
def issuedToken : Response → Option FencingToken
  | .mainLockAcquire p => if p.errcode = .ok then some p.lockToken else none
  | resp => (grantedClaim resp).map Prod.snd

/-- The call took task `t` away from its owner: it re-claimed, completed or
failed it. -/
def supersedes (t : TaskId) (c : Call) (resp : Response) : Prop :=
  match c.1 with
  | .taskClaim _ => ∃ k, grantedClaim resp = some (t, k)
  | .taskComplete r => r.id = t ∧ resp.errcode = .ok
  | .taskFail r => r.id = t ∧ resp.errcode = .ok
  | _ => False

/-- The call finished task `t`: it completed or failed it. -/
def finishes (t : TaskId) (c : Call) (resp : Response) : Prop :=
  match c.1 with
  | .taskComplete r => r.id = t ∧ resp.errcode = .ok
  | .taskFail r => r.id = t ∧ resp.errcode = .ok
  | _ => False

/-- One of the calls `mid`, made after `past`, took `t` away. -/
def superseded (t : TaskId) (past mid : List Call) : Prop :=
  ∃ m₁ c m₂, mid = m₁ ++ c :: m₂ ∧ supersedes t c (response (past ++ m₁) c)

/-- The fencing token with which a request acts on task `t`: heartbeat,
complete, fail, recursive create and lock acquisition. -/
def carriedToken (t : TaskId) : Request → Option FencingToken
  | .taskHeartbeat r => if r.id = t then some r.token else none
  | .taskComplete r => if r.id = t then some r.token else none
  | .taskFail r => if r.id = t then some r.token else none
  | .taskCreate r => if r.creatorTask = some t then r.creatorToken else none
  | .mainLockAcquire r => if r.mergeTask = t then some r.mergeToken else none
  | _ => none

/-! ## One step, seen from one record -/

inductive RecordStep (db : TaskManagerDb) (req : Request) (now : Int) (id : TaskId)
    (t : TaskRecord) : TaskRecord → Prop
  | same : RecordStep db req now id t t
  | heartbeat {r : TaskHeartbeatRequest} (hreq : req = .taskHeartbeat r) (hid : r.id = id)
      (htoken : t.ownerToken = r.token) (hne : r.token ≠ 0) :
      RecordStep db req now id t { t with heartbeatUnix := now }
  | claimed {r : TaskClaimRequest} (hreq : req = .taskClaim r)
      (hh : db.swarmHalted = false) (hpick : db.pick r now = some (id, t)) :
      RecordStep db req now id t (db.claimRecord r now t)
  | completed {r : TaskCompleteRequest} (hreq : req = .taskComplete r) (hid : r.id = id)
      (htoken : t.ownerToken = r.token) (hne : r.token ≠ 0)
      (hok : (db.processReq req now).2.errcode = .ok) :
      RecordStep db req now id t (completeRecord r t)
  | failed {r : TaskFailRequest} (hreq : req = .taskFail r) (hid : r.id = id)
      (htoken : t.ownerToken = r.token) (hne : r.token ≠ 0)
      (hok : (db.processReq req now).2.errcode = .ok) :
      RecordStep db req now id t (failRecord r t)

/-- A stored record stays stored, and changes in one of five ways. -/
theorem processReq_record {db : TaskManagerDb} {id : TaskId} {t : TaskRecord}
    (req : Request) (now : Int) (hf : db.find id = some t) :
    ∃ t', (db.processReq req now).1.find id = some t' ∧ RecordStep db req now id t t' := by
  have he := processReq_effect db req now
  generalize hdb : (db.processReq req now).1 = db' at he ⊢
  generalize hresp : (db.processReq req now).2 = resp at he
  have hset : ∀ {rid u u'}, db.find rid = some u →
      (rid = id → RecordStep db req now id u u') → ∀ {db₁ : TaskManagerDb},
      Grows db db₁ → ∃ t', (db₁.setTask rid u').find id = some t'
        ∧ RecordStep db req now id t t' := by
    intro rid u u' hu hst db₁ hgrow
    by_cases hid : id = rid
    · subst hid
      obtain rfl := Option.some.inj (hu.symm.trans hf)
      exact ⟨u', by simp, hst rfl⟩
    · exact ⟨t, by simpa [hid] using hgrow.find_old hf, .same⟩
  cases he with
  | refused herr => exact ⟨t, hf, .same⟩
  | created hreq hdepth hdeps => exact ⟨t, (addTask_grows db _).find_old hf, .same⟩
  | halted hreq hh => exact ⟨t, hf, .same⟩
  | noneEligible hreq hh hpick => exact ⟨t, hf, .same⟩
  | claimed hreq hh hpick =>
      exact hset (pick_eq_some hpick).2.1
        (fun hid => .claimed hreq hh (hid ▸ hpick)) (Grows.refl db)
  | heartbeat hreq hown =>
      obtain ⟨hu, htok, hne⟩ := ownedTask_eq_ok hown
      exact hset hu (fun hid => .heartbeat hreq hid htok hne) (Grows.refl db)
  | @completed r u _ hreq hown hcap hok =>
      obtain ⟨hu, htok, hne⟩ := ownedTask_eq_ok hown
      exact hset hu (fun hid => .completed hreq hid htok hne (by rw [hresp]; exact hok))
        (spawn_grows db r u)
  | failed hreq hown =>
      obtain ⟨hu, htok, hne⟩ := ownedTask_eq_ok hown
      exact hset hu (fun hid => .failed hreq hid htok hne (by rw [hresp]; rfl))
        (Grows.refl db)
  | listed hreq => exact ⟨t, hf, .same⟩
  | acquired hreq hfind hstatus htoken hstale => exact ⟨t, hf, .same⟩
  | released hreq hheld htoken => exact ⟨t, hf, .same⟩
  | resumed hreq => exact ⟨t, hf, .same⟩

theorem RecordStep.spec_eq {db : TaskManagerDb} {req : Request} {now : Int} {id : TaskId}
    {t t' : TaskRecord} (h : RecordStep db req now id t t') : t'.spec = t.spec := by
  cases h <;> rfl

/-- A done or failed record is final. -/
theorem RecordStep.finished {db : TaskManagerDb} {req : Request} {now : Int} {id : TaskId}
    {t t' : TaskRecord} (hw : Wf db) (hf : db.find id = some t)
    (h : RecordStep db req now id t t') (hfin : t.status = .done ∨ t.status = .failed) :
    t' = t := by
  have hnot : t.status ≠ .inProgress := by
    rcases hfin with h | h <;> simp [h]
  have hzero : t.ownerToken = 0 := by
    by_contra hne
    exact hnot ((hw.record id t hf).owned_iff.mp hne)
  cases h with
  | same => rfl
  | heartbeat hreq hid htok hne => exact absurd (htok.symm.trans hzero) hne
  | claimed hreq hh hpick =>
      have hpick' := (pick_eq_some hpick).2.2
      rcases hfin with h | h <;> simp [tryPick, h] at hpick'
  | completed hreq hid htok hne hok => exact absurd (htok.symm.trans hzero) hne
  | failed hreq hid htok hne hok => exact absurd (htok.symm.trans hzero) hne

/-- A record that was not there before the request is pending. -/
theorem processReq_new {db : TaskManagerDb} {id : TaskId} {t : TaskRecord} (req : Request)
    (now : Int) (hnone : db.find id = none)
    (hf : (db.processReq req now).1.find id = some t) : t.status = .pending := by
  have he := processReq_effect db req now
  generalize (db.processReq req now).1 = db' at he hf
  generalize (db.processReq req now).2 = resp at he
  have hnew : ∀ {rid u u'} {db₁ : TaskManagerDb}, db.find rid = some u → Grows db db₁ →
      (db₁.setTask rid u').find id = some t → t.status = .pending := by
    intro rid u u' db₁ hu hgrow h
    have hid : id ≠ rid := by
      rintro rfl
      rw [hu] at hnone
      cases hnone
    rw [find_setTask, if_neg hid] at h
    rcases hgrow.find_new h with h' | ⟨-, hpend, -⟩
    · rw [h'] at hnone
      cases hnone
    · exact hpend
  cases he with
  | created hreq hdepth hdeps =>
      rcases (addTask_grows db _).find_new hf with h' | ⟨-, hpend, -⟩
      · rw [h'] at hnone
        cases hnone
      · exact hpend
  | claimed hreq hh hpick => exact hnew (pick_eq_some hpick).2.1 (Grows.refl db) hf
  | heartbeat hreq hown => exact hnew (ownedTask_eq_ok hown).1 (Grows.refl db) hf
  | completed hreq hown hcap hok =>
      exact hnew (ownedTask_eq_ok hown).1 (spawn_grows db _ _) hf
  | failed hreq hown => exact hnew (ownedTask_eq_ok hown).1 (Grows.refl db) hf
  | _ =>
      rw [show db.find id = some t from hf] at hnone
      cases hnone

/-! ## Minting -/

theorem Effect.nextToken_le {db db' : TaskManagerDb} {req : Request} {now : Int}
    {resp : Response} (he : Effect db req now db' resp) : db.nextToken ≤ db'.nextToken := by
  cases he with
  | created hreq hdepth hdeps => exact (addTask_grows db _).nextToken.ge
  | completed hreq hown hcap hok => exact (spawn_grows db _ _).nextToken.ge
  | claimed hreq hh hpick => exact Nat.le_succ _
  | acquired hreq hfind hstatus htoken hstale => exact Nat.le_succ _
  | _ => exact Nat.le_refl _

theorem Effect.issued {db db' : TaskManagerDb} {req : Request} {now : Int}
    {resp : Response} (he : Effect db req now db' resp) {k : FencingToken}
    (hk : issuedToken resp = some k) : k = db.nextToken ∧ db'.nextToken = k + 1 := by
  cases he with
  | refused herr =>
      cases resp <;>
        simp_all [issuedToken, grantedClaim, Response.errcode, Response.base]
  | claimed hreq hh hpick =>
      obtain rfl : db.nextToken = k := by simpa [issuedToken, grantedClaim] using hk
      exact ⟨rfl, rfl⟩
  | acquired hreq hfind hstatus htoken hstale =>
      obtain rfl : db.nextToken = k := by simpa [issuedToken] using hk
      exact ⟨rfl, rfl⟩
  | _ => simp [issuedToken, grantedClaim] at hk

/-- A claim that picks a task hands it out. -/
theorem Wf.handleTaskClaim_eq {db : TaskManagerDb} (hw : Wf db) {r : TaskClaimRequest}
    {now : Int} {id : TaskId} {t : TaskRecord} (hh : db.swarmHalted = false)
    (hpick : db.pick r now = some (id, t)) :
    db.handleTaskClaim r now
      = ({ db.setTask id (db.claimRecord r now t) with nextToken := db.nextToken + 1 },
         { serial := r.serial, id, spec := t.spec, token := db.nextToken }) := by
  have hid := (hw.record id t (pick_eq_some hpick).2.1).id_eq
  simp [handleTaskClaim, hh, hpick, claimRecord, hid]

theorem Wf.grantedClaim_of_pick {db : TaskManagerDb} (hw : Wf db) {r : TaskClaimRequest}
    {now : Int} {id : TaskId} {t : TaskRecord} (hh : db.swarmHalted = false)
    (hpick : db.pick r now = some (id, t)) :
    grantedClaim (db.processReq (.taskClaim r) now).2 = some (id, db.nextToken) := by
  have hresp : (db.processReq (.taskClaim r) now).2 = .taskClaim
      { serial := r.serial, id, spec := t.spec, token := db.nextToken } := by
    simp [TaskManagerDb.processReq, hw.handleTaskClaim_eq hh hpick]
  rw [hresp]
  simp [grantedClaim]

theorem Effect.granted {db db' : TaskManagerDb} {req : Request} {now : Int}
    {resp : Response} (hw : Wf db) (he : Effect db req now db' resp) {id : TaskId}
    {k : FencingToken} (hk : grantedClaim resp = some (id, k)) :
    ∃ r t, req = .taskClaim r ∧ db.pick r now = some (id, t) ∧ k = db.nextToken
      ∧ db'.find id = some (db.claimRecord r now t) ∧ db'.nextToken = k + 1 := by
  cases he with
  | refused herr =>
      cases resp <;> simp_all [grantedClaim, Response.errcode, Response.base]
  | @claimed r tid t hreq hh hpick =>
      have hid : t.id = tid := (hw.record tid t (pick_eq_some hpick).2.1).id_eq
      obtain ⟨rfl, rfl⟩ : t.id = id ∧ db.nextToken = k := by
        simpa [grantedClaim] using hk
      rw [hid]
      refine ⟨r, t, hreq, hpick, rfl, ?_, rfl⟩
      show (db.setTask tid _).find tid = _
      simp
  | _ => simp [grantedClaim] at hk

/-! ## Dead and live tokens -/

/-- `k` was issued, and is not the owner token of task `t`. -/
def TokenDead (t : TaskId) (k : FencingToken) (db : TaskManagerDb) : Prop :=
  k ≠ 0 ∧ k < db.nextToken ∧ ∃ u, db.find t = some u ∧ u.ownerToken ≠ k

/-- `k` is the owner token of task `t`. -/
def TokenLive (t : TaskId) (k : FencingToken) (db : TaskManagerDb) : Prop :=
  k ≠ 0 ∧ k < db.nextToken ∧ ∃ u, db.find t = some u ∧ u.ownerToken = k

theorem TokenDead.step {t : TaskId} {k : FencingToken} {db : TaskManagerDb}
    (h : TokenDead t k db) (req : Request) (now : Int) :
    TokenDead t k (db.processReq req now).1 := by
  obtain ⟨hk, hlt, u, hu, hne⟩ := h
  obtain ⟨u', hu', hst⟩ := processReq_record req now hu
  refine ⟨hk, Nat.lt_of_lt_of_le hlt (processReq_effect db req now).nextToken_le,
    u', hu', ?_⟩
  cases hst with
  | same => exact hne
  | heartbeat hreq hid htok hne0 => exact hne
  | claimed hreq hh hpick => exact Nat.ne_of_gt hlt
  | completed hreq hid htok hne0 hok => exact hk.symm
  | failed hreq hid htok hne0 hok => exact hk.symm

theorem TokenLive.step {t : TaskId} {k : FencingToken} {db : TaskManagerDb}
    (hw : Wf db) (h : TokenLive t k db) (c : Call)
    (hnot : ¬supersedes t c (db.processReq c.1 c.2).2) :
    TokenLive t k (db.processReq c.1 c.2).1 := by
  obtain ⟨hk, hlt, u, hu, htok⟩ := h
  obtain ⟨u', hu', hst⟩ := processReq_record c.1 c.2 hu
  refine ⟨hk, Nat.lt_of_lt_of_le hlt (processReq_effect db c.1 c.2).nextToken_le,
    u', hu', ?_⟩
  obtain ⟨req, now⟩ := c
  cases hst with
  | same => exact htok
  | heartbeat hreq hid htok' hne => exact htok
  | claimed hreq hh hpick =>
      subst hreq
      exact absurd ⟨db.nextToken, hw.grantedClaim_of_pick hh hpick⟩ hnot
  | completed hreq hid htok' hne hok =>
      subst hreq
      exact absurd ⟨hid, hok⟩ hnot
  | failed hreq hid htok' hne hok =>
      subst hreq
      exact absurd ⟨hid, hok⟩ hnot

theorem supersedes_iff {t : TaskId} {c : Call} {resp : Response} :
    supersedes t c resp
      ↔ (∃ r k, c.1 = .taskClaim r ∧ grantedClaim resp = some (t, k)) ∨ finishes t c resp := by
  obtain ⟨req, now⟩ := c
  cases req <;> simp [supersedes, finishes]

/-- The call that finishes `t` finds it owned and leaves it done or failed. -/
theorem finishes_inv {t : TaskId} {db : TaskManagerDb} {c : Call}
    (hs : finishes t c (db.processReq c.1 c.2).2) :
    ∃ u u', db.find t = some u ∧ u.ownerToken ≠ 0
      ∧ (db.processReq c.1 c.2).1.find t = some u' ∧ u'.ownerToken = 0
      ∧ (u'.status = .done ∨ u'.status = .failed) := by
  have he := processReq_effect db c.1 c.2
  obtain ⟨req, now⟩ := c
  cases req with
  | taskComplete r =>
      obtain ⟨rfl, hok⟩ := hs
      generalize hdb : (db.processReq (.taskComplete r) now).1 = db' at he ⊢
      generalize (db.processReq (.taskComplete r) now).2 = resp at he hok
      cases he with
      | refused herr => exact absurd hok herr
      | @completed r' u _ hreq hown hcap hresp =>
          obtain rfl := Request.taskComplete.inj hreq
          obtain ⟨hu, htok, hne⟩ := ownedTask_eq_ok hown
          exact ⟨u, completeRecord r u, hu, htok ▸ hne, by simp, rfl, Or.inl rfl⟩
      | listed hreq => cases hreq
      | _ => contradiction
  | taskFail r =>
      obtain ⟨rfl, hok⟩ := hs
      generalize hdb : (db.processReq (.taskFail r) now).1 = db' at he ⊢
      generalize (db.processReq (.taskFail r) now).2 = resp at he hok
      cases he with
      | refused herr => exact absurd hok herr
      | @failed r' u hreq hown =>
          obtain rfl := Request.taskFail.inj hreq
          obtain ⟨hu, htok, hne⟩ := ownedTask_eq_ok hown
          exact ⟨u, failRecord r u, hu, htok ▸ hne,
            (find_setTask db r.id r.id _).trans (if_pos rfl), rfl, Or.inr rfl⟩
      | _ => contradiction
  | _ => exact absurd hs id

/-- The step that takes `t` away leaves every token issued before dead. -/
theorem tokenDead_of_supersedes {t : TaskId} {k : FencingToken} {db : TaskManagerDb}
    (hw : Wf db) (hk : k ≠ 0) (hlt : k < db.nextToken) {c : Call}
    (hs : supersedes t c (db.processReq c.1 c.2).2) :
    TokenDead t k (db.processReq c.1 c.2).1 := by
  have he := processReq_effect db c.1 c.2
  refine ⟨hk, Nat.lt_of_lt_of_le hlt he.nextToken_le, ?_⟩
  rcases supersedes_iff.mp hs with ⟨r, k', -, hg⟩ | hfin
  · obtain ⟨r', u, -, -, -, hu, -⟩ := he.granted hw hg
    exact ⟨_, hu, Nat.ne_of_gt hlt⟩
  · obtain ⟨u, u', -, -, hu', hzero, -⟩ := finishes_inv hfin
    exact ⟨u', hu', by rw [hzero]; exact hk.symm⟩

/-! ## A request with the wrong token -/

theorem ownedTask_fenced {db : TaskManagerDb} {t : TaskId} {u : TaskRecord}
    {k : FencingToken} (serial : Nat) (hu : db.find t = some u) (hne : u.ownerToken ≠ k) :
    db.ownedTask serial t k = .error ⟨serial, .fenced, "fencing token mismatch"⟩ := by
  simp [ownedTask, hu, hne]

/-- A heartbeat, completion, failure, recursive create or lock acquisition on
`t` with a token that is not the current one is answered `fenced` and
changes nothing. -/
theorem processReq_fenced {db : TaskManagerDb} {t : TaskId} {u : TaskRecord}
    {k : FencingToken} {req : Request} (now : Int) (hu : db.find t = some u)
    (hne : u.ownerToken ≠ k) (hc : carriedToken t req = some k) :
    (db.processReq req now).2.errcode = .fenced ∧ (db.processReq req now).1 = db := by
  cases req with
  | taskHeartbeat r =>
      obtain ⟨rfl, rfl⟩ : r.id = t ∧ r.token = k := by simpa [carriedToken] using hc
      simp [processReq, handleTaskHeartbeat, ownedTask_fenced r.serial hu hne,
        Response.errcode, Response.base]
  | taskComplete r =>
      obtain ⟨rfl, rfl⟩ : r.id = t ∧ r.token = k := by simpa [carriedToken] using hc
      simp [processReq, handleTaskComplete, ownedTask_fenced r.serial hu hne,
        Response.errcode, Response.base]
  | taskFail r =>
      obtain ⟨rfl, rfl⟩ : r.id = t ∧ r.token = k := by simpa [carriedToken] using hc
      simp [processReq, handleTaskFail, ownedTask_fenced r.serial hu hne,
        Response.errcode, Response.base]
  | taskCreate r =>
      obtain ⟨htask, htok⟩ : r.creatorTask = some t ∧ r.creatorToken = some k := by
        simpa [carriedToken] using hc
      simp [processReq, handleTaskCreate, createDepth, htask, htok, hu, hne,
        Response.errcode, Response.base]
  | mainLockAcquire r =>
      obtain ⟨rfl, rfl⟩ : r.mergeTask = t ∧ r.mergeToken = k := by
        simpa [carriedToken] using hc
      simp [processReq, handleMainLockAcquire, hu, hne, Response.errcode, Response.base]
  | _ => simp [carriedToken] at hc

/-! ## Histories -/

theorem replay_append_cons (past mid : List Call) (c : Call) :
    replay (past ++ c :: mid) = replay ((past ++ [c]) ++ mid) := by
  simp

/-- The induction over the rest of a history: a call preserves `I` wherever
it is made. -/
theorem replay_append_induction {I : TaskManagerDb → Prop} {past mid : List Call}
    (h : I (replay past))
    (hstep : ∀ m₁ c m₂, mid = m₁ ++ c :: m₂ → I (replay (past ++ m₁)) →
      I ((replay (past ++ m₁)).processReq c.1 c.2).1) : I (replay (past ++ mid)) := by
  induction mid using List.reverseRecOn with
  | nil => simpa using h
  | append_singleton mid c ih =>
      obtain ⟨hpast, hlast⟩ := Runs.forall_split_concat.mp hstep
      rw [← List.append_assoc, replay_snoc]
      exact hlast (ih hpast)

theorem nextToken_mono (past mid : List Call) :
    (replay past).nextToken ≤ (replay (past ++ mid)).nextToken := by
  refine replay_append_induction (I := fun db => (replay past).nextToken ≤ db.nextToken) le_rfl ?_
  intro m₁ c _ _ hle
  exact hle.trans (processReq_effect _ c.1 c.2).nextToken_le

/-- Every token issued in a history is below the next one. -/
theorem issued_lt_nextToken {past : List Call} {n₁ n₂ : List Call} {d : Call}
    {k : FencingToken} (hsplit : past = n₁ ++ d :: n₂)
    (hk : issuedToken (response n₁ d) = some k) : k < (replay past).nextToken := by
  obtain ⟨-, hnext⟩ := (processReq_effect _ d.1 d.2).issued hk
  have hmono := nextToken_mono (n₁ ++ [d]) n₂
  rw [replay_snoc, hnext, ← replay_append_cons, ← hsplit] at hmono
  exact hmono

theorem TokenDead.run {t : TaskId} {k : FencingToken} {past : List Call}
    (h : TokenDead t k (replay past)) (mid : List Call) :
    TokenDead t k (replay (past ++ mid)) :=
  replay_append_induction h fun _ c _ _ hdead => hdead.step c.1 c.2

theorem TokenLive.run {t : TaskId} {k : FencingToken} {past : List Call}
    (h : TokenLive t k (replay past)) {mid : List Call} (hnot : ¬superseded t past mid) :
    TokenLive t k (replay (past ++ mid)) := by
  refine replay_append_induction h fun m₁ c m₂ hmid hlive => ?_
  exact hlive.step (wf_replay _) c fun hs => hnot ⟨m₁, c, m₂, hmid, hs⟩

/-- A granted claim makes its token live. -/
theorem tokenLive_of_granted {past : List Call} {c : Call} {t : TaskId} {k : FencingToken}
    (hg : grantedClaim (response past c) = some (t, k)) :
    TokenLive t k (replay (past ++ [c])) := by
  have hw := wf_replay past
  obtain ⟨r, u, -, -, rfl, hu, hnext⟩ := (processReq_effect _ c.1 c.2).granted hw hg
  rw [replay_snoc]
  have hpos : 0 < (replay past).nextToken := Nat.lt_of_le_of_lt (Nat.zero_le _) hw.lock_lt
  exact ⟨Nat.ne_of_gt hpos, by rw [hnext]; exact Nat.lt_succ_self _, _, hu, rfl⟩

/-- Once one of the later calls took `t` away, the token is dead. -/
theorem tokenDead_of_superseded {past mid : List Call} {t : TaskId} {k : FencingToken}
    (hlive : TokenLive t k (replay past)) (hsup : superseded t past mid) :
    TokenDead t k (replay (past ++ mid)) := by
  obtain ⟨m₁, c, m₂, rfl, hs⟩ := hsup
  have hlt := Nat.lt_of_lt_of_le hlive.2.1 (nextToken_mono past m₁)
  have hdead : TokenDead t k (replay (past ++ m₁ ++ [c])) := by
    rw [replay_snoc]
    exact tokenDead_of_supersedes (wf_replay _) hlive.1 hlt hs
  have hrun := hdead.run m₂
  simpa using hrun

/-- **Fencing over whole histories.** Issued tokens are nonzero and strictly
increasing; after the task was taken away from the claim that got `k`, every
request on it that carries `k` is fenced and changes nothing; before that,
no request on it that carries another token is accepted. -/
theorem fencing_over_histories :
    (∀ past c k, issuedToken (response past c) = some k → 0 < k)
    ∧ (∀ past c mid c' k k', issuedToken (response past c) = some k →
        issuedToken (response (past ++ c :: mid) c') = some k' → k < k')
    ∧ (∀ past c mid c' t k, grantedClaim (response past c) = some (t, k) →
        superseded t (past ++ [c]) mid → carriedToken t c'.1 = some k →
        (response (past ++ c :: mid) c').errcode = .fenced
          ∧ replay (past ++ c :: mid ++ [c']) = replay (past ++ c :: mid))
    ∧ (∀ past c mid c' t k k', grantedClaim (response past c) = some (t, k) →
        ¬superseded t (past ++ [c]) mid → carriedToken t c'.1 = some k' → k' ≠ k →
        (response (past ++ c :: mid) c').errcode ≠ .ok) := by
  refine ⟨?_, ?_, ?_, ?_⟩
  · intro past c k hk
    obtain ⟨rfl, -⟩ := (processReq_effect _ c.1 c.2).issued hk
    exact Nat.lt_of_le_of_lt (Nat.zero_le _) (wf_replay past).lock_lt
  · intro past c mid c' k k' hk hk'
    obtain ⟨-, hnext⟩ := (processReq_effect _ c.1 c.2).issued hk
    obtain ⟨rfl, -⟩ := (processReq_effect _ c'.1 c'.2).issued hk'
    have hmono := nextToken_mono (past ++ [c]) mid
    rw [replay_snoc, hnext, ← replay_append_cons] at hmono
    exact hmono
  · intro past c mid c' t k hg hsup hc
    obtain ⟨-, -, u, hu, hne⟩ := tokenDead_of_superseded (tokenLive_of_granted hg) hsup
    rw [← replay_append_cons] at hu
    obtain ⟨hf, hdb⟩ := processReq_fenced c'.2 hu hne hc
    exact ⟨hf, by rw [replay_snoc]; exact hdb⟩
  · intro past c mid c' t k k' hg hnot hc hne
    obtain ⟨-, -, u, hu, htok⟩ := (tokenLive_of_granted hg).run hnot
    rw [← replay_append_cons] at hu
    obtain ⟨hf, -⟩ := processReq_fenced c'.2 hu (by rw [htok]; exact hne.symm) hc
    rw [show response (past ++ c :: mid) c'
      = ((replay (past ++ c :: mid)).processReq c'.1 c'.2).2 from rfl, hf]
    simp

end TaskManagerDb

end Tmgr
