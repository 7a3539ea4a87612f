import Tmgr.Fencing
import Tmgr.Lib.Run

/-!
# Mutual exclusion of the main lock

A held lock is judged stale from the holder's merge task: its status, its
lease and the agent that owns it. The agent recorded with the lock comes
from the acquire request, the agent recorded with the task from the claim;
while they are the same, the lock passes on only when the claim behind it is
dead. A lease that expired can come back to life by a heartbeat, so only the
grant that takes the lock over finds the claim dead, not every later one.
-/

namespace Tmgr

namespace TaskManagerDb

/-- The call `c` after `past` is the acquire request `r`, granted with
`lock`. -/
def acquires (past : List Call) (c : Call) (r : MainLockAcquireRequest)
    (lock : FencingToken) : Prop :=
  c.1 = .mainLockAcquire r
    ∧ ∃ resp, response past c = .mainLockAcquire resp ∧ resp.errcode = .ok
      ∧ resp.lockToken = lock

/-- The call `c` after `past` releases `lock`, and succeeds. -/
def releases (past : List Call) (c : Call) (lock : FencingToken) : Prop :=
  ∃ r, c.1 = .mainLockRelease r ∧ r.lockToken = lock ∧ (response past c).errcode = .ok

/-- One of the calls `mid`, made after `past`, released `lock`. -/
def releasedIn (lock : FencingToken) (past mid : List Call) : Prop :=
  ∃ m₁ c m₂, mid = m₁ ++ c :: m₂ ∧ releases (past ++ m₁) c lock

/-- The claim of task `m` under token `k` is dead at `now`: `m` is no longer
in progress under `k`, or its lease has expired. -/
def claimDead (db : TaskManagerDb) (m : TaskId) (k : FencingToken) (now : Int) : Prop :=
  ∀ u, db.find m = some u → u.status = .inProgress → u.ownerToken = k →
    leaseExpired u now = true

/-! ## While the lock is held -/

/-- The lock is `lock`, held by `agent` for `m`, and while `m` is owned under
`k` it is owned by `agent`. -/
structure Backed (agent : String) (m : TaskId) (k lock : FencingToken)
    (db : TaskManagerDb) : Prop where
  held : db.mainLock = ⟨agent, m, lock⟩
  lock_ne : lock ≠ 0
  token_ne : k ≠ 0
  token_lt : k < db.nextToken
  owner : ∃ u, db.find m = some u ∧ (u.ownerToken = k → u.ownerAgent = agent)

/-- A step that neither grants the lock nor releases this one leaves it
backed. -/
theorem Backed.step {agent : String} {m : TaskId} {k lock : FencingToken}
    {past : List Call} (h : Backed agent m k lock (replay past)) (c : Call)
    (hacq : ∀ r l, ¬acquires past c r l) (hrel : ¬releases past c lock) :
    Backed agent m k lock (replay (past ++ [c])) := by
  obtain ⟨req, now⟩ := c
  obtain ⟨u, hu, hagent⟩ := h.owner
  obtain ⟨u', hu', hst⟩ := processReq_record req now hu
  have he := processReq_effect (replay past) req now
  rw [replay_snoc]
  refine ⟨?_, h.lock_ne, h.token_ne, Nat.lt_of_lt_of_le h.token_lt he.nextToken_le,
    u', hu', ?_⟩
  · have hresp : response past (req, now) = ((replay past).processReq req now).2 := rfl
    generalize ((replay past).processReq req now).1 = db' at he ⊢
    generalize ((replay past).processReq req now).2 = resp at he hresp
    cases he with
    | created hreq hdepth hdeps => rw [(addTask_grows _ _).mainLock]; exact h.held
    | completed hreq hown hcap hok =>
        rw [setTask_mainLock, (spawn_grows _ _ _).mainLock]
        exact h.held
    | @acquired r mt hreq hfind hstatus htoken hstale =>
        exact absurd ⟨hreq, _, hresp, rfl, rfl⟩ (hacq r (replay past).nextToken)
    | @released r hreq hheld htoken =>
        refine absurd ⟨r, hreq, ?_, by rw [hresp]; rfl⟩ hrel
        rw [← htoken, h.held]
    | _ => exact h.held
  · cases hst with
    | same => exact hagent
    | heartbeat hreq hid htok hne => exact hagent
    | claimed hreq hh hpick => exact fun heq => absurd heq.symm (Nat.ne_of_lt h.token_lt)
    | completed hreq hid htok hne hok => exact fun heq => absurd heq.symm h.token_ne
    | failed hreq hid htok hne hok => exact fun heq => absurd heq.symm h.token_ne

theorem Backed.run {agent : String} {m : TaskId} {k lock : FencingToken}
    {past mid : List Call} (h : Backed agent m k lock (replay past))
    (hacq : ∀ n₁ c n₂, mid = n₁ ++ c :: n₂ → ∀ r l, ¬acquires (past ++ n₁) c r l)
    (hrel : ¬releasedIn lock past mid) :
    Backed agent m k lock (replay (past ++ mid)) := by
  refine replay_append_induction h fun n₁ c n₂ hmid hback => ?_
  rw [← replay_snoc]
  exact hback.step c (hacq n₁ c n₂ hmid) fun hr => hrel ⟨n₁, c, n₂, hmid, hr⟩

/-- What a granted acquire finds and leaves. -/
theorem acquires_inv {past : List Call} {c : Call} {r : MainLockAcquireRequest}
    {lock : FencingToken} (h : acquires past c r lock) :
    (∃ mt, (replay past).find r.mergeTask = some mt ∧ mt.status = .inProgress
        ∧ mt.ownerToken = r.mergeToken)
      ∧ ((replay past).mainLock.lockToken = 0 ∨ (replay past).lockHolderLive c.2 = false)
      ∧ lock = (replay past).nextToken
      ∧ replay (past ++ [c]) = { replay past with
          mainLock := ⟨r.agentId, r.mergeTask, lock⟩
          nextToken := lock + 1 } := by
  obtain ⟨hreq, resp, hresp, hok, hlock⟩ := h
  have he := processReq_effect (replay past) c.1 c.2
  rw [replay_snoc]
  rw [response] at hresp
  generalize ((replay past).processReq c.1 c.2).1 = db' at he ⊢
  rw [hresp] at he
  cases he with
  | refused herr => exact absurd hok herr
  | @acquired r' mt hreq' hfind hstatus htoken hstale =>
      obtain rfl : r = r' := Request.mainLockAcquire.inj (hreq.symm.trans hreq')
      subst hlock
      exact ⟨⟨mt, hfind, hstatus, htoken⟩, hstale, rfl, rfl⟩

/-- The grant that takes the lock over finds the claim behind it dead. -/
theorem Backed.claimDead_of_acquires {agent : String} {m : TaskId} {k lock : FencingToken}
    {past : List Call} (h : Backed agent m k lock (replay past)) {c : Call}
    {r : MainLockAcquireRequest} {l : FencingToken} (hacq : acquires past c r l) :
    claimDead (replay past) m k c.2 := by
  obtain ⟨-, hstale, -, -⟩ := acquires_inv hacq
  intro u hu hstatus htoken
  obtain ⟨u', hu', hagent⟩ := h.owner
  obtain rfl := Option.some.inj (hu.symm.trans hu')
  have hlive : (replay past).lockHolderLive c.2 = false := by
    refine hstale.resolve_left ?_
    rw [h.held]
    exact h.lock_ne
  simpa [lockHolderLive, h.held, hu, hstatus, hagent htoken] using hlive

/-- A granted acquire whose agent owns the merge task leaves a backed lock. -/
theorem backed_of_acquires {past : List Call} {c : Call} {r : MainLockAcquireRequest}
    {lock : FencingToken} (h : acquires past c r lock) {u : TaskRecord}
    (hu : (replay past).find r.mergeTask = some u) (hagent : r.agentId = u.ownerAgent) :
    Backed r.agentId r.mergeTask u.ownerToken lock (replay (past ++ [c])) := by
  have hw := wf_replay past
  obtain ⟨⟨mt, hmt, hstatus, -⟩, -, hlock, hpost⟩ := acquires_inv h
  obtain rfl := Option.some.inj (hu.symm.trans hmt)
  have hrec := hw.record _ u hu
  have hpos : 0 < (replay past).nextToken := Nat.lt_of_le_of_lt (Nat.zero_le _) hw.lock_lt
  rw [hpost]
  exact ⟨rfl, hlock ▸ Nat.ne_of_gt hpos, hrec.owned_iff.mpr hstatus,
    Nat.lt_succ_of_lt (hlock ▸ hrec.token_lt), u, hu, fun _ => hagent.symm⟩

/-- **Mutual exclusion of the main lock.** Between a granted acquire, made
under the name of the merge task's owner, and any later granted one, with no
release of the first lock token in between: the first grant after it finds
the claim that backed the first lock dead. -/
theorem main_lock_exclusion {past mid : List Call} {ci cj : Call}
    {ri rj : MainLockAcquireRequest} {li lj : FencingToken} {u : TaskRecord}
    (hi : acquires past ci ri li) (hu : (replay past).find ri.mergeTask = some u)
    (hagent : ri.agentId = u.ownerAgent)
    (hj : acquires (past ++ ci :: mid) cj rj lj)
    (hrel : ¬releasedIn li (past ++ [ci]) mid) :
    ∃ m₁ g m₂, mid ++ [cj] = m₁ ++ g :: m₂
      ∧ (∃ r l, acquires (past ++ ci :: m₁) g r l)
      ∧ (∀ n₁ c n₂, m₁ = n₁ ++ c :: n₂ → ∀ r l, ¬acquires (past ++ ci :: n₁) c r l)
      ∧ claimDead (replay (past ++ ci :: m₁)) ri.mergeTask u.ownerToken g.2 := by
  obtain ⟨m₁, g, m₂, hsplit, ⟨r, l, hg⟩, hfirst⟩ :=
    Runs.exists_first_split (P := fun m c => ∃ r l, acquires (past ++ ci :: m) c r l)
      (show mid ++ [cj] = mid ++ cj :: [] from rfl) ⟨rj, lj, hj⟩
  have hnone : ∀ n₁ c n₂, m₁ = n₁ ++ c :: n₂ → ∀ r l, ¬acquires (past ++ ci :: n₁) c r l :=
    fun n₁ c n₂ heq r l hacq => hfirst n₁ c n₂ heq ⟨r, l, hacq⟩
  refine ⟨m₁, g, m₂, hsplit, ⟨r, l, hg⟩, hnone, ?_⟩
  have hmid : ∃ m₃, mid = m₁ ++ m₃ := by
    rcases Runs.split_concat hsplit with ⟨rfl, -, -⟩ | ⟨m₃, hm₃, -⟩
    · exact ⟨[], (List.append_nil _).symm⟩
    · exact ⟨g :: m₃, hm₃⟩
  have hback : Backed ri.agentId ri.mergeTask u.ownerToken li (replay (past ++ ci :: m₁)) := by
    rw [replay_append_cons]
    refine (backed_of_acquires hi hu hagent).run ?_ ?_
    · rintro n₁ c n₂ rfl r l hacq
      exact hnone n₁ c n₂ rfl r l (by simpa using hacq)
    · rintro ⟨n₁, c, n₂, rfl, hc⟩
      obtain ⟨m₃, rfl⟩ := hmid
      exact hrel ⟨n₁, c, n₂ ++ m₃, by simp, hc⟩
  exact hback.claimDead_of_acquires hg

/-! ## Two merge tasks and two agents -/

/-- `a1` owns `t/0001` under token 1, `a2` owns `t/0002` under token 2. -/
def twoMergers : List Call :=
  [(.taskCreate { spec := { type := .merge } }, 0),
   (.taskCreate { spec := { type := .merge } }, 0),
   (.taskClaim { agentId := "a1" }, 0),
   (.taskClaim { agentId := "a2" }, 0)]

def acquire (agentId : String) (mergeTask : TaskId) (mergeToken : FencingToken) : Request :=
  .mainLockAcquire { agentId, mergeTask, mergeToken }

/-- Agent `a2` takes the lock over once the lease of `a1` has run out. -/
theorem main_lock_exclusion_twoMergers :
    ∃ m₁ g m₂, ([] : List Call) ++ [(acquire "a2" "t/0002" 2, 100)] = m₁ ++ g :: m₂
      ∧ (∃ r l, acquires (twoMergers ++ (acquire "a1" "t/0001" 1, 1) :: m₁) g r l)
      ∧ (∀ n₁ c n₂, m₁ = n₁ ++ c :: n₂ → ∀ r l,
          ¬acquires (twoMergers ++ (acquire "a1" "t/0001" 1, 1) :: n₁) c r l)
      ∧ claimDead (replay (twoMergers ++ (acquire "a1" "t/0001" 1, 1) :: m₁)) "t/0001" 1 g.2 :=
  @main_lock_exclusion twoMergers [] _ _
    { agentId := "a1", mergeTask := "t/0001", mergeToken := 1 }
    { agentId := "a2", mergeTask := "t/0002", mergeToken := 2 } 3 4
    { id := "t/0001", spec := { type := .merge }, status := .inProgress,
      ownerAgent := "a1", ownerToken := 1 }
    ⟨rfl, { lockToken := 3 }, by decide +kernel, rfl, rfl⟩ (by decide +kernel) rfl
    ⟨rfl, { lockToken := 4 }, by decide +kernel, rfl, rfl⟩
    (by rintro ⟨m₁, c, m₂, h, -⟩; simp at h)

/-- `a2` takes the lapsed lock of `a1` over and releases it, `a1` heartbeats,
and the next acquire is granted while the claim of `a1` is live again. -/
theorem main_lock_not_exclusive_after_revival :
    ¬∀ (past mid : List Call) (ci cj : Call) (ri rj : MainLockAcquireRequest)
        (li lj : FencingToken) (u : TaskRecord),
      acquires past ci ri li → (replay past).find ri.mergeTask = some u →
      acquires (past ++ ci :: mid) cj rj lj → ¬releasedIn li (past ++ [ci]) mid →
      claimDead (replay (past ++ ci :: mid)) ri.mergeTask u.ownerToken cj.2 := by
  intro h
  have hdead := h twoMergers
    [(acquire "a2" "t/0002" 2, 100), (.mainLockRelease { lockToken := 4 }, 100),
     (.taskHeartbeat { id := "t/0001", token := 1 }, 101)]
    (acquire "a1" "t/0001" 1, 1) (acquire "a2" "t/0002" 2, 102)
    { agentId := "a1", mergeTask := "t/0001", mergeToken := 1 }
    { agentId := "a2", mergeTask := "t/0002", mergeToken := 2 } 3 5
    { id := "t/0001", spec := { type := .merge }, status := .inProgress,
      ownerAgent := "a1", ownerToken := 1 }
    ⟨rfl, { lockToken := 3 }, by decide +kernel, rfl, rfl⟩ (by decide +kernel)
    ⟨rfl, { lockToken := 5 }, by decide +kernel, rfl, rfl⟩ ?_
    { id := "t/0001", spec := { type := .merge }, status := .inProgress,
      ownerAgent := "a1", ownerToken := 1, heartbeatUnix := 101 }
    (by decide +kernel) rfl rfl
  · revert hdead
    decide
  · -- the only release in between names the second lock token
    rintro ⟨m₁, c, m₂, hsplit, r, hreq, hlock, -⟩
    have hmem : c ∈ [(acquire "a2" "t/0002" 2, (100 : Int)),
        (.mainLockRelease { lockToken := 4 }, 100),
        (.taskHeartbeat { id := "t/0001", token := 1 }, 101)] := by
      rw [hsplit]
      simp
    simp only [acquire, List.mem_cons, List.not_mem_nil, or_false] at hmem
    rcases hmem with rfl | rfl | rfl
    · cases hreq
    · obtain rfl := Request.mainLockRelease.inj hreq
      cases hlock
    · cases hreq

/-! ## A lock left over from a superseded claim -/

/-- The lock `lk` is held, or has been given up for good. -/
def LockKept (lk : MainLockState) (db : TaskManagerDb) : Prop :=
  lk.lockToken ≠ 0 ∧ lk.lockToken < db.nextToken
    ∧ (db.mainLock = lk ∨ db.mainLock.lockToken ≠ lk.lockToken)

theorem LockKept.step {lk : MainLockState} {db : TaskManagerDb} (h : LockKept lk db)
    (req : Request) (now : Int) : LockKept lk (db.processReq req now).1 := by
  obtain ⟨hne, hlt, hlock⟩ := h
  have he := processReq_effect db req now
  refine ⟨hne, Nat.lt_of_lt_of_le hlt he.nextToken_le, ?_⟩
  generalize (db.processReq req now).1 = db' at he ⊢
  generalize (db.processReq req now).2 = resp at he
  cases he with
  | created hreq hdepth hdeps => rw [(addTask_grows db _).mainLock]; exact hlock
  | completed hreq hown hcap hok =>
      rw [setTask_mainLock, (spawn_grows db _ _).mainLock]
      exact hlock
  | acquired hreq hfind hstatus htoken hstale => exact Or.inr (Nat.ne_of_gt hlt)
  | released hreq hheld htoken => exact Or.inr hne.symm
  | _ => exact hlock

theorem LockKept.run {lk : MainLockState} {past : List Call} (h : LockKept lk (replay past))
    (mid : List Call) : LockKept lk (replay (past ++ mid)) :=
  replay_append_induction h fun _ c _ _ hkept => hkept.step c.1 c.2

/-- As long as the lock token is the granted one, so are the holder and its
merge task. -/
theorem mainLock_of_acquires {past mid : List Call} {ci : Call} {ri : MainLockAcquireRequest}
    {li : FencingToken} (hi : acquires past ci ri li)
    (hheld : (replay (past ++ ci :: mid)).mainLock.lockToken = li) :
    (replay (past ++ ci :: mid)).mainLock = ⟨ri.agentId, ri.mergeTask, li⟩ ∧ li ≠ 0 := by
  obtain ⟨-, -, hlock, hpost⟩ := acquires_inv hi
  have hpos : 0 < (replay past).nextToken :=
    Nat.lt_of_le_of_lt (Nat.zero_le _) (wf_replay past).lock_lt
  have hkept : LockKept ⟨ri.agentId, ri.mergeTask, li⟩ (replay (past ++ [ci])) := by
    rw [hpost]
    exact ⟨hlock ▸ Nat.ne_of_gt hpos, Nat.lt_succ_self li, Or.inl rfl⟩
  obtain ⟨hne, -, hrun⟩ := hkept.run mid
  rw [← replay_append_cons] at hrun
  exact ⟨hrun.resolve_right fun h => h hheld, hne⟩

/-- An acquire by the owner of a claim is granted exactly when the lock is
free or its holder is not judged live. -/
theorem acquires_iff {past : List Call} {c : Call} {r : MainLockAcquireRequest}
    {mt : TaskRecord} (hc : c.1 = .mainLockAcquire r)
    (hf : (replay past).find r.mergeTask = some mt) (hstatus : mt.status = .inProgress)
    (htoken : mt.ownerToken = r.mergeToken) :
    acquires past c r (replay past).nextToken
      ↔ (replay past).mainLock.lockToken = 0 ∨ (replay past).lockHolderLive c.2 = false := by
  constructor
  · intro h
    exact (acquires_inv h).2.1
  · intro hstale
    have hnot : ¬((replay past).mainLock.lockToken ≠ 0
        ∧ (replay past).lockHolderLive c.2 = true) := by
      rintro ⟨hne, hlive⟩
      rcases hstale with h0 | hdead
      · exact hne h0
      · rw [hlive] at hdead
        cases hdead
    refine ⟨hc, { serial := r.serial, lockToken := (replay past).nextToken }, ?_, rfl, rfl⟩
    have hown : ¬(mt.status ≠ .inProgress ∨ mt.ownerToken ≠ r.mergeToken) := by
      simp [hstatus, htoken]
    simp only [response, hc, processReq, handleMainLockAcquire, hf, if_neg hown, if_neg hnot]
    rfl

/-- A task in progress under another token than before was claimed since. -/
theorem reclaimed_of_inProgress {past mid : List Call} {t : TaskId} {u v : TaskRecord}
    (hu : (replay past).find t = some u) (hv : (replay (past ++ mid)).find t = some v)
    (hstatus : v.status = .inProgress) (hsup : v.ownerToken ≠ u.ownerToken) :
    ∃ m₁ d m₂ q, mid = m₁ ++ d :: m₂ ∧ d.1 = .taskClaim q ∧ q.agentId = v.ownerAgent
      ∧ grantedClaim (response (past ++ m₁) d) = some (t, v.ownerToken) := by
  induction mid using List.reverseRecOn generalizing v with
  | nil =>
      rw [List.append_nil, hu] at hv
      exact absurd (congrArg TaskRecord.ownerToken (Option.some.inj hv)).symm hsup
  | append_singleton mid d ih =>
      obtain ⟨w, hw⟩ : ∃ w, (replay (past ++ mid)).find t = some w :=
        replay_append_induction (I := fun db => ∃ w, db.find t = some w) ⟨u, hu⟩
          fun _ c _ _ ⟨w, hw⟩ => (processReq_record c.1 c.2 hw).imp fun _ h => h.1
      obtain ⟨v', hv', hst⟩ := processReq_record d.1 d.2 hw
      rw [← List.append_assoc, replay_snoc, hv', Option.some.injEq] at hv
      subst hv
      have hearlier : w.status = .inProgress → w.ownerToken ≠ u.ownerToken →
          ∃ m₁ d' m₂ q, mid ++ [d] = m₁ ++ d' :: m₂ ∧ d'.1 = .taskClaim q
            ∧ q.agentId = w.ownerAgent
            ∧ grantedClaim (response (past ++ m₁) d') = some (t, w.ownerToken) := by
        intro hs htok
        obtain ⟨m₁, d', m₂, q, rfl, hclaim⟩ := ih hw hs htok
        exact ⟨m₁, d', m₂ ++ [d], q, by simp, hclaim⟩
      cases hst with
      | same => exact hearlier hstatus hsup
      | heartbeat hreq hid htok hne => exact hearlier hstatus hsup
      | @claimed r hreq hh hpick =>
          refine ⟨mid, d, [], r, rfl, hreq, rfl, ?_⟩
          rw [response, hreq]
          exact (wf_replay _).grantedClaim_of_pick hh hpick
      | completed => cases hstatus
      | failed => cases hstatus

/-- **A lock whose claim was superseded.** It was granted while merge task `m`
had the owner token of `u`, which `m` has no longer. An acquire by the owner of
any claim gets a fresh lock token, unless `m` is in progress again with a live
lease under the agent name that the lock was acquired with; then, and only then,
it is answered busy. That agent has claimed `m` since. -/
theorem superseded_lock_granted_iff {past mid : List Call} {ci c : Call}
    {ri r : MainLockAcquireRequest} {li : FencingToken} {u v mt : TaskRecord}
    (hi : acquires past ci ri li) (hu : (replay past).find ri.mergeTask = some u)
    (hheld : (replay (past ++ ci :: mid)).mainLock.lockToken = li)
    (hv : (replay (past ++ ci :: mid)).find ri.mergeTask = some v)
    (hsup : v.ownerToken ≠ u.ownerToken) (hc : c.1 = .mainLockAcquire r)
    (hf : (replay (past ++ ci :: mid)).find r.mergeTask = some mt)
    (hstatus : mt.status = .inProgress) (htoken : mt.ownerToken = r.mergeToken) :
    ((∃ l, acquires (past ++ ci :: mid) c r l
        ∧ ∀ n₁ d n₂ k, past ++ ci :: mid = n₁ ++ d :: n₂ →
            issuedToken (response n₁ d) = some k → k < l)
      ↔ ¬(v.status = .inProgress ∧ leaseExpired v c.2 = false ∧ v.ownerAgent = ri.agentId))
    ∧ ((response (past ++ ci :: mid) c).errcode = .busy
      ↔ v.status = .inProgress ∧ leaseExpired v c.2 = false ∧ v.ownerAgent = ri.agentId)
    ∧ ((response (past ++ ci :: mid) c).errcode = .busy →
        ∃ m₁ d m₂ q, mid = m₁ ++ d :: m₂ ∧ d.1 = .taskClaim q ∧ q.agentId = ri.agentId
          ∧ grantedClaim (response (past ++ ci :: m₁) d) = some (ri.mergeTask, v.ownerToken)) := by
  obtain ⟨hlock, hne⟩ := mainLock_of_acquires hi hheld
  have hlive : (replay (past ++ ci :: mid)).lockHolderLive c.2 = true
      ↔ v.status = .inProgress ∧ leaseExpired v c.2 = false ∧ v.ownerAgent = ri.agentId := by
    simp [lockHolderLive, hlock, hv, and_assoc]
  have hgrant := acquires_iff hc hf hstatus htoken
  have hbusy : (response (past ++ ci :: mid) c).errcode = .busy
      ↔ (replay (past ++ ci :: mid)).lockHolderLive c.2 = true := by
    rw [response, processReq_busy, hc]
    simp [lockBusy, hf, hstatus, htoken, hlock, hne]
  rw [hlock] at hgrant
  refine ⟨?_, hbusy.trans hlive, fun h => ?_⟩
  · rw [← hlive, Bool.not_eq_true]
    constructor
    · rintro ⟨l, hl, -⟩
      obtain ⟨-, -, rfl, -⟩ := acquires_inv hl
      exact (hgrant.mp hl).resolve_left hne
    · intro hdead
      exact ⟨_, hgrant.mpr (.inr hdead), fun n₁ d n₂ k hsplit hk => issued_lt_nextToken hsplit hk⟩
  · -- the acquire left the record as it was
    obtain ⟨hrunning, -, hagent⟩ := hlive.mp (hbusy.mp h)
    have hu' : (replay (past ++ [ci])).find ri.mergeTask = some u := by
      rw [(acquires_inv hi).2.2.2]
      exact hu
    rw [replay_append_cons] at hv
    obtain ⟨m₁, d, m₂, q, hsplit, hclaim, hname, hgranted⟩ :=
      reclaimed_of_inProgress hu' hv hrunning hsup
    exact ⟨m₁, d, m₂, q, hsplit, hclaim, hname.trans hagent, by simpa using hgranted⟩

/-- Agent `a3` took the merge task of `a1` over; the lock of `a1` is stale. -/
theorem superseded_lock_granted_iff_twoMergers :
    ∃ l, acquires (twoMergers ++ (acquire "a1" "t/0001" 1, 1)
          :: [(.taskClaim { agentId := "a3" }, 100)]) (acquire "a2" "t/0002" 2, 101)
          { agentId := "a2", mergeTask := "t/0002", mergeToken := 2 } l
      ∧ ∀ n₁ d n₂ k, twoMergers ++ (acquire "a1" "t/0001" 1, 1)
          :: [(.taskClaim { agentId := "a3" }, 100)] = n₁ ++ d :: n₂ →
          issuedToken (response n₁ d) = some k → k < l :=
  (@superseded_lock_granted_iff twoMergers [(.taskClaim { agentId := "a3" }, 100)]
    (acquire "a1" "t/0001" 1, 1) (acquire "a2" "t/0002" 2, 101)
    { agentId := "a1", mergeTask := "t/0001", mergeToken := 1 }
    { agentId := "a2", mergeTask := "t/0002", mergeToken := 2 } 3
    { id := "t/0001", spec := { type := .merge }, status := .inProgress,
      ownerAgent := "a1", ownerToken := 1 }
    { id := "t/0001", spec := { type := .merge }, status := .inProgress,
      ownerAgent := "a3", ownerToken := 4, heartbeatUnix := 100 }
    { id := "t/0002", spec := { type := .merge }, status := .inProgress,
      ownerAgent := "a2", ownerToken := 2 }
    ⟨rfl, { lockToken := 3 }, by decide +kernel, rfl, rfl⟩ (by decide +kernel)
    (by decide +kernel) (by decide +kernel) (by decide) rfl (by decide +kernel) rfl rfl).1.mpr
    (by decide)

/-- `a1` re-claims its own lapsed merge task, and the lock of the earlier
claim counts as live again. -/
theorem superseded_lock_blocks :
    ¬∀ (past mid : List Call) (ci c : Call) (ri r : MainLockAcquireRequest)
        (li : FencingToken) (u v mt : TaskRecord),
      acquires past ci ri li → (replay past).find ri.mergeTask = some u →
      (replay (past ++ ci :: mid)).mainLock.lockToken = li →
      (replay (past ++ ci :: mid)).find ri.mergeTask = some v →
      v.ownerToken ≠ u.ownerToken → c.1 = .mainLockAcquire r →
      (replay (past ++ ci :: mid)).find r.mergeTask = some mt →
      mt.status = .inProgress → mt.ownerToken = r.mergeToken →
      ∃ l, acquires (past ++ ci :: mid) c r l := by
  intro h
  obtain ⟨l, -, resp, hresp, hok, -⟩ := h twoMergers [(.taskClaim { agentId := "a1" }, 100)]
    (acquire "a1" "t/0001" 1, 1) (acquire "a2" "t/0002" 2, 101)
    { agentId := "a1", mergeTask := "t/0001", mergeToken := 1 }
    { agentId := "a2", mergeTask := "t/0002", mergeToken := 2 } 3
    { id := "t/0001", spec := { type := .merge }, status := .inProgress,
      ownerAgent := "a1", ownerToken := 1 }
    { id := "t/0001", spec := { type := .merge }, status := .inProgress,
      ownerAgent := "a1", ownerToken := 4, heartbeatUnix := 100 }
    { id := "t/0002", spec := { type := .merge }, status := .inProgress,
      ownerAgent := "a2", ownerToken := 2 }
    ⟨rfl, { lockToken := 3 }, by decide +kernel, rfl, rfl⟩ (by decide +kernel)
    (by decide +kernel) (by decide +kernel) (by decide) rfl (by decide +kernel) rfl rfl
  have hbusy : (response (twoMergers ++ (acquire "a1" "t/0001" 1, 1)
      :: [(.taskClaim { agentId := "a1" }, 100)]) (acquire "a2" "t/0002" 2, 101)).errcode
      = .busy := by decide +kernel
  rw [hresp] at hbusy
  rw [show (Response.mainLockAcquire resp).errcode = resp.errcode from rfl, hok] at hbusy
  cases hbusy

end TaskManagerDb

end Tmgr
