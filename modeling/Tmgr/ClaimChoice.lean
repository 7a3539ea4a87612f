import Tmgr.Dependencies

/-!
# Which task a claim hands out

`task_claim` scans `task_order_` once or, with a preferred type, twice, and
stops at the first task it can pick. The choice is stated here without the
scan: `Chosen` is the earliest eligible task of the preferred type, or the
earliest eligible one if no task of that type is eligible. The main result
is that a claim hands out the chosen task, changes its record and the token
counter, and answers none exactly when nothing is eligible.
-/

namespace Tmgr

open Precedence

namespace TaskManagerDb

/-- All dependencies are done, and the task is pending or its lease is up. -/
def Eligible (db : TaskManagerDb) (now : Int) (t : TaskRecord) : Prop :=
  db.DepsDone t ∧ (t.status = .pending
    ∨ t.status = .inProgress ∧ now - t.heartbeatUnix > LEASE_WINDOW_SECONDS)

/-- The task has the wanted type, if one is wanted. -/
def Fits (type : Option TaskType) (t : TaskRecord) : Prop :=
  ∀ y, type = some y → t.spec.type = y

/-- `id` is the earliest-created eligible task that fits. -/
def EarliestEligible (db : TaskManagerDb) (now : Int) (type : Option TaskType) (id : TaskId)
    (t : TaskRecord) : Prop :=
  db.find id = some t ∧ Fits type t ∧ db.Eligible now t
    ∧ ∀ id' t', Precedes db.taskOrder id' id → db.find id' = some t' → Fits type t' →
        ¬db.Eligible now t'

/-- The task a claim with preference `type` is meant to get. -/
def Chosen (db : TaskManagerDb) (now : Int) (type : Option TaskType) (id : TaskId)
    (t : TaskRecord) : Prop :=
  db.EarliestEligible now type id t
    ∨ (∀ id' t', db.find id' = some t' → Fits type t' → ¬db.Eligible now t')
      ∧ db.EarliestEligible now none id t

theorem fits_none (t : TaskRecord) : Fits none t :=
  fun _ h => by cases h

theorem tryPick_iff {db : TaskManagerDb} {now : Int} {t : TaskRecord} :
    db.tryPick now t = true ↔ db.Eligible now t := by
  simp [tryPick, Eligible, requiresSatisfied_iff, leaseExpired]

/-! ## One pass -/

/-- What a pass does at one entry of `task_order_`. -/
def scanAt (db : TaskManagerDb) (r : TaskClaimRequest) (now : Int) (onlyMatching : Bool)
    (tid : TaskId) : Option (TaskId × TaskRecord) :=
  match db.find tid with
  | none => none
  | some t =>
    if onlyMatching ∧ r.preferType.any (· ≠ t.spec.type) then none
    else if db.tryPick now t then some (tid, t)
    else none

theorem scan_eq (db : TaskManagerDb) (r : TaskClaimRequest) (now : Int) (b : Bool) :
    db.scan r now b = db.taskOrder.findSome? (db.scanAt r now b) := rfl

/-- The type a pass looks for. -/
def passType (r : TaskClaimRequest) (onlyMatching : Bool) : Option TaskType :=
  if onlyMatching then r.preferType else none

theorem fits_passType {r : TaskClaimRequest} {b : Bool} {t : TaskRecord} :
    Fits (passType r b) t ↔ ¬(b = true ∧ r.preferType.any (· ≠ t.spec.type) = true) := by
  cases b with
  | false => simp [passType, fits_none]
  | true =>
      cases hp : r.preferType with
      | none => simp [passType, Fits, hp]
      | some y =>
          simp only [passType, Fits, hp, if_true, Option.some.injEq, forall_eq', Option.any_some,
            true_and, decide_eq_true_eq, not_not, ne_eq]
          exact eq_comm

theorem scanAt_eq_some_iff {db : TaskManagerDb} {r : TaskClaimRequest} {now : Int} {b : Bool}
    {tid id : TaskId} {t : TaskRecord} :
    db.scanAt r now b tid = some (id, t)
      ↔ tid = id ∧ db.find id = some t ∧ Fits (passType r b) t ∧ db.Eligible now t := by
  rw [fits_passType, ← tryPick_iff]
  unfold scanAt
  cases hf : db.find tid with
  | none =>
      constructor
      · intro h
        cases h
      · rintro ⟨rfl, hf', -⟩
        rw [hf] at hf'
        cases hf'
  | some u =>
      by_cases hskip : b = true ∧ r.preferType.any (· ≠ u.spec.type) = true
      · simp only [if_pos hskip]
        constructor
        · intro h
          cases h
        · rintro ⟨rfl, hf', hfit, -⟩
          obtain rfl := Option.some.inj (hf.symm.trans hf')
          exact absurd hskip hfit
      · simp only [if_neg hskip]
        constructor
        · intro h
          split at h
          · rename_i hpick
            obtain ⟨rfl, rfl⟩ : tid = id ∧ u = t := by simpa using h
            exact ⟨rfl, hf, hskip, hpick⟩
          · cases h
        · rintro ⟨rfl, hf', -, hpick⟩
          obtain rfl := Option.some.inj (hf.symm.trans hf')
          simp [hpick]

theorem scanAt_eq_none_iff {db : TaskManagerDb} {r : TaskClaimRequest} {now : Int} {b : Bool}
    {tid : TaskId} :
    db.scanAt r now b tid = none
      ↔ ∀ t, db.find tid = some t → Fits (passType r b) t → ¬db.Eligible now t := by
  constructor
  · intro hnone t hf hfit helig
    have hsome := scanAt_eq_some_iff.mpr ⟨rfl, hf, hfit, helig⟩
    rw [hnone] at hsome
    cases hsome
  · intro h
    cases hs : db.scanAt r now b tid with
    | none => rfl
    | some p =>
        obtain ⟨id, t⟩ := p
        obtain ⟨rfl, hf, hfit, helig⟩ := scanAt_eq_some_iff.mp hs
        exact absurd helig (h t hf hfit)

theorem Wf.order_nodup {db : TaskManagerDb} (hw : Wf db) : db.taskOrder.Nodup := by
  rw [hw.order]
  exact mintedIds_nodup _

theorem scan_eq_some_iff {db : TaskManagerDb} (hw : Wf db) {r : TaskClaimRequest} {now : Int}
    {b : Bool} {id : TaskId} {t : TaskRecord} :
    db.scan r now b = some (id, t) ↔ db.EarliestEligible now (passType r b) id t := by
  rw [scan_eq, Precedence.findSome?_eq_some_iff hw.order_nodup]
  constructor
  · rintro ⟨tid, -, hat, hbefore⟩
    obtain ⟨rfl, hf, hfit, helig⟩ := scanAt_eq_some_iff.mp hat
    refine ⟨hf, hfit, helig, fun id' t' hprec hf' hfit' => ?_⟩
    exact scanAt_eq_none_iff.mp (hbefore id' hprec) t' hf' hfit'
  · rintro ⟨hf, hfit, helig, hbefore⟩
    have hmem : id ∈ db.taskOrder := (hw.keys id).mp (mem_tasks_iff.mpr ⟨t, hf⟩)
    refine ⟨id, hmem, scanAt_eq_some_iff.mpr ⟨rfl, hf, hfit, helig⟩, fun id' hprec => ?_⟩
    exact scanAt_eq_none_iff.mpr fun t' hf' hfit' => hbefore id' t' hprec hf' hfit'

theorem scan_eq_none_iff {db : TaskManagerDb} (hw : Wf db) {r : TaskClaimRequest} {now : Int}
    {b : Bool} : db.scan r now b = none
      ↔ ∀ id t, db.find id = some t → Fits (passType r b) t → ¬db.Eligible now t := by
  rw [scan_eq, List.findSome?_eq_none_iff]
  constructor
  · intro h id t hf
    have hmem : id ∈ db.taskOrder := (hw.keys id).mp (mem_tasks_iff.mpr ⟨t, hf⟩)
    exact scanAt_eq_none_iff.mp (h id hmem) t hf
  · intro h id _
    exact scanAt_eq_none_iff.mpr (h id)

/-! ## Both passes -/

/-- Without a preference the second pass repeats the first. -/
theorem pick_eq (db : TaskManagerDb) (r : TaskClaimRequest) (now : Int) :
    db.pick r now = (db.scan r now true).or (db.scan r now false) := by
  unfold pick
  cases hp : r.preferType with
  | some y => rfl
  | none =>
      have hsame : db.scan r now true = db.scan r now false := by simp [scan, hp]
      rw [hsame]
      simp

theorem pick_eq_some_iff {db : TaskManagerDb} (hw : Wf db) {r : TaskClaimRequest} {now : Int}
    {id : TaskId} {t : TaskRecord} :
    db.pick r now = some (id, t) ↔ db.Chosen now r.preferType id t := by
  rw [pick_eq, Option.or_eq_some_iff, scan_eq_some_iff hw, scan_eq_none_iff hw,
    scan_eq_some_iff hw]
  rfl

theorem pick_eq_none_iff {db : TaskManagerDb} (hw : Wf db) {r : TaskClaimRequest} {now : Int} :
    db.pick r now = none ↔ ∀ id t, db.find id = some t → ¬db.Eligible now t := by
  rw [pick_eq, Option.or_eq_none_iff, scan_eq_none_iff hw, scan_eq_none_iff hw]
  constructor
  · exact fun h id t hf => h.2 id t hf (fits_none t)
  · exact fun h => ⟨fun id t hf _ => h id t hf, fun id t hf _ => h id t hf⟩

/-! ## The claim -/

/-- **A claim hands out the chosen task and touches nothing else**, in every
reachable state that is not halted. -/
theorem claim_grants_chosen (calls : List Call) (hh : (replay calls).swarmHalted = false)
    (r : TaskClaimRequest) (now : Int) :
    ((∃ p, response calls (.taskClaim r, now) = .taskClaim p ∧ p.none = true)
        ↔ ∀ id t, (replay calls).find id = some t → ¬(replay calls).Eligible now t)
    ∧ (∀ id k, grantedClaim (response calls (.taskClaim r, now)) = some (id, k)
        ↔ k = (replay calls).nextToken ∧ ∃ t, (replay calls).Chosen now r.preferType id t)
    ∧ ∀ id t, (replay calls).Chosen now r.preferType id t →
        response calls (.taskClaim r, now)
            = .taskClaim { serial := r.serial, id, spec := t.spec,
                           token := (replay calls).nextToken }
          ∧ replay (calls ++ [(.taskClaim r, now)])
            = { (replay calls).setTask id
                  { t with status := .inProgress, ownerAgent := r.agentId,
                           ownerToken := (replay calls).nextToken, heartbeatUnix := now } with
                nextToken := (replay calls).nextToken + 1 } := by
  have hw := wf_replay calls
  refine ⟨?_, ?_, ?_⟩
  · rw [← pick_eq_none_iff hw (r := r)]
    cases hpick : (replay calls).pick r now with
    | none => simp [response, processReq, handleTaskClaim, hh, hpick]
    | some q => simp [response, processReq, hw.handleTaskClaim_eq hh hpick]
  · intro id k
    simp only [← pick_eq_some_iff hw]
    cases hpick : (replay calls).pick r now with
    | none => simp [response, processReq, handleTaskClaim, hh, hpick, grantedClaim]
    | some q =>
        simp [response, hw.grantedClaim_of_pick hh hpick, Prod.ext_iff, eq_comm, and_comm]
  · intro id t hchosen
    have hpick := (pick_eq_some_iff hw).mpr hchosen
    rw [replay_snoc]
    simp only [response, processReq, hw.handleTaskClaim_eq hh hpick]
    exact ⟨rfl, rfl⟩

/-- A plan, and an implement task created after it. -/
def twoTypes : List Call :=
  [(.taskCreate {}, 0), (.taskCreate { spec := { type := .implement } }, 0)]

/-- The preferred type goes before the creation order. -/
theorem claim_grants_chosen_twoTypes :
    ∃ t, (replay twoTypes).Chosen 5 (some .implement) "t/0002" t :=
  ((claim_grants_chosen twoTypes (by decide +kernel) { preferType := some .implement } 5).2.1
    "t/0002" 1 |>.mp (by decide +kernel)).2

end TaskManagerDb

end Tmgr
