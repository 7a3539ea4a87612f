import Mathlib.Data.List.Nodup
import Mathlib.Tactic.Linarith
import Tmgr.DbStep

/-!
# The representation invariant of the store

`Wf` says how the task table, the creation order, the two counters and the
lock fit together in every state a sequence of requests can lead to. The
creation paths keep it because a minted id is new (`formatTaskId_injective`);
the ownership transitions keep it because a token is either cleared or fresh.
-/

namespace Tmgr

namespace TaskManagerDb

/-! ## Minted ids -/

/-- Zero padding does not merge ids, also beyond four digits. -/
theorem formatTaskId_injective : Function.Injective formatTaskId := by
  intro m n h
  have hdigits := String.ofList_injective (String.append_right_inj _ |>.mp h)
  have hval := congrArg (fun l => Nat.ofDigitChars 10 l 0) hdigits
  simpa [Nat.ofDigitChars_append, Nat.ofDigitChars_ten_toDigits] using hval

/-- The ids minted from sequence numbers `1 .. n`, in order. -/
def mintedIds (n : Nat) : List TaskId :=
  (List.range n).map fun i => formatTaskId (i + 1)

theorem mintedIds_succ (n : Nat) :
    mintedIds (n + 1) = mintedIds n ++ [formatTaskId (n + 1)] := by
  simp [mintedIds, List.range_succ]

theorem mem_mintedIds {n k : Nat} : formatTaskId k ∈ mintedIds n ↔ 0 < k ∧ k ≤ n := by
  simp only [mintedIds, List.mem_map, List.mem_range]
  constructor
  · rintro ⟨i, hi, heq⟩
    have := formatTaskId_injective heq
    omega
  · rintro ⟨h0, hk⟩
    exact ⟨k - 1, by omega, by rw [Nat.sub_add_cancel h0]⟩

theorem mintedIds_nodup (n : Nat) : (mintedIds n).Nodup :=
  List.Nodup.map (fun _ _ h => Nat.succ.inj (formatTaskId_injective h))
    List.nodup_range

/-! ## The invariant -/

/-- One stored record, under the key it is stored at. -/
structure RecordOk (nextToken : FencingToken) (id : TaskId) (t : TaskRecord) : Prop where
  id_eq : t.id = id
  owned_iff : t.ownerToken ≠ 0 ↔ t.status = .inProgress
  unowned : t.status ≠ .inProgress → t.ownerAgent = ""
  token_lt : t.ownerToken < nextToken
  depth_nonneg : 0 ≤ t.spec.depth
  depth_le : t.spec.depth ≤ DEPTH_CAP

structure Wf (db : TaskManagerDb) : Prop where
  order : db.taskOrder = mintedIds db.taskOrder.length
  seq : db.nextTaskSeq = db.taskOrder.length + 1
  keys : ∀ id, id ∈ db.tasks ↔ id ∈ db.taskOrder
  record : ∀ id t, db.find id = some t → RecordOk db.nextToken id t
  owners_distinct : ∀ id id' t t', db.find id = some t → db.find id' = some t' →
    t.ownerToken ≠ 0 → t.ownerToken = t'.ownerToken → id = id'
  lock_lt : db.mainLock.lockToken < db.nextToken
  lock_distinct : ∀ id t, db.find id = some t → t.ownerToken ≠ 0 →
    t.ownerToken ≠ db.mainLock.lockToken

theorem RecordOk.mono {n n' : FencingToken} {id : TaskId} {t : TaskRecord}
    (h : RecordOk n id t) (hle : n ≤ n') : RecordOk n' id t :=
  { h with token_lt := Nat.lt_of_lt_of_le h.token_lt hle }

theorem Wf.empty : Wf {} where
  order := rfl
  seq := rfl
  keys id := by simpa using Finmap.notMem_empty
  record := by simp [find]
  owners_distinct := by simp [find]
  lock_lt := by decide
  lock_distinct := by simp [find]

/-- No id that is still to be minted is a key: every `emplace` inserts. -/
theorem Wf.unminted {db : TaskManagerDb} (hw : Wf db) {k : Nat}
    (hk : db.nextTaskSeq ≤ k) : formatTaskId k ∉ db.tasks := by
  rw [hw.keys, hw.order, mem_mintedIds]
  have := hw.seq
  omega

/-! ## Creation keeps it -/

@[simp] theorem addTask_taskOrder (db : TaskManagerDb) (spec : TaskSpec) :
    (db.addTask spec).1.taskOrder = db.taskOrder ++ [formatTaskId db.nextTaskSeq] := by
  simp only [addTask, emplace]
  split <;> rfl

@[simp] theorem addTask_nextTaskSeq (db : TaskManagerDb) (spec : TaskSpec) :
    (db.addTask spec).1.nextTaskSeq = db.nextTaskSeq + 1 := by
  simp only [addTask, emplace]
  split <;> rfl

/-- The minted id is new, so the record is stored under it. -/
theorem Wf.find_addTask {db : TaskManagerDb} (hw : Wf db) (spec : TaskSpec) (id : TaskId) :
    (db.addTask spec).1.find id
      = if id = formatTaskId db.nextTaskSeq
        then some { id := formatTaskId db.nextTaskSeq, spec, status := .pending }
        else db.find id := by
  have hnew := hw.unminted (Nat.le_refl _)
  have hf := find_emplace { db with nextTaskSeq := db.nextTaskSeq + 1 }
    (formatTaskId db.nextTaskSeq) id { id := formatTaskId db.nextTaskSeq, spec }
  simp only [hnew, not_false_eq_true, and_true] at hf
  exact hf

theorem Wf.mem_addTask {db : TaskManagerDb} (hw : Wf db) (spec : TaskSpec) (id : TaskId) :
    id ∈ (db.addTask spec).1.tasks ↔ id = formatTaskId db.nextTaskSeq ∨ id ∈ db.tasks := by
  rw [mem_tasks_iff, hw.find_addTask, mem_tasks_iff]
  by_cases hid : id = formatTaskId db.nextTaskSeq
  · simp [hid]
  · simp [hid]

theorem Wf.addTask {db : TaskManagerDb} (hw : Wf db) {spec : TaskSpec}
    (h0 : 0 ≤ spec.depth) (hcap : spec.depth ≤ DEPTH_CAP) :
    Wf (db.addTask spec).1 := by
  have hgrow := addTask_grows db spec
  have hfind : ∀ id t, (db.addTask spec).1.find id = some t →
      db.find id = some t ∨ (id = formatTaskId db.nextTaskSeq
        ∧ t = { id := formatTaskId db.nextTaskSeq, spec, status := .pending }) := by
    intro id t h
    rw [hw.find_addTask] at h
    split at h
    · rename_i hid
      exact Or.inr ⟨hid, (Option.some.inj h).symm⟩
    · exact Or.inl h
  have hpos : 0 < db.nextToken := Nat.lt_of_le_of_lt (Nat.zero_le _) hw.lock_lt
  refine ⟨?_, ?_, ?_, ?_, ?_, ?_, ?_⟩
  · rw [addTask_taskOrder, List.length_append, List.length_singleton, mintedIds_succ,
      ← hw.order, hw.seq]
  · rw [addTask_taskOrder, addTask_nextTaskSeq, List.length_append, List.length_singleton,
      hw.seq]
  · intro id
    rw [hw.mem_addTask, addTask_taskOrder, hw.keys]
    simp [or_comm]
  · intro id t h
    rw [hgrow.nextToken]
    rcases hfind id t h with h' | ⟨rfl, rfl⟩
    · exact hw.record id t h'
    · exact ⟨rfl, by simp, fun _ => rfl, hpos, h0, hcap⟩
  · intro id id' t t' h h' hne heq
    rcases hfind id t h with ho | ⟨rfl, rfl⟩
    · rcases hfind id' t' h' with ho' | ⟨rfl, rfl⟩
      · exact hw.owners_distinct id id' t t' ho ho' hne heq
      · exact absurd heq hne
    · exact absurd rfl hne
  · rw [hgrow.mainLock, hgrow.nextToken]
    exact hw.lock_lt
  · intro id t h hne
    rw [hgrow.mainLock]
    rcases hfind id t h with ho | ⟨rfl, rfl⟩
    · exact hw.lock_distinct id t ho hne
    · exact absurd rfl hne

theorem Wf.addChildren {parent : TaskId} {d : Int} (h0 : 0 ≤ d) {specs : List TaskSpec}
    {db : TaskManagerDb} (hw : Wf db) (hd : d ≤ DEPTH_CAP ∨ specs = []) :
    Wf (db.addChildren parent d specs).1 := by
  induction specs generalizing db with
  | nil => exact hw
  | cons spec specs ih =>
      have hcap : d ≤ DEPTH_CAP := hd.resolve_right (by simp)
      exact ih (hw.addTask h0 hcap) (Or.inl hcap)

theorem Wf.addMerge {db : TaskManagerDb} (hw : Wf db) {t : TaskRecord}
    (h0 : 0 ≤ t.spec.depth) (hcap : t.spec.depth ≤ DEPTH_CAP) (branch : Option String) :
    Wf (db.addMerge t branch).1 := by
  cases branch with
  | none => exact hw
  | some b =>
      simp only [TaskManagerDb.addMerge]
      split
      · exact hw.addTask h0 hcap
      · exact hw

theorem Wf.spawn {db : TaskManagerDb} (hw : Wf db) {r : TaskCompleteRequest} {id : TaskId}
    {t : TaskRecord} (hf : db.find id = some t)
    (hcap : t.spec.depth + 1 ≤ DEPTH_CAP ∨ r.newChildren = []) : Wf (db.spawn r t) := by
  have hrec := hw.record id t hf
  have h0 : 0 ≤ t.spec.depth + 1 := by
    have := hrec.depth_nonneg
    omega
  exact (Wf.addChildren h0 hw hcap).addMerge hrec.depth_nonneg hrec.depth_le _

/-! ## Rewriting a record keeps it -/

/-- Rewriting the record at `id`: the new record is well formed, and if it
carries a token, the token is the one the record already had. -/
theorem Wf.setTask {db : TaskManagerDb} (hw : Wf db) {id : TaskId} {t t' : TaskRecord}
    (hf : db.find id = some t) (hok : RecordOk db.nextToken id t')
    (htok : t'.ownerToken = 0 ∨ t'.ownerToken = t.ownerToken) :
    Wf (db.setTask id t') := by
  have hback : ∀ id₁ t₁, (db.setTask id t').find id₁ = some t₁ → t₁.ownerToken ≠ 0 →
      ∃ t₀, db.find id₁ = some t₀ ∧ t₀.ownerToken = t₁.ownerToken := by
    intro id₁ t₁ h hne
    rw [find_setTask] at h
    split at h
    · rename_i hid
      obtain rfl := Option.some.inj h
      exact ⟨t, hid ▸ hf, ((htok.resolve_left hne)).symm⟩
    · exact ⟨t₁, h, rfl⟩
  refine ⟨hw.order, hw.seq, ?_, ?_, ?_, hw.lock_lt, ?_⟩
  · intro id'
    rw [mem_setTask, setTask_taskOrder, ← hw.keys]
    have hmem : id ∈ db.tasks := mem_tasks_iff.mpr ⟨t, hf⟩
    constructor
    · rintro (rfl | h)
      · exact hmem
      · exact h
    · exact Or.inr
  · intro id₁ t₁ h
    rw [find_setTask] at h
    split at h
    · rename_i hid
      obtain rfl := Option.some.inj h
      exact hid ▸ hok
    · exact hw.record id₁ t₁ h
  · intro id₁ id₂ t₁ t₂ h₁ h₂ hne heq
    obtain ⟨u₁, hu₁, he₁⟩ := hback id₁ t₁ h₁ hne
    obtain ⟨u₂, hu₂, he₂⟩ := hback id₂ t₂ h₂ (heq ▸ hne)
    exact hw.owners_distinct id₁ id₂ u₁ u₂ hu₁ hu₂ (he₁ ▸ hne)
      (he₁.trans (heq.trans he₂.symm))
  · intro id₁ t₁ h hne
    obtain ⟨u, hu, he⟩ := hback id₁ t₁ h hne
    rw [← he]
    exact hw.lock_distinct id₁ u hu (he ▸ hne)

/-- A claim: the record at `id` takes the fresh token. -/
theorem Wf.claim {db : TaskManagerDb} (hw : Wf db) {r : TaskClaimRequest} {now : Int}
    {tid : TaskId} {t : TaskRecord} (hf : db.find tid = some t) :
    Wf { db.setTask tid (db.claimRecord r now t) with nextToken := db.nextToken + 1 } := by
  have hrec := hw.record tid t hf
  have hpos : 0 < db.nextToken := Nat.lt_of_le_of_lt (Nat.zero_le _) hw.lock_lt
  have hlt : ∀ id₁ t₁, db.find id₁ = some t₁ → t₁.ownerToken < db.nextToken :=
    fun id₁ t₁ h => (hw.record id₁ t₁ h).token_lt
  have hcase : ∀ id₁ t₁, (db.setTask tid (db.claimRecord r now t)).find id₁ = some t₁ →
      (id₁ = tid ∧ t₁ = db.claimRecord r now t) ∨ (id₁ ≠ tid ∧ db.find id₁ = some t₁) := by
    intro id₁ t₁ h
    rw [find_setTask] at h
    split at h
    · rename_i hid
      exact Or.inl ⟨hid, (Option.some.inj h).symm⟩
    · rename_i hid
      exact Or.inr ⟨hid, h⟩
  refine ⟨hw.order, hw.seq, ?_, ?_, ?_, ?_, ?_⟩
  · intro id'
    have hmem : tid ∈ db.tasks := mem_tasks_iff.mpr ⟨t, hf⟩
    show id' ∈ (db.setTask tid _).tasks ↔ id' ∈ db.taskOrder
    rw [mem_setTask, ← hw.keys]
    constructor
    · rintro (rfl | h)
      · exact hmem
      · exact h
    · exact Or.inr
  · intro id₁ t₁ h
    rcases hcase id₁ t₁ h with ⟨rfl, rfl⟩ | ⟨-, h'⟩
    · exact ⟨hrec.id_eq, by simpa [claimRecord] using Nat.ne_of_gt hpos, by simp [claimRecord],
        Nat.lt_succ_self _, hrec.depth_nonneg, hrec.depth_le⟩
    · exact (hw.record id₁ t₁ h').mono (Nat.le_succ _)
  · intro id₁ id₂ t₁ t₂ h₁ h₂ hne heq
    rcases hcase id₁ t₁ h₁ with ⟨rfl, rfl⟩ | ⟨-, h₁'⟩
    · rcases hcase id₂ t₂ h₂ with ⟨rfl, rfl⟩ | ⟨-, h₂'⟩
      · rfl
      · exact absurd (hlt id₂ t₂ h₂') (by rw [← heq]; exact Nat.lt_irrefl _)
    · rcases hcase id₂ t₂ h₂ with ⟨rfl, rfl⟩ | ⟨-, h₂'⟩
      · exact absurd (hlt id₁ t₁ h₁') (by rw [heq]; exact Nat.lt_irrefl _)
      · exact hw.owners_distinct id₁ id₂ t₁ t₂ h₁' h₂' hne heq
  · exact Nat.lt_succ_of_lt hw.lock_lt
  · intro id₁ t₁ h hne
    rcases hcase id₁ t₁ h with ⟨rfl, rfl⟩ | ⟨-, h'⟩
    · exact fun heq => absurd hw.lock_lt (by
        have heq' : db.nextToken = db.mainLock.lockToken := heq
        rw [← heq']; exact Nat.lt_irrefl _)
    · exact hw.lock_distinct id₁ t₁ h' hne

/-! ## Every request keeps it -/

theorem Wf.effect {db db' : TaskManagerDb} {req : Request} {now : Int} {resp : Response}
    (hw : Wf db) (he : Effect db req now db' resp) : Wf db' := by
  cases he with
  | refused herr => exact hw
  | created hreq hdepth hdeps =>
      rcases createDepth_eq_ok hdepth with ⟨-, rfl⟩ | ⟨c, p, -, hp, -, -, rfl, hcap⟩
      · exact hw.addTask (Int.le_refl 0) (show (0 : Int) ≤ DEPTH_CAP by decide)
      · have := (hw.record c p hp).depth_nonneg
        exact hw.addTask (show 0 ≤ p.spec.depth + 1 by omega) hcap
  | halted hreq hh => exact hw
  | noneEligible hreq hh hpick => exact hw
  | claimed hreq hh hpick => exact hw.claim (pick_eq_some hpick).2.1
  | heartbeat hreq hown =>
      obtain ⟨hf, -, -⟩ := ownedTask_eq_ok hown
      have hrec := hw.record _ _ hf
      exact hw.setTask hf { hrec with } (Or.inr rfl)
  | @completed r t _ hreq hown hcap hresp =>
      obtain ⟨hf, -, -⟩ := ownedTask_eq_ok hown
      have hspawn : Wf (db.spawn r t) := hw.spawn hf hcap
      have hf' := (spawn_grows db r t).find_old hf
      have hrec' := hspawn.record _ _ hf'
      exact hspawn.setTask hf'
        ⟨hrec'.id_eq, by simp [completeRecord], fun _ => rfl,
          Nat.lt_of_le_of_lt (Nat.zero_le _) hrec'.token_lt,
          hrec'.depth_nonneg, hrec'.depth_le⟩ (Or.inl rfl)
  | @failed r t hreq hown =>
      obtain ⟨hf, -, -⟩ := ownedTask_eq_ok hown
      have hrec := hw.record _ _ hf
      have hset : Wf (db.setTask r.id (failRecord r t)) := hw.setTask hf
        ⟨hrec.id_eq, by simp [failRecord], fun _ => rfl,
          Nat.lt_of_le_of_lt (Nat.zero_le _) hrec.token_lt,
          hrec.depth_nonneg, hrec.depth_le⟩ (Or.inl rfl)
      exact { hset with }
  | listed hreq => exact hw
  | acquired hreq hfind hstatus htoken hstale =>
      have hlt : ∀ id t, db.find id = some t → t.ownerToken < db.nextToken :=
        fun id t h => (hw.record id t h).token_lt
      exact { hw with
        record := fun id t h => (hw.record id t h).mono (Nat.le_succ _)
        lock_lt := Nat.lt_succ_self _
        lock_distinct := fun id t h _ => Nat.ne_of_lt (hlt id t h) }
  | released hreq hheld htoken =>
      exact { hw with
        lock_lt := Nat.lt_of_le_of_lt (Nat.zero_le _) hw.lock_lt
        lock_distinct := fun id t h hne => hne }
  | resumed hreq => exact { hw with }

theorem Wf.processReq {db : TaskManagerDb} (hw : Wf db) (req : Request) (now : Int) :
    Wf (db.processReq req now).1 :=
  hw.effect (processReq_effect db req now)

/-- The induction over a history of requests. -/
theorem replay_induction {I : TaskManagerDb → Prop} (h0 : I {})
    (hstep : ∀ db req now, I db → I (db.processReq req now).1)
    (calls : List (Request × Int)) : I (replay calls) := by
  induction calls using List.reverseRecOn with
  | nil => exact h0
  | append_singleton calls c ih =>
      rw [replay_snoc]
      exact hstep _ _ _ ih

theorem wf_replay (calls : List (Request × Int)) : Wf (replay calls) :=
  replay_induction Wf.empty (fun _ req now hw => hw.processReq req now) calls

/-- **Representation invariant of the store**, after any sequence of
requests. -/
theorem store_representation (calls : List (Request × Int)) :
    (replay calls).taskOrder.Nodup
      ∧ (∀ id, id ∈ (replay calls).tasks ↔ id ∈ (replay calls).taskOrder)
      ∧ (∀ i < (replay calls).taskOrder.length,
          (replay calls).taskOrder[i]? = some (formatTaskId (i + 1)))
      ∧ (replay calls).nextTaskSeq = (replay calls).taskOrder.length + 1
      ∧ (∀ k ≥ (replay calls).nextTaskSeq, formatTaskId k ∉ (replay calls).tasks)
      ∧ (∀ id t, (replay calls).find id = some t →
          t.id = id
          ∧ (t.ownerToken ≠ 0 ↔ t.status = .inProgress)
          ∧ (t.status ≠ .inProgress → t.ownerAgent = "")
          ∧ t.ownerToken < (replay calls).nextToken
          ∧ (t.ownerToken ≠ 0 → t.ownerToken ≠ (replay calls).mainLock.lockToken)
          ∧ 0 ≤ t.spec.depth ∧ t.spec.depth ≤ DEPTH_CAP)
      ∧ (∀ id id' t t', (replay calls).find id = some t → (replay calls).find id' = some t' →
          t.ownerToken ≠ 0 → t.ownerToken = t'.ownerToken → id = id')
      ∧ (replay calls).mainLock.lockToken < (replay calls).nextToken := by
  have hw := wf_replay calls
  refine ⟨?_, hw.keys, ?_, hw.seq, fun k hk => hw.unminted hk, ?_,
    hw.owners_distinct, hw.lock_lt⟩
  · rw [hw.order]
    exact mintedIds_nodup _
  · intro i hi
    rw [hw.order]
    simp [mintedIds, hi]
  · intro id t hf
    have hrec := hw.record id t hf
    exact ⟨hrec.id_eq, hrec.owned_iff, hrec.unowned, hrec.token_lt,
      hw.lock_distinct id t hf, hrec.depth_nonneg, hrec.depth_le⟩

end TaskManagerDb

end Tmgr
