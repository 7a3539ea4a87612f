import Mathlib.Data.Finset.Max
import Tmgr.ClientHistory
import Tmgr.DecisionLog

/-!
# The group is one task manager

Seen by its clients, the group of replicas is a single database that handles
one request at a time: `linearizable`. The sequential order is that of the
slots. A call that returned had its slot applied, so that every slot up to its
own was appended before the next call is invoked, and that call gets a later
one.

Three things can break this, and each is excluded by a hypothesis. A call that
sends on after its replica stepped down, or a log that is installed over the
value of a call, are those of `log_agreement` and `answers_own`. The third is
two calls with the same value: a new leader's copy of it in a slot answers the
old leader's call too, and the request takes effect once.
-/

namespace Tmgr

open TaskManagerDb Linear

/-! ## One request at a time -/

/-- What a decided value does to the database, and what its call returns. -/
def applyValue (db : TaskManagerDb) (dv : DecidedValue) : TaskManagerDb × ApplyResult :=
  ((db.processReq dv.req dv.nowUnix).1, ⟨(db.processReq dv.req dv.nowUnix).2, dv.nowUnix⟩)

theorem after_applyValue (l : List (CallId × DecidedValue)) :
    after applyValue {} l = replay ((l.map Prod.snd).map fun dv => (dv.req, dv.nowUnix)) := by
  rw [List.map_map, after, replay, List.foldl_map]
  rfl

/-- The `k`-th answer is the one after the first `k` values. -/
theorem execute_answer {values : List DecidedValue} {k : Nat} {dv : DecidedValue}
    {resp : Response} (hdv : values[k]? = some dv) (hresp : (execute values).2[k]? = some resp) :
    resp = ((execute (values.take k)).1.processReq dv.req dv.nowUnix).2 := by
  induction values using List.reverseRecOn with
  | nil => simp at hdv
  | append_singleton values last ih =>
      rw [execute_snoc] at hresp
      rcases getElem?_concat_cases hdv with hdv | ⟨rfl, rfl⟩
      · have hlt := (List.getElem?_eq_some_iff.mp hdv).1
        rw [List.getElem?_append_left (by rw [execute_snd_length]; exact hlt)] at hresp
        rw [List.take_append_of_le_length (Nat.le_of_lt hlt)]
        exact ih hdv hresp
      · simp only [← execute_snd_length values, List.getElem?_concat_length,
          Option.some.injEq] at hresp
        rw [← hresp, List.take_left]

namespace System

open PtPaxosReplica

variable {n : Nat} {s : System}

/-! ## One log for all -/

/-- `L` is what the replicas have applied, each as far as it got. -/
structure CommonLog (n : Nat) (L : List DecidedValue) (s : System) : Prop where
  values : ∀ i < n, (s.replicas i).processed.map (·.dv) = L.take (s.replicas i).appliedSlot
  slots : ∀ i < n, (s.replicas i).processed.map (·.slot) = List.range (s.replicas i).appliedSlot
  le : ∀ i < n, (s.replicas i).appliedSlot ≤ L.length
  reached : ∀ k < L.length, ∃ j < n, k < (s.replicas j).appliedSlot

theorem exists_commonLog {onApply : Nat → Bool} {tr : List (System × Event)}
    (hrun : PaxosRun n onApply (fun s e => s.leaderSends n e) tr s) : ∃ L, CommonLog n L s := by
  obtain ⟨h, hinv, -⟩ := run_inv hrun
  rcases Nat.eq_zero_or_pos n with rfl | hn
  · exact ⟨[], by simp, by simp, by simp, by simp⟩
  · -- the log of a replica that got furthest
    obtain ⟨m, hm, hmax⟩ := (Finset.range n).exists_max_image (fun i => (s.replicas i).appliedSlot)
      ⟨0, Finset.mem_range.mpr hn⟩
    rw [Finset.mem_range] at hm
    have hf := fun i hi => (hinv.replicas i hi).follows
    have hlen : ((s.replicas m).processed.map (·.dv)).length = (s.replicas m).appliedSlot := by
      rw [List.length_map]
      exact (hf m hm).window.length
    refine ⟨(s.replicas m).processed.map (·.dv), ?_, fun i hi => (hf i hi).window.slots, ?_, ?_⟩
    · intro i hi
      have hle := hmax i (Finset.mem_range.mpr hi)
      rw [(hf i hi).window.values, (hf m hm).window.values, List.take_take, min_eq_left hle]
      apply List.ext_getElem?
      intro k
      rw [List.getElem?_take, List.getElem?_take]
      split
      · rename_i hk
        exact (hf i hi).agree (hf m hm) hinv.valid hk (hk.trans_le hle)
      · rfl
    · intro i hi
      rw [hlen]
      exact hmax i (Finset.mem_range.mpr hi)
    · intro k hk
      exact ⟨m, hm, hlen ▸ hk⟩

variable {L : List DecidedValue}

theorem CommonLog.processed_get (hL : CommonLog n L s) {i : Nat} (hi : i < n) {p : Processed}
    (hp : p ∈ (s.replicas i).processed) :
    p.slot < (s.replicas i).appliedSlot ∧ (s.replicas i).processed[p.slot]? = some p
      ∧ L[p.slot]? = some p.dv := by
  obtain ⟨k, hk, rfl⟩ := List.getElem_of_mem hp
  have hlen : (s.replicas i).processed.length = (s.replicas i).appliedSlot := by
    rw [← List.length_map (·.slot), hL.slots i hi, List.length_range]
  have hslot : ((s.replicas i).processed.map (·.slot))[k]?
      = some (s.replicas i).processed[k].slot := by simp [hk]
  have hdv : ((s.replicas i).processed.map (·.dv))[k]? = some (s.replicas i).processed[k].dv := by
    simp [hk]
  rw [hL.slots i hi, List.getElem?_range (hlen ▸ hk), Option.some.injEq] at hslot
  rw [hL.values i hi, List.getElem?_take_of_lt (hlen ▸ hk)] at hdv
  exact ⟨hslot ▸ hlen ▸ hk, by rw [← hslot, List.getElem?_eq_getElem hk], hslot ▸ hdv⟩

/-- Every slot of the common log was appended by a call. -/
theorem CommonLog.appended (hL : CommonLog n L s) (hs : AllSourced n s) {j k : Nat} (hj : j < n)
    (hk : k < (s.replicas j).appliedSlot) {dv : DecidedValue} (hdv : L[k]? = some dv) :
    ∃ o : CallId, o.1 < n ∧ (s.replicas o.1).keys[o.2]? = some (k, dv) := by
  have hlen : (s.replicas j).processed.length = (s.replicas j).appliedSlot := by
    rw [← List.length_map (·.slot), hL.slots j hj, List.length_range]
  have hk' : k < (s.replicas j).processed.length := hlen.symm ▸ hk
  have hmem := List.getElem_mem hk'
  have hslot : ((s.replicas j).processed.map (·.slot))[k]?
      = some (s.replicas j).processed[k].slot := by simp [hk']
  rw [hL.slots j hj, List.getElem?_range hk, Option.some.injEq] at hslot
  obtain ⟨-, -, hget⟩ := hL.processed_get hj hmem
  have happ := (hs.replicas j hj).processed _ hmem
  rw [← hslot] at hget happ
  rw [hdv] at hget
  obtain ⟨i, hi, hkey⟩ := happ
  obtain ⟨c, hc⟩ := List.getElem?_of_mem hkey
  exact ⟨(i, c), hi, by rw [hc, Option.some.inj hget]⟩

theorem processed_step {s' : System} {e : Event} (hstep : s.step n e = some s') (i : Nat) :
    (s.replicas i).processed <+: (s'.replicas i).processed := by
  rcases step_replica hstep i with hsame | ⟨ev, rest, x, -, -, hlocal, hx⟩
  · rw [hsame]
  · rw [hx]
    exact (localStep_turn hlocal).processed

theorem processed_run {ok : System → Event → Prop} {tr : List (System × Event)} {s' : System}
    (hrun : Runs.Run (step n) ok s tr s') (i : Nat) :
    (s.replicas i).processed <+: (s'.replicas i).processed :=
  hrun.invariant (I := fun t => (s.replicas i).processed <+: (t.replicas i).processed)
    (List.prefix_refl _) fun h _ hstep => h.trans (processed_step hstep i)

/-- What a replica had applied earlier in the run is in the common log. -/
theorem CommonLog.earlier {s₁ : System} (hL : CommonLog n L s) {L₁ : List DecidedValue}
    (hL₁ : CommonLog n L₁ s₁) (hgrow : ∀ i, (s₁.replicas i).processed <+: (s.replicas i).processed)
    {j k : Nat} (hj : j < n) (hk : k < (s₁.replicas j).appliedSlot) : L₁[k]? = L[k]? := by
  have hpre : L₁.take (s₁.replicas j).appliedSlot <+: L.take (s.replicas j).appliedSlot := by
    rw [← hL₁.values j hj, ← hL.values j hj]
    exact (hgrow j).map _
  have hk₁ : k < L₁.length := hk.trans_le (hL₁.le j hj)
  have hget := getElem?_of_prefix (hpre.trans (List.take_prefix _ _))
    (by rw [List.getElem?_take_of_lt hk, List.getElem?_eq_getElem hk₁])
  rw [hget, List.getElem?_eq_getElem hk₁]

/-! ## The order of the slots is a linearization -/

/-- No two calls append the same value: the agent, its serial, the stamp and
the request. -/
def DistinctRequests (h : List ClientAct) : Prop :=
  ∀ o o' v, Act.inv o v ∈ h → Act.inv o' v ∈ h → o = o'

def invocations (h : List ClientAct) : List (CallId × DecidedValue) :=
  h.filterMap fun
    | .inv o v => some (o, v)
    | .ret _ _ => none

theorem mem_invocations {h : List ClientAct} {o : CallId} {v : DecidedValue} :
    (o, v) ∈ invocations h ↔ Act.inv o v ∈ h := by
  rw [invocations, List.mem_filterMap]
  constructor
  · rintro ⟨a, ha, heq⟩
    cases a with
    | inv o' v' =>
        obtain ⟨rfl, rfl⟩ := Prod.mk.inj (Option.some.inj heq)
        exact ha
    | ret => cases heq
  · intro hmem
    exact ⟨_, hmem, rfl⟩

instance (h : List ClientAct) : Decidable (DistinctRequests h) :=
  decidable_of_iff (∀ p ∈ invocations h, ∀ q ∈ invocations h, p.2 = q.2 → p.1 = q.1) <| by
    constructor
    · intro hall o o' v hinv hinv'
      exact hall (o, v) (mem_invocations.mpr hinv) (o', v) (mem_invocations.mpr hinv') rfl
    · rintro hdist ⟨o, v⟩ hp ⟨o', v'⟩ hq rfl
      exact hdist o o' _ (mem_invocations.mp hp) (mem_invocations.mp hq)

/-- The operations of the clients, in the order of their slots. -/
structure Origins (n : Nat) (L : List DecidedValue) (s : System) (l : List (CallId × DecidedValue)) :
    Prop where
  values : l.map Prod.snd = L
  keys : ∀ {k : Nat} {o : CallId} {v : DecidedValue}, l[k]? = some (o, v) →
    o.1 < n ∧ (s.replicas o.1).keys[o.2]? = some (k, v)

theorem CommonLog.exists_origins (hL : CommonLog n L s) (hs : AllSourced n s) :
    ∃ l, Origins n L s l := by
  have horigin : ∀ k : Fin L.length, ∃ o : CallId, o.1 < n
      ∧ (s.replicas o.1).keys[o.2]? = some (k.1, L[k]) := by
    intro k
    obtain ⟨j, hj, hk⟩ := hL.reached k k.2
    exact hL.appended hs hj hk (List.getElem?_eq_getElem k.2)
  choose origin horigin using horigin
  refine ⟨List.ofFn fun k => (origin k, L[k]), ?_, ?_⟩
  · rw [List.map_ofFn]
    exact List.ofFn_getElem
  · intro k o v hk
    rw [List.getElem?_ofFn] at hk
    split at hk
    · obtain ⟨rfl, rfl⟩ := Prod.mk.inj (Option.some.inj hk)
      exact horigin _
    · cases hk

variable {l : List (CallId × DecidedValue)}

theorem Origins.nodup (ho : Origins n L s l) : (l.map Prod.fst).Nodup := by
  rw [List.nodup_iff_getElem?_ne_getElem?]
  intro a b hab hb heq
  rw [List.length_map] at hb
  obtain ⟨⟨o, v⟩, hget⟩ : ∃ x, l[a]? = some x := ⟨_, List.getElem?_eq_getElem (hab.trans hb)⟩
  obtain ⟨⟨o', v'⟩, hget'⟩ : ∃ x, l[b]? = some x := ⟨_, List.getElem?_eq_getElem hb⟩
  simp only [List.getElem?_map, hget, hget', Option.map_some, Option.some.injEq] at heq
  subst heq
  have hkey := (ho.keys hget).2
  rw [(ho.keys hget').2, Option.some.injEq] at hkey
  exact Nat.ne_of_gt hab (Prod.mk.inj hkey).1

/-- A call whose value has its slot is the origin of the slot. -/
theorem Origins.unique (ho : Origins n L s l) {onApply : Nat → Bool}
    {ok : System → Event → Prop} {tr : List (System × Event)} (hrun : PaxosRun n onApply ok tr s)
    (hdistinct : DistinctRequests (clientHistory n tr)) {o : CallId} {k : Nat} {v : DecidedValue}
    (hkey : (s.replicas o.1).keys[o.2]? = some (k, v)) (hv : L[k]? = some v) :
    l[k]? = some (o, v) := by
  rw [← ho.values, List.getElem?_map, Option.map_eq_some_iff] at hv
  obtain ⟨⟨o', v'⟩, hget, rfl⟩ := hv
  have hkey' := (ho.keys hget).2
  have heq : o = o' := hdistinct o o' v'
    ((inv_mem_iff hrun).mpr (by rw [hkey]; rfl)) ((inv_mem_iff hrun).mpr (by rw [hkey']; rfl))
  exact heq ▸ hget

/-- The guard: calls send on only at leaders, and no log is installed over
the value of a call. -/
def clientSafe (n : Nat) (s : System) (e : Event) : Prop :=
  s.leaderSends n e ∧ s.keepsCalls n e

instance (n : Nat) (s : System) (e : Event) : Decidable (s.clientSafe n e) :=
  inferInstanceAs (Decidable (_ ∧ _))

/-- The responses of a replica are those to the common log. -/
theorem CommonLog.answer (hL : CommonLog n L s) {onApply : Nat → Bool} {ok : System → Event → Prop}
    {tr : List (System × Event)} (hrun : PaxosRun n onApply ok tr s) {i : Nat} (hi : i < n)
    {p : Processed} (hp : p ∈ (s.replicas i).processed) :
    p.resp = ((execute (L.take p.slot)).1.processReq p.dv.req p.dv.nowUnix).2 := by
  obtain ⟨hlt, hget, -⟩ := hL.processed_get hi hp
  have hexec := ((run_logOk (q := false) hrun fun _ _ _ h => by cases h) i hi).2.executed
  have hresp : (execute ((s.replicas i).processed.map (·.dv))).2[p.slot]? = some p.resp := by
    rw [← congrArg Prod.snd hexec, List.getElem?_map, hget]
    rfl
  have hvalue : ((s.replicas i).processed.map (·.dv))[p.slot]? = some p.dv := by
    rw [List.getElem?_map, hget]
    rfl
  have hans := execute_answer hvalue hresp
  rwa [hL.values i hi, List.take_take, min_eq_left (Nat.le_of_lt hlt)] at hans

/-- A call that returned `b` has its slot in the common log, and `b` is the
answer there. -/
theorem CommonLog.returned (hL : CommonLog n L s) {onApply : Nat → Bool}
    {tr : List (System × Event)} (hrun : PaxosRun n onApply (fun s e => s.clientSafe n e) tr s)
    {i c : Nat} (hi : i < n) {b : ApplyResult} (hret : (s.replicas i).resultOf c = some b) :
    ∃ k v, (s.replicas i).keys[c]? = some (k, v) ∧ k < (s.replicas i).appliedSlot
      ∧ L[k]? = some v
      ∧ b = (applyValue (replay ((L.take k).map fun dv => (dv.req, dv.nowUnix))) v).2 := by
  obtain ⟨call, hcall, hresult⟩ := Option.bind_eq_some_iff.mp hret
  obtain ⟨p, hp, hslot, hdv, rfl⟩ := (run_rendezvous (hrun.mono fun _ _ h => h.2) i hi).returned
    (List.mem_of_getElem? hcall) hresult
  obtain ⟨hlt, -, hL'⟩ := hL.processed_get hi hp
  have hkey : (s.replicas i).keys[c]? = some (p.slot, p.dv) := by
    simp [PtPaxosReplica.keys, hcall, hslot, hdv]
  refine ⟨p.slot, p.dv, hkey, hlt, hL', ?_⟩
  rw [applyValue, hL.answer hrun hi hp, execute_fst]

/-- It has its place among the operations of the clients. -/
theorem Origins.returned (ho : Origins n L s l) (hL : CommonLog n L s) {onApply : Nat → Bool}
    {tr : List (System × Event)} (hrun : PaxosRun n onApply (fun s e => s.clientSafe n e) tr s)
    (hdistinct : DistinctRequests (clientHistory n tr)) {i c : Nat} (hi : i < n)
    {b : ApplyResult} (hret : (s.replicas i).resultOf c = some b) :
    ∃ k v, k < (s.replicas i).appliedSlot ∧ l[k]? = some ((i, c), v)
      ∧ b = (applyValue (after applyValue {} (l.take k)) v).2 := by
  obtain ⟨k, v, hkey, hlt, hv, rfl⟩ := hL.returned hrun hi hret
  refine ⟨k, v, hlt, ho.unique hrun hdistinct (o := (i, c)) hkey hv, ?_⟩
  rw [after_applyValue, ← ho.values, List.map_take, List.map_take, List.map_take]

theorem lt_of_resultOf {onApply : Nat → Bool} {ok : System → Event → Prop}
    {tr : List (System × Event)} (hrun : PaxosRun n onApply ok tr s) {i c : Nat} {b : ApplyResult}
    (hret : (s.replicas i).resultOf c = some b) : i < n := by
  by_contra hout
  have hnone : (s.replicas i).calls = [] :=
    hrun.invariant (I := fun s => (s.replicas i).calls = []) rfl fun h _ hstep => by
      rcases step_replica hstep i with hsame | ⟨-, -, -, hi, -⟩
      · rw [hsame, h]
      · exact absurd hi hout
  simp [resultOf, hnone] at hret

/-- Where a call is invoked, the slots applied by then are those of calls made
before, and have all that returned. -/
theorem Origins.bound (ho : Origins n L s l) (hL : CommonLog n L s) {onApply : Nat → Bool}
    {tr : List (System × Event)} (hrun : PaxosRun n onApply (fun s e => s.clientSafe n e) tr s)
    (hdistinct : DistinctRequests (clientHistory n tr)) {h₁ h₂ : List ClientAct} {o : CallId}
    {v : DecidedValue} (hsplit : clientHistory n tr = h₁ ++ .inv o v :: h₂) :
    ∃ done, done <+: l ∧ (∀ p ∈ done, .inv p.1 p.2 ∈ h₁)
      ∧ ∀ o' b, .ret o' b ∈ h₁ → o' ∈ done.map Prod.fst := by
  obtain ⟨i, c⟩ := o
  obtain ⟨tr₁, p, tr₂, rfl, rfl, rfl⟩ := inv_split hsplit
  obtain ⟨s', hrun₁, hok, hstep, hrest⟩ := hrun.split
  -- what the replicas had applied by then
  have hgrow : ∀ i, (p.1.replicas i).processed <+: (s.replicas i).processed := fun i =>
    (processed_step hstep i).trans (processed_run hrest i)
  have hkeys : ∀ i, (p.1.replicas i).keys <+: (s.replicas i).keys := fun i =>
    (step_keys hstep i).trans (run_keys hrest i)
  obtain ⟨L₁, hL₁⟩ := exists_commonLog (hrun₁.mono fun _ _ h => h.1)
  refine ⟨l.take L₁.length, List.take_prefix _ _, ?_, ?_⟩
  · -- all of it was appended
    rintro ⟨o, w⟩ hmem
    obtain ⟨k, hk⟩ := List.getElem?_of_mem hmem
    rw [List.getElem?_take] at hk
    split at hk
    · rename_i hlt
      obtain ⟨j, hj, hreach⟩ := hL₁.reached k hlt
      have hw : L₁[k]? = some w := by
        rw [hL.earlier hL₁ hgrow hj hreach, ← ho.values, List.getElem?_map, hk]
        rfl
      obtain ⟨o', -, hkey⟩ := hL₁.appended (run_sourced hrun₁) hj hreach hw
      have hkey' := getElem?_of_prefix (hkeys o'.1) hkey
      have hsame := ho.unique hrun hdistinct hkey'
        (by rw [← hL.earlier hL₁ hgrow hj hreach, hw])
      obtain rfl : o = o' := (Prod.mk.inj (Option.some.inj (hk.symm.trans hsame))).1
      exact (inv_mem_iff hrun₁).mpr (by rw [hkey]; rfl)
    · cases hk
  · -- and it has all that returned
    rintro ⟨j, d⟩ b hret
    rw [ret_mem_iff hrun₁] at hret
    have hj := lt_of_resultOf hrun₁ hret
    obtain ⟨l₁, ho₁⟩ := hL₁.exists_origins (run_sourced hrun₁)
    have hdistinct₁ : DistinctRequests (clientHistory n tr₁) := fun o o' w h h' =>
      hdistinct o o' w (hsplit ▸ List.mem_append_left _ h) (hsplit ▸ List.mem_append_left _ h')
    obtain ⟨k, w, hk, hplace, -⟩ := ho₁.returned hL₁ hrun₁ hdistinct₁ hj hret
    have hw : L[k]? = some w := by
      rw [← hL.earlier hL₁ hgrow hj hk, ← ho₁.values, List.getElem?_map, hplace]
      rfl
    have hkey := getElem?_of_prefix (hkeys j) (ho₁.keys hplace).2
    have hsame := ho.unique hrun hdistinct (o := (j, d)) hkey hw
    have hlt : k < L₁.length := hk.trans_le (hL₁.le j hj)
    exact List.mem_map.mpr ⟨((j, d), w), List.mem_of_getElem?
      (by rw [List.getElem?_take_of_lt hlt, hsame]), rfl⟩

theorem Origins.linearization (ho : Origins n L s l) (hL : CommonLog n L s)
    {onApply : Nat → Bool} {tr : List (System × Event)}
    (hrun : PaxosRun n onApply (fun s e => s.clientSafe n e) tr s)
    (hdistinct : DistinctRequests (clientHistory n tr)) :
    Linearization applyValue {} (clientHistory n tr) l := by
  refine .of_bounds ho.nodup ?_ ?_ (invokedOnce hrun) fun _ _ _ _ hsplit =>
    ho.bound hL hrun hdistinct hsplit
  · rintro ⟨⟨i, c⟩, v⟩ hmem
    obtain ⟨k, hk⟩ := List.getElem?_of_mem hmem
    exact (inv_mem_iff hrun).mpr (by rw [(ho.keys hk).2]; rfl)
  · rintro ⟨i, c⟩ b hret
    rw [ret_mem_iff hrun] at hret
    obtain ⟨k, v, -, hplace, hb⟩ := ho.returned hL hrun hdistinct (lt_of_resultOf hrun hret) hret
    have htake : l.take k ++ [((i, c), v)] = l.take (k + 1) := by
      rw [List.take_add_one, hplace, Option.toList_some]
    exact ⟨l.take k, v, htake ▸ List.take_prefix _ _, hb⟩

/-- A replica's database is the one after what it applied. -/
theorem Origins.db (ho : Origins n L s l) (hL : CommonLog n L s) {onApply : Nat → Bool}
    {ok : System → Event → Prop} {tr : List (System × Event)}
    (hrun : PaxosRun n onApply ok tr s) {i : Nat} (hi : i < n) :
    (s.replicas i).db = after applyValue {} (l.take (s.replicas i).appliedSlot) := by
  rw [((run_logOk (q := false) hrun fun _ _ _ h => by cases h) i hi).1.db, after_applyValue,
    List.map_take, ho.values, ← hL.values i hi, List.map_map]
  rfl

/-- The history of the clients is that of one database that handles one
request at a time, and every replica's database is the one after some of
them. -/
theorem linearizable (onApply : Nat → Bool) {tr : List (System × Event)}
    (hrun : PaxosRun n onApply (fun s e => s.clientSafe n e) tr s)
    (hdistinct : DistinctRequests (clientHistory n tr)) :
    ∃ l, Linearization applyValue {} (clientHistory n tr) l
      ∧ ∀ i < n, (s.replicas i).db = after applyValue {} (l.take (s.replicas i).appliedSlot) := by
  obtain ⟨L, hL⟩ := exists_commonLog (hrun.mono fun _ _ h => h.1)
  obtain ⟨l, ho⟩ := hL.exists_origins (run_sourced hrun)
  exact ⟨l, ho.linearization hL hrun hdistinct, fun _ hi => ho.db hL hrun hi⟩

/-- A call at replica 0 returns, and another is made there. -/
def callsInTurn : List Event :=
  callAnswered ++ [.propose 0 (.taskList { serial := 3 }) 12]

theorem linearizable_callsInTurn :
    ∃ l, Linearization applyValue {}
        (clientHistory 3 ((initial 3 fun _ => true).trace 3 callsInTurn)) l
      ∧ ∀ i < 3, ((((initial 3 fun _ => true).exec 3 callsInTurn).get
          (by decide +kernel)).replicas i).db = after applyValue {} (l.take
        ((((initial 3 fun _ => true).exec 3 callsInTurn).get
          (by decide +kernel)).replicas i).appliedSlot) :=
  linearizable (fun _ => true)
    (Runs.run_of_exec callsInTurn (by decide +kernel) (by decide +kernel)) (by decide +kernel)

end System

end Tmgr
