import Tmgr.GroupHistory
import Tmgr.Server

/-!
# Reading a replica

`GET /dump` is answered by any replica, from its own database, without asking
the others. So it may be stale, but no more than that: all dumps of a run, at
whatever replicas, show the states of one history. Those of one replica never go
back, and show every request that the replica has answered.
-/

namespace Tmgr

open TaskManagerDb PtPaxosReplica

theorem handle_dump (parse : String → Except String Json) (httpPeers : List String)
    (leader : Nat) (db : TaskManagerDb) (body : String) (propose : Request → ApplyResult) :
    handle parse httpPeers leader db ⟨.get, "/dump", body⟩ propose
      = makeResponse 200 (dumpState db) := rfl

namespace System

/-- What the server of replica `i` answers a `GET /dump`. -/
def dumpAt (parse : String → Except String Json) (httpPeers : List String) (s : System)
    (i : Nat) (body : String) (propose : Request → ApplyResult) : HttpMessage :=
  handle parse httpPeers (s.replicas i).leaderIndex (s.replicas i).db ⟨.get, "/dump", body⟩ propose

/-- The dumps that can be had in the states `states`, one after the other, are
of the history `L`. -/
structure DumpsFrom (n : Nat) (L : List DecidedValue) (states : List System) : Prop where
  prefixes : ∀ t ∈ states, ∀ i < n, ∀ parse httpPeers body propose,
    t.dumpAt parse httpPeers i body propose
      = makeResponse 200
        (dumpState (replay ((L.take (t.replicas i).appliedSlot).map DecidedValue.call)))
  /-- a dump is not older than the ones before it -/
  monotone : states.Pairwise fun t t' =>
    ∀ i < n, (t.replicas i).appliedSlot ≤ (t'.replicas i).appliedSlot
  /-- a call that has returned is in the dumps, where its answer was made -/
  answered : ∀ t ∈ states, ∀ i < n, ∀ c b, (t.replicas i).resultOf c = some b →
    ∃ k v, (t.replicas i).keys[c]? = some (k, v) ∧ k < (t.replicas i).appliedSlot
      ∧ L[k]? = some v
      ∧ b = (applyValue (replay ((L.take k).map DecidedValue.call)) v).2

variable {n : Nat} {onApply : Nat → Bool} {tr : List (System × Event)} {s t : System}

theorem CommonLog.length_processed {L : List DecidedValue} (hL : CommonLog n L s) {i : Nat}
    (hi : i < n) : (s.replicas i).processed.length = (s.replicas i).appliedSlot := by
  rw [← List.length_map (·.slot), hL.slots i hi, List.length_range]

/-- The common log of a run is that of the states it has been in. -/
theorem CommonLog.visited {L : List DecidedValue} (hL : CommonLog n L s)
    (hrun : PaxosRun n onApply (fun s e => s.leaderSends n e) tr s) (ht : t ∈ visited tr s)
    (hgrow : ∀ i, (t.replicas i).processed <+: (s.replicas i).processed) {i : Nat} (hi : i < n) :
    (t.replicas i).processed.map (·.dv) = L.take (t.replicas i).appliedSlot := by
  obtain ⟨tr', hrun'⟩ := hrun.reach_visited ht
  obtain ⟨L', hL'⟩ := exists_commonLog hrun'
  have hpre : (t.replicas i).processed.map (·.dv) <+: L.take (s.replicas i).appliedSlot := by
    rw [← hL.values i hi]
    exact (hgrow i).map _
  have hlen : ((t.replicas i).processed.map (·.dv)).length = (t.replicas i).appliedSlot := by
    rw [List.length_map, hL'.length_processed hi]
  rw [← hlen]
  exact List.prefix_iff_eq_take.mp (hpre.trans (List.take_prefix _ _))

theorem visited_processed {ok : System → Event → Prop} (hrun : PaxosRun n onApply ok tr s) :
    (visited tr s).Pairwise fun t t' => ∀ i, (t.replicas i).processed <+: (t'.replicas i).processed :=
  Runs.Run.pairwise
    (R := fun t t' : System => ∀ i, (t.replicas i).processed <+: (t'.replicas i).processed)
    (fun h h' i => (h i).trans (h' i)) (fun _ hstep i => processed_step hstep i) hrun

theorem visited_processed_last {ok : System → Event → Prop} (hrun : PaxosRun n onApply ok tr s)
    (ht : t ∈ visited tr s) (i : Nat) : (t.replicas i).processed <+: (s.replicas i).processed := by
  rcases List.mem_append.mp ht with hpast | hlast
  · exact (List.pairwise_append.mp (visited_processed hrun)).2.2 t hpast s
      (List.mem_singleton_self s) i
  · exact List.mem_singleton.mp hlast ▸ List.prefix_refl _

/-- **Dumps are prefixes of one history.** There is a log such that whatever
`GET /dump` answers, at whatever replica and whenever, is the state after the
first so many of its requests. A later dump of the same replica is not older,
and has every request that the replica has answered, in its place. -/
theorem dumps_from_one_log (hrun : PaxosRun n onApply (fun s e => s.clientSafe n e) tr s) :
    ∃ L, DumpsFrom n L (visited tr s) := by
  have hled := hrun.mono fun _ _ h => h.1
  obtain ⟨L, hL⟩ := exists_commonLog hled
  have hvalues : ∀ t ∈ visited tr s, ∀ i < n,
      (t.replicas i).processed.map (·.dv) = L.take (t.replicas i).appliedSlot :=
    fun t ht i hi => hL.visited hled ht (visited_processed_last hrun ht) hi
  have hlength : ∀ t ∈ visited tr s, ∀ i < n,
      (t.replicas i).processed.length = (t.replicas i).appliedSlot := by
    intro t ht i hi
    obtain ⟨tr', hrun'⟩ := hled.reach_visited ht
    obtain ⟨L', hL'⟩ := exists_commonLog hrun'
    exact hL'.length_processed hi
  refine ⟨L, ?_, ?_, ?_⟩
  · intro t ht i hi parse httpPeers body propose
    obtain ⟨tr', hrun'⟩ := hled.reach_visited ht
    rw [dumpAt, handle_dump, ((run_wf hrun').1 i hi).db, ← hvalues t ht i hi, List.map_map]
    rfl
  · refine (visited_processed hrun).imp_of_mem ?_
    intro t t' ht ht' hpre i hi
    rw [← hlength t ht i hi, ← hlength t' ht' i hi]
    exact (hpre i).length_le
  · intro t ht i hi c b hret
    obtain ⟨tr', hrun'⟩ := hrun.reach_visited ht
    obtain ⟨L', hL'⟩ := exists_commonLog (hrun'.mono fun _ _ h => h.1)
    obtain ⟨k, v, hkey, hlt, hv, hb⟩ := hL'.returned hrun' hi hret
    have hsame : L'.take (t.replicas i).appliedSlot = L.take (t.replicas i).appliedSlot := by
      rw [← hL'.values i hi, hvalues t ht i hi]
    have htake : L'.take k = L.take k := by
      rw [← min_eq_left (Nat.le_of_lt hlt), ← List.take_take, hsame, List.take_take]
    refine ⟨k, v, hkey, hlt, ?_, ?_⟩
    · rw [← List.getElem?_take_of_lt hlt, ← hsame, List.getElem?_take_of_lt hlt, hv]
    · rw [hb, htake]
      rfl

/-- A plan is created and claimed, and replica 1 lags behind. -/
def createdThenClaimed : List Event :=
  answeredCall 0 (.taskCreate { serial := 1, spec := { title := "plan-0" } }) 10
    ++ answeredCall 1 (.taskClaim { serial := 2, agentId := "agent-0" }) 20

theorem dumps_from_one_log_createdThenClaimed :
    ∃ L, DumpsFrom 3 L
      (visited ((initial 3 fun _ => true).trace 3 createdThenClaimed)
        (((initial 3 fun _ => true).exec 3 createdThenClaimed).get (by decide +kernel))) :=
  have hrun : PaxosRun 3 (fun _ => true) (fun s e => s.clientSafe 3 e) _ _ :=
    Runs.run_of_exec createdThenClaimed (by decide +kernel) (by decide +kernel)
  dumps_from_one_log hrun

end System

end Tmgr
