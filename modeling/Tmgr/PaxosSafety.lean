import Tmgr.PaxosSim

/-!
# Safety of the replicated log

What the common history gives for whole runs.

- `log_agreement`: two replicas that applied the same slot applied the same
  value, and equal numbers of applied slots mean equal databases.
- `leader_completeness`: a value that a majority has held in a round is in
  every log adopted later, or was applied by its adopter.
- `never_stranded`: every replica applies the slots in order, each once; no
  accepted PROPOSE leaves a gap, and no log that is adopted skips a slot.

The first needs only that calls send on at leaders; the schedule
`agreementLost` shows what happens otherwise.
-/

namespace Tmgr

open LogPaxos

theorem getElem?_of_prefix {α : Type*} {l l' : List α} {k : Nat} {v : α} (hpre : l <+: l')
    (hk : l[k]? = some v) : l'[k]? = some v := by
  obtain ⟨hlt, rfl⟩ := List.getElem?_eq_some_iff.mp hk
  rw [List.getElem?_eq_getElem (hlt.trans_le hpre.length_le), hpre.getElem]

namespace PtPaxosReplica

variable {n i j : Nat} {h : PaxosHistory} {r : PtPaxosReplica}

/-! ## From a window to its log -/

theorem Window.processed_get {L : List DecidedValue} (hw : Window L r) {p : Processed}
    (hp : p ∈ r.processed) : p.slot < r.appliedSlot ∧ L[p.slot]? = some p.dv := by
  obtain ⟨k, hk, rfl⟩ := List.getElem_of_mem hp
  have hlt : k < r.appliedSlot := hw.length ▸ hk
  have hslot : (r.processed.map (·.slot))[k]? = some r.processed[k].slot := by simp [hk]
  have hdv : (r.processed.map (·.dv))[k]? = some r.processed[k].dv := by simp [hk]
  rw [hw.slots, List.getElem?_range hlt, Option.some.injEq] at hslot
  rw [hw.values, List.getElem?_take_of_lt hlt] at hdv
  exact ⟨hslot ▸ hlt, hslot ▸ hdv⟩

/-- The rounds of two replicas agree on what both have applied. -/
theorem Follows.agree {r' : PtPaxosReplica} (hf : Follows n h i r) (hf' : Follows n h j r')
    (hv : h.Valid (majorities n)) {k : Nat} (hk : k < r.appliedSlot) (hk' : k < r'.appliedSlot) :
    (h.log r.ackRound)[k]? = (h.log r'.ackRound)[k]? := by
  have hagree : ∀ {r r' : PtPaxosReplica} {i j : Nat}, Follows n h i r → Follows n h j r' →
      r.ackRound ≤ r'.ackRound → k < r.appliedSlot →
      (h.log r.ackRound)[k]? = (h.log r'.ackRound)[k]? := by
    intro r r' i j hf hf' hle hk
    have heq := hf.decided.take_eq hv hle (hf.opened hv) (hf'.opened hv)
    have hlt := hk.trans_le hf.applied_le
    have := congrArg (·[k]?) heq
    simpa only [List.getElem?_take_of_lt hlt] using this.symm
  rcases Nat.le_total r.ackRound r'.ackRound with hle | hle
  · exact hagree hf hf' hle hk
  · exact (hagree hf' hf hle hk').symm

theorem Follows.values_eq {r' : PtPaxosReplica} (hf : Follows n h i r) (hf' : Follows n h j r')
    (hv : h.Valid (majorities n)) (happlied : r.appliedSlot = r'.appliedSlot) :
    r.processed.map (·.dv) = r'.processed.map (·.dv) := by
  rw [hf.window.values, hf'.window.values, happlied]
  apply List.ext_getElem?
  intro k
  rw [List.getElem?_take, List.getElem?_take]
  split
  · rename_i hk
    exact hf.agree hf' hv (happlied ▸ hk) hk
  · rfl

/-- The replica holds `v` at `slot`, in a log of `round`. -/
def Holds (r : PtPaxosReplica) (v : DecidedValue) (slot round : Nat) : Prop :=
  r.ackRound = round ∧ r.logBase ≤ slot ∧ r.log[slot - r.logBase]? = some v

instance (r : PtPaxosReplica) (v : DecidedValue) (slot round : Nat) :
    Decidable (r.Holds v slot round) :=
  inferInstanceAs (Decidable (r.ackRound = round ∧ r.logBase ≤ slot
    ∧ r.log[slot - r.logBase]? = some v))

theorem Follows.accepted_of_holds (hf : Follows n h i r) {v : DecidedValue} {slot round : Nat}
    (hh : r.Holds v slot round) :
    h.Accepted i round (slot + 1) ∧ (h.log round)[slot]? = some v := by
  obtain ⟨rfl, hbase, hget⟩ := hh
  rw [hf.window.log, List.getElem?_drop, Nat.add_sub_cancel' hbase, List.getElem?_take] at hget
  split at hget
  · rename_i hlt
    exact ⟨⟨r.logEnd, hf.accepted, hlt⟩, hget⟩
  · cases hget

end PtPaxosReplica

namespace System

open PtPaxosReplica

/-! ## Agreement -/

/-- Replicas that called `process_req` for the same slot passed it the same
value, and equally far replicas have equal databases. -/
structure LogAgreement (n : Nat) (s : System) : Prop where
  values : ∀ i < n, ∀ j < n, ∀ p ∈ (s.replicas i).processed, ∀ q ∈ (s.replicas j).processed,
    p.slot = q.slot → p.dv = q.dv
  databases : ∀ i < n, ∀ j < n, (s.replicas i).appliedSlot = (s.replicas j).appliedSlot →
    (s.replicas i).db = (s.replicas j).db

theorem log_agreement {n : Nat} (onApply : Nat → Bool) {tr : List (System × Event)} {s : System}
    (hrun : PaxosRun n onApply (fun s e => s.leaderSends n e) tr s) : LogAgreement n s := by
  obtain ⟨h, hinv, -⟩ := run_inv hrun
  refine ⟨?_, ?_⟩
  · intro i hi j hj p hp q hq hslot
    have hf := (hinv.replicas i hi).follows
    have hf' := (hinv.replicas j hj).follows
    obtain ⟨hlt, hget⟩ := hf.window.processed_get hp
    obtain ⟨hlt', hget'⟩ := hf'.window.processed_get hq
    have hagree := hf.agree hf' hinv.valid hlt (hslot ▸ hlt')
    rw [hget, hslot, hget'] at hagree
    exact Option.some.inj hagree
  · intro i hi j hj happlied
    have hvalues := (hinv.replicas i hi).follows.values_eq (hinv.replicas j hj).follows
      hinv.valid happlied
    have hdb : ∀ r : PtPaxosReplica, (r.processed.map fun p => (p.dv.req, p.dv.nowUnix))
        = (r.processed.map (·.dv)).map fun dv => (dv.req, dv.nowUnix) := by
      intro r
      rw [List.map_map]
      rfl
    rw [(hinv.votes.1.1 i hi).db, (hinv.votes.1.1 j hj).db, hdb, hdb, hvalues]

/-- One value, proposed at replica 0 and applied by all three replicas. -/
def oneValueApplied : List Event :=
  [.propose 0 (.swarmResume { serial := 1 }) 10, .resumeCall 0 0, .resumeCall 0 0,
   .deliver 0 11, .deliver 0 11, .resumeRun 1, .resumeRun 2, .deliver 0 12, .deliver 0 12,
   .timeout 0 100, .resumeRun 0, .deliver 0 101, .deliver 0 101]

theorem log_agreement_oneValueApplied :
    LogAgreement 3 (((initial 3 fun _ => true).exec 3 oneValueApplied).get (by decide +kernel)) :=
  log_agreement (fun _ => true)
    (Runs.run_of_exec oneValueApplied (by decide +kernel) (by decide +kernel))

/-- Replica 0 steps down for replica 1 between two sends of a call, and the
second goes out in replica 1's round: replica 2 accepts the value of replica
0 for slot 0, and replica 1 counts its ACK for another value. -/
def agreementLost : List Event :=
  [.propose 0 (.swarmResume { serial := 1 }) 10, .lose 0,
   .timeout 1 600, .resumeRun 1, .resumeRun 1,
   .deliver 0 600, .deliver 0 600, .resumeRun 0, .resumeRun 2, .lose 0,
   .deliver 0 601, .resumeRun 1, .resumeRun 1,
   .resumeCall 0 0, .deliver 2 602, .resumeRun 2,
   .deliver 1 603, .lose 0, .lose 0, .resumeRun 2, .deliver 0 604,
   .propose 1 (.swarmResume { serial := 2 }) 11, .lose 0, .resumeCall 1 0, .resumeCall 1 0,
   .deliver 0 605, .resumeRun 2,
   .timeout 1 700, .resumeRun 1, .deliver 2 701]

theorem not_log_agreement :
    ¬∀ (n : Nat) (onApply : Nat → Bool) (tr : List (System × Event)) (s : System),
      PaxosRun n onApply (fun _ _ => True) tr s → LogAgreement n s := by
  intro h
  have hvalues := (h 3 (fun _ => true) _ _
    (Runs.run_of_exec agreementLost (by decide +kernel) fun _ _ => trivial)).values
  revert hvalues
  decide +kernel

/-! ## Leader completeness -/

/-- The states a run went through. -/
def visited (tr : List (System × Event)) (s : System) : List System :=
  tr.map Prod.fst ++ [s]

/-- Counted over the whole run, a majority has held `v` at `slot` in
`round`. -/
def ChosenIn (n : Nat) (states : List System) (v : DecidedValue) (slot round : Nat) : Prop :=
  ∃ q ⊆ Finset.range n, n / 2 + 1 ≤ q.card
    ∧ ∀ j ∈ q, ∃ t ∈ states, (t.replicas j).Holds v slot round

theorem run_inv_visited {n : Nat} {onApply : Nat → Bool} {tr : List (System × Event)}
    {s : System} (hrun : PaxosRun n onApply (fun s e => s.leaderSends n e) tr s) :
    ∃ h, Inv n h s ∧ ∀ t ∈ visited tr s, ∃ h' ≤ h, Inv n h' t := by
  obtain ⟨h, hinv, hpast⟩ := run_inv hrun
  refine ⟨h, hinv, ?_⟩
  intro t ht
  rcases List.mem_append.mp ht with ht | ht
  · obtain ⟨p, hp, rfl⟩ := List.mem_map.mp ht
    exact hpast p hp
  · exact List.mem_singleton.mp ht ▸ ⟨h, le_rfl, hinv⟩

/-- What was chosen in round `round` is in the log adopted in every later
round `a.round`, or below it and applied. -/
theorem leader_completeness {n : Nat} (onApply : Nat → Bool) {tr : List (System × Event)}
    {s : System} (hrun : PaxosRun n onApply atomicSends tr s) {v : DecidedValue}
    {slot round : Nat} (hchosen : ChosenIn n (visited tr s) v slot round) {i : Nat} (hi : i < n)
    {a : Adoption} (ha : a ∈ (s.replicas i).adoptions) (hround : round < a.round) :
    (a.slot ≤ slot ∧ a.values[slot - a.slot]? = some v)
    ∨ (slot < a.slot ∧ ∃ p ∈ a.processed, p.slot = slot ∧ p.dv = v) := by
  obtain ⟨h, hinv, hpast⟩ := run_inv_visited (atomicSends_leaderSends hrun)
  obtain ⟨q, hq, hcard, hheld⟩ := hchosen
  have haccepted : ∀ j ∈ q, h.Accepted j round (slot + 1) ∧ (h.log round)[slot]? = some v := by
    intro j hj
    obtain ⟨t, ht, hholds⟩ := hheld j hj
    obtain ⟨h', hle, hinv'⟩ := hpast t ht
    have hf := (hinv'.replicas j (Finset.mem_range.mp (hq hj))).follows
    obtain ⟨hacc, hget⟩ := hf.accepted_of_holds hholds
    exact ⟨hacc.mono hle, getElem?_of_prefix (hle.log round) hget⟩
  have hc : h.Chosen (majorities n) round (slot + 1) :=
    ⟨q, ⟨hq, by simpa using hcard⟩, fun j hj => (haccepted j hj).1⟩
  obtain ⟨j, hj⟩ : q.Nonempty := Finset.card_pos.mp (by omega)
  have hok := (hinv.replicas i hi).follows.adoptions a ha
  obtain ⟨A, hA, hvalues, hprocessed⟩ := hok.adopted
  have hget : A[slot]? = some v := by
    refine getElem?_of_prefix (hc.take_le_adopted hinv.valid hround hA) ?_
    rw [List.getElem?_take_of_lt (Nat.lt_succ_self slot)]
    exact (haccepted j hj).2
  rcases Nat.lt_or_ge slot a.slot with hlt | hge
  · right
    have hk : slot < a.processed.length := hlt.trans_le hok.slot_le
    refine ⟨hlt, a.processed[slot], List.getElem_mem hk, ?_, ?_⟩
    · have hslot : (a.processed.map (·.slot))[slot]? = some a.processed[slot].slot := by
        simp [hk]
      rw [hok.slots, List.getElem?_range hk] at hslot
      exact (Option.some.inj hslot).symm
    · have hdv : (a.processed.map (·.dv))[slot]? = some a.processed[slot].dv := by simp [hk]
      rw [hprocessed, List.getElem?_take_of_lt hk, hget] at hdv
      exact (Option.some.inj hdv).symm
  · left
    refine ⟨hge, ?_⟩
    rw [hvalues, List.getElem?_drop, Nat.add_sub_cancel' hge]
    exact hget

/-- Replica 1 has the value of replica 0 when replica 2, which does not, is
elected. -/
def electedAfterChoice : List Event :=
  [.propose 0 (.swarmResume { serial := 1 }) 10, .resumeCall 0 0, .resumeCall 0 0,
   .deliver 0 11, .resumeRun 1, .timeout 2 600, .resumeRun 2, .resumeRun 2,
   .deliver 3 601, .resumeRun 1, .deliver 3 602]

def choice : DecidedValue :=
  { nowUnix := 10, serial := 1, req := .swarmResume { serial := 1 } }

def adoptionAfterChoice : Adoption := ⟨5, 0, [choice], []⟩

theorem leader_completeness_electedAfterChoice :
    (adoptionAfterChoice.slot ≤ 0
        ∧ adoptionAfterChoice.values[0 - adoptionAfterChoice.slot]? = some choice)
      ∨ (0 < adoptionAfterChoice.slot
        ∧ ∃ p ∈ adoptionAfterChoice.processed, p.slot = 0 ∧ p.dv = choice) :=
  leader_completeness (n := 3) (fun _ => true)
    (Runs.run_of_exec electedAfterChoice (by decide +kernel) (by decide +kernel))
    ⟨{0, 1}, by decide, by decide, by decide +kernel⟩ (i := 2) (by decide) (by decide +kernel)
    (show 0 < 5 by decide)

/-! ## Truncation -/

/-- Replica `i` is handed the PROPOSE `msg` and installs it. -/
def Accepts (s : System) (e : Event) (i : Nat) (msg : PaxosMessage) : Prop :=
  ∃ k now, e = .deliver k now ∧ s.network[k]? = some (i, msg)
    ∧ (s.replicas i).accepts i now msg

/-- No replica is left behind in the run that left the trace `tr` and ended
in `s`: `process_req` is called for the slots in order, `become_leader` has
nothing to skip, and an accepted PROPOSE neither leaves a gap nor ends below
the base of the log it is written to. -/
structure NeverStranded (n : Nat) (tr : List (System × Event)) (s : System) : Prop where
  inOrder : ∀ t ∈ visited tr s, ∀ i < n,
    (t.replicas i).processed.map (·.slot) = List.range (t.replicas i).appliedSlot
  noSkip : ∀ i < n, ∀ a ∈ (s.replicas i).adoptions,
    a.processed.map (·.slot) = List.range a.processed.length ∧ a.slot ≤ a.processed.length
  noGap : ∀ p ∈ tr, ∀ i msg, Accepts p.1 p.2 i msg → msg.slot ≤ (p.1.replicas i).logEnd
  aboveBase : ∀ p ∈ tr, ∀ i msg, Accepts p.1 p.2 i msg →
    (p.1.replicas i).ackRound < msg.round → (p.1.replicas i).logBase ≤ proposeEnd msg

/-- What an accepted PROPOSE carries, and what it is written to. -/
theorem Inv.accepts {n : Nat} {h : PaxosHistory} {s : System} (hinv : Inv n h s) {e : Event}
    {i : Nat} {msg : PaxosMessage} (ha : Accepts s e i msg) :
    i < n ∧ ProposeOk n h i msg ∧ (s.replicas i).ackRound ≤ msg.round
      ∧ (msg.round = (s.replicas i).ackRound → (s.replicas i).logEnd ≤ proposeEnd msg) := by
  obtain ⟨k, now, rfl, hk, htype, hround, -, hfresh⟩ := ha
  have hmem := List.mem_of_getElem? hk
  have hi : i < n := (hinv.votes.1.2 _ hmem).dest_lt
  have hok := hinv.packets _ hmem
  rw [PacketOk, htype] at hok
  refine ⟨hi, hok, ((hinv.replicas i hi).follows.ack_le hinv.valid).trans hround, ?_⟩
  intro heq
  simpa [staleProposal, heq] using hfresh

theorem never_stranded {n : Nat} (onApply : Nat → Bool) {tr : List (System × Event)}
    {s : System} (hrun : PaxosRun n onApply atomicSends tr s) : NeverStranded n tr s := by
  obtain ⟨h, hinv, hpast⟩ := run_inv_visited (atomicSends_leaderSends hrun)
  have hvisited : ∀ p ∈ tr, p.1 ∈ visited tr s := fun p hp =>
    List.mem_append_left _ (List.mem_map_of_mem hp)
  refine ⟨?_, ?_, ?_, ?_⟩
  · intro t ht i hi
    obtain ⟨h', -, hinv'⟩ := hpast t ht
    exact (hinv'.replicas i hi).follows.window.slots
  · intro i hi a ha
    have hok := (hinv.replicas i hi).follows.adoptions a ha
    exact ⟨hok.slots, hok.slot_le⟩
  · intro p hp i msg hacc
    obtain ⟨h', -, hinv'⟩ := hpast p.1 (hvisited p hp)
    obtain ⟨hi, hok, hround, -⟩ := hinv'.accepts hacc
    exact (hinv'.replicas i hi).follows.no_gap hinv'.valid hi hok hround
  · intro p hp i msg hacc hnew
    obtain ⟨h', -, hinv'⟩ := hpast p.1 (hvisited p hp)
    obtain ⟨hi, hok, hround, hfresh⟩ := hinv'.accepts hacc
    have hf := (hinv'.replicas i hi).follows
    exact hok.committed_le_end hinv'.valid hround hfresh
      (hf.base.committed (majorities_members hi)) (Nat.le_add_right _ _)

theorem never_stranded_electedAfterChoice :
    NeverStranded 3 ((initial 3 fun _ => true).trace 3 electedAfterChoice)
      (((initial 3 fun _ => true).exec 3 electedAfterChoice).get (by decide +kernel)) :=
  never_stranded (fun _ => true)
    (Runs.run_of_exec electedAfterChoice (by decide +kernel) (by decide +kernel))

end System

end Tmgr
