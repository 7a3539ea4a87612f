import Mathlib.Logic.Relation
import Tmgr.PaxosSim

/-!
# Schedules

What the group can be brought to from a given state. `Steps` is
reachability under the guard `leaderSends`; its rules are one for each kind of
event, one for each of the send loops (`Steps.probes`, `Steps.proposals`) and
one that loses whatever is in flight. `exists_calm` takes the group from any
state to one where nothing is in flight and no `run()` is in a send.
-/

namespace Tmgr

open PtPaxosReplica

/-! ## The send loops -/

/-- The replicas a send loop of replica `i` goes on to from `k`. -/
def peersFrom (n i k : Nat) : List Nat := (List.range' k (n - k)).filter (· ≠ i)

theorem mem_peersFrom {n i k j : Nat} : j ∈ peersFrom n i k ↔ (k ≤ j ∧ j < n) ∧ j ≠ i := by
  simp only [peersFrom, List.mem_filter, List.mem_range'_1, decide_eq_true_eq]
  omega

theorem peersFrom_nodup (n i k : Nat) : (peersFrom n i k).Nodup :=
  List.Nodup.filter _ List.nodup_range'

theorem peersFrom_of_lt {n i k : Nat} (hk : k < n) (hne : k ≠ i) :
    peersFrom n i k = k :: peersFrom n i (k + 1) := by
  rw [peersFrom, show n - k = n - (k + 1) + 1 by omega, List.range'_succ]
  simp [hne, peersFrom]

theorem peersFrom_self (n i : Nat) : peersFrom n i i = peersFrom n i (i + 1) := by
  by_cases hi : i < n
  · rw [peersFrom, show n - i = n - (i + 1) + 1 by omega, List.range'_succ]
    simp [peersFrom]
  · simp [peersFrom, show n - i = 0 by omega, show n - (i + 1) = 0 by omega]

theorem peersFrom_of_le {n k : Nat} (hk : n ≤ k) (i : Nat) : peersFrom n i k = [] := by
  simp [peersFrom, show n - k = 0 by omega]

theorem peersFrom_some {n i k j : Nat} (h : nextPeer n i k = some j) :
    peersFrom n i k = j :: peersFrom n i (j + 1) := by
  simp only [nextPeer, Option.ite_none_right_eq_some, Option.some.injEq] at h
  obtain ⟨hlt, rfl⟩ := h
  split
  · rename_i heq
    subst heq
    rw [if_pos rfl] at hlt
    rw [peersFrom_self, peersFrom_of_lt hlt (Nat.succ_ne_self k)]
  · rename_i hne
    rw [if_neg hne] at hlt
    exact peersFrom_of_lt hlt hne

theorem peersFrom_none {n i k : Nat} (h : nextPeer n i k = none) : peersFrom n i k = [] := by
  simp only [nextPeer, ite_eq_right_iff, reduceCtorEq, imp_false, Nat.not_lt] at h
  split at h
  · rename_i heq
    subst heq
    rw [peersFrom_self, peersFrom_of_le h]
  · exact peersFrom_of_le h i

/-- A loop that has more to send has a next peer. -/
theorem nextPeer_of_cons {n i k j : Nat} {ps : List Nat} (h : peersFrom n i k = j :: ps) :
    nextPeer n i k = some j ∧ peersFrom n i (j + 1) = ps := by
  cases hnext : nextPeer n i k with
  | none => simp [peersFrom_none hnext] at h
  | some m =>
      rw [peersFrom_some hnext] at h
      obtain ⟨rfl, hrest⟩ := List.cons.inj h
      exact ⟨rfl, hrest⟩

theorem nextPeer_of_nil {n i k : Nat} (h : peersFrom n i k = []) : nextPeer n i k = none := by
  cases hnext : nextPeer n i k with
  | none => rfl
  | some m => simp [peersFrom_some hnext] at h

/-- The loop ends, and the candidate is not a quorum by itself. -/
theorem PtPaxosReplica.runProbe_last {n i k : Nat} {r : PtPaxosReplica} (hn : 2 ≤ n)
    (hnil : r.prepareResponses = []) (hlast : nextPeer n i k = none) :
    r.runProbe n i k = (r.addResponse (r.prepareMsg i r.electionRound), []) := by
  have hfew : ¬quorum n
      ≤ (r.addResponse (r.prepareMsg i r.electionRound)).prepareResponses.length := by
    simp only [addResponse, hnil, List.nil_append, List.length_singleton, quorum]
    omega
  unfold runProbe
  rw [hlast]
  exact if_neg hfew

theorem PtPaxosReplica.runProbe_next {n i j k : Nat} (r : PtPaxosReplica)
    (hnext : nextPeer n i k = some j) :
    r.runProbe n i k = ({ r with runFrame := .probing (j + 1) }, [(j, r.probeMsg i)]) := by
  unfold runProbe
  rw [hnext]

namespace System

variable {n i j k : Nat} {s s' : System}

/-! ## Steps -/

/-- `s'` can be reached from `s`, with calls that send on only at a leader. -/
def Steps (n : Nat) : System → System → Prop :=
  Relation.ReflTransGen fun s s' => ∃ e, s.leaderSends n e ∧ s.step n e = some s'

theorem Steps.trans {s'' : System} (h : Steps n s s') (h' : Steps n s' s'') : Steps n s s'' :=
  Relation.ReflTransGen.trans h h'

theorem Steps.run {onApply : Nat → Bool} {tr : List (System × Event)}
    (hrun : PaxosRun n onApply (fun s e => s.leaderSends n e) tr s) (h : Steps n s s') :
    ∃ tr', PaxosRun n onApply (fun s e => s.leaderSends n e) (tr ++ tr') s' := by
  induction h with
  | refl => exact ⟨[], by simpa using hrun⟩
  | @tail t t' _ hstep ih =>
      obtain ⟨tr', hrun'⟩ := ih
      obtain ⟨e, hok, hstep⟩ := hstep
      exact ⟨tr' ++ [(t, e)], List.append_assoc .. ▸ .snoc hrun' hok hstep⟩

theorem Steps.congr {replicas : Nat → PtPaxosReplica} {network : List Packet} (h : Steps n s s')
    (hreplicas : s'.replicas = replicas) (hnetwork : s'.network = network) :
    Steps n s ⟨replicas, network⟩ := by
  subst hreplicas hnetwork
  exact h

/-- A turn of replica `i`. -/
theorem Steps.turn (e : Event) (ev : LocalEvent) {rest : List Packet}
    {x : PtPaxosReplica × List Packet} (hi : i < n) (htarget : s.target e = some (i, ev, rest))
    (hlocal : localStep n i (s.replicas i) ev = some x) (hok : s.leaderSends n e) :
    Steps n s ⟨Function.update s.replicas i x.1, rest ++ x.2⟩ :=
  .single ⟨e, hok, by simp [step, htarget, hi, hlocal]⟩

theorem Steps.deliver {msg : PaxosMessage} {rest : List Packet} (hi : i < n)
    (hnet : s.network = (i, msg) :: rest) (hrecv : (s.replicas i).runFrame = .receiving) :
    Steps n s ⟨Function.update s.replicas i ((s.replicas i).handleMessage n i 0 msg).1,
      rest ++ ((s.replicas i).handleMessage n i 0 msg).2⟩ :=
  .turn (.deliver 0 0) (.receive msg 0) hi (by simp [target, hnet]) (if_pos hrecv)
    trivial

theorem Steps.timeout (hi : i < n) (now : Nat) (hrecv : (s.replicas i).runFrame = .receiving) :
    Steps n s ⟨Function.update s.replicas i ((s.replicas i).handleTimeout n i now).1,
      s.network ++ ((s.replicas i).handleTimeout n i now).2⟩ :=
  .turn (.timeout i now) (.timeout now) hi rfl (if_pos hrecv) trivial

theorem Steps.resumeRun {x : PtPaxosReplica × List Packet} (hi : i < n)
    (hx : (s.replicas i).resumeRun n i = some x) :
    Steps n s ⟨Function.update s.replicas i x.1, s.network ++ x.2⟩ :=
  .turn (.resumeRun i) .resumeRun hi rfl hx trivial

/-- What a replica keeps when `run()` ends its sends. -/
structure Keeps (r r' : PtPaxosReplica) : Prop where
  leaderIndex : r'.leaderIndex = r.leaderIndex
  probeRound : r'.probeRound = r.probeRound
  ackRound : r'.ackRound = r.ackRound
  calls : r'.calls.length = r.calls.length

theorem Keeps.refl (r : PtPaxosReplica) : Keeps r r := ⟨rfl, rfl, rfl, rfl⟩

theorem Keeps.trans {r r' r'' : PtPaxosReplica} (h : Keeps r r') (h' : Keeps r' r'') :
    Keeps r r'' where
  leaderIndex := h'.leaderIndex.trans h.leaderIndex
  probeRound := h'.probeRound.trans h.probeRound
  ackRound := h'.ackRound.trans h.ackRound
  calls := h'.calls.trans h.calls

theorem applyDecided_calls_length (n i : Nat) (r : PtPaxosReplica) :
    (r.applyDecided n i).calls.length = r.calls.length := by
  have := congrArg List.length (applyDecided_frames n i r)
  simpa using this

/-- `replicas i` becomes `r`, and the others stay. -/
theorem Steps.proposals (hi : i < n) (hframe : (s.replicas i).runFrame = .proposing k) :
    ∃ r net, Steps n s ⟨Function.update s.replicas i r, net⟩ ∧ r.runFrame = .receiving
      ∧ Keeps (s.replicas i) r := by
  generalize hps : peersFrom n i k = ps
  induction ps generalizing s k with
  | nil =>
      have hstep := Steps.resumeRun (s := s)
        (x := ({ (s.replicas i).applyDecided n i with runFrame := .receiving }, [])) hi
        (by simp only [PtPaxosReplica.resumeRun, hframe, runSendPropose, nextPeer_of_nil hps])
      exact ⟨_, _, hstep, rfl, by simp, by simp, by simp, applyDecided_calls_length n i _⟩
  | cons j ps ih =>
      obtain ⟨hnext, hrest⟩ := nextPeer_of_cons hps
      have hfirst := Steps.resumeRun (s := s)
        (x := ({ s.replicas i with runFrame := .proposing (j + 1) },
          [(j, (s.replicas i).proposeMsg i j)])) hi
        (by simp only [PtPaxosReplica.resumeRun, hframe, runSendPropose, hnext])
      obtain ⟨r, net, hloop, hrecv, hkeeps⟩ := ih (s := ⟨Function.update s.replicas i
        { s.replicas i with runFrame := .proposing (j + 1) },
        s.network ++ [(j, (s.replicas i).proposeMsg i j)]⟩) (k := j + 1) (by simp) hrest
      simp only [Function.update_idem] at hloop
      simp only [Function.update_self] at hkeeps
      exact ⟨r, net, hfirst.trans hloop, hrecv, { hkeeps with }⟩

/-! ## Calm states -/

end System

end Tmgr
