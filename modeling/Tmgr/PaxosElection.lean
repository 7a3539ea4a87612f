import Tmgr.PaxosWf

/-!
# Elections count voters

`become_leader` runs when `prepare_responses_` has reached the size of a
quorum, and never looks at who sent the responses. They come from different
replicas because every PROBE of a round is answered at most once: `tickets`
counts, for a round and a voter, the PROBE and PREPARE messages in flight,
and `Votes` says that together with the responses already collected there is
at most one. This holds in every run, under any schedule.
-/

namespace Tmgr

namespace PtPaxosReplica

/-- The packet can still become replica `j`'s response in round `R`. -/
def isTicket (R j : Nat) (p : Packet) : Bool :=
  p.2.round == R && ((p.2.type == .probe && p.1 == j) || (p.2.type == .prepare && p.2.sender == j))

def tickets (net : List Packet) (R j : Nat) : Nat := net.countP (isTicket R j)

def responsesOf (r : PtPaxosReplica) (j : Nat) : Nat :=
  r.prepareResponses.countP (·.sender == j)

/-- What the owner `i` of a round knows about its voters: each counts at most
once, nobody votes in a round not started yet, and a PROBE loop that stands
at `k` has asked only replicas below `k`. -/
structure Votes (i : Nat) (ticket : Nat → Nat → Nat) (n : Nat) (r : PtPaxosReplica) : Prop where
  once : ∀ j, ticket r.electionRound j + r.responsesOf j ≤ 1
  fresh : ∀ {R}, R % n = i → r.electionRound < R → ∀ j, ticket R j = 0
  probing : ∀ {k}, r.runFrame = .probing k → ∀ j, 0 < ticket r.electionRound j → j < k ∧ j ≠ i

variable {n i : Nat} {r r' : PtPaxosReplica} {ev : LocalEvent}
  {x : PtPaxosReplica × List Packet} {ticket ticket' : Nat → Nat → Nat}

/-! ## Tickets -/

theorem tickets_append (net net' : List Packet) (R j : Nat) :
    tickets (net ++ net') R j = tickets net R j + tickets net' R j :=
  List.countP_append

theorem tickets_perm {net net' : List Packet} (h : net.Perm net') (R j : Nat) :
    tickets net R j = tickets net' R j :=
  h.countP_eq _

@[simp] theorem tickets_nil (R j : Nat) : tickets [] R j = 0 := rfl

theorem tickets_propose {p : Packet} (h : p.2.type = .propose ∨ p.2.type = .ack) (R j : Nat) :
    tickets [p] R j = 0 := by
  rcases h with h | h <;> simp [tickets, isTicket, h]

theorem tickets_probeMsg (k R j : Nat) (r : PtPaxosReplica) :
    tickets [(k, r.probeMsg i)] R j = if R = r.electionRound ∧ j = k then 1 else 0 := by
  by_cases hR : r.electionRound = R
  · by_cases hj : k = j
    · simp [tickets, isTicket, probeMsg, hR, hj]
    · simp [tickets, isTicket, probeMsg, hR, hj, Ne.symm hj]
  · simp [tickets, isTicket, probeMsg, hR, Ne.symm hR]

theorem tickets_prepare {msg : PaxosMessage} (htype : msg.type = .prepare) (k R j : Nat) :
    tickets [(k, msg)] R j = if R = msg.round ∧ j = msg.sender then 1 else 0 := by
  by_cases hR : msg.round = R
  · by_cases hj : msg.sender = j
    · simp [tickets, isTicket, htype, hR, hj]
    · simp [tickets, isTicket, htype, hR, hj, Ne.symm hj]
  · simp [tickets, isTicket, hR, Ne.symm hR]

/-- The answer to a PROBE takes its place. -/
theorem tickets_prepareMsg {msg : PaxosMessage} (htype : msg.type = .probe) (k R j : Nat)
    (r : PtPaxosReplica) :
    tickets [(k, r.prepareMsg i msg.round)] R j = tickets [(i, msg)] R j := by
  simp [tickets, isTicket, prepareMsg, htype]

theorem runSendPropose_tickets (n i k : Nat) (r : PtPaxosReplica) (R j : Nat) :
    tickets (r.runSendPropose n i k).2 R j = 0 := by
  unfold runSendPropose
  split
  · exact tickets_propose (.inl rfl) R j
  · rfl

theorem callSendPropose_tickets (n i c k : Nat) (r : PtPaxosReplica) (R j : Nat) :
    tickets (r.callSendPropose n i c k).2 R j = 0 := by
  unfold callSendPropose
  split
  · exact tickets_propose (.inl rfl) R j
  · rfl

theorem becomeLeader_tickets (n i : Nat) (r : PtPaxosReplica) (R j : Nat) :
    tickets (r.becomeLeader n i).2 R j = 0 := by
  unfold becomeLeader
  split
  · exact runSendPropose_tickets n i 0 _ R j
  · rfl

/-- `start_election` sends tickets for its own round only. -/
theorem runProbe_tickets_of_ne {k R : Nat} (hR : R ≠ r.electionRound) (j : Nat) :
    tickets (r.runProbe n i k).2 R j = 0 := by
  unfold runProbe
  split
  · rw [tickets_probeMsg, if_neg fun h => hR h.1]
  · simp only
    split
    · exact becomeLeader_tickets n i _ R j
    · rfl

/-- A turn of replica `i` adds no ticket for a round of somebody else. -/
theorem Turn.tickets_le (ht : Turn n i r ev x) (hi : i < n) (hwf : Wf n i r) {R : Nat}
    (hR : R ≠ 0 → R % n ≠ i) (j : Nat) :
    tickets x.2 R j ≤ tickets (System.received i ev) R j := by
  cases ht with
  | @probe msg now hrecv htype =>
      exact (tickets_prepareMsg htype _ R j _).le
  | elect => exact (runSendPropose_tickets n i 0 _ R j).trans_le (Nat.zero_le _)
  | stale => exact (tickets_propose (.inr rfl) R j).trans_le (Nat.zero_le _)
  | accept => exact (tickets_propose (.inr rfl) R j).trans_le (Nat.zero_le _)
  | retransmit => exact (runSendPropose_tickets n i 0 _ R j).trans_le (Nat.zero_le _)
  | start hrecv hfollower =>
      refine (runProbe_tickets_of_ne ?_ j).trans_le (Nat.zero_le _)
      intro h
      have hmod : R % n = i := h ▸ pickRound_mod hi r
      have hpos : R ≠ 0 := h ▸ Nat.ne_of_gt (Nat.zero_lt_of_lt (lt_pickRound hi r))
      exact hR hpos hmod
  | append => exact (callSendPropose_tickets n i _ 0 _ R j).trans_le (Nat.zero_le _)
  | probing hframe =>
      obtain ⟨-, -, hne, -⟩ := hwf.probing hframe
      refine (runProbe_tickets_of_ne ?_ j).trans_le (Nat.zero_le _)
      intro h
      exact hR (h ▸ hne) (h ▸ hwf.election_owner hne)
  | proposing => exact (runSendPropose_tickets n i _ _ R j).trans_le (Nat.zero_le _)
  | sending => exact (callSendPropose_tickets n i _ _ _ R j).trans_le (Nat.zero_le _)
  | _ => exact Nat.zero_le _

/-! ## Votes -/

/-- Only the tickets for the election's own round and for rounds still to
come matter. -/
theorem Votes.anti (h : Votes i ticket n r)
    (hle : ∀ R j, R = r.electionRound ∨ R % n = i → ticket' R j ≤ ticket R j) :
    Votes i ticket' n r where
  once j := (Nat.add_le_add_right (hle _ j (.inl rfl)) _).trans (h.once j)
  fresh hR hlt j := Nat.eq_zero_of_le_zero ((hle _ j (.inr hR)).trans (h.fresh hR hlt j).le)
  probing hf j hj := h.probing hf j (hj.trans_le (hle _ j (.inl rfl)))

/-- A turn that leaves the election alone. -/
theorem Votes.congr (h : Votes i ticket n r) (hround : r'.electionRound = r.electionRound)
    (hresp : r'.prepareResponses = r.prepareResponses)
    (hframe : ∀ {k}, r'.runFrame = .probing k → r.runFrame = .probing k) :
    Votes i ticket n r' where
  once j := by
    have := h.once j
    rwa [responsesOf, hround, hresp]
  fresh hR hlt := h.fresh hR (hround ▸ hlt)
  probing hf := hround ▸ h.probing (hframe hf)

theorem runSendPropose_election (n i k : Nat) (r : PtPaxosReplica) :
    (r.runSendPropose n i k).1.electionRound = r.electionRound
    ∧ (r.runSendPropose n i k).1.prepareResponses = r.prepareResponses
    ∧ ∀ {k'}, (r.runSendPropose n i k).1.runFrame ≠ .probing k' := by
  unfold runSendPropose
  split
  · exact ⟨rfl, rfl, nofun⟩
  · exact ⟨applyDecided_electionRound n i r, applyDecided_prepareResponses n i r, nofun⟩

theorem adopt_election (i : Nat) (best : PaxosMessage) (r : PtPaxosReplica) :
    (r.adopt i best).electionRound = r.electionRound
    ∧ (r.adopt i best).prepareResponses = r.prepareResponses :=
  ⟨catchUp_same (f := (·.electionRound)) (fun _ _ => rfl) best r,
    catchUp_same (f := (·.prepareResponses)) (fun _ _ => rfl) best r⟩

theorem Votes.runSendPropose (h : Votes i ticket n r) (k : Nat) :
    Votes i ticket n (r.runSendPropose n i k).1 := by
  obtain ⟨hround, hresp, hframe⟩ := runSendPropose_election n i k r
  exact h.congr hround hresp fun hf => absurd hf hframe

theorem Votes.applyDecided (h : Votes i ticket n r) : Votes i ticket n (r.applyDecided n i) :=
  h.congr (applyDecided_electionRound n i r) (applyDecided_prepareResponses n i r)
    fun hf => applyDecided_runFrame n i r ▸ hf

theorem Votes.callSendPropose (h : Votes i ticket n r) (c k : Nat) :
    Votes i ticket n (r.callSendPropose n i c k).1 :=
  callSendPropose_induct (P := Votes i ticket n) h (fun h => h.applyDecided)
    (fun _ _ _ h => h.congr rfl rfl id) c k

theorem Votes.handleAck (h : Votes i ticket n r) (msg : PaxosMessage) :
    Votes i ticket n (r.handleAck n i msg) := by
  have hrecord : Votes i ticket n (r.recordAck msg) :=
    h.congr (recordAck_same (f := (·.electionRound)) (fun _ _ => rfl) msg r)
      (recordAck_same (f := (·.prepareResponses)) (fun _ _ => rfl) msg r)
      fun hf => (recordAck_same (f := (·.runFrame)) (fun _ _ => rfl) msg r).symm.trans hf
  exact hrecord.applyDecided

theorem Votes.adopt (h : Votes i ticket n r) (hrecv : r.runFrame = .receiving)
    (best : PaxosMessage) : Votes i ticket n (r.adopt i best) := by
  obtain ⟨hround, hresp⟩ := adopt_election i best r
  have hframe : (r.adopt i best).runFrame = .receiving :=
    (catchUp_same (f := (·.runFrame)) (fun _ _ => rfl) best r).trans hrecv
  exact h.congr hround hresp fun hf => by simp [hframe] at hf

theorem Votes.becomeLeader (h : Votes i ticket n r) (hrecv : r.runFrame = .receiving) :
    Votes i ticket n (r.becomeLeader n i).1 := by
  unfold PtPaxosReplica.becomeLeader
  split
  · exact (h.adopt hrecv _).runSendPropose 0
  · exact h

/-- A response takes the place of a ticket. -/
theorem Votes.addResponse {msg : PaxosMessage} (h : Votes i ticket n r)
    (hle : ∀ R j, ticket' R j + (if R = r.electionRound ∧ j = msg.sender then 1 else 0)
      ≤ ticket R j) : Votes i ticket' n (r.addResponse msg) where
  once j := by
    have hj := h.once j
    have hlej := hle r.electionRound j
    have hresp : (r.addResponse msg).responsesOf j
        = r.responsesOf j + if j = msg.sender then 1 else 0 := by
      by_cases hs : msg.sender = j
      · simp [responsesOf, PtPaxosReplica.addResponse, List.countP_append, hs]
      · simp [responsesOf, PtPaxosReplica.addResponse, List.countP_append, hs, Ne.symm hs]
    show ticket' r.electionRound j + _ ≤ 1
    simp only [true_and] at hlej
    omega
  fresh {R} hR hlt j := by
    have := h.fresh hR hlt j
    have hlej := hle R j
    omega
  probing hf := by cases hf

/-- A PREPARE for the own election is delivered. -/
theorem Votes.vote {msg : PaxosMessage} (htype : msg.type = .prepare)
    (helection : msg.round = r.electionRound)
    (h : Votes i (fun R j => tickets [(i, msg)] R j + ticket R j) n r) :
    Votes i (fun R j => ticket R j + tickets [] R j) n (r.addResponse msg) := by
  refine h.addResponse ?_
  intro R j
  rw [← helection, tickets_prepare htype, tickets_nil]
  omega

/-- The PROBE loop: it asks the next replica, or ends with the candidate's
own response. -/
theorem Votes.runProbe (hnil : r.prepareResponses = []) {k : Nat}
    (hbelow : ∀ j, ticket r.electionRound j ≤ 1
      ∧ (0 < ticket r.electionRound j → j < k ∧ j ≠ i))
    (hfresh : ∀ {R}, R % n = i → r.electionRound < R → ∀ j, ticket R j = 0) :
    Votes i (fun R j => ticket R j + tickets (r.runProbe n i k).2 R j) n
      (r.runProbe n i k).1 := by
  have hempty : ∀ j, r.responsesOf j = 0 := fun j => by simp [responsesOf, hnil]
  unfold PtPaxosReplica.runProbe
  split
  · rename_i p hp
    obtain ⟨-, hpi, hkp⟩ := nextPeer_eq_some hp
    refine ⟨?_, fun {R} hR hlt j => ?_, fun {k'} hf j hj => ?_⟩
    · intro j
      obtain ⟨hone, hlt⟩ := hbelow j
      have hj : responsesOf { r with runFrame := RunFrame.probing (p + 1) } j = 0 := hempty j
      simp only [tickets_probeMsg, true_and, hj]
      split <;> omega
    · have := hfresh hR hlt j
      have hne : R ≠ r.electionRound := Nat.ne_of_gt hlt
      simp [tickets_probeMsg, this, hne]
    · obtain rfl : p + 1 = k' := RunFrame.probing.inj hf
      obtain ⟨-, hlt⟩ := hbelow j
      simp only [tickets_probeMsg, true_and] at hj
      split at hj
      · omega
      · have := hlt hj
        omega
  · -- nobody has been asked twice, and the candidate itself not at all
    have hself : ticket r.electionRound i = 0 := by
      by_contra hne
      exact ((hbelow i).2 (Nat.pos_of_ne_zero hne)).2 rfl
    have hadd : Votes i ticket n (r.addResponse (r.prepareMsg i r.electionRound)) :=
      { once := fun j => by
          have hone := (hbelow j).1
          have hcount : (r.addResponse (r.prepareMsg i r.electionRound)).responsesOf j
              = if i = j then 1 else 0 := by
            by_cases hij : i = j <;>
              simp [responsesOf, PtPaxosReplica.addResponse, hnil, prepareMsg, hij]
          show ticket r.electionRound j + _ ≤ 1
          rw [hcount]
          split
          · rename_i hij
            subst hij
            omega
          · omega
        fresh := hfresh
        probing := fun hf => by cases hf }
    simp only
    split
    · refine (hadd.becomeLeader rfl).anti ?_
      intro R j _
      rw [becomeLeader_tickets]
      exact le_rfl
    · exact hadd

/-- A turn keeps the votes of its own replica; `ticket` counts those among
the packets that stay in flight. -/
theorem Turn.votes (ht : Turn n i r ev x) (hi : i < n) (hwf : Wf n i r)
    (h : Votes i (fun R j => tickets (System.received i ev) R j + ticket R j) n r) :
    Votes i (fun R j => ticket R j + tickets x.2 R j) n x.1 := by
  have hdown : ∀ msg now, Votes i (fun R j => tickets (System.received i ev) R j
      + ticket R j) n (r.stepDown now msg) := fun msg now =>
    h.congr (stepDown_electionRound now msg r) (stepDown_prepareResponses now msg r)
      fun {k} hf => stepDown_runFrame now msg r ▸ hf
  have hquiet : ∀ {r' : PtPaxosReplica} {out : List Packet},
      Votes i (fun R j => tickets (System.received i ev) R j + ticket R j) n r' →
      (∀ R j, tickets out R j ≤ tickets (System.received i ev) R j) →
      Votes i (fun R j => ticket R j + tickets out R j) n r' := by
    intro r' out hv hout
    exact hv.anti fun R j _ => by
      have := hout R j
      omega
  have hsilent : ∀ {r' : PtPaxosReplica} {out : List Packet},
      Votes i (fun R j => tickets (System.received i ev) R j + ticket R j) n r' →
      (∀ R j, tickets out R j = 0) →
      Votes i (fun R j => ticket R j + tickets out R j) n r' := fun hv hout =>
    hquiet hv fun R j => (hout R j).trans_le (Nat.zero_le _)
  cases ht with
  | ignore => exact hsilent (hdown _ _) tickets_nil
  | @probe msg now hrecv htype =>
      refine hquiet ((hdown msg now).congr rfl rfl fun hf => by cases hf) ?_
      intro R j
      exact (tickets_prepareMsg htype _ R j _).le
  | @vote msg now hrecv htype hround helection =>
      exact (hdown msg now).vote htype (helection.trans (stepDown_electionRound now msg r).symm)
  | @elect msg best now hrecv htype hround helection =>
      have hadd := (hdown msg now).vote htype
        (helection.trans (stepDown_electionRound now msg r).symm)
      refine ((hadd.adopt rfl best).runSendPropose 0).anti ?_
      intro R j _
      rw [runSendPropose_tickets]
      exact le_rfl
  | @ack msg now => exact hsilent ((hdown msg now).handleAck msg) tickets_nil
  | @stale msg now =>
      exact hsilent ((hdown msg now).congr rfl rfl fun hf => by cases hf)
        (tickets_propose (.inr rfl))
  | @accept msg now =>
      refine hsilent ((hdown msg now).congr ?_ ?_ fun hf => by cases hf)
        (tickets_propose (.inr rfl))
      · exact acceptPropose_same (f := (·.electionRound)) n i (fun _ _ => rfl)
          (fun _ _ _ _ _ _ _ => rfl) now msg _
      · exact acceptPropose_same (f := (·.prepareResponses)) n i (fun _ _ => rfl)
          (fun _ _ _ _ _ _ _ => rfl) now msg _
  | quiet => exact hsilent h tickets_nil
  | retransmit => exact hsilent (h.runSendPropose 0) (runSendPropose_tickets n i 0 r)
  | start hrecv hfollower =>
      -- the new round is fresh
      have hmod := pickRound_mod hi r
      have hlt := hwf.election_le.trans_lt (lt_pickRound hi r)
      refine Votes.runProbe rfl ?_ (fun {R} hR hltR j => ?_)
      · intro j
        have := h.fresh hmod hlt j
        have hzero : ticket (r.pickRound n i).electionRound j = 0 := by
          show ticket (r.probeRound + n - r.probeRound % n + i) j = 0
          omega
        omega
      · have := h.fresh hR (hlt.trans hltR) j
        omega
  | refuse => exact hsilent (h.congr rfl rfl id) tickets_nil
  | @append req nowUnix =>
      have happend : Votes i _ n (r.appendCall i nowUnix req) := h.congr rfl rfl id
      exact hsilent (happend.callSendPropose _ 0) (callSendPropose_tickets n i _ 0 _)
  | replied => exact hsilent (h.congr rfl rfl fun hf => by cases hf) tickets_nil
  | probing hframe =>
      obtain ⟨-, -, -, hnil⟩ := hwf.probing hframe
      refine Votes.runProbe hnil (fun j => ⟨?_, fun hj => h.probing hframe j (by
        show 0 < tickets [] _ _ + ticket r.electionRound j
        omega)⟩) (fun {R} hR hlt j => ?_)
      · have := h.once j
        omega
      · have := h.fresh hR hlt j
        omega
  | proposing => exact hsilent (h.runSendPropose _) (runSendPropose_tickets n i _ r)
  | sending => exact hsilent (h.callSendPropose _ _) (callSendPropose_tickets n i _ _ r)
  | finish =>
      exact hsilent (finishCall_induct (P := Votes i _ n) h (fun _ _ => h.congr rfl rfl id) _)
        tickets_nil

/-- The responses come from different replicas. -/
theorem Votes.senders_nodup (h : Votes i ticket n r) :
    (r.prepareResponses.map (·.sender)).Nodup := by
  rw [List.nodup_iff_count_le_one]
  intro j
  have hj := h.once j
  have hcount : (r.prepareResponses.map (·.sender)).count j = r.responsesOf j := by
    rw [List.count, List.countP_map]
    rfl
  omega

end PtPaxosReplica

namespace System

open PtPaxosReplica

/-- Every voter counts at most once. -/
def GroupVotes (n : Nat) (s : System) : Prop :=
  s.GroupWf n ∧ ∀ i < n, Votes i (tickets s.network) n (s.replicas i)

theorem initial_groupVotes (n : Nat) (onApply : Nat → Bool) :
    GroupVotes n (initial n onApply) :=
  ⟨initial_groupWf n onApply, fun i hi =>
    ⟨fun j => by simp [initial, responsesOf, PtPaxosReplica.initial],
      fun _ _ j => by simp [initial], nofun⟩⟩

theorem GroupVotes.step {n : Nat} {s s' : System} {e : Event} (h : s.GroupVotes n)
    (hstep : s.step n e = some s') : s'.GroupVotes n := by
  obtain ⟨hwf, hvotes⟩ := h
  refine ⟨hwf.step hstep, ?_⟩
  intro j hj
  rcases step_cases hstep with ⟨k, p, -, hperm, hsame⟩ | ⟨i, ev, rest, x, hi, htarget, hlocal,
    rfl⟩
  · rw [hsame]
    refine (hvotes j hj).anti ?_
    intro R v _
    rw [tickets_perm hperm, ← List.singleton_append, tickets_append]
    omega
  · have ht := localStep_turn hlocal
    have hperm := fun R v => (tickets_perm (target_perm htarget) R v).trans
      (tickets_append (received i ev) rest R v)
    have hout := fun R v => tickets_append rest x.2 R v
    by_cases hji : j = i
    · subst hji
      have hbefore : Votes j (fun R v => tickets (received j ev) R v + tickets rest R v) n
          (s.replicas j) := (hvotes j hj).anti fun R v _ => (hperm R v).ge
      simpa using (ht.votes hj (hwf.1 j hj) hbefore).anti fun R v _ => (hout R v).le
    · simp only [Function.update_of_ne hji]
      refine (hvotes j hj).anti ?_
      intro R v hR
      have hother : R ≠ 0 → R % n ≠ i := by
        intro hne hmod
        rcases hR with rfl | hR
        · exact hji (((hwf.1 j hj).election_owner hne).symm.trans hmod)
        · exact hji (hR.symm.trans hmod)
      have hle := ht.tickets_le hi (hwf.1 i hi) hother v
      have := hperm R v
      have := hout R v
      omega

end System

end Tmgr
