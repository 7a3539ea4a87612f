import Tmgr.Lib.LogPaxos
import Tmgr.PaxosElection
import Tmgr.PaxosSchedule

/-!
# The replicas follow one history

The simulation between the replicas and `LogPaxos.History`. A replica's log
is a window into the log of its round, what it has applied is a prefix of
that log, and each of its counters is a fact of the history: `log_base_` is
settled, `decided_slot_` is committed, an entry of `follower_ack_slot_` is
reached.

- `Follows`: what holds of every replica;
- `Leads`: what holds in addition of the current leader of a round;
- `Stands`: the state of an election, with the logs reported to it;
- `PacketOk`: what a message in flight says about the history.

The history only grows, and a turn of replica `i` changes it only by what `i`
does (`ChangedBy`); everything above is kept by that (`Follows.mono` and so
on), so that a step has to be checked at the acting replica only.
-/

namespace Tmgr

open LogPaxos

abbrev PaxosHistory := History Nat DecidedValue

/-- Majorities of the replicas `0, …, n - 1`. -/
def majorities (n : Nat) : QuorumSystem Nat := QuorumSystem.majority (Finset.range n)

theorem mem_majorities {n i : Nat} : i ∈ (majorities n).members ↔ i < n :=
  Finset.mem_range

theorem majorities_members {n i : Nat} (hi : i < n) :
    (majorities n).IsQuorum (majorities n).members :=
  QuorumSystem.majority_members (by
    rw [Finset.card_range]
    exact Nat.zero_lt_of_lt hi)

/-- A turn of replica `i` changes the history by what `i` does. -/
abbrev ChangedBy (n i : Nat) (h h' : PaxosHistory) : Prop :=
  History.ChangedBy (· % n) i h h'

namespace PtPaxosReplica

/-! ## The invariant -/

/-- One adoption: the log of its round is what was adopted, and by then the
replica had applied everything below the part it took over. -/
structure AdoptionOk (h : PaxosHistory) (a : Adoption) : Prop where
  adopted : ∃ A, h.adopted a.round = some A ∧ a.values = A.drop a.slot
    ∧ a.processed.map (·.dv) = A.take a.processed.length
  slots : a.processed.map (·.slot) = List.range a.processed.length
  slot_le : a.slot ≤ a.processed.length

/-- The replica's log is a window into `L`, and it has called `process_req`
for the first entries of `L`, in order. -/
structure Window (L : List DecidedValue) (r : PtPaxosReplica) : Prop where
  log : r.log = (L.take r.logEnd).drop r.logBase
  base_le : r.logBase ≤ r.appliedSlot
  values : r.processed.map (·.dv) = L.take r.appliedSlot
  slots : r.processed.map (·.slot) = List.range r.appliedSlot

structure Follows (n : Nat) (h : PaxosHistory) (i : Nat) (r : PtPaxosReplica) : Prop where
  promised : h.promised i = r.probeRound
  accepted : h.accepted i r.ackRound = some r.logEnd
  last : ∀ q, r.ackRound < q → h.accepted i q = none
  window : Window (h.log r.ackRound) r
  base : h.Settled (majorities n) r.ackRound r.logBase
  decided : h.Committed (majorities n) r.ackRound r.decidedSlot
  decided_le : r.decidedSlot ≤ r.logEnd
  applied_le : r.appliedSlot ≤ r.decidedSlot
  acks : h.Committed (majorities n) r.ackRound (Rank.rank r.followerAckSlot (quorum n))
  acks_le : Rank.rank r.followerAckSlot (quorum n) ≤ r.logEnd
  adoptions : ∀ a ∈ r.adoptions, AdoptionOk h a

/-- The leader holds all of its round's log and knows how far the others
are. -/
structure Leads (n : Nat) (h : PaxosHistory) (r : PtPaxosReplica) : Prop where
  round : r.ackRound = r.probeRound
  log_length : (h.log r.ackRound).length = r.logEnd
  reached : ∀ j < n, h.Reached (majorities n) j r.ackRound (r.followerAckSlot.getD j 0)

/-- A PREPARE reports the log its sender had accepted when it promised the
round, and nothing later. -/
structure Report (n : Nat) (h : PaxosHistory) (R : Nat) (p : PaxosMessage) : Prop where
  promised : R ≤ h.promised p.sender
  round_lt : p.ackRound < R
  accepted : h.accepted p.sender p.ackRound = some p.ackSlot
  last : ∀ q, p.ackRound < q → q < R → h.accepted p.sender q = none
  values : p.values = ((h.log p.ackRound).take p.ackSlot).drop p.slot
  slot_le : p.slot ≤ p.ackSlot
  base : h.Settled (majorities n) p.ackRound p.slot

/-- Once the round is open nobody reads its reports any more. -/
def ReportOk (n : Nat) (h : PaxosHistory) (R : Nat) (p : PaxosMessage) : Prop :=
  p.sender < n ∧ (h.Opened R ∨ Report n h R p)

/-- Rounds of its own that the replica has opened are elections it has
completed. -/
structure Stands (n : Nat) (h : PaxosHistory) (i : Nat) (r : PtPaxosReplica) : Prop where
  opened : ∀ {R}, R ≠ 0 → R % n = i → h.Opened R →
    R ≤ r.electionRound ∧ (R = r.electionRound → quorum n ≤ r.prepareResponses.length)
  responses : ∀ p ∈ r.prepareResponses, ReportOk n h r.electionRound p

structure ReplicaInv (n : Nat) (h : PaxosHistory) (i : Nat) (r : PtPaxosReplica) : Prop where
  follows : Follows n h i r
  leads : i = r.leaderIndex → Leads n h r
  stands : Stands n h i r

/-- A PROPOSE to replica `j` carries a part of its round's log that starts
where `j` has already been. -/
structure ProposeOk (n : Nat) (h : PaxosHistory) (j : Nat) (m : PaxosMessage) : Prop where
  values : m.values = ((h.log m.round).take (proposeEnd m)).drop m.slot
  end_ge : ∃ A, h.adopted m.round = some A ∧ A.length ≤ proposeEnd m
  end_le : proposeEnd m ≤ (h.log m.round).length
  reached : h.Reached (majorities n) j m.round m.slot
  decided : h.Committed (majorities n) m.round m.decidedSlot
  decided_le : m.decidedSlot ≤ proposeEnd m
  truncation : h.Settled (majorities n) m.round m.truncationSlot

def PacketOk (n : Nat) (h : PaxosHistory) (p : Packet) : Prop :=
  match p.2.type with
  | .propose => ProposeOk n h p.1 p.2
  | .ack => h.Accepted p.2.sender p.2.round p.2.ackSlot
  | .probe => True
  | .prepare => ReportOk n h p.2.round p.2

variable {n i j : Nat} {h h' : PaxosHistory} {r : PtPaxosReplica}

/-! ## What grows with the history -/

/-- The part of a log that is there does not change. -/
theorem take_log {R k : Nat} (hle : h ≤ h') (hk : k ≤ (h.log R).length) :
    (h'.log R).take k = (h.log R).take k := by
  obtain ⟨t, ht⟩ := hle.log R
  rw [← ht, List.take_append_of_le_length hk]

theorem Follows.end_le (hf : Follows n h i r) (hv : h.Valid (majorities n)) :
    r.logEnd ≤ (h.log r.ackRound).length :=
  (hv.accepted_spec hf.accepted).2.1

theorem Follows.opened (hf : Follows n h i r) (hv : h.Valid (majorities n)) :
    h.Opened r.ackRound :=
  hv.opened_of_accepted ⟨_, hf.accepted, le_rfl⟩

theorem Follows.ack_le (hf : Follows n h i r) (hv : h.Valid (majorities n)) :
    r.ackRound ≤ r.probeRound :=
  hf.promised ▸ (hv.accepted_spec hf.accepted).1

theorem AdoptionOk.mono {a : Adoption} (ha : AdoptionOk h a) (hle : h ≤ h') :
    AdoptionOk h' a := by
  obtain ⟨A, hA, hrest⟩ := ha.adopted
  exact ⟨⟨A, hle.adopted hA, hrest⟩, ha.slots, ha.slot_le⟩

/-- Another log that agrees as far as the replica has got. -/
theorem Window.congr {L L' : List DecidedValue} (hw : Window L r)
    (hlog : L'.take r.logEnd = L.take r.logEnd)
    (hvalues : L'.take r.appliedSlot = L.take r.appliedSlot) : Window L' r where
  log := hlog ▸ hw.log
  base_le := hw.base_le
  values := hvalues ▸ hw.values
  slots := hw.slots

/-- Later steps of other replicas. -/
theorem Follows.mono (hf : Follows n h j r) (hv : h.Valid (majorities n)) (hle : h ≤ h')
    (hacc : h'.accepted j = h.accepted j) (hprom : h'.promised j = h.promised j) :
    Follows n h' j r where
  promised := hprom.trans hf.promised
  accepted := hacc ▸ hf.accepted
  last := hacc ▸ hf.last
  window := hf.window.congr (take_log hle (hf.end_le hv))
    (take_log hle ((hf.applied_le.trans hf.decided_le).trans (hf.end_le hv)))
  base := hf.base.mono hle le_rfl
  decided := hf.decided.mono hle le_rfl
  decided_le := hf.decided_le
  applied_le := hf.applied_le
  acks := hf.acks.mono hle le_rfl
  acks_le := hf.acks_le
  adoptions a ha := (hf.adoptions a ha).mono hle

theorem Leads.mono (hl : Leads n h r) (hle : h ≤ h')
    (hlog : h'.log r.ackRound = h.log r.ackRound) : Leads n h' r where
  round := hl.round
  log_length := hlog ▸ hl.log_length
  reached j hj := (hl.reached j hj).mono hle

theorem Report.mono {R : Nat} {p : PaxosMessage} (hp : Report n h R p)
    (hv : h.Valid (majorities n)) (hle : h ≤ h') : Report n h' R p where
  promised := hp.promised.trans (hle.promised _)
  round_lt := hp.round_lt
  accepted := by
    rw [hle.frozen (hp.round_lt.trans_le hp.promised)]
    exact hp.accepted
  last q hq hqR := by
    rw [hle.frozen (hqR.trans_le hp.promised)]
    exact hp.last q hq hqR
  values := by
    rw [take_log hle (hv.accepted_spec hp.accepted).2.1]
    exact hp.values
  slot_le := hp.slot_le
  base := hp.base.mono hle le_rfl

theorem ReportOk.mono {R : Nat} {p : PaxosMessage} (hp : ReportOk n h R p)
    (hv : h.Valid (majorities n)) (hle : h ≤ h') : ReportOk n h' R p :=
  ⟨hp.1, hp.2.imp (·.mono hle) (·.mono hv hle)⟩

theorem Stands.mono (hs : Stands n h j r) (hv : h.Valid (majorities n)) (hle : h ≤ h')
    (hadopted : ∀ {R}, R % n = j → h'.adopted R = h.adopted R) : Stands n h' j r where
  opened hne hR ho := hs.opened hne hR (by
    obtain ⟨A, hA⟩ := ho
    exact ⟨A, hadopted hR ▸ hA⟩)
  responses p hp := (hs.responses p hp).mono hv hle

theorem PacketOk.mono {p : Packet} (hp : PacketOk n h p) (hv : h.Valid (majorities n))
    (hle : h ≤ h') : PacketOk n h' p := by
  unfold PacketOk at hp ⊢
  split at hp
  · obtain ⟨A, hA, hAk⟩ := hp.end_ge
    exact
      { values := by
          rw [take_log hle hp.end_le]
          exact hp.values
        end_ge := ⟨A, hle.adopted hA, hAk⟩
        end_le := hp.end_le.trans (hle.log _).length_le
        reached := hp.reached.mono hle
        decided := hp.decided.mono hle le_rfl
        decided_le := hp.decided_le
        truncation := hp.truncation.mono hle le_rfl }
  · exact hp.mono hle
  · trivial
  · exact hp.mono hv hle

/-- The other replicas do not notice a turn of replica `i`. -/
theorem ReplicaInv.mono (hinv : ReplicaInv n h j r) (hv : h.Valid (majorities n))
    (hwf : Wf n j r) (hch : ChangedBy n i h h') (hji : j ≠ i) : ReplicaInv n h' j r where
  follows := hinv.follows.mono hv hch.le (hch.accepted hji) (hch.promised hji)
  leads hl := by
    have hl' := hinv.leads hl
    refine hl'.mono hch.le (hch.log ?_)
    show r.ackRound % n ≠ i
    rw [hl'.round, hwf.leader_round hl]
    exact hji
  stands := hinv.stands.mono hv hch.le fun {R} hR => hch.adopted (by
    show R % n ≠ i
    rw [hR]
    exact hji)

/-! ## The acknowledgements of a leader -/

theorem committed_rank {acks : List Nat} {R : Nat} (hi : i < n) (hlen : acks.length = n)
    (hreached : ∀ j < n, h.Reached (majorities n) j R (acks.getD j 0)) :
    h.Committed (majorities n) R (Rank.rank acks (quorum n)) := by
  have hcount := Rank.le_countP_rank (l := acks) (quorum_pos n) (hlen.symm ▸ quorum_le hi)
  rw [Rank.countP_eq_card, hlen] at hcount
  refine History.committed_of_reached (majorities_members hi)
    (q := (Finset.range n).filter fun j => Rank.rank acks (quorum n) ≤ acks.getD j 0)
    ⟨Finset.filter_subset _ _, ?_⟩ ?_
  · simpa [quorum] using hcount
  · intro j hj
    obtain ⟨hjn, hle⟩ := Finset.mem_filter.mp hj
    exact (hreached j (Finset.mem_range.mp hjn)).anti hle

theorem Leads.rank_le (hl : Leads n h r) (hi : i < n) (hv : h.Valid (majorities n))
    (hopen : h.Opened r.ackRound) (hlen : r.followerAckSlot.length = n) :
    Rank.rank r.followerAckSlot (quorum n) ≤ r.logEnd := by
  obtain ⟨j, hj, hrank⟩ := List.getElem_of_mem
    (Rank.rank_mem (l := r.followerAckSlot) (quorum_pos n) (hlen.symm ▸ quorum_le hi))
  have hreached := hl.reached j (hlen ▸ hj)
  rw [List.getD_eq_getElem?_getD, List.getElem?_eq_getElem hj, Option.getD_some, hrank]
    at hreached
  exact hl.log_length ▸ hreached.le_length hv (majorities_members hi) hopen

/-- Every follower has what the leader truncates. -/
theorem Leads.settled_minAck (hl : Leads n h r) (hwf : Wf n i r) :
    h.Settled (majorities n) r.ackRound (r.followerAckSlot.min?.getD 0) := by
  refine History.settled_of_reached ?_
  intro j hj
  have hjn := mem_majorities.mp hj
  exact (hl.reached j hjn).anti (minAck_le (getD_mem (hwf.acks_length.symm ▸ hjn)))

/-! ## Applying and truncating -/

theorem Window.processSlot {L : List DecidedValue} (hw : Window L r) {dv : DecidedValue}
    (hdv : r.log[r.appliedSlot - r.logBase]? = some dv) : Window L (r.processSlot dv) where
  log := hw.log
  base_le := hw.base_le.trans (Nat.le_succ _)
  values := by
    rw [hw.log, List.getElem?_drop, Nat.add_sub_cancel' hw.base_le, List.getElem?_take] at hdv
    split at hdv
    · simp only [PtPaxosReplica.processSlot, List.map_append, hw.values, List.take_add_one, hdv]
      rfl
    · cases hdv
  slots := by
    simp only [PtPaxosReplica.processSlot, List.map_append, hw.slots, List.range_succ]
    rfl

theorem Window.catchUp {L : List DecidedValue} (hw : Window L r) (best : PaxosMessage) :
    Window L (r.catchUp best) :=
  applyUpTo_induct hw fun _ _ hw _ hdv => hw.processSlot hdv

theorem Follows.tryDecide (hf : Follows n h i r) : Follows n h i (r.tryDecide n) :=
  { hf with
    window := { hf.window with }
    decided := hf.decided.max hf.acks
    decided_le := max_le hf.decided_le hf.acks_le
    applied_le := hf.applied_le.trans (le_max_left _ _) }

theorem Follows.applyLoop (hf : Follows n h i r) : Follows n h i r.applyLoop := by
  suffices hloop : Follows n h i r.applyLoop ∧ r.applyLoop.decidedSlot = r.decidedSlot from hloop.1
  refine applyUpTo_induct (P := fun r' => Follows n h i r' ∧ r'.decidedSlot = r.decidedSlot)
    ⟨hf, rfl⟩ fun r' dv hf' hlt hdv => ⟨?_, hf'.2⟩
  exact { hf'.1 with
    window := { hf'.1.window.processSlot hdv with }
    applied_le := hlt.trans_eq hf'.2.symm }

/-- The truncation of a leader, up to what everyone acknowledged. -/
theorem Follows.tryTruncate (hf : Follows n h i r)
    (hs : h.Settled (majorities n) r.ackRound (r.followerAckSlot.min?.getD 0))
    (hend : r.followerAckSlot.min?.getD 0 ≤ r.logEnd)
    (happlied : r.followerAckSlot.min?.getD 0 ≤ r.appliedSlot) :
    Follows n h i r.tryTruncate := by
  have hlogEnd := tryTruncate_logEnd hend
  refine { hf with
    accepted := hlogEnd ▸ hf.accepted
    window := ⟨?_, max_le hf.window.base_le happlied, hf.window.values, hf.window.slots⟩
    base := hf.base.max hs
    decided_le := hlogEnd ▸ hf.decided_le
    acks_le := hlogEnd ▸ hf.acks_le }
  rw [hlogEnd]
  simp only [PtPaxosReplica.tryTruncate]
  rw [hf.window.log, List.drop_drop]
  congr 1
  omega

theorem ReplicaInv.applyDecided (hinv : ReplicaInv n h i r) (hwf : Wf n i r) (hi : i < n) :
    ReplicaInv n h i (r.applyDecided n i) := by
  have hf := hinv.follows.tryDecide.applyLoop
  refine ⟨?_, ?_, ⟨?_, ?_⟩⟩
  · unfold PtPaxosReplica.applyDecided
    simp only
    split
    · rename_i hl
      rw [applyLoop_leaderIndex] at hl
      obtain ⟨hend, happlied⟩ := hwf.logInv.minAck_le_applied hi hl
      refine hf.tryTruncate ?_ hend happlied
      have hround : (r.tryDecide n).applyLoop.ackRound = r.ackRound :=
        applyLoop_same (f := (·.ackRound)) (fun _ _ => rfl) _
      rw [hround, applyLoop_followerAckSlot]
      exact (hinv.leads hl).settled_minAck hwf
    · exact hf
  · intro hl
    rw [applyDecided_leaderIndex] at hl
    have hlead := hinv.leads hl
    have hend : (r.applyDecided n i).logEnd = r.logEnd := by
      have hw := hwf.applyDecided hi
      rw [← hw.next (by rwa [applyDecided_leaderIndex]), applyDecided_nextSlot, hwf.next hl]
    refine ⟨?_, ?_, ?_⟩
    · rw [applyDecided_ackRound, applyDecided_probeRound]
      exact hlead.round
    · rw [applyDecided_ackRound, hend]
      exact hlead.log_length
    · rw [applyDecided_ackRound, applyDecided_followerAckSlot]
      exact hlead.reached
  · rw [applyDecided_electionRound, applyDecided_prepareResponses]
    exact hinv.stands.opened
  · rw [applyDecided_electionRound, applyDecided_prepareResponses]
    exact hinv.stands.responses

/-! ## What a replica sends -/

/-- The invariant does not look at where the coroutines stand. -/
theorem ReplicaInv.frames (hinv : ReplicaInv n h i r) (frame : RunFrame) (calls : List Call)
    (pend : Finmap fun _ : Nat => Nat) (now : Nat) (refused : List (Request × ApplyResult)) :
    ReplicaInv n h i
      { r with
        runFrame := frame, calls := calls, pendingResponses := pend, lastLeaderMsg := now
        refused := refused } where
  follows := { hinv.follows with window := { hinv.follows.window with } }
  leads hl := { hinv.leads hl with }
  stands := { hinv.stands with }

theorem drop_window {L : List DecidedValue} (hw : Window L r) {k : Nat} (hk : r.logBase ≤ k) :
    r.log.drop (k - r.logBase) = (L.take r.logEnd).drop k := by
  rw [hw.log, List.drop_drop, Nat.add_sub_cancel' hk]

theorem proposeMsg_end (j : Nat) (r : PtPaxosReplica) :
    proposeEnd (r.proposeMsg i j) = r.logEnd := by
  simp only [proposeEnd, proposeMsg, List.length_drop, logEnd]
  omega

theorem proposeMsg_ok (hinv : ReplicaInv n h i r) (hv : h.Valid (majorities n))
    (hl : i = r.leaderIndex) (hj : j < n) : PacketOk n h (j, r.proposeMsg i j) := by
  have hf := hinv.follows
  have hlead := hinv.leads hl
  obtain ⟨-, -, A, hA, hAk⟩ := hv.accepted_spec hf.accepted
  have hround : (r.proposeMsg i j).round = r.ackRound := hlead.round.symm
  have hend := proposeMsg_end (i := i) j r
  refine
    { values := ?_
      end_ge := ⟨A, by rw [hround, hA], hend.symm ▸ hAk⟩
      end_le := by
        rw [hround, hend]
        exact hf.end_le hv
      reached := ?_
      decided := hround ▸ hf.decided
      decided_le := hend.symm ▸ hf.decided_le
      truncation := hround ▸ hf.base }
  · rw [hround, hend]
    exact drop_window hf.window (le_max_left _ _)
  · rw [hround]
    exact (hf.base.reached (mem_majorities.mpr hj)).max
      ((hlead.reached j hj).anti (min_le_left _ _))

/-- What a replica reports for the round it has promised. -/
theorem prepareMsg_ok (hinv : ReplicaInv n h i r) (hv : h.Valid (majorities n)) (hi : i < n)
    {R : Nat} (hR : r.probeRound = R) : ReportOk n h R (r.prepareMsg i R) := by
  have hf := hinv.follows
  refine ⟨hi, ?_⟩
  rcases (hR ▸ hf.ack_le hv).eq_or_lt with heq | hlt
  · exact .inl (heq ▸ hf.opened hv)
  · exact .inr
      { promised := (hf.promised.trans hR).ge
        round_lt := hlt
        accepted := hf.accepted
        last := fun q hq _ => hf.last q hq
        values := hf.window.log
        slot_le := Nat.le_add_right _ _
        base := hf.base }

theorem ackMsg_ok (hinv : ReplicaInv n h i r) (hround : r.ackRound = r.probeRound) :
    PacketOk n h (j, r.ackMsg i) :=
  ⟨r.logEnd, by
    show h.accepted i r.probeRound = _
    rw [← hround]
    exact hinv.follows.accepted, le_rfl⟩

/-! ## Turns -/

/-- The turn ended in `x` is a move of replica `i` in the history. -/
def Simulates (n i : Nat) (h : PaxosHistory) (x : PtPaxosReplica × List Packet) : Prop :=
  ∃ h', ChangedBy n i h h' ∧ h'.Valid (majorities n) ∧ ReplicaInv n h' i x.1
    ∧ ∀ p ∈ x.2, PacketOk n h' p

theorem Simulates.after {x : PtPaxosReplica × List Packet} (hch : ChangedBy n i h h')
    (hx : Simulates n i h' x) : Simulates n i h x := by
  obtain ⟨h'', hch', hrest⟩ := hx
  exact ⟨h'', hch.trans hch', hrest⟩

theorem ReplicaInv.simulates (hinv : ReplicaInv n h i r) (hv : h.Valid (majorities n))
    {out : List Packet} (hout : ∀ p ∈ out, PacketOk n h p) : Simulates n i h (r, out) :=
  ⟨h, .refl h, hv, hinv, hout⟩

theorem runSendPropose_simulates (hinv : ReplicaInv n h i r) (hv : h.Valid (majorities n))
    (hwf : Wf n i r) (hi : i < n) (hl : i = r.leaderIndex) (k : Nat) :
    Simulates n i h (r.runSendPropose n i k) := by
  unfold runSendPropose
  split
  · rename_i j hj
    refine (hinv.frames _ _ _ _ _).simulates hv ?_
    intro p hp
    obtain rfl := List.mem_singleton.mp hp
    exact proposeMsg_ok hinv hv hl (nextPeer_eq_some hj).1
  · exact ((hinv.applyDecided hwf hi).frames _ _ _ _ _).simulates hv (by simp)

theorem callSendPropose_simulates (hinv : ReplicaInv n h i r) (hv : h.Valid (majorities n))
    (hwf : Wf n i r) (hi : i < n) {c k : Nat}
    (hl : (nextPeer n i k).isSome → i = r.leaderIndex) :
    Simulates n i h (r.callSendPropose n i c k) := by
  unfold callSendPropose
  split
  · rename_i j hj
    refine (hinv.frames _ _ _ _ _).simulates hv ?_
    intro p hp
    obtain rfl := List.mem_singleton.mp hp
    exact proposeMsg_ok hinv hv (hl (by simp [hj])) (nextPeer_eq_some hj).1
  · refine ReplicaInv.simulates ?_ hv (by simp)
    have happlied := hinv.applyDecided hwf hi
    exact awaitCall_induct (P := ReplicaInv n h i) happlied
      (fun pend calls => happlied.frames _ calls pend _ _) c

/-! ## Promises -/

theorem Follows.promise (hf : Follows n h i r) {R : Nat} (hle : h.promised i ≤ R) :
    Follows n (h.promise i R) i { r with probeRound := R } :=
  have hch : ChangedBy n i h (h.promise i R) := History.promise_changedBy hle
  { hf with
    promised := History.promise_promised_self h i R
    window := { hf.window with }
    base := hf.base.mono hch.le le_rfl
    decided := hf.decided.mono hch.le le_rfl
    acks := hf.acks.mono hch.le le_rfl
    adoptions := fun a ha => (hf.adoptions a ha).mono hch.le }

theorem ReplicaInv.stepDown (hinv : ReplicaInv n h i r) (hv : h.Valid (majorities n))
    {msg : PaxosMessage} (now : Nat) (hs : msg.sender ≠ i) :
    ∃ h', ChangedBy n i h h' ∧ h'.Valid (majorities n)
      ∧ ReplicaInv n h' i (r.stepDown now msg) := by
  unfold PtPaxosReplica.stepDown
  split
  · rename_i hround
    have hle : h.promised i ≤ msg.round := hinv.follows.promised.trans_le (Nat.le_of_lt hround)
    have hch : ChangedBy n i h (h.promise i msg.round) := History.promise_changedBy hle
    refine ⟨_, hch, History.promise_valid hv hle, ?_, fun hl => absurd hl.symm hs, ?_⟩
    · have hf := hinv.follows.promise hle
      exact { hf with window := { hf.window with } }
    · exact { hinv.stands.mono hv hch.le fun _ => rfl with }
  · exact ⟨h, .refl h, hv, hinv⟩

theorem ReplicaInv.pickRound (hinv : ReplicaInv n h i r) (hv : h.Valid (majorities n))
    (hi : i < n) (hwf : Wf n i r) (hl : i ≠ r.leaderIndex) :
    ∃ h', ChangedBy n i h h' ∧ h'.Valid (majorities n)
      ∧ ReplicaInv n h' i (r.pickRound n i) := by
  have hlt := lt_pickRound hi r
  have hle : h.promised i ≤ (r.pickRound n i).probeRound :=
    hinv.follows.promised.trans_le (Nat.le_of_lt hlt)
  have hch : ChangedBy n i h (h.promise i (r.pickRound n i).probeRound) :=
    History.promise_changedBy hle
  refine ⟨_, hch, History.promise_valid hv hle, ?_, fun hl' => absurd hl' hl, ?_, ?_⟩
  · have hf := hinv.follows.promise hle
    exact { hf with window := { hf.window with } }
  · -- the rounds it has opened are older than the one it picks
    intro R hne hR hopen
    have hold := (hinv.stands.opened hne hR hopen).1
    have := hwf.election_le
    refine ⟨?_, ?_⟩
    · show R ≤ r.probeRound + n - r.probeRound % n + i
      omega
    · intro heq
      have : R = r.probeRound + n - r.probeRound % n + i := heq
      omega
  · intro p hp
    cases hp

end PtPaxosReplica

end Tmgr
