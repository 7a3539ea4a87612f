import Tmgr.PaxosInv

/-!
# The turns that write a log

A log is written by an election (`adopt`), for a client (`appendCall`) and at
a follower that accepts a PROPOSE (`install`). Each is a move of the history:
the new leader opens its round with a log elected by a quorum of reports, a
leader writes to its round, a follower accepts a longer part of a round.
-/

namespace Tmgr

open LogPaxos

theorem take_eq_of_le {α : Type*} {l l' : List α} {k K : Nat} (h : l.take K = l'.take K)
    (hk : k ≤ K) : l.take k = l'.take k := by
  have := congrArg (List.take k) h
  rwa [List.take_take, List.take_take, min_eq_left hk] at this

theorem getD_set {l : List Nat} {j : Nat} (hj : j < l.length) (k v : Nat) :
    (l.set k v).getD j 0 = if j = k then v else l.getD j 0 := by
  rw [List.getD_eq_getElem?_getD, List.getD_eq_getElem?_getD]
  split
  · rename_i hjk
    rw [← hjk, List.getElem?_set_self hj, Option.getD_some]
  · rename_i hjk
    rw [List.getElem?_set_ne (Ne.symm hjk)]

namespace PtPaxosReplica

variable {n i : Nat} {h : PaxosHistory} {r : PtPaxosReplica}

/-! ## The election of a log -/

theorem prepareLess_iff {a b : PaxosMessage} : prepareLess a b = true ↔
    a.ackRound < b.ackRound ∨ a.ackRound = b.ackRound ∧ a.ackSlot < b.ackSlot := by
  simp [prepareLess]

/-- The log of the largest round, and the longest of these. -/
theorem maxElement_spec {l : List PaxosMessage} {best : PaxosMessage}
    (h : maxElement l = some best) :
    best ∈ l ∧ ∀ p ∈ l, p.ackRound < best.ackRound
      ∨ p.ackRound = best.ackRound ∧ p.ackSlot ≤ best.ackSlot := by
  cases l with
  | nil => cases h
  | cons m ms =>
      obtain rfl := Option.some.inj h
      clear h
      induction ms generalizing m with
      | nil => simp
      | cons x ms ih =>
          rw [List.foldl_cons]
          split
          · -- `x` is larger than `m`
            rename_i hless
            have hless := prepareLess_iff.mp hless
            obtain ⟨hmem, hall⟩ := ih x
            refine ⟨List.mem_cons_of_mem _ hmem, ?_⟩
            intro p hp
            rcases List.mem_cons.mp hp with rfl | hp
            · have := hall x List.mem_cons_self
              omega
            · exact hall p hp
          · rename_i hless
            have hless := mt prepareLess_iff.mpr hless
            obtain ⟨hmem, hall⟩ := ih m
            refine ⟨?_, ?_⟩
            · rcases List.mem_cons.mp hmem with heq | hmem
              · exact List.mem_cons.mpr (.inl heq)
              · exact List.mem_cons_of_mem _ (List.mem_cons_of_mem _ hmem)
            · intro p hp
              rcases List.mem_cons.mp hp with rfl | hp
              · exact hall p List.mem_cons_self
              · rcases List.mem_cons.mp hp with rfl | hp
                · have := hall m List.mem_cons_self
                  omega
                · exact hall p (List.mem_cons_of_mem _ hp)

/-- A quorum of reports elects the best log among them. -/
theorem elected_of_reports {R : Nat} {ps : List PaxosMessage} {best : PaxosMessage}
    (hv : h.Valid (majorities n)) (hlt : ∀ p ∈ ps, p.sender < n)
    (hreports : ∀ p ∈ ps, Report n h R p) (hnodup : (ps.map (·.sender)).Nodup)
    (hquorum : quorum n ≤ ps.length) (hbest : maxElement ps = some best) :
    h.Elected (majorities n) R ((h.log best.ackRound).take best.ackSlot) := by
  obtain ⟨hmem, hall⟩ := maxElement_spec hbest
  have hb := hreports best hmem
  obtain ⟨-, hlen, A, hA, hAk⟩ := hv.accepted_spec hb.accepted
  refine ⟨(ps.map (·.sender)).toFinset, best.ackRound, best.ackSlot, ⟨?_, ?_⟩, hb.round_lt,
    ⟨A, hA, hAk⟩, hlen, rfl, ?_⟩
  · intro j hj
    obtain ⟨p, hp, rfl⟩ := List.mem_map.mp (List.mem_toFinset.mp hj)
    exact Finset.mem_range.mpr (hlt p hp)
  · rw [List.toFinset_card_of_nodup hnodup, List.length_map, Finset.card_range]
    exact hquorum
  · intro j hj
    obtain ⟨p, hp, rfl⟩ := List.mem_map.mp (List.mem_toFinset.mp hj)
    have hrep := hreports p hp
    refine ⟨hrep.promised, ?_⟩
    intro q hq k hk
    have hle := hall p hp
    -- `p.ackRound` is the last round its sender accepted anything in
    rcases Nat.lt_trichotomy q p.ackRound with hqp | rfl | hqp
    · left
      omega
    · rw [hrep.accepted] at hk
      have := Option.some.inj hk
      omega
    · rw [hrep.last q hqp hq] at hk
      cases hk

/-- `become_leader` catches up to the base of the log it adopts. -/
theorem Follows.catchUp_reaches (hf : Follows n h i r) (hv : h.Valid (majorities n))
    (hwf : Wf n i r) (hi : i < n) {R : Nat} {best : PaxosMessage} (hb : Report n h R best) :
    best.slot ≤ (r.catchUp best).appliedSlot := by
  have hend : best.slot ≤ r.logEnd :=
    History.Settled.le_last hv (majorities_members hi) (mem_majorities.mpr hi) hb.base
      hf.accepted hf.last
  exact (le_min le_rfl hend).trans (catchUp_le hwf best)

theorem adopt_probeRound (best : PaxosMessage) :
    (r.adopt i best).probeRound = r.probeRound :=
  catchUp_same (f := (·.probeRound)) (fun _ _ => rfl) best r

theorem adopt_ackRound (best : PaxosMessage) :
    (r.adopt i best).ackRound = r.electionRound :=
  catchUp_same (f := (·.electionRound)) (fun _ _ => rfl) best r

theorem adopt_acks_length (best : PaxosMessage) :
    (r.adopt i best).followerAckSlot.length = r.followerAckSlot.length := by
  have hsame : (r.catchUp best).followerAckSlot = r.followerAckSlot :=
    catchUp_same (f := (·.followerAckSlot)) (fun _ _ => rfl) best r
  simp [PtPaxosReplica.adopt, hsame]

theorem adopt_acks (best : PaxosMessage) {j : Nat} (hj : j < r.followerAckSlot.length) :
    (r.adopt i best).followerAckSlot.getD j 0
      = if j = i then best.slot + best.values.length else best.slot := by
  have hsame : (r.catchUp best).followerAckSlot = r.followerAckSlot :=
    catchUp_same (f := (·.followerAckSlot)) (fun _ _ => rfl) best r
  have hmap : ((r.catchUp best).followerAckSlot.map fun _ => best.slot).getD j 0 = best.slot := by
    rw [List.getD_eq_getElem?_getD, List.getElem?_map, hsame, List.getElem?_eq_getElem hj]
    rfl
  rw [PtPaxosReplica.adopt, getD_set (by rwa [List.length_map, hsame]), hmap]

theorem Window.length {L : List DecidedValue} (hw : Window L r) :
    r.processed.length = r.appliedSlot := by
  have := congrArg List.length hw.slots
  rwa [List.length_map, List.length_range] at this

/-- The new leader's round, before it is opened: `A` is the log elected for it
and reported by `best`, and the replica has decided nothing that is not
settled in it. -/
structure Adopts (n : Nat) (h : PaxosHistory) (r : PtPaxosReplica) (best : PaxosMessage)
    (A : List DecidedValue) : Prop where
  report : Report n h r.electionRound best
  values : best.values = A.drop best.slot
  log_end : best.slot + best.values.length = A.length
  elected : h.Elected (majorities n) r.electionRound A
  fresh : h.adopted r.electionRound = none
  ack_lt : r.ackRound < r.electionRound
  committed : h.Committed (majorities n) r.ackRound (max r.decidedSlot best.slot)

theorem ReplicaInv.adopts (hinv : ReplicaInv n h i r) (hv : h.Valid (majorities n)) (hi : i < n)
    (hround : r.electionRound = r.probeRound) (hnew : ¬h.Opened r.electionRound)
    (hquorum : quorum n ≤ r.prepareResponses.length)
    (hnodup : (r.prepareResponses.map (·.sender)).Nodup) {best : PaxosMessage}
    (hbest : maxElement r.prepareResponses = some best) :
    Adopts n h r best ((h.log best.ackRound).take best.ackSlot) := by
  have hf := hinv.follows
  have hreports : ∀ p ∈ r.prepareResponses, Report n h r.electionRound p := fun p hp =>
    (hinv.stands.responses p hp).2.resolve_left hnew
  have hb := hreports best (maxElement_spec hbest).1
  refine
    { report := hb
      values := hb.values
      log_end := ?_
      elected := elected_of_reports hv (fun p hp => (hinv.stands.responses p hp).1) hreports
        hnodup hquorum hbest
      fresh := ?_
      ack_lt := ?_
      committed := ?_ }
  · have := (hv.accepted_spec hb.accepted).2.1
    have := hb.slot_le
    rw [hb.values, List.length_drop, List.length_take]
    omega
  · cases hA : h.adopted r.electionRound with
    | none => rfl
    | some A => exact absurd ⟨A, hA⟩ hnew
  · refine lt_of_le_of_ne ((hf.ack_le hv).trans_eq hround.symm) fun heq => hnew ?_
    exact heq ▸ hf.opened hv
  · have hsettled : h.Settled (majorities n) r.ackRound best.slot :=
      History.Settled.of_last (mem_majorities.mpr hi) hb.base hf.last
    exact hf.decided.max (hsettled.committed (majorities_members hi))

section Adopts

variable {best : PaxosMessage} {A : List DecidedValue}

/-- The replica's log and the adopted one agree on what it has decided. -/
theorem Adopts.take_eq (ha : Adopts n h r best A) (hf : Follows n h i r)
    (hv : h.Valid (majorities n)) (hle : h ≤ h.lead i r.electionRound A)
    (hv' : (h.lead i r.electionRound A).Valid (majorities n)) :
    (h.log r.ackRound).take (max r.decidedSlot best.slot)
        = A.take (max r.decidedSlot best.slot)
      ∧ max r.decidedSlot best.slot ≤ A.length := by
  have hadopted := History.lead_adopted_self h i r.electionRound A
  have hcomm := ha.committed.mono hle le_rfl
  refine ⟨?_, hcomm.le_adopted hv' ha.ack_lt hadopted⟩
  have htake := hcomm.take_eq hv' ha.ack_lt.le ((hf.opened hv).mono hle) ⟨A, hadopted⟩
  rw [History.lead_log_self, take_log hle (ha.committed.le_length hv (hf.opened hv))] at htake
  exact htake.symm

/-- Once it has caught up, the replica has applied a prefix of the adopted
log. -/
theorem Adopts.processed (ha : Adopts n h r best A) (hf : Follows n h i r)
    (hv : h.Valid (majorities n)) (hle : h ≤ h.lead i r.electionRound A)
    (hv' : (h.lead i r.electionRound A).Valid (majorities n)) :
    (r.catchUp best).processed.map (·.dv) = A.take (r.catchUp best).appliedSlot := by
  rw [(hf.window.catchUp best).values]
  refine take_eq_of_le (ha.take_eq hf hv hle hv').1 ?_
  exact (applyUpTo_appliedSlot_le fun _ _ => rfl).trans (max_le_max hf.applied_le le_rfl)

theorem Adopts.window (ha : Adopts n h r best A) (hf : Follows n h i r)
    (hreaches : best.slot ≤ (r.catchUp best).appliedSlot)
    (hprocessed : (r.catchUp best).processed.map (·.dv) = A.take (r.catchUp best).appliedSlot) :
    Window A (r.adopt i best) where
  log := by
    show best.values = (A.take (best.slot + best.values.length)).drop best.slot
    rw [ha.log_end, List.take_length, ha.values]
  base_le := le_max_right _ _
  values := by
    show (r.catchUp best).processed.map (·.dv) = A.take (max (r.catchUp best).appliedSlot best.slot)
    rw [max_eq_left hreaches, hprocessed]
  slots := by
    show (r.catchUp best).processed.map (·.slot)
      = List.range (max (r.catchUp best).appliedSlot best.slot)
    rw [max_eq_left hreaches, (hf.window.catchUp best).slots]

theorem Adopts.leads (ha : Adopts n h r best A) (hwf : Wf n i r)
    (hround : r.electionRound = r.probeRound) (hle : h ≤ h.lead i r.electionRound A) :
    Leads n (h.lead i r.electionRound A) (r.adopt i best) := by
  refine ⟨(adopt_ackRound best).trans (hround.trans (adopt_probeRound best).symm), ?_, ?_⟩
  · rw [adopt_ackRound, History.lead_log_self]
    exact ha.log_end.symm
  · intro j hj
    rw [adopt_ackRound, adopt_acks best (hwf.acks_length.symm ▸ hj)]
    split
    · rename_i hji
      subst hji
      exact .inl ⟨A.length, History.lead_accepted_self h j _ A, ha.log_end.le⟩
    · exact (ha.report.base.mono hle ha.report.round_lt.le).reached (mem_majorities.mpr hj)

/-- The adoption that `become_leader` records. -/
theorem Adopts.adoptionOk (ha : Adopts n h r best A) (hf : Follows n h i r)
    (hreaches : best.slot ≤ (r.catchUp best).appliedSlot)
    (hprocessed : (r.catchUp best).processed.map (·.dv) = A.take (r.catchUp best).appliedSlot) :
    AdoptionOk (h.lead i r.electionRound A)
      ⟨(r.catchUp best).electionRound, best.slot, best.values, (r.catchUp best).processed⟩ := by
  have hwin := hf.window.catchUp best
  have hsame : (r.catchUp best).electionRound = r.electionRound :=
    catchUp_same (f := (·.electionRound)) (fun _ _ => rfl) best r
  refine ⟨⟨A, ?_, ha.values, ?_⟩, ?_, ?_⟩
  · rw [hsame, History.lead_adopted_self]
  · rw [hwin.length]
    exact hprocessed
  · rw [hwin.length]
    exact hwin.slots
  · rw [hwin.length]
    exact hreaches

theorem Adopts.follows (ha : Adopts n h r best A) (hf : Follows n h i r)
    (hv : h.Valid (majorities n)) (hwf : Wf n i r) (hi : i < n)
    (hround : r.electionRound = r.probeRound) (hle : h ≤ h.lead i r.electionRound A)
    (hv' : (h.lead i r.electionRound A).Valid (majorities n)) :
    Follows n (h.lead i r.electionRound A) i (r.adopt i best) := by
  have hreaches := hf.catchUp_reaches hv hwf hi ha.report
  have hprocessed := ha.processed hf hv hle hv'
  have hdecided : (r.adopt i best).decidedSlot = max r.decidedSlot best.slot := by
    show max (r.catchUp best).decidedSlot best.slot = _
    rw [catchUp_decidedSlot]
  have hlead := ha.leads hwf hround hle
  have hlen := (adopt_acks_length (i := i) best).trans hwf.acks_length
  exact
    { promised := hf.promised.trans (adopt_probeRound best).symm
      accepted := by
        rw [adopt_ackRound, History.lead_accepted_self]
        exact congrArg some ha.log_end.symm
      last := fun q hq => by
        rw [adopt_ackRound] at hq
        rw [History.lead_accepted_of_ne h i A (Nat.ne_of_gt hq)]
        exact hf.last q (ha.ack_lt.trans hq)
      window := by
        rw [adopt_ackRound, History.lead_log_self]
        exact ha.window hf hreaches hprocessed
      base := (adopt_ackRound (i := i) best).symm ▸
        ha.report.base.mono hle ha.report.round_lt.le
      decided := by
        rw [adopt_ackRound, hdecided]
        exact ha.committed.mono hle ha.ack_lt.le
      decided_le := by
        rw [hdecided]
        exact (ha.take_eq hf hv hle hv').2.trans_eq ha.log_end.symm
      applied_le := by
        rw [hdecided]
        refine max_le ?_ (le_max_right _ _)
        exact (applyUpTo_appliedSlot_le fun _ _ => rfl).trans (max_le_max hf.applied_le le_rfl)
      acks := committed_rank hi hlen hlead.reached
      acks_le := by
        refine hlead.rank_le hi hv' ?_ hlen
        rw [adopt_ackRound]
        exact ⟨A, History.lead_adopted_self h i _ A⟩
      adoptions := fun a hmem => by
        rcases List.mem_append.mp hmem with hmem | hmem
        · rw [catchUp_same (f := (·.adoptions)) (fun _ _ => rfl) best r] at hmem
          exact (hf.adoptions a hmem).mono hle
        · obtain rfl := List.mem_singleton.mp hmem
          exact ha.adoptionOk hf hreaches hprocessed }

theorem Stands.adopt (hs : Stands n h i r) (hv : h.Valid (majorities n))
    (hquorum : quorum n ≤ r.prepareResponses.length)
    (hle : h ≤ h.lead i r.electionRound A) :
    Stands n (h.lead i r.electionRound A) i (r.adopt i best) := by
  obtain ⟨helection, hresp⟩ := adopt_election i best r
  refine ⟨fun {R} hne hmod hopen => ?_, ?_⟩
  · rw [helection, hresp]
    by_cases hR : R = r.electionRound
    · exact ⟨hR.le, fun _ => hquorum⟩
    · obtain ⟨B, hB⟩ := hopen
      rw [History.lead_adopted_of_ne h i A hR] at hB
      exact hs.opened hne hmod ⟨B, hB⟩
  · intro p hp
    rw [hresp] at hp
    rw [helection]
    exact (hs.responses p hp).mono hv hle

end Adopts

theorem ReplicaInv.adopt (hinv : ReplicaInv n h i r) (hv : h.Valid (majorities n))
    (hwf : Wf n i r) (hi : i < n) (hround : r.electionRound = r.probeRound)
    (hne : r.electionRound ≠ 0) (hnew : ¬h.Opened r.electionRound)
    (hquorum : quorum n ≤ r.prepareResponses.length)
    (hnodup : (r.prepareResponses.map (·.sender)).Nodup) {best : PaxosMessage}
    (hbest : maxElement r.prepareResponses = some best) :
    ∃ h', ChangedBy n i h h' ∧ h'.Valid (majorities n)
      ∧ ReplicaInv n h' i (r.adopt i best) := by
  have hf := hinv.follows
  have ha := hinv.adopts hv hi hround hnew hquorum hnodup hbest
  obtain ⟨hch, hv'⟩ := History.lead_move (· % n) hv ha.fresh ha.elected
    (hf.promised.trans hround.symm) (hwf.election_owner hne)
  exact ⟨_, hch, hv', ha.follows hf hv hwf hi hround hch.le hv',
    fun _ => ha.leads hwf hround hch.le, hinv.stands.adopt hv hquorum hch.le⟩

/-! ## A client's value -/

theorem appendCall_logEnd (nowUnix : Int) (req : Request) :
    (r.appendCall i nowUnix req).logEnd = r.logEnd + 1 := by
  simp [PtPaxosReplica.appendCall, logEnd, Nat.add_assoc]

theorem Leads.appendCall (hlead : Leads n h r) (hwf : Wf n i r) (hl : i = r.leaderIndex)
    {dv : DecidedValue} (hle : h ≤ h.write i r.ackRound dv) (nowUnix : Int) (req : Request) :
    Leads n (h.write i r.ackRound dv) (r.appendCall i nowUnix req) := by
  refine ⟨hlead.round, ?_, ?_⟩
  · show ((h.write i r.ackRound dv).log r.ackRound).length = _
    rw [History.write_log_self, appendCall_logEnd, List.length_append, List.length_singleton,
      hlead.log_length]
  · intro j hj
    show History.Reached _ _ j r.ackRound ((r.followerAckSlot.set i (r.nextSlot + 1)).getD j 0)
    rw [getD_set (hwf.acks_length.symm ▸ hj)]
    split
    · rename_i hji
      subst hji
      refine .inl ⟨_, History.write_accepted_self h j r.ackRound dv, ?_⟩
      rw [hlead.log_length, hwf.next hl]
    · exact (hlead.reached j hj).mono hle

/-- A leader's window grows with the log of its round. -/
theorem Window.appendCall {L : List DecidedValue} (hw : Window L r) (hlen : L.length = r.logEnd)
    (happlied : r.appliedSlot ≤ L.length) (nowUnix : Int) (req : Request) :
    Window (L ++ [⟨nowUnix, req.base.agentId, req.base.serial, req⟩])
      (r.appendCall i nowUnix req) where
  log := by
    have hbase : r.logBase ≤ L.length := hlen.symm ▸ Nat.le_add_right _ _
    rw [appendCall_logEnd, List.take_of_length_le (by simp [hlen])]
    show r.log ++ _ = (L ++ _).drop r.logBase
    rw [List.drop_append_of_le_length hbase, hw.log, ← hlen, List.take_length]
  base_le := hw.base_le
  values := by
    show r.processed.map _ = (L ++ _).take r.appliedSlot
    rw [List.take_append_of_le_length happlied, hw.values]
  slots := hw.slots

theorem ReplicaInv.appendCall (hinv : ReplicaInv n h i r) (hv : h.Valid (majorities n))
    (hwf : Wf n i r) (hi : i < n) (hl : i = r.leaderIndex) (nowUnix : Int) (req : Request) :
    ∃ h', ChangedBy n i h h' ∧ h'.Valid (majorities n)
      ∧ ReplicaInv n h' i (r.appendCall i nowUnix req) := by
  have hf := hinv.follows
  have hlead := hinv.leads hl
  have howner : r.ackRound % n = i := hlead.round.symm ▸ hwf.leader_round hl
  have hprom : h.promised i = r.ackRound := hf.promised.trans hlead.round.symm
  have hacc : h.accepted i r.ackRound = some (h.log r.ackRound).length :=
    hlead.log_length.symm ▸ hf.accepted
  let dv : DecidedValue := ⟨nowUnix, req.base.agentId, req.base.serial, req⟩
  obtain ⟨hch, hv'⟩ := History.write_move (· % n) hv hprom hacc howner dv
  have hend : (r.appendCall i nowUnix req).logEnd = r.logEnd + 1 := appendCall_logEnd nowUnix req
  have hlen : (r.appendCall i nowUnix req).followerAckSlot.length = n := by
    simpa [PtPaxosReplica.appendCall] using hwf.acks_length
  have hlead' := hlead.appendCall hwf hl hch.le nowUnix req
  have hopen : (h.write i r.ackRound dv).Opened r.ackRound := (hf.opened hv).mono hch.le
  refine ⟨_, hch, hv', ⟨?_, fun _ => hlead', ?_⟩⟩
  · exact
      { promised := hf.promised
        accepted := by
          show (h.write i r.ackRound dv).accepted i r.ackRound = _
          rw [hend, History.write_accepted_self, hlead.log_length]
        last := fun q hq => by
          have hq' : r.ackRound < q := hq
          rw [History.write_accepted_of_ne h i dv (Nat.ne_of_gt hq')]
          exact hf.last q hq'
        window := by
          show Window ((h.write i r.ackRound dv).log r.ackRound) _
          rw [History.write_log_self]
          exact hf.window.appendCall hlead.log_length
            ((hf.applied_le.trans hf.decided_le).trans (hf.end_le hv)) nowUnix req
        base := hf.base.mono hch.le le_rfl
        decided := hf.decided.mono hch.le le_rfl
        decided_le := hend ▸ hf.decided_le.trans (Nat.le_succ _)
        applied_le := hf.applied_le
        acks := committed_rank hi hlen hlead'.reached
        acks_le := hlead'.rank_le hi hv' hopen hlen
        adoptions := fun a ha => (hf.adoptions a ha).mono hch.le }
  · exact { hinv.stands.mono hv hch.le fun _ => rfl with }

/-! ## An acknowledgement -/

theorem ReplicaInv.recordAck (hinv : ReplicaInv n h i r) (hv : h.Valid (majorities n))
    (hwf : Wf n i r) (hi : i < n) (hl : i = r.leaderIndex) (msg : PaxosMessage)
    (hmsg : msg.type = .ack → h.Accepted msg.sender msg.round msg.ackSlot) :
    ReplicaInv n h i (r.recordAck msg) := by
  unfold PtPaxosReplica.recordAck
  split
  · rename_i hack
    have hf := hinv.follows
    have hlead := hinv.leads hl
    have hlen := hwf.acks_length
    have hlead' : Leads n h { r with
        followerAckSlot := r.followerAckSlot.set msg.sender
          (max (r.followerAckSlot.getD msg.sender 0) msg.ackSlot) } := by
      refine ⟨hlead.round, hlead.log_length, ?_⟩
      intro j hj
      simp only [getD_set (hlen.symm ▸ hj)]
      split
      · rename_i hjs
        subst hjs
        refine (hlead.reached _ hj).max (.inl ?_)
        rw [hlead.round, ← hack.2]
        exact hmsg hack.1
      · exact hlead.reached j hj
    have hlen' := hlen
    rw [← List.length_set (i := msg.sender)
      (a := max (r.followerAckSlot.getD msg.sender 0) msg.ackSlot)] at hlen'
    exact
      { follows := { hf with
          window := { hf.window with }
          acks := committed_rank hi hlen' hlead'.reached
          acks_le := hlead'.rank_le hi hv (hf.opened hv) hlen' }
        leads := fun _ => hlead'
        stands := { hinv.stands with } }
  · exact hinv

/-! ## A follower's log -/

/-- The write loop, when there is no gap before the values. -/
theorem writeValues_eq {base s : Nat} (vs log : List DecidedValue)
    (hs : s ≤ base + log.length) :
    writeValues base s vs log
      = log.take (s - base) ++ vs.drop (base - s) ++ log.drop (s + vs.length - base) := by
  induction vs generalizing s log with
  | nil => simp [writeValues]
  | cons v vs ih =>
      rw [writeValues]
      split
      · -- below the base: the value is skipped
        rename_i hlt
        rw [ih log (by omega), Nat.sub_eq_zero_of_le hlt, Nat.sub_eq_zero_of_le (Nat.le_of_lt hlt),
          ← Nat.succ_pred_eq_of_pos (Nat.sub_pos_of_lt hlt), List.drop_succ_cons]
        congr 2
        · simp only [List.length_cons]
          omega
      · rename_i hge
        obtain ⟨k, rfl⟩ := Nat.exists_eq_add_of_le (Nat.le_of_not_lt hge)
        have hk : base + k - base = k := by omega
        have hk' : base + k + 1 - base = k + 1 := by omega
        have hzero : base - (base + k) = 0 := by omega
        have hzero' : base - (base + k + 1) = 0 := by omega
        have hend : base + k + 1 + vs.length - base = k + 1 + vs.length := by omega
        have hend' : base + k + (v :: vs).length - base = k + 1 + vs.length := by
          rw [List.length_cons]
          omega
        simp only [hk, hzero, hend', List.drop_zero]
        split
        · rename_i hin
          have hle : base + k + 1 ≤ base + (log.set k v).length := by
            rw [List.length_set]
            omega
          rw [ih (log.set k v) hle, hk', hzero', hend, List.take_add_one,
            List.getElem?_set_self hin, List.take_set_of_le le_rfl,
            List.drop_set_of_lt (by omega)]
          simp
        · rename_i hout
          have hlen : k = log.length := by omega
          subst hlen
          have hnil : (log ++ [v]).drop (log.length + 1 + vs.length) = [] :=
            List.drop_eq_nil_of_le (by simp)
          have hnil' : log.drop (log.length + 1 + vs.length) = [] :=
            List.drop_eq_nil_of_le (by omega)
          have hle : base + log.length + 1 ≤ base + (log ++ [v]).length := by
            rw [List.length_append, List.length_singleton]
            omega
          rw [if_pos rfl, ih (log ++ [v]) hle, hk', hzero', hend, hnil, hnil',
            List.take_of_length_le (by simp), List.take_length]
          simp

/-- Values written over a window of `L'`, from a slot up to which `L'` and
`L` agree, make it a window of `L`. -/
theorem splice_window {L L' : List DecidedValue} {base slot m e : Nat} (hm : slot ≤ m)
    (he : slot ≤ e) (hL : L'.take slot = L.take slot) :
    ((L'.take m).drop base).take (slot - base) ++ ((L.take e).drop slot).drop (base - slot)
      = (L.take e).drop base := by
  rcases Nat.le_total base slot with hle | hle
  · rw [Nat.sub_eq_zero_of_le hle, List.drop_zero, ← List.drop_take, List.take_take,
      min_eq_left hm, hL]
    conv_rhs => rw [← List.take_append_drop (slot - base) ((L.take e).drop base)]
    rw [List.drop_drop, Nat.add_sub_cancel' hle, ← List.drop_take, List.take_take, min_eq_left he]
  · rw [Nat.sub_eq_zero_of_le hle, List.take_zero, List.nil_append, List.drop_drop,
      Nat.add_sub_cancel' hle]

section Accept

variable {msg : PaxosMessage}

/-- No PROPOSE begins beyond the end of the follower's log. -/
theorem Follows.no_gap (hf : Follows n h i r) (hv : h.Valid (majorities n)) (hi : i < n)
    (hok : ProposeOk n h i msg) (hround : r.ackRound ≤ msg.round) : msg.slot ≤ r.logEnd :=
  hok.reached.le_last hv (majorities_members hi) (mem_majorities.mpr hi) hf.accepted hf.last
    hround

/-- A PROPOSE that is not stale reaches what the follower knows to be
committed. -/
theorem ProposeOk.committed_le_end (hv : h.Valid (majorities n))
    (hok : ProposeOk n h i msg) (hround : r.ackRound ≤ msg.round)
    (hfresh : msg.round = r.ackRound → r.logEnd ≤ proposeEnd msg) {k : Nat}
    (hk : h.Committed (majorities n) r.ackRound k) (hle : k ≤ r.logEnd) :
    k ≤ proposeEnd msg := by
  rcases hround.eq_or_lt with heq | hlt
  · exact hle.trans (hfresh heq.symm)
  · obtain ⟨A, hA, hAk⟩ := hok.end_ge
    exact (hk.le_adopted hv hlt hA).trans hAk

/-- The follower's log and the new round's agree below the PROPOSE. -/
theorem Follows.take_slot (hf : Follows n h i r) (hv : h.Valid (majorities n)) (hi : i < n)
    (hok : ProposeOk n h i msg) (hround : r.ackRound ≤ msg.round) :
    (h.log r.ackRound).take msg.slot = (h.log msg.round).take msg.slot := by
  rcases hround.eq_or_lt with heq | hlt
  · rw [heq]
  obtain ⟨A, hA, -⟩ := hok.end_ge
  rcases hok.reached with ⟨m, hm, -⟩ | ⟨q, hq, ha⟩
  · rw [hf.last _ hlt] at hm
    cases hm
  · have hs : h.Settled (majorities n) msg.round msg.slot := ⟨q, hq.le, ha⟩
    have hc := (hs.of_last (mem_majorities.mpr hi) hf.last).committed (majorities_members hi)
    exact (hc.take_eq hv hround (hf.opened hv) ⟨A, hA⟩).symm

theorem install_eq (hgap : msg.slot ≤ r.logEnd) (hbase : r.logBase ≤ proposeEnd msg)
    (hround : r.ackRound ≤ msg.round)
    (hfresh : msg.round = r.ackRound → r.logEnd ≤ proposeEnd msg) :
    r.install msg = { r with
      ackRound := msg.round
      log := r.log.take (msg.slot - r.logBase) ++ msg.values.drop (r.logBase - msg.slot) } := by
  have hwrite := writeValues_eq msg.values r.log hgap
  have hnogap : ¬msg.slot > logEnd { r with ackRound := msg.round } := Nat.not_lt.mpr hgap
  simp only [logEnd] at hgap hfresh
  simp only [install, if_neg hnogap, hwrite]
  have hlen : (r.log.take (msg.slot - r.logBase)
      ++ msg.values.drop (r.logBase - msg.slot)).length = proposeEnd msg - r.logBase := by
    simp only [List.length_append, List.length_take, List.length_drop, proposeEnd] at hbase ⊢
    omega
  split
  · -- a new round: cut at the end of the PROPOSE
    rw [← hlen, List.take_left]
  · rename_i hnot
    have hnil : r.log.drop (msg.slot + msg.values.length - r.logBase) = [] := by
      have := hfresh (by omega)
      simp only [proposeEnd] at this
      exact List.drop_eq_nil_of_le (by omega)
    rw [hnil, List.append_nil]

/-- The follower accepts the PROPOSE in the history. -/
theorem Follows.accept_move (hf : Follows n h i r) (hv : h.Valid (majorities n))
    (hok : ProposeOk n h i msg) (hround : r.probeRound = msg.round)
    (hfresh : msg.round = r.ackRound → r.logEnd ≤ proposeEnd msg) :
    ChangedBy n i h (h.accept i msg.round (proposeEnd msg))
      ∧ (h.accept i msg.round (proposeEnd msg)).Valid (majorities n) := by
  obtain ⟨A, hA, hAk⟩ := hok.end_ge
  have hprom : h.promised i = msg.round := hf.promised.trans hround
  have hold : ∀ m, h.accepted i msg.round = some m → m ≤ proposeEnd msg := by
    intro m hm
    rcases (hround ▸ hf.ack_le hv).eq_or_lt with heq | hlt
    · rw [← heq, hf.accepted] at hm
      exact (Option.some.inj hm) ▸ hfresh heq.symm
    · rw [hf.last _ hlt] at hm
      cases hm
  exact ⟨History.accept_changedBy hprom.le hold,
    History.accept_valid hv hprom hold hok.end_le hA hAk⟩

/-- What the write loop leaves is a window of the new round's log. -/
theorem Follows.install_log (hf : Follows n h i r) (hv : h.Valid (majorities n)) (hi : i < n)
    (hok : ProposeOk n h i msg) (hround : r.ackRound ≤ msg.round) :
    r.log.take (msg.slot - r.logBase) ++ msg.values.drop (r.logBase - msg.slot)
      = ((h.log msg.round).take (proposeEnd msg)).drop r.logBase := by
  rw [hf.window.log, hok.values]
  exact splice_window (hf.no_gap hv hi hok hround) (Nat.le_add_right _ _)
    (hf.take_slot hv hi hok hround)

theorem ReplicaInv.install (hinv : ReplicaInv n h i r) (hv : h.Valid (majorities n))
    (hi : i < n) (hl : i ≠ r.leaderIndex) (hok : ProposeOk n h i msg)
    (hround : r.probeRound = msg.round) (hfresh : r.staleProposal msg = false) (now : Nat) :
    ∃ h', ChangedBy n i h h' ∧ h'.Valid (majorities n)
      ∧ h'.Settled (majorities n) msg.round msg.truncationSlot
      ∧ ReplicaInv n h' i { r.install msg with
          decidedSlot := max (r.install msg).decidedSlot msg.decidedSlot
          lastLeaderMsg := now } := by
  have hf := hinv.follows
  have hack : r.ackRound ≤ msg.round := hround ▸ hf.ack_le hv
  have hfresh' : msg.round = r.ackRound → r.logEnd ≤ proposeEnd msg := by
    intro heq
    simpa [staleProposal, heq] using hfresh
  have hle : ∀ {k}, h.Committed (majorities n) r.ackRound k → k ≤ r.logEnd →
      k ≤ proposeEnd msg := hok.committed_le_end hv hack hfresh'
  have hbase : r.logBase ≤ proposeEnd msg :=
    hle (hf.base.committed (majorities_members hi)) (Nat.le_add_right _ _)
  rw [install_eq (hf.no_gap hv hi hok hack) hbase hack hfresh']
  obtain ⟨hch, hv'⟩ := hf.accept_move hv hok hround hfresh'
  have hlog := hf.install_log hv hi hok hack
  have hend : r.logBase + (r.log.take (msg.slot - r.logBase)
      ++ msg.values.drop (r.logBase - msg.slot)).length = proposeEnd msg := by
    have := hok.end_le
    rw [hlog, List.length_drop, List.length_take]
    omega
  obtain ⟨A, hA, -⟩ := hok.end_ge
  refine ⟨_, hch, hv', hok.truncation.mono hch.le le_rfl, ⟨?_, fun h => absurd h hl, ?_⟩⟩
  · exact
      { promised := hf.promised
        accepted := (History.accept_accepted_self h i _ _).trans (congrArg some hend.symm)
        last := fun q hq => by
          have hq' : msg.round < q := hq
          rw [History.accept_accepted_of_ne h i _ (Nat.ne_of_gt hq')]
          exact hf.last q (hack.trans_lt hq')
        window :=
          { log := by
              show _ = ((h.log msg.round).take (r.logBase + _)).drop r.logBase
              rw [hend]
              exact hlog
            base_le := hf.window.base_le
            values := by
              show r.processed.map _ = (h.log msg.round).take r.appliedSlot
              rw [hf.window.values]
              exact (take_eq_of_le (hf.decided.take_eq hv hack (hf.opened hv) ⟨A, hA⟩)
                hf.applied_le).symm
            slots := hf.window.slots }
        base := hf.base.mono hch.le hack
        decided := (hf.decided.mono hch.le hack).max (hok.decided.mono hch.le le_rfl)
        decided_le :=
          (max_le (hle hf.decided hf.decided_le) hok.decided_le).trans_eq hend.symm
        applied_le := hf.applied_le.trans (le_max_left _ _)
        acks := hf.acks.mono hch.le hack
        acks_le := (hle hf.acks hf.acks_le).trans_eq hend.symm
        adoptions := fun a ha => (hf.adoptions a ha).mono hch.le }
  · exact { hinv.stands.mono hv hch.le fun _ => rfl with }

theorem ReplicaInv.truncateFollower (hinv : ReplicaInv n h i r) {t : Nat}
    (hs : h.Settled (majorities n) r.ackRound t) : ReplicaInv n h i (r.truncateFollower t) := by
  have hf := hinv.follows
  have hend := truncateFollower_logEnd t r
  have hbase := hf.window.base_le
  have hle : (r.truncateFollower t).logBase ≤ max r.logBase t ∧
      (r.truncateFollower t).logBase ≤ r.appliedSlot := by
    simp only [PtPaxosReplica.truncateFollower]
    omega
  refine ⟨?_, ?_, { hinv.stands with }⟩
  · exact { hf with
      accepted := hf.accepted.trans (congrArg some hend.symm)
      window :=
        { log := by
            have := drop_window hf.window (k := (r.truncateFollower t).logBase)
              (Nat.le_add_right _ _)
            rw [hend]
            refine Eq.trans ?_ this
            simp [PtPaxosReplica.truncateFollower]
          base_le := hle.2
          values := hf.window.values
          slots := hf.window.slots }
      base := (hf.base.max hs).anti hle.1
      decided_le := hf.decided_le.trans_eq hend.symm
      acks_le := hf.acks_le.trans_eq hend.symm }
  · intro hl
    have hlead := hinv.leads hl
    exact ⟨hlead.round, hlead.log_length.trans hend.symm, hlead.reached⟩

theorem install_rounds (msg : PaxosMessage) (r : PtPaxosReplica) :
    (r.install msg).ackRound = msg.round ∧ (r.install msg).probeRound = r.probeRound
      ∧ (r.install msg).leaderIndex = r.leaderIndex := by
  simp only [PtPaxosReplica.install]
  split <;> split <;> exact ⟨rfl, rfl, rfl⟩

theorem acceptPropose_simulates (hinv : ReplicaInv n h i r) (hv : h.Valid (majorities n))
    (hwf : Wf n i r) (hi : i < n) (hl : i ≠ r.leaderIndex) (hok : ProposeOk n h i msg)
    (hround : r.probeRound = msg.round) (hfresh : r.staleProposal msg = false) (now : Nat) :
    Simulates n i h ((r.acceptPropose n i now msg).reply i msg) := by
  obtain ⟨h', hch, hv', htrunc, hinv'⟩ := hinv.install hv hi hl hok hround hfresh now
  obtain ⟨hack, hprobe, -⟩ := install_rounds msg r
  have hwf' : Wf n i { r.install msg with
      decidedSlot := max (r.install msg).decidedSlot msg.decidedSlot, lastLeaderMsg := now } :=
    { hwf.install hl msg with }
  have happly := hinv'.applyDecided hwf' hi
  have hcut := happly.truncateFollower (t := msg.truncationSlot) (by
    rw [applyDecided_ackRound]
    exact hack.symm ▸ htrunc)
  refine ⟨h', hch, hv', hcut.frames .replying _ _ _ _, ?_⟩
  intro p hp
  obtain rfl := List.mem_singleton.mp hp
  refine ackMsg_ok hcut ?_
  show (PtPaxosReplica.applyDecided n i _).ackRound = (PtPaxosReplica.applyDecided n i _).probeRound
  rw [applyDecided_ackRound, applyDecided_probeRound]
  exact hack.trans (hround.symm.trans hprobe.symm)

end Accept

end PtPaxosReplica

end Tmgr
