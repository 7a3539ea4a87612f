import Mathlib.Data.List.Infix
import Mathlib.Data.Set.Basic
import Mathlib.Logic.Function.Basic
import Mathlib.Order.MinMax
import Mathlib.Tactic.Tauto
import Tmgr.Lib.Quorum

/-!
# Multi-Paxos over whole logs

The mathematics of a replicated log with numbered rounds, in the style of
"the log of a round": in round `r` one leader adopts a log, then appends to
it; the members accept longer and longer prefixes of it. Nothing here knows
about messages, truncation or slots that were applied.

A `History` is what happened so far: per round the adopted log and the log
written since, per member how much of each round's log it accepted and the
highest round it promised. It is an auxiliary value of a run; the order
`h ≤ h'` says that `h'` may come later.

- `Chosen.take_le_adopted`: what a quorum accepted in round `r` is a prefix of the
  log adopted in every later round. The induction is on the later round;
  `Elected` says why its log was adopted.
- `Committed.take_eq`: two rounds agree on everything committed by the
  earlier one, whichever round committed it.
- the four operations (`promise`, `accept`, `append`, `opening`) keep `Valid`
  and only move up in the order.
-/

namespace LogPaxos

structure History (ι V : Type*) where
  /-- the log the leader of a round started from -/
  adopted : ℕ → Option (List V)
  /-- the log of a round: what was adopted and what was appended since -/
  log : ℕ → List V
  /-- how much of a round's log a member accepted -/
  accepted : ι → ℕ → Option ℕ
  promised : ι → ℕ

namespace History

variable {ι V : Type*}

/-! ## Acceptance and choice -/

/-- Member `i` accepted the first `k` entries of round `r`. -/
def Accepted (h : History ι V) (i : ι) (r k : ℕ) : Prop :=
  ∃ m, h.accepted i r = some m ∧ k ≤ m

def Opened (h : History ι V) (r : ℕ) : Prop := ∃ A, h.adopted r = some A

/-- A quorum accepted the first `k` entries of round `r`. -/
def Chosen (h : History ι V) (Q : QuorumSystem ι) (r k : ℕ) : Prop :=
  ∃ q, Q.IsQuorum q ∧ ∀ i ∈ q, h.Accepted i r k

def AllAccepted (h : History ι V) (Q : QuorumSystem ι) (r k : ℕ) : Prop :=
  ∀ i ∈ Q.members, h.Accepted i r k

/-- The first `k` entries were chosen in round `r` or before. -/
def Committed (h : History ι V) (Q : QuorumSystem ι) (r k : ℕ) : Prop :=
  ∃ q ≤ r, h.Chosen Q q k

/-- Everyone accepted the first `k` entries, in round `r` or before. -/
def Settled (h : History ι V) (Q : QuorumSystem ι) (r k : ℕ) : Prop :=
  ∃ q ≤ r, h.AllAccepted Q q k

/-- What a leader of round `r` may know of member `i`: it accepted `k`
entries of this round, or everyone did in an earlier one. -/
def Reached (h : History ι V) (Q : QuorumSystem ι) (i : ι) (r k : ℕ) : Prop :=
  h.Accepted i r k ∨ ∃ q < r, h.AllAccepted Q q k

/-- Why round `R` starts from `A`: `A` is the part of an earlier round's log
beyond which no member of a quorum accepted anything before it promised `R`. -/
def Elected (h : History ι V) (Q : QuorumSystem ι) (R : ℕ) (A : List V) : Prop :=
  ∃ q r m, Q.IsQuorum q ∧ r < R
    ∧ (∃ A', h.adopted r = some A' ∧ A'.length ≤ m) ∧ m ≤ (h.log r).length
    ∧ A = (h.log r).take m
    ∧ ∀ i ∈ q, R ≤ h.promised i
      ∧ ∀ r' < R, ∀ k, h.accepted i r' = some k → r' < r ∨ r' = r ∧ k ≤ m

structure Valid (h : History ι V) (Q : QuorumSystem ι) : Prop where
  adopted_prefix : ∀ {r A}, h.adopted r = some A → A <+: h.log r
  log_nil : ∀ {r}, h.adopted r = none → h.log r = []
  accepted_spec : ∀ {i r k}, h.accepted i r = some k →
    r ≤ h.promised i ∧ k ≤ (h.log r).length ∧ ∃ A, h.adopted r = some A ∧ A.length ≤ k
  elected : ∀ {R A}, 0 < R → h.adopted R = some A → h.Elected Q R A

/-- `h'` may come after `h`. A member that promised a round accepts nothing
more in the earlier ones. -/
structure Extends (h h' : History ι V) : Prop where
  adopted : ∀ {r A}, h.adopted r = some A → h'.adopted r = some A
  log : ∀ r, h.log r <+: h'.log r
  accepted : ∀ {i r k}, h.accepted i r = some k → h'.Accepted i r k
  promised : ∀ i, h.promised i ≤ h'.promised i
  frozen : ∀ {i r}, r < h.promised i → h'.accepted i r = h.accepted i r

instance : Preorder (History ι V) where
  le := Extends
  le_refl h := ⟨id, fun _ => List.prefix_refl _, fun hk => ⟨_, hk, le_rfl⟩, fun _ => le_rfl,
    fun _ => rfl⟩
  le_trans a b c hab hbc := by
    refine ⟨fun h => hbc.adopted (hab.adopted h), fun r => (hab.log r).trans (hbc.log r), ?_,
      fun i => (hab.promised i).trans (hbc.promised i), ?_⟩
    · intro i r k hk
      obtain ⟨m, hm, hkm⟩ := hab.accepted hk
      obtain ⟨m', hm', hmm⟩ := hbc.accepted hm
      exact ⟨m', hm', hkm.trans hmm⟩
    · intro i r hr
      rw [hbc.frozen (hr.trans_le (hab.promised i)), hab.frozen hr]

variable {h h' : History ι V} {Q : QuorumSystem ι} {i : ι} {r R k m : ℕ} {A : List V}

/-! ## What grows with the history -/

theorem Accepted.mono (hle : h ≤ h') : h.Accepted i r k → h'.Accepted i r k := by
  rintro ⟨m, hm, hkm⟩
  obtain ⟨m', hm', hmm⟩ := hle.accepted hm
  exact ⟨m', hm', hkm.trans hmm⟩

theorem Accepted.anti (hmk : m ≤ k) : h.Accepted i r k → h.Accepted i r m := by
  rintro ⟨m', hm', hkm⟩
  exact ⟨m', hm', hmk.trans hkm⟩

theorem Opened.mono (hle : h ≤ h') : h.Opened r → h'.Opened r := by
  rintro ⟨A, hA⟩
  exact ⟨A, hle.adopted hA⟩

theorem Chosen.mono (hle : h ≤ h') : h.Chosen Q r k → h'.Chosen Q r k := by
  rintro ⟨q, hq, hacc⟩
  exact ⟨q, hq, fun i hi => (hacc i hi).mono hle⟩

theorem AllAccepted.mono (hle : h ≤ h') (ha : h.AllAccepted Q r k) : h'.AllAccepted Q r k :=
  fun i hi => (ha i hi).mono hle

theorem AllAccepted.anti (hmk : m ≤ k) (ha : h.AllAccepted Q r k) : h.AllAccepted Q r m :=
  fun i hi => (ha i hi).anti hmk

theorem Committed.mono (hle : h ≤ h') (hrR : r ≤ R) : h.Committed Q r k → h'.Committed Q R k := by
  rintro ⟨q, hq, hc⟩
  exact ⟨q, hq.trans hrR, hc.mono hle⟩

theorem Settled.mono (hle : h ≤ h') (hrR : r ≤ R) : h.Settled Q r k → h'.Settled Q R k := by
  rintro ⟨q, hq, hc⟩
  exact ⟨q, hq.trans hrR, hc.mono hle⟩

theorem Settled.anti (hmk : m ≤ k) : h.Settled Q r k → h.Settled Q r m := by
  rintro ⟨q, hq, hc⟩
  exact ⟨q, hq, hc.anti hmk⟩

theorem Committed.max (hk : h.Committed Q r k) (hm : h.Committed Q r m) :
    h.Committed Q r (max k m) := by
  rcases max_choice k m with hmax | hmax <;> rwa [hmax]

theorem Settled.max (hk : h.Settled Q r k) (hm : h.Settled Q r m) :
    h.Settled Q r (max k m) := by
  rcases max_choice k m with hmax | hmax <;> rwa [hmax]

theorem Reached.mono (hle : h ≤ h') : h.Reached Q i r k → h'.Reached Q i r k := by
  rintro (ha | ⟨q, hq, ha⟩)
  · exact .inl (ha.mono hle)
  · exact .inr ⟨q, hq, ha.mono hle⟩

theorem Reached.anti (hmk : m ≤ k) : h.Reached Q i r k → h.Reached Q i r m := by
  rintro (ha | ⟨q, hq, ha⟩)
  · exact .inl (ha.anti hmk)
  · exact .inr ⟨q, hq, ha.anti hmk⟩

theorem Reached.max (hk : h.Reached Q i r k) (hm : h.Reached Q i r m) :
    h.Reached Q i r (max k m) := by
  rcases max_choice k m with hmax | hmax <;> rwa [hmax]

/-- The choice of an election is final: the quorum froze the rounds it
looked at. -/
theorem Elected.mono (hle : h ≤ h') : h.Elected Q R A → h'.Elected Q R A := by
  rintro ⟨q, r, m, hq, hr, ⟨A', hA', hlen⟩, hm, rfl, hall⟩
  refine ⟨q, r, m, hq, hr, ⟨A', hle.adopted hA', hlen⟩, hm.trans (hle.log r).length_le,
    ((hle.log r).take m).eq_of_length (by simp [hm, hm.trans (hle.log r).length_le]), ?_⟩
  intro i hi
  obtain ⟨hprom, hacc⟩ := hall i hi
  refine ⟨hprom.trans (hle.promised i), fun r' hr' k hk => hacc r' hr' k ?_⟩
  rwa [hle.frozen (hr'.trans_le hprom)] at hk

/-! ## Lengths -/

theorem Valid.opened_of_accepted (hv : h.Valid Q) (hk : h.Accepted i r k) : h.Opened r := by
  obtain ⟨m, hm, -⟩ := hk
  obtain ⟨-, -, A, hA, -⟩ := hv.accepted_spec hm
  exact ⟨A, hA⟩

theorem Valid.le_of_accepted (hv : h.Valid Q) (hk : h.Accepted i r k) :
    k ≤ (h.log r).length := by
  obtain ⟨m, hm, hkm⟩ := hk
  exact hkm.trans (hv.accepted_spec hm).2.1

/-- A quorum has a member. -/
theorem Chosen.exists_accepted (hc : h.Chosen Q r k) : ∃ i, h.Accepted i r k := by
  obtain ⟨q, hq, hacc⟩ := hc
  obtain ⟨i, hi, -⟩ := Q.meet hq hq
  exact ⟨i, hacc i hi⟩

theorem Chosen.le_length (hv : h.Valid Q) (hc : h.Chosen Q r k) : k ≤ (h.log r).length := by
  obtain ⟨i, hi⟩ := hc.exists_accepted
  exact hv.le_of_accepted hi

theorem AllAccepted.chosen (hQ : Q.IsQuorum Q.members) (ha : h.AllAccepted Q r k) :
    h.Chosen Q r k :=
  ⟨Q.members, hQ, ha⟩

theorem Settled.committed (hQ : Q.IsQuorum Q.members) : h.Settled Q r k → h.Committed Q r k := by
  rintro ⟨q, hq, ha⟩
  exact ⟨q, hq, ha.chosen hQ⟩

/-! ## Safety -/

/-- What was chosen is a prefix of every log adopted later. -/
theorem Chosen.take_le_adopted (hv : h.Valid Q) (hc : h.Chosen Q r k) (hrR : r < R)
    (hA : h.adopted R = some A) : (h.log r).take k <+: A := by
  induction R using Nat.strongRecOn generalizing A with
  | ind R ih =>
      obtain ⟨q, hq, hacc⟩ := hc
      obtain ⟨q', r', m, hq', hr', ⟨A', hA', hlen⟩, -, rfl, hall⟩ :=
        hv.elected (Nat.zero_lt_of_lt hrR) hA
      -- a member of both quorums accepted the choice before it promised `R`
      obtain ⟨i, hi, hi'⟩ := Q.meet hq hq'
      obtain ⟨ki, hki, hkki⟩ := hacc i hi
      rcases (hall i hi').2 r hrR ki hki with hlt | ⟨rfl, hle⟩
      · have hpre : (h.log r).take k <+: A' := ih r' hr' hlt hA'
        refine List.prefix_take_iff.mpr ⟨hpre.trans (hv.adopted_prefix hA'), ?_⟩
        exact hpre.length_le.trans hlen
      · exact List.take_prefix_take_left (hkki.trans hle)

theorem Chosen.le_adopted (hv : h.Valid Q) (hc : h.Chosen Q r k) (hrR : r < R)
    (hA : h.adopted R = some A) : k ≤ A.length := by
  have hlen := (hc.take_le_adopted hv hrR hA).length_le
  rwa [List.length_take, min_eq_left (hc.le_length hv)] at hlen

/-- Two rounds agree on what was chosen in the earlier one. -/
theorem Chosen.take_eq (hv : h.Valid Q) (hc : h.Chosen Q r k) (hrR : r ≤ R)
    (hR : h.Opened R) : (h.log R).take k = (h.log r).take k := by
  rcases hrR.eq_or_lt with rfl | hlt
  · rfl
  obtain ⟨A, hA⟩ := hR
  have hpre := (hc.take_le_adopted hv hlt hA).trans (hv.adopted_prefix hA)
  have := List.prefix_iff_eq_take.mp hpre
  rw [List.length_take, min_eq_left (hc.le_length hv)] at this
  exact this.symm

theorem Committed.take_eq (hv : h.Valid Q) (hc : h.Committed Q r k) (hrR : r ≤ R)
    (hr : h.Opened r) (hR : h.Opened R) : (h.log R).take k = (h.log r).take k := by
  obtain ⟨q, hq, hc⟩ := hc
  rw [hc.take_eq hv (hq.trans hrR) hR, hc.take_eq hv hq hr]

theorem Committed.le_length (hv : h.Valid Q) (hc : h.Committed Q r k) (hr : h.Opened r) :
    k ≤ (h.log r).length := by
  obtain ⟨q, hq, hc⟩ := hc
  have heq := congrArg List.length (hc.take_eq hv hq hr)
  have := hc.le_length hv
  rw [List.length_take, List.length_take] at heq
  omega

/-- What was committed before round `R` is in the log adopted there. -/
theorem Committed.le_adopted (hv : h.Valid Q) (hc : h.Committed Q r k) (hrR : r < R)
    (hA : h.adopted R = some A) : k ≤ A.length := by
  obtain ⟨q, hq, hc⟩ := hc
  exact hc.le_adopted hv (hq.trans_lt hrR) hA

/-! ## What everyone accepted -/

/-- A member that accepted something in round `r` accepted there all that
was settled by then. -/
theorem Settled.le_accepted (hv : h.Valid Q) (hQ : Q.IsQuorum Q.members) (hi : i ∈ Q.members)
    (hs : h.Settled Q r k) (hm : h.accepted i r = some m) : k ≤ m := by
  obtain ⟨q, hq, ha⟩ := hs
  rcases hq.eq_or_lt with rfl | hlt
  · obtain ⟨m', hm', hk⟩ := ha i hi
    rw [hm] at hm'
    rwa [Option.some.inj hm']
  · obtain ⟨-, -, A, hA, hlen⟩ := hv.accepted_spec hm
    exact ((ha.chosen hQ).le_adopted hv hlt hA).trans hlen

/-- A settled part lies below what a member accepted last. -/
theorem Settled.le_last (hv : h.Valid Q) (hQ : Q.IsQuorum Q.members) (hi : i ∈ Q.members)
    (hs : h.Settled Q R k) (hm : h.accepted i r = some m)
    (hlast : ∀ r', r < r' → h.accepted i r' = none) : k ≤ m := by
  obtain ⟨q, hq, ha⟩ := hs
  obtain ⟨m', hm', hk⟩ := ha i hi
  rcases Nat.lt_or_ge r q with hlt | hge
  · rw [hlast q hlt] at hm'
    cases hm'
  · exact Settled.le_accepted hv hQ hi ⟨q, hge, ha⟩ hm

theorem Settled.of_last (hi : i ∈ Q.members) (hs : h.Settled Q R k)
    (hlast : ∀ r', r < r' → h.accepted i r' = none) : h.Settled Q r k := by
  obtain ⟨q, hq, ha⟩ := hs
  refine ⟨q, ?_, ha⟩
  by_contra hlt
  obtain ⟨m', hm', -⟩ := ha i hi
  rw [hlast q (by omega)] at hm'
  cases hm'

/-! ## What a leader knows -/

theorem Settled.reached (hi : i ∈ Q.members) : h.Settled Q R k → h.Reached Q i R k := by
  rintro ⟨q, hq, ha⟩
  rcases hq.eq_or_lt with rfl | hlt
  · exact .inl (ha i hi)
  · exact .inr ⟨q, hlt, ha⟩

theorem Reached.le_length (hv : h.Valid Q) (hQ : Q.IsQuorum Q.members) (hR : h.Opened R)
    (hr : h.Reached Q i R k) : k ≤ (h.log R).length := by
  rcases hr with ha | ⟨q, hq, ha⟩
  · exact hv.le_of_accepted ha
  · exact Committed.le_length hv ⟨q, hq.le, ha.chosen hQ⟩ hR

/-- A leader that waits for the slowest member knows what is settled. -/
theorem settled_of_reached (hall : ∀ i ∈ Q.members, h.Reached Q i R k) : h.Settled Q R k := by
  by_cases hq : ∃ q < R, h.AllAccepted Q q k
  · obtain ⟨q, hq, ha⟩ := hq
    exact ⟨q, hq.le, ha⟩
  · exact ⟨R, le_rfl, fun i hi => (hall i hi).resolve_right hq⟩

theorem committed_of_reached (hQ : Q.IsQuorum Q.members) {q : Finset ι} (hq : Q.IsQuorum q)
    (hall : ∀ i ∈ q, h.Reached Q i R k) : h.Committed Q R k := by
  by_cases hs : ∃ q < R, h.AllAccepted Q q k
  · obtain ⟨q', hq', ha⟩ := hs
    exact ⟨q', hq'.le, ha.chosen hQ⟩
  · exact ⟨R, le_rfl, q, hq, fun i hi => (hall i hi).resolve_right hs⟩

/-- What is reached lies below what the member accepted last. -/
theorem Reached.le_last (hv : h.Valid Q) (hQ : Q.IsQuorum Q.members) (hi : i ∈ Q.members)
    (hr : h.Reached Q i R k) (hm : h.accepted i r = some m)
    (hlast : ∀ r', r < r' → h.accepted i r' = none) (hrR : r ≤ R) : k ≤ m := by
  rcases hr with ⟨m', hm', hk⟩ | ⟨q, hq, ha⟩
  · rcases hrR.eq_or_lt with rfl | hlt
    · rw [hm] at hm'
      rwa [Option.some.inj hm']
    · rw [hlast R hlt] at hm'
      cases hm'
  · exact Settled.le_last hv hQ hi ⟨q, le_rfl, ha⟩ hm hlast

/-! ## Steps of one member

Each round has an owner, who alone opens it and appends to its log. -/

/-- `h'` comes after `h` by what member `i` did. -/
structure ChangedBy (owner : ℕ → ι) (i : ι) (h h' : History ι V) : Prop where
  le : h ≤ h'
  adopted : ∀ {r}, owner r ≠ i → h'.adopted r = h.adopted r
  log : ∀ {r}, owner r ≠ i → h'.log r = h.log r
  accepted : ∀ {j}, j ≠ i → h'.accepted j = h.accepted j
  promised : ∀ {j}, j ≠ i → h'.promised j = h.promised j

variable {owner : ℕ → ι}

theorem ChangedBy.refl (h : History ι V) : ChangedBy owner i h h :=
  ⟨le_rfl, fun _ => rfl, fun _ => rfl, fun _ => rfl, fun _ => rfl⟩

theorem ChangedBy.trans {h'' : History ι V} (h₁ : ChangedBy owner i h h')
    (h₂ : ChangedBy owner i h' h'') : ChangedBy owner i h h'' where
  le := h₁.le.trans h₂.le
  adopted hr := (h₂.adopted hr).trans (h₁.adopted hr)
  log hr := (h₂.log hr).trans (h₁.log hr)
  accepted hj := (h₂.accepted hj).trans (h₁.accepted hj)
  promised hj := (h₂.promised hj).trans (h₁.promised hj)

/-- A history that is later and has the same acceptances, adopted logs and
longer logs is as valid. -/
theorem Valid.of_le (hv : h.Valid Q) (hle : h ≤ h') (hadopted : h'.adopted = h.adopted)
    (haccepted : h'.accepted = h.accepted)
    (hlog : ∀ r, h.adopted r = none → h'.log r = h.log r) : h'.Valid Q where
  adopted_prefix {r A} hA := by
    rw [hadopted] at hA
    exact (hv.adopted_prefix hA).trans (hle.log r)
  log_nil {r} hr := by
    rw [hadopted] at hr
    rw [hlog r hr, hv.log_nil hr]
  accepted_spec {i r k} hk := by
    rw [haccepted] at hk
    obtain ⟨hp, hlen, hA⟩ := hv.accepted_spec hk
    rw [hadopted]
    exact ⟨hp.trans (hle.promised i), hlen.trans (hle.log r).length_le, hA⟩
  elected {R A} hR hA := by
    rw [hadopted] at hA
    exact (hv.elected hR hA).mono hle

/-! ## The operations -/

def append (h : History ι V) (R : ℕ) (v : V) : History ι V :=
  { h with log := Function.update h.log R (h.log R ++ [v]) }

def opening (h : History ι V) (R : ℕ) (A : List V) : History ι V :=
  { h with
    adopted := Function.update h.adopted R (some A), log := Function.update h.log R A }

theorem append_log_self (h : History ι V) (R : ℕ) (v : V) :
    (h.append R v).log R = h.log R ++ [v] := by
  simp [append]

theorem opening_log_self (h : History ι V) (R : ℕ) (A : List V) :
    (h.opening R A).log R = A := by
  simp [opening]

theorem opening_adopted_self (h : History ι V) (R : ℕ) (A : List V) :
    (h.opening R A).adopted R = some A := by
  simp [opening]

theorem append_le (h : History ι V) (R : ℕ) (v : V) : h ≤ h.append R v := by
  refine ⟨id, ?_, fun hk => ⟨_, hk, le_rfl⟩, fun _ => le_rfl, fun _ => rfl⟩
  intro r
  by_cases hr : r = R
  · subst hr
    simp [append]
  · simp [append, hr]

theorem append_changedBy (h : History ι V) (R : ℕ) (v : V) :
    ChangedBy owner (owner R) h (h.append R v) where
  le := append_le h R v
  adopted _ := rfl
  log {r} hr := by
    have : r ≠ R := fun h => hr (congrArg owner h)
    simp [append, this]
  accepted _ := rfl
  promised _ := rfl

theorem append_valid (hv : h.Valid Q) (hR : h.Opened R) (v : V) : (h.append R v).Valid Q := by
  refine hv.of_le (append_le h R v) rfl rfl ?_
  intro r hr
  have : r ≠ R := by
    rintro rfl
    obtain ⟨A, hA⟩ := hR
    rw [hr] at hA
    cases hA
  simp [append, this]

theorem opening_le (hv : h.Valid Q) (hnew : h.adopted R = none) (A : List V) :
    h ≤ h.opening R A := by
  refine ⟨fun {r A'} hA' => ?_, ?_, fun hk => ⟨_, hk, le_rfl⟩, fun _ => le_rfl,
    fun _ => rfl⟩
  · have : r ≠ R := by
      rintro rfl
      rw [hnew] at hA'
      cases hA'
    simpa [opening, this] using hA'
  · intro r
    by_cases hr : r = R
    · subst hr
      simp [opening, hv.log_nil hnew]
    · simp [opening, hr]

theorem opening_changedBy (hv : h.Valid Q) (hnew : h.adopted R = none) (A : List V) :
    ChangedBy owner (owner R) h (h.opening R A) where
  le := opening_le hv hnew A
  adopted {r} hr := by
    have : r ≠ R := fun h => hr (congrArg owner h)
    simp [opening, this]
  log {r} hr := by
    have : r ≠ R := fun h => hr (congrArg owner h)
    simp [opening, this]
  accepted _ := rfl
  promised _ := rfl

theorem opening_valid (hv : h.Valid Q) (hnew : h.adopted R = none) (hA : h.Elected Q R A) :
    (h.opening R A).Valid Q := by
  have hle := opening_le hv hnew A
  refine ⟨fun {r B} hB => ?_, fun {r} hr => ?_, fun {j r k} hk => ?_, fun {r B} hpos hB => ?_⟩
  · by_cases hr : r = R
    · subst hr
      simp only [opening, Function.update_self, Option.some.injEq] at hB
      simp [opening, hB]
    · simp only [opening, Function.update_of_ne hr] at hB ⊢
      exact hv.adopted_prefix hB
  · by_cases hr' : r = R
    · subst hr'
      simp [opening] at hr
    · simp only [opening, Function.update_of_ne hr'] at hr ⊢
      exact hv.log_nil hr
  · obtain ⟨hp, hlen, B, hB, hBk⟩ := hv.accepted_spec hk
    exact ⟨hp, hlen.trans (hle.log r).length_le, B, hle.adopted hB, hBk⟩
  · by_cases hr : r = R
    · subst hr
      simp only [opening, Function.update_self, Option.some.injEq] at hB
      exact hB ▸ hA.mono hle
    · simp only [opening, Function.update_of_ne hr] at hB
      exact (hv.elected hpos hB).mono hle

/-- Before anything happens: round 0 is open, with an empty log that
everyone accepted. -/
def start (ι V : Type*) : History ι V where
  adopted r := if r = 0 then some [] else none
  log _ := []
  accepted _ r := if r = 0 then some 0 else none
  promised _ := 0

theorem start_valid (Q : QuorumSystem ι) : (start ι V).Valid Q where
  adopted_prefix {r A} hA := by
    by_cases hr : r = 0 <;> simp_all [start]
  log_nil _ := rfl
  accepted_spec {i r k} hk := by
    by_cases hr : r = 0 <;> simp_all [start]
  elected {R A} hR hA := by
    simp [start, hR.ne'] at hA

variable [DecidableEq ι]

def promise (h : History ι V) (i : ι) (R : ℕ) : History ι V :=
  { h with promised := Function.update h.promised i R }

def accept (h : History ι V) (i : ι) (R k : ℕ) : History ι V :=
  { h with
    accepted := Function.update h.accepted i (Function.update (h.accepted i) R (some k)) }

theorem promise_promised_self (h : History ι V) (i : ι) (R : ℕ) :
    (h.promise i R).promised i = R := by
  simp [promise]

theorem accept_accepted_self (h : History ι V) (i : ι) (R k : ℕ) :
    (h.accept i R k).accepted i R = some k := by
  simp [accept]

theorem accept_accepted_of_ne (h : History ι V) (i : ι) (k : ℕ) (hr : r ≠ R) :
    (h.accept i R k).accepted i r = h.accepted i r := by
  simp [accept, hr]

theorem promise_le (hR : h.promised i ≤ R) : h ≤ h.promise i R := by
  refine ⟨id, fun _ => List.prefix_refl _, fun hk => ⟨_, hk, le_rfl⟩, ?_, fun _ => rfl⟩
  intro j
  by_cases hj : j = i
  · subst hj
    simpa [promise] using hR
  · simp [promise, hj]

theorem promise_changedBy (hR : h.promised i ≤ R) : ChangedBy owner i h (h.promise i R) where
  le := promise_le hR
  adopted _ := rfl
  log _ := rfl
  accepted _ := rfl
  promised hj := by simp [promise, hj]

theorem promise_valid (hv : h.Valid Q) (hR : h.promised i ≤ R) : (h.promise i R).Valid Q :=
  hv.of_le (promise_le hR) rfl rfl fun _ _ => rfl

theorem accept_le (hprom : h.promised i ≤ R) (hold : ∀ m, h.accepted i R = some m → m ≤ k) :
    h ≤ h.accept i R k := by
  refine ⟨id, fun _ => List.prefix_refl _, ?_, fun _ => le_rfl, ?_⟩
  · intro j r m hm
    by_cases hj : j = i
    · subst hj
      by_cases hr : r = R
      · subst hr
        exact ⟨k, accept_accepted_self h j r k, hold m hm⟩
      · exact ⟨m, by rwa [accept_accepted_of_ne h j k hr], le_rfl⟩
    · exact ⟨m, by simpa [accept, hj] using hm, le_rfl⟩
  · intro j r hr
    by_cases hj : j = i
    · subst hj
      exact accept_accepted_of_ne h j k (hr.trans_le hprom).ne
    · simp [accept, hj]

theorem accept_changedBy (hprom : h.promised i ≤ R)
    (hold : ∀ m, h.accepted i R = some m → m ≤ k) :
    ChangedBy owner i h (h.accept i R k) where
  le := accept_le hprom hold
  adopted _ := rfl
  log _ := rfl
  accepted hj := by simp [accept, hj]
  promised _ := rfl

theorem accept_valid (hv : h.Valid Q) (hprom : h.promised i = R)
    (hold : ∀ m, h.accepted i R = some m → m ≤ k) (hk : k ≤ (h.log R).length)
    (hA : h.adopted R = some A) (hAk : A.length ≤ k) : (h.accept i R k).Valid Q where
  adopted_prefix := hv.adopted_prefix
  log_nil := hv.log_nil
  accepted_spec {j r m} hm := by
    by_cases hj : j = i
    · subst hj
      by_cases hr : r = R
      · subst hr
        rw [accept_accepted_self] at hm
        obtain rfl := Option.some.inj hm
        exact ⟨hprom.ge, hk, A, hA, hAk⟩
      · rw [accept_accepted_of_ne h j k hr] at hm
        exact hv.accepted_spec hm
    · exact hv.accepted_spec (by simpa [accept, hj] using hm)
  elected hR hA :=
    (hv.elected hR hA).mono (accept_le hprom.le hold)

/-! ## The moves of a leader -/

/-- The owner of round `R` opens it with `A`, which it accepts itself. -/
def lead (h : History ι V) (i : ι) (R : ℕ) (A : List V) : History ι V :=
  (h.opening R A).accept i R A.length

/-- The leader of round `R` appends `v`, which it accepts itself. -/
def write (h : History ι V) (i : ι) (R : ℕ) (v : V) : History ι V :=
  (h.append R v).accept i R ((h.log R).length + 1)

theorem lead_log_self (h : History ι V) (i : ι) (R : ℕ) (A : List V) :
    (h.lead i R A).log R = A :=
  opening_log_self h R A

theorem lead_adopted_self (h : History ι V) (i : ι) (R : ℕ) (A : List V) :
    (h.lead i R A).adopted R = some A :=
  opening_adopted_self h R A

theorem lead_adopted_of_ne (h : History ι V) (i : ι) (A : List V) (hr : r ≠ R) :
    (h.lead i R A).adopted r = h.adopted r := by
  simp [lead, accept, opening, hr]

theorem lead_accepted_self (h : History ι V) (i : ι) (R : ℕ) (A : List V) :
    (h.lead i R A).accepted i R = some A.length :=
  accept_accepted_self _ i R _

theorem lead_accepted_of_ne (h : History ι V) (i : ι) (A : List V) (hr : r ≠ R) :
    (h.lead i R A).accepted i r = h.accepted i r :=
  accept_accepted_of_ne _ i _ hr

theorem lead_move (owner : ℕ → ι) (hv : h.Valid Q) (hnew : h.adopted R = none)
    (hA : h.Elected Q R A) (hprom : h.promised i = R) (howner : owner R = i) :
    ChangedBy owner i h (h.lead i R A) ∧ (h.lead i R A).Valid Q := by
  have hnone : ∀ m, (h.opening R A).accepted i R = some m → m ≤ A.length := fun m hm => by
    obtain ⟨-, -, B, hB, -⟩ := hv.accepted_spec (i := i) (r := R) hm
    rw [hnew] at hB
    cases hB
  have hopen : ChangedBy owner i h (h.opening R A) := howner ▸ opening_changedBy hv hnew A
  refine ⟨hopen.trans (accept_changedBy hprom.le hnone),
    accept_valid (opening_valid hv hnew hA) hprom hnone ?_ (opening_adopted_self h R A) le_rfl⟩
  rw [opening_log_self]

theorem write_log_self (h : History ι V) (i : ι) (R : ℕ) (v : V) :
    (h.write i R v).log R = h.log R ++ [v] :=
  append_log_self h R v

theorem write_accepted_self (h : History ι V) (i : ι) (R : ℕ) (v : V) :
    (h.write i R v).accepted i R = some ((h.log R).length + 1) :=
  accept_accepted_self _ i R _

theorem write_accepted_of_ne (h : History ι V) (i : ι) (v : V) (hr : r ≠ R) :
    (h.write i R v).accepted i r = h.accepted i r :=
  accept_accepted_of_ne _ i _ hr

theorem write_move (owner : ℕ → ι) (hv : h.Valid Q) (hprom : h.promised i = R)
    (hacc : h.accepted i R = some (h.log R).length) (howner : owner R = i) (v : V) :
    ChangedBy owner i h (h.write i R v) ∧ (h.write i R v).Valid Q := by
  obtain ⟨-, -, A, hA, hAk⟩ := hv.accepted_spec hacc
  have hold : ∀ m, (h.append R v).accepted i R = some m → m ≤ (h.log R).length + 1 :=
    fun m hm => by
      have : h.accepted i R = some m := hm
      rw [hacc] at this
      have := Option.some.inj this
      omega
  have happend : ChangedBy owner i h (h.append R v) := howner ▸ append_changedBy h R v
  refine ⟨happend.trans (accept_changedBy hprom.le hold),
    accept_valid (append_valid hv ⟨A, hA⟩ v) hprom hold ?_ hA (hAk.trans (Nat.le_succ _))⟩
  rw [append_log_self, List.length_append, List.length_singleton]

end History

end LogPaxos
