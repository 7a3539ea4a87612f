import Mathlib.Data.List.Infix
import Mathlib.Data.List.Nodup

/-!
# Linearizable objects

A shared object is used by operations that overlap in time. What its users
see is a *history*: the invocations and the returns, in the order they happen.
`Linearization` says that a list of operations explains a history: executed one
at a time by the sequential `step` they give the answers that were returned,
and an operation that returned before another was invoked comes before it.

`Linearization.of_bounds` builds one from what an implementation with a
committed log offers: whenever an operation is invoked, some prefix of the list
has everything that returned so far and nothing that was not invoked yet. The
other rules are for users: an answer has a place in the sequential execution
(`Linearization.answered`), and two answers have theirs one after the other
(`Linearization.before_or_after`, `Linearization.before`).
-/

namespace Linear

variable {ι α ρ σ : Type*}

/-- What happens at the border of the object: the operation `o` is invoked
with the request `a`, or returns `b`. -/
inductive Act (ι α ρ : Type*)
  | inv (o : ι) (a : α)
  | ret (o : ι) (b : ρ)
  deriving DecidableEq

/-- The state after some operations, one at a time. -/
def after (step : σ → α → σ × ρ) (s₀ : σ) (l : List (ι × α)) : σ :=
  l.foldl (fun s p => (step s p.2).1) s₀

/-- `o` asks `a` right after the operations `past` of `l`, and the answer
is `b`. -/
structure Answered (step : σ → α → σ × ρ) (s₀ : σ) (l past : List (ι × α)) (o : ι) (a : α)
    (b : ρ) : Prop where
  place : past ++ [(o, a)] <+: l
  answer : b = (step (after step s₀ past) a).2

/-- Every operation is invoked once. -/
def InvokedOnce (h : List (Act ι α ρ)) : Prop :=
  ∀ h₁ o a h₂, h = h₁ ++ .inv o a :: h₂ → ∀ a', .inv o a' ∉ h₁

/-- The operations `l`, executed one at a time, explain the history `h`. -/
structure Linearization (step : σ → α → σ × ρ) (s₀ : σ) (h : List (Act ι α ρ))
    (l : List (ι × α)) : Prop where
  nodup : (l.map Prod.fst).Nodup
  invoked : ∀ p ∈ l, .inv p.1 p.2 ∈ h
  returned : ∀ {o b}, .ret o b ∈ h → ∃ past a, Answered step s₀ l past o a b
  ordered : ∀ {h₁ o a h₂}, h = h₁ ++ .inv o a :: h₂ → ∀ {past}, past ++ [(o, a)] <+: l →
    ∀ {o' b}, .ret o' b ∈ h₁ → o' ∈ past.map Prod.fst

variable {step : σ → α → σ × ρ} {s₀ : σ} {h : List (Act ι α ρ)} {l past past' : List (ι × α)}
  {o o' : ι} {a a' : α} {b b' : ρ}

/-- An operation of a list without duplicates has one place in it. -/
theorem place_unique (hnodup : (l.map Prod.fst).Nodup) (h : past ++ [(o, a)] <+: l)
    (h' : past' ++ [(o, a')] <+: l) : past = past' ∧ a = a' := by
  have hnot : ∀ {p p' : List (ι × α)} {a a' : α}, p ++ [(o, a)] <+: l → p' ++ [(o, a')] <+: l →
      ¬p.length < p'.length := by
    intro p p' a a' hp hp' hlt
    have hpre : p ++ [(o, a)] <+: p' :=
      List.prefix_of_prefix_length_le hp ((List.prefix_append _ _).trans hp') (by simpa [Nat.succ_le_iff] using hlt)
    have hmem : (o, a) ∈ p' := hpre.subset (by simp)
    have hsub : ((p' ++ [(o, a')]).map Prod.fst).Nodup := hnodup.sublist (hp'.sublist.map _)
    rw [List.map_append, List.nodup_append] at hsub
    exact hsub.2.2 o (List.mem_map_of_mem hmem) o (by simp) rfl
  have hlen : past.length = past'.length :=
    Nat.le_antisymm (Nat.not_lt.mp (hnot h' h)) (Nat.not_lt.mp (hnot h h'))
  have heq : past ++ [(o, a)] = past' ++ [(o, a')] :=
    (List.prefix_of_prefix_length_le h h' (by simp [hlen])).eq_of_length (by simp [hlen])
  obtain ⟨hpast, hlast⟩ := List.append_inj' heq rfl
  exact ⟨hpast, by simpa using hlast⟩

/-- Of two operations of the list one comes before the other. -/
theorem place_cases (h : past ++ [(o, a)] <+: l) (h' : past' ++ [(o', a')] <+: l)
    (hne : o ≠ o') : past ++ [(o, a)] <+: past' ∨ past' ++ [(o', a')] <+: past := by
  rcases Nat.lt_trichotomy past.length past'.length with hlt | heq | hlt
  · left
    exact List.prefix_of_prefix_length_le h ((List.prefix_append _ _).trans h')
      (by simpa [Nat.succ_le_iff] using hlt)
  · have hsame : past ++ [(o, a)] = past' ++ [(o', a')] :=
      (List.prefix_of_prefix_length_le h h' (by simp [heq])).eq_of_length (by simp [heq])
    obtain ⟨-, hlast⟩ := List.append_inj' hsame rfl
    simp only [List.cons.injEq, Prod.mk.injEq, and_true] at hlast
    exact absurd hlast.1 hne
  · right
    exact List.prefix_of_prefix_length_le h' ((List.prefix_append _ _).trans h)
      (by simpa [Nat.succ_le_iff] using hlt)

/-- Where an operation is invoked, everything that returned is in a part
`done` of the list that has nothing but what was invoked by then. -/
theorem Linearization.of_bounds (hnodup : (l.map Prod.fst).Nodup)
    (hinvoked : ∀ p ∈ l, .inv p.1 p.2 ∈ h)
    (hreturned : ∀ {o b}, .ret o b ∈ h → ∃ past a, Answered step s₀ l past o a b)
    (honce : InvokedOnce h)
    (hbound : ∀ h₁ o a h₂, h = h₁ ++ .inv o a :: h₂ → ∃ done, done <+: l
      ∧ (∀ p ∈ done, .inv p.1 p.2 ∈ h₁) ∧ ∀ o' b, .ret o' b ∈ h₁ → o' ∈ done.map Prod.fst) :
    Linearization step s₀ h l where
  nodup := hnodup
  invoked := hinvoked
  returned := hreturned
  ordered {h₁ o a h₂} hsplit {past} hplace {o' b} hret := by
    obtain ⟨done, hpre, hinv, hdone⟩ := hbound h₁ o a h₂ hsplit
    -- `o` itself is not in `done`, so `done` ends before its place
    have hle : done.length ≤ past.length := by
      by_contra hlt
      have hin : past ++ [(o, a)] <+: done :=
        List.prefix_of_prefix_length_le hplace hpre (by simp; omega)
      exact honce h₁ o a h₂ hsplit a (hinv (o, a) (hin.subset (by simp)))
    have hsub : done <+: past :=
      List.prefix_of_prefix_length_le hpre ((List.prefix_append _ _).trans hplace) hle
    exact List.map_subset _ hsub.subset (hdone o' b hret)

/-- An operation that was invoked with `a` and returned `b` was answered `b`
for `a`. -/
theorem Linearization.answered (hl : Linearization step s₀ h l) (honce : InvokedOnce h)
    (hinv : .inv o a ∈ h) (hret : .ret o b ∈ h) : ∃ past, Answered step s₀ l past o a b := by
  obtain ⟨past, a', hans⟩ := hl.returned hret
  have hinv' : .inv o a' ∈ h := hl.invoked (o, a') (hans.place.subset (by simp))
  obtain rfl : a' = a := by
    obtain ⟨h₁, h₂, rfl⟩ := List.append_of_mem hinv
    rcases List.mem_append.mp hinv' with hmem | hmem
    · exact absurd hmem (honce _ _ _ _ rfl a')
    · rcases List.mem_cons.mp hmem with heq | hmem
      · exact (Act.inv.inj heq).2
      · obtain ⟨h₃, h₄, rfl⟩ := List.append_of_mem hmem
        have := honce (h₁ ++ .inv o a :: h₃) o a' h₄ (by simp) a
        simp at this
  exact ⟨past, hans⟩

/-- Of two operations that returned one was answered before the other. -/
theorem Answered.before_or_after (hans : Answered step s₀ l past o a b)
    (hans' : Answered step s₀ l past' o' a' b') (hne : o ≠ o') :
    past ++ [(o, a)] <+: past' ∨ past' ++ [(o', a')] <+: past :=
  place_cases hans.place hans'.place hne

/-- An operation that returned before another was invoked was answered before
it. -/
theorem Linearization.before (hl : Linearization step s₀ h l)
    (hans : Answered step s₀ l past o a b) (hans' : Answered step s₀ l past' o' a' b')
    {h₁ h₂ : List (Act ι α ρ)} (hsplit : h = h₁ ++ .inv o' a' :: h₂) (hret : .ret o b ∈ h₁) :
    past ++ [(o, a)] <+: past' := by
  have hmem := hl.ordered hsplit hans'.place hret
  obtain ⟨p, hp, rfl⟩ := List.mem_map.mp hmem
  obtain ⟨q, r, rfl⟩ := List.append_of_mem hp
  have hplace : q ++ [(p.1, p.2)] <+: l := by
    refine List.IsPrefix.trans ?_ hans'.place
    exact ⟨r ++ [(o', a')], by simp⟩
  obtain ⟨rfl, rfl⟩ := place_unique hl.nodup hans.place hplace
  exact ⟨r, by simp⟩

end Linear
