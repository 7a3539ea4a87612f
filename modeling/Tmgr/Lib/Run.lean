import Mathlib.Data.List.Induction
import Mathlib.Order.Basic

/-!
# Runs of a guarded transition function

A system is a transition function `step : σ → ε → Option σ` (`none` where
the event is not enabled), a start state and a *guard* `ok`, the condition
every step of a run meets in the state it is taken from. `Run` keeps the
whole trace, so that a property of "some state the run went through" or of
"two steps, one after the other" can be said about it.

Three rules carry the inductions: `Run.invariant` for a state predicate,
`Run.ghost` for an invariant that mentions an auxiliary value which only
grows along the run, and `Run.split` to cut a run at one of its steps.
`Run.simulated` carries the runs of one system over to another. `run_of_exec`
makes a run of a list of events that can be executed. A history is the list of
its points, and what holds of one of them is said of the points before it and
the point itself (`forall_split_concat`, `IsLast`, `collect`).
-/

namespace Runs

variable {σ ε : Type*}

/-- A run from `s₀`: the states it left, each with the event taken there,
and the state it ends in. -/
inductive Run (step : σ → ε → Option σ) (ok : σ → ε → Prop) (s₀ : σ) :
    List (σ × ε) → σ → Prop
  | nil : Run step ok s₀ [] s₀
  | snoc {tr : List (σ × ε)} {s s' : σ} {e : ε} :
      Run step ok s₀ tr s → ok s e → step s e = some s' →
        Run step ok s₀ (tr ++ [(s, e)]) s'

variable {step : σ → ε → Option σ} {ok ok' : σ → ε → Prop} {s₀ : σ}

theorem Run.mono (himp : ∀ s e, ok s e → ok' s e) {tr : List (σ × ε)} {s : σ}
    (hr : Run step ok s₀ tr s) : Run step ok' s₀ tr s := by
  induction hr with
  | nil => exact .nil
  | snoc _ hok hst ih => exact .snoc ih (himp _ _ hok) hst

/-- A run whose steps all meet another guard. -/
theorem Run.guard {tr : List (σ × ε)} {s : σ} (hr : Run step ok s₀ tr s)
    (hok : ∀ p ∈ tr, ok' p.1 p.2) : Run step ok' s₀ tr s := by
  induction hr with
  | nil => exact .nil
  | @snoc tr t t' e _ _ hst ih =>
      exact .snoc (ih fun p hp => hok p (List.mem_append_left _ hp)) (hok (t, e) (by simp)) hst

/-- The guard of a run may use what the run has established. -/
theorem Run.strengthen {I : σ → Prop} (h0 : I s₀)
    (hstep : ∀ {s e s'}, I s → ok s e → step s e = some s' → I s' ∧ ok' s e)
    {tr : List (σ × ε)} {s : σ} (hr : Run step ok s₀ tr s) :
    I s ∧ Run step ok' s₀ tr s := by
  induction hr with
  | nil => exact ⟨h0, .nil⟩
  | snoc _ hok hst ih =>
      obtain ⟨hI, hok'⟩ := hstep ih.1 hok hst
      exact ⟨hI, .snoc ih.2 hok' hst⟩

/-- What holds at the start and is kept by every step holds at the end. -/
theorem Run.invariant {I : σ → Prop} (h0 : I s₀)
    (hstep : ∀ {s e s'}, I s → ok s e → step s e = some s' → I s')
    {tr : List (σ × ε)} {s : σ} (hr : Run step ok s₀ tr s) : I s := by
  induction hr with
  | nil => exact h0
  | snoc _ hok hst ih => exact hstep ih hok hst

theorem Run.append {tr₁ tr₂ : List (σ × ε)} {s s' : σ}
    (h₁ : Run step ok s₀ tr₁ s) (h₂ : Run step ok s tr₂ s') :
    Run step ok s₀ (tr₁ ++ tr₂) s' := by
  induction h₂ with
  | nil => simpa using h₁
  | snoc _ hok hst ih =>
      rw [← List.append_assoc]
      exact .snoc ih hok hst

/-- Where a history ends in `a`, one of its points is that one, or comes
before it. -/
theorem split_concat {α : Type*} {l p r : List α} {a c : α} (h : l ++ [a] = p ++ c :: r) :
    l = p ∧ a = c ∧ r = [] ∨ ∃ r', l = p ++ c :: r' ∧ r = r' ++ [a] := by
  cases r using List.reverseRecOn with
  | nil =>
      obtain ⟨hpast, hlast⟩ := List.append_inj' h rfl
      exact .inl ⟨hpast, List.cons.inj hlast |>.1, rfl⟩
  | append_singleton r b =>
      have h' : l ++ [a] = (p ++ c :: r) ++ [b] := by simpa using h
      obtain ⟨hpast, hlast⟩ := List.append_inj' h' rfl
      obtain rfl : a = b := by simpa using hlast
      exact .inr ⟨r, hpast, rfl⟩

/-- Cut a run at one of its steps: the run up to it, the step itself, and
the run after it. -/
theorem Run.split {tr₁ tr₂ : List (σ × ε)} {p : σ × ε} {s : σ}
    (hr : Run step ok s₀ (tr₁ ++ p :: tr₂) s) :
    ∃ s', Run step ok s₀ tr₁ p.1 ∧ ok p.1 p.2 ∧ step p.1 p.2 = some s'
      ∧ Run step ok s' tr₂ s := by
  generalize htr : tr₁ ++ p :: tr₂ = tr at hr
  induction hr generalizing tr₂ with
  | nil => simp at htr
  | @snoc tr t t' e hrun hok hst ih =>
      rcases split_concat htr.symm with ⟨rfl, rfl, rfl⟩ | ⟨tr₃, htr₃, rfl⟩
      · exact ⟨t', hrun, hok, hst, .nil⟩
      · obtain ⟨s', hr₁, hok', hst', hr₂⟩ := ih htr₃.symm
        exact ⟨s', hr₁, hok', hst', .snoc hr₂ hok hst⟩

/-- A run reaches every state it left. -/
theorem Run.reach_of_mem {tr : List (σ × ε)} {s : σ} (hr : Run step ok s₀ tr s)
    {p : σ × ε} (hp : p ∈ tr) :
    ∃ tr' s', Run step ok s₀ tr' p.1 ∧ ok p.1 p.2 ∧ step p.1 p.2 = some s' := by
  obtain ⟨tr₁, tr₂, rfl⟩ := List.append_of_mem hp
  obtain ⟨s', hr₁, hok, hst, -⟩ := hr.split
  exact ⟨tr₁, s', hr₁, hok, hst⟩

/-- An invariant about the state and an auxiliary value `g` that each step
may only enlarge: the run ends with one, and every state it left had a
smaller one. -/
theorem Run.ghost {γ : Type*} [Preorder γ] {I : γ → σ → Prop} {g₀ : γ}
    (h0 : I g₀ s₀)
    (hstep : ∀ {g s e s'}, I g s → ok s e → step s e = some s' →
      ∃ g', g ≤ g' ∧ I g' s')
    {tr : List (σ × ε)} {s : σ} (hr : Run step ok s₀ tr s) :
    ∃ g, I g s ∧ ∀ p ∈ tr, ∃ g' ≤ g, I g' p.1 := by
  induction hr with
  | nil => exact ⟨g₀, h0, by simp⟩
  | @snoc tr t t' e _ hok hst ih =>
      obtain ⟨g, hI, hpast⟩ := ih
      obtain ⟨g', hle, hI'⟩ := hstep hI hok hst
      refine ⟨g', hI', ?_⟩
      intro p hp
      rcases List.mem_append.mp hp with hp | hp
      · obtain ⟨g₁, hg₁, hI₁⟩ := hpast p hp
        exact ⟨g₁, hg₁.trans hle, hI₁⟩
      · obtain rfl : p = (t, e) := by simpa using hp
        exact ⟨g, hle, hI⟩

/-- What one step does to a state, all the later ones do. -/
theorem Run.pairwise {R : σ → σ → Prop} (htrans : ∀ {a b c}, R a b → R b c → R a c)
    (hstep : ∀ {s e s'}, ok s e → step s e = some s' → R s s') {tr : List (σ × ε)} {s : σ}
    (hr : Run step ok s₀ tr s) : (tr.map Prod.fst ++ [s]).Pairwise R := by
  induction hr with
  | nil => simp
  | @snoc tr t t' e _ hok hst ih =>
      have hone := hstep hok hst
      rw [List.map_append, List.map_singleton, List.pairwise_append]
      refine ⟨ih, by simp, fun a ha b hb => ?_⟩
      obtain rfl := List.mem_singleton.mp hb
      rcases List.mem_append.mp ha with hpast | hlast
      · exact htrans ((List.pairwise_append.mp ih).2.2 a hpast t (List.mem_singleton_self t)) hone
      · exact List.mem_singleton.mp hlast ▸ hone

/-- A run reaches every state it has been in. -/
theorem Run.reach_visited {tr : List (σ × ε)} {s t : σ} (hr : Run step ok s₀ tr s)
    (ht : t ∈ tr.map Prod.fst ++ [s]) : ∃ tr', Run step ok s₀ tr' t := by
  rcases List.mem_append.mp ht with ht | ht
  · obtain ⟨p, hp, rfl⟩ := List.mem_map.mp ht
    obtain ⟨tr', -, hr', -⟩ := hr.reach_of_mem hp
    exact ⟨tr', hr'⟩
  · exact ⟨tr, List.mem_singleton.mp ht ▸ hr⟩

/-! ## Simulation -/

/-- Each step of the first system is a step of the second one that shows the
same, or shows nothing and is none. Then so for whole runs. -/
theorem Run.simulated {τ κ ω : Type*} {step' : τ → κ → Option τ} {t₀ : τ}
    (ok' : τ → κ → Prop) (R : σ → τ → Prop) (shows : σ × ε → List ω) (shows' : τ × κ → List ω)
    (h0 : R s₀ t₀)
    (hstep : ∀ {s e s' t}, R s t → ok s e → step s e = some s' →
      (R s' t ∧ shows (s, e) = [])
        ∨ ∃ e' t', ok' t e' ∧ step' t e' = some t' ∧ R s' t' ∧ shows' (t, e') = shows (s, e))
    {tr : List (σ × ε)} {s : σ} (hr : Run step ok s₀ tr s) :
    ∃ tr' t, Run step' ok' t₀ tr' t ∧ R s t ∧ tr'.flatMap shows' = tr.flatMap shows := by
  induction hr with
  | nil => exact ⟨[], t₀, .nil, h0, rfl⟩
  | @snoc tr s s' e _ hok hst ih =>
      obtain ⟨tr', t, hrun, hR, hshows⟩ := ih
      rcases hstep hR hok hst with ⟨hR', hnone⟩ | ⟨e', t', hok', hst', hR', hsame⟩
      · exact ⟨tr', t, hrun, hR', by simp [hshows, hnone]⟩
      · exact ⟨tr' ++ [(t, e')], t', .snoc hrun hok' hst', hR', by simp [hshows, hsame]⟩

/-! ## Executions -/

/-- Execute a list of events. -/
def exec (step : σ → ε → Option σ) (s : σ) : List ε → Option σ
  | [] => some s
  | e :: es => (step s e).bind fun s' => exec step s' es

/-- The trace of the execution of a list of events. -/
def trace (step : σ → ε → Option σ) (s : σ) : List ε → List (σ × ε)
  | [] => []
  | e :: es =>
    match step s e with
    | some s' => (s, e) :: trace step s' es
    | none => []

/-- An execution whose steps all meet the guard is a run. -/
theorem run_of_exec_eq_some {s s' : σ} {es : List ε} (h : exec step s es = some s')
    (hok : ∀ p ∈ trace step s es, ok p.1 p.2) : Run step ok s (trace step s es) s' := by
  induction es generalizing s with
  | nil =>
      obtain rfl := Option.some.inj h
      exact .nil
  | cons e es ih =>
      rw [exec, Option.bind_eq_some_iff] at h
      obtain ⟨t, ht, h⟩ := h
      rw [trace, ht] at hok ⊢
      have htail := ih h fun p hp => hok p (List.mem_cons_of_mem _ hp)
      have hhead : Run step ok s [(s, e)] t :=
        .snoc .nil (hok (s, e) List.mem_cons_self) ht
      exact hhead.append htail

theorem run_of_exec {s : σ} (es : List ε) (h : (exec step s es).isSome)
    (hok : ∀ p ∈ trace step s es, ok p.1 p.2) :
    Run step ok s (trace step s es) ((exec step s es).get h) :=
  run_of_exec_eq_some (Option.some_get h).symm hok

theorem event_of_mem_trace {s : σ} {es : List ε} {p : σ × ε} (hp : p ∈ trace step s es) :
    p.2 ∈ es := by
  induction es generalizing s with
  | nil => cases hp
  | cons e es ih =>
      rw [trace] at hp
      split at hp
      · rcases List.mem_cons.mp hp with rfl | hp
        · exact List.mem_cons_self
        · exact List.mem_cons_of_mem _ (ih hp)
      · cases hp

/-- A property of every point of a history, when one step is appended. -/
theorem forall_split_concat {α : Type*} {P : List α → α → Prop} {l : List α} {a : α} :
    (∀ p c r, l ++ [a] = p ++ c :: r → P p c)
      ↔ (∀ p c r, l = p ++ c :: r → P p c) ∧ P l a := by
  constructor
  · intro h
    exact ⟨fun p c r hl => h p c (r ++ [a]) (by simp [hl]), h l a [] rfl⟩
  · rintro ⟨hall, hlast⟩ p c r hl
    rcases split_concat hl with ⟨rfl, rfl, -⟩ | ⟨r, hl, -⟩
    · exact hlast
    · exact hall p c r hl

/-- A property of some point of a history, when one step is appended. -/
theorem exists_split_concat {α : Type*} {P : List α → α → Prop} {l : List α} {a : α} :
    (∃ p c r, l ++ [a] = p ++ c :: r ∧ P p c)
      ↔ (∃ p c r, l = p ++ c :: r ∧ P p c) ∨ P l a := by
  have h := forall_split_concat (P := fun p c => ¬P p c) (l := l) (a := a)
  constructor
  · rintro ⟨p, c, r, hl, hP⟩
    by_contra hnot
    obtain ⟨hold, hlast⟩ := not_or.mp hnot
    exact h.mpr ⟨fun p c r hl hP => hold ⟨p, c, r, hl, hP⟩, hlast⟩ p c r hl hP
  · rintro (⟨p, c, r, rfl, hP⟩ | hP)
    · exact ⟨p, c, r ++ [a], by simp, hP⟩
    · exact ⟨l, a, [], rfl, hP⟩

/-- `c` after `p` is the last point of the history where `P` holds of what
came before and what comes next. -/
def IsLast {α : Type*} (P : List α → α → Prop) (l p : List α) (c : α) : Prop :=
  P p c ∧ ∃ r, l = p ++ c :: r ∧ ∀ n₁ e n₂, r = n₁ ++ e :: n₂ → ¬P (p ++ c :: n₁) e

theorem not_isLast_nil {α : Type*} {P : List α → α → Prop} {p : List α} {c : α} :
    ¬IsLast P [] p c := by
  rintro ⟨-, r, h, -⟩
  simp at h

/-- A new step is the last one where `P` holds, or the last one stays. -/
theorem isLast_concat {α : Type*} {P : List α → α → Prop} {l p : List α} {a c : α} :
    IsLast P (l ++ [a]) p c ↔ (P l a ∧ p = l ∧ c = a) ∨ (¬P l a ∧ IsLast P l p c) := by
  constructor
  · rintro ⟨hP, r, hl, hlater⟩
    rcases split_concat hl with ⟨rfl, rfl, -⟩ | ⟨r, rfl, rfl⟩
    · exact .inl ⟨hP, rfl, rfl⟩
    · obtain ⟨hold, hlast⟩ := forall_split_concat.mp hlater
      exact .inr ⟨hlast, hP, r, rfl, hold⟩
  · rintro (⟨hP, rfl, rfl⟩ | ⟨hnot, hP, r, rfl, hlater⟩)
    · exact ⟨hP, [], rfl, fun n₁ e n₂ h => by simp at h⟩
    · exact ⟨hP, r ++ [a], by simp, forall_split_concat.mpr ⟨hlater, hnot⟩⟩

/-- Where `P` holds at some point of a history, it holds at a last one. -/
theorem exists_isLast {α : Type*} {P : List α → α → Prop} {p r : List α} {a : α}
    (hP : P p a) : ∃ q c, IsLast P (p ++ a :: r) q c := by
  induction r using List.reverseRecOn with
  | nil => exact ⟨p, a, isLast_concat.mpr (.inl ⟨hP, rfl, rfl⟩)⟩
  | append_singleton r b ih =>
      have hsnoc : p ++ a :: (r ++ [b]) = (p ++ a :: r) ++ [b] := by simp
      rw [hsnoc]
      by_cases hb : P (p ++ a :: r) b
      · exact ⟨p ++ a :: r, b, isLast_concat.mpr (.inl ⟨hb, rfl, rfl⟩)⟩
      · obtain ⟨q, c, hlast⟩ := ih
        exact ⟨q, c, isLast_concat.mpr (.inr ⟨hb, hlast⟩)⟩

/-- The first point of a history where `P` holds of what came before and
what comes next, if there is one. -/
theorem exists_first_split {α : Type*} {P : List α → α → Prop} {l m₁ m₂ : List α} {a : α}
    (hl : l = m₁ ++ a :: m₂) (hP : P m₁ a) :
    ∃ m₁ a m₂, l = m₁ ++ a :: m₂ ∧ P m₁ a
      ∧ ∀ n₁ b n₂, m₁ = n₁ ++ b :: n₂ → ¬P n₁ b := by
  induction hn : m₁.length using Nat.strongRecOn generalizing m₁ a m₂ with
  | ind n ih =>
      by_cases hearlier : ∃ n₁ b n₂, m₁ = n₁ ++ b :: n₂ ∧ P n₁ b
      · obtain ⟨n₁, b, n₂, rfl, hb⟩ := hearlier
        have hl' : l = n₁ ++ b :: (n₂ ++ a :: m₂) := by simp [hl]
        refine ih n₁.length ?_ hl' hb rfl
        rw [← hn, List.length_append, List.length_cons]
        omega
      · exact ⟨m₁, a, m₂, hl, hP, fun n₁ b n₂ h hb => hearlier ⟨n₁, b, n₂, h, hb⟩⟩

/-! ## What a history leaves behind -/

/-- What the points of a history put out, in order; `out` sees what came
before. `past` is the part already gone through. -/
def collectFrom {α β : Type*} (out : List α → α → List β) (past : List α) : List α → List β
  | [] => []
  | a :: rest => out past a ++ collectFrom out (past ++ [a]) rest

def collect {α β : Type*} (out : List α → α → List β) (l : List α) : List β :=
  collectFrom out [] l

theorem collectFrom_concat {α β : Type*} (out : List α → α → List β) (past l : List α) (a : α) :
    collectFrom out past (l ++ [a]) = collectFrom out past l ++ out (past ++ l) a := by
  induction l generalizing past with
  | nil => simp [collectFrom]
  | cons b l ih => simp [collectFrom, ih]

@[simp] theorem collect_concat {α β : Type*} (out : List α → α → List β) (l : List α) (a : α) :
    collect out (l ++ [a]) = collect out l ++ out l a :=
  collectFrom_concat out [] l a

@[simp] theorem collect_nil {α β : Type*} (out : List α → α → List β) : collect out [] = [] := rfl

theorem exists_of_mem_collect {α β : Type*} {out : List α → α → List β} {l : List α} {b : β}
    (h : b ∈ collect out l) : ∃ p a r, l = p ++ a :: r ∧ b ∈ out p a := by
  induction l using List.reverseRecOn with
  | nil => cases h
  | append_singleton l a ih =>
      rw [collect_concat] at h
      rcases List.mem_append.mp h with h | h
      · obtain ⟨p, c, r, rfl, hb⟩ := ih h
        exact ⟨p, c, r ++ [a], by simp, hb⟩
      · exact ⟨l, a, [], rfl, h⟩

theorem collect_isPrefix {α β : Type*} (out : List α → α → List β) (p r : List α) :
    collect out p <+: collect out (p ++ r) := by
  induction r using List.reverseRecOn with
  | nil => simp
  | append_singleton r a ih =>
      rw [← List.append_assoc, collect_concat]
      exact ih.trans (List.prefix_append _ _)

theorem collect_map {α β γ : Type*} (out : List γ → γ → List β) (f : α → γ) (l : List α) :
    collect out (l.map f) = collect (fun p a => out (p.map f) (f a)) l := by
  induction l using List.reverseRecOn with
  | nil => rfl
  | append_singleton l a ih =>
      rw [List.map_append, List.map_singleton, collect_concat, collect_concat, ih]

theorem map_collect {α β γ : Type*} (f : β → γ) (out : List α → α → List β) (l : List α) :
    (collect out l).map f = collect (fun p a => (out p a).map f) l := by
  induction l using List.reverseRecOn with
  | nil => rfl
  | append_singleton l a ih => rw [collect_concat, collect_concat, List.map_append, ih]

/-- Two histories that put out equally much at every point put out the same
if and only if they do so at every point. -/
theorem collect_eq_iff {α β : Type*} {out out' : List α → α → List β} {l : List α}
    (hlen : ∀ p a, (out p a).length = (out' p a).length) :
    collect out l = collect out' l ↔ ∀ p a r, l = p ++ a :: r → out p a = out' p a := by
  induction l using List.reverseRecOn with
  | nil => simp
  | append_singleton l a ih =>
      rw [collect_concat, collect_concat, forall_split_concat (P := fun p a => out p a = out' p a),
        ← ih]
      constructor
      · exact fun h => List.append_inj' h (hlen l a)
      · rintro ⟨hpast, hlast⟩
        rw [hpast, hlast]

end Runs
