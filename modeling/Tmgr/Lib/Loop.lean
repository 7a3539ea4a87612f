import Mathlib.Init

/-!
# Loops whose body may fault

`loop stuck guard body fuel s` is `while (guard(s)) s = body(s)`, where the
body may throw. A loop that has not ended after `fuel` turns throws `stuck`,
so that a loop known to return is known to end.

`loop_of_states` is the rule for a loop whose states are known in advance:
it ends in the state where the guard first fails.
-/

namespace Loops

variable {σ ε : Type*}

def loop (stuck : ε) (guard : σ → Bool) (body : σ → Except ε σ) : Nat → σ → Except ε σ
  | 0, s => if guard s then .error stuck else .ok s
  | fuel + 1, s =>
    if guard s then
      match body s with
      | .ok s' => loop stuck guard body fuel s'
      | .error e => .error e
    else .ok s

variable {stuck : ε} {guard : σ → Bool} {body : σ → Except ε σ} {fuel : Nat} {s t : σ}

theorem loop_of_not_guard (h : guard s = false) : loop stuck guard body fuel s = .ok s := by
  cases fuel <;> simp [loop, h]

theorem loop_of_guard (h : guard s = true) (hbody : body s = .ok t) :
    loop stuck guard body (fuel + 1) s = loop stuck guard body fuel t := by
  simp [loop, h, hbody]

/-- A loop that goes through `f 0`, `f 1`, …, with the guard true up to
`f last` and false there. -/
theorem loop_of_states {f : Nat → σ} {last : Nat}
    (hguard : ∀ k ≤ last, guard (f k) = decide (k < last))
    (hbody : ∀ k < last, body (f k) = .ok (f (k + 1))) (hfuel : last ≤ fuel) :
    loop stuck guard body fuel (f 0) = .ok (f last) := by
  induction last generalizing f fuel with
  | zero => exact loop_of_not_guard (by simpa using hguard 0 (Nat.le_refl 0))
  | succ last ih =>
      obtain ⟨fuel, rfl⟩ : ∃ m, fuel = m + 1 := ⟨fuel - 1, by omega⟩
      have hfirst : guard (f 0) = true := by simpa using hguard 0 (Nat.zero_le _)
      rw [loop_of_guard hfirst (hbody 0 (Nat.succ_pos _))]
      refine ih (f := fun k => f (k + 1)) ?_ ?_ (by omega)
      · intro k hk
        simpa using hguard (k + 1) (by omega)
      · intro k hk
        exact hbody (k + 1) (by omega)

end Loops
