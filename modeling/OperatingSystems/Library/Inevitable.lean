import Mathlib.Tactic.Common

namespace OperatingSystems.Inevitable

variable {σ : Type} {step : σ → σ → Prop} {goal : σ → Prop} {s : σ}

-- every way to go on from `s` leads to the goal, and there is always a way to go on before
inductive Inevitably (step : σ → σ → Prop) (goal : σ → Prop) : σ → Prop
  | now {s : σ} (reached : goal s) : Inevitably step goal s
  | later {s : σ} (moves : ∃ s', step s s') (all : ∀ s', step s s' → Inevitably step goal s') :
      Inevitably step goal s

theorem Inevitably.before {x : σ} (h : Inevitably step goal x) (hstep : ∀ s', step s s' ↔ s' = x) :
    Inevitably step goal s := by
  refine .later ⟨x, (hstep x).mpr rfl⟩ fun s' hs => ?_
  rw [(hstep s').mp hs]
  exact h

theorem inevitably_step {x : σ} (hgoal : ¬ goal s) (hstep : ∀ s', step s s' ↔ s' = x) :
    Inevitably step goal s ↔ Inevitably step goal x := by
  refine ⟨fun h => ?_, fun h => h.before hstep⟩
  cases h with
  | now reached => exact absurd reached hgoal
  | later moves all => exact all x ((hstep x).mpr rfl)

theorem not_inevitably {I : σ → Prop} (hgoal : ∀ s, I s → ¬ goal s)
    (hstep : ∀ s s', I s → step s s' → I s') (hs : I s) : ¬ Inevitably step goal s := by
  intro h
  induction h with
  | now reached => exact hgoal _ hs reached
  | later moves all ih =>
    obtain ⟨s', hs'⟩ := moves
    exact ih s' hs' (hstep _ s' hs hs')

theorem inevitably_chain {f : Nat → σ} {P : Nat → Prop} {n : Nat} (hgoal : ∀ k < n, ¬ goal (f k))
    (hstep : ∀ k < n, P k → ∀ s', step (f k) s' ↔ s' = f (k + 1))
    (hfail : ∀ k < n, ¬ P k → ¬ Inevitably step goal (f k)) :
    Inevitably step goal (f 0) ↔ (∀ k < n, P k) ∧ Inevitably step goal (f n) := by
  induction n with
  | zero => simp
  | succ n ih =>
    rw [ih (fun k hk => hgoal k (by omega)) (fun k hk => hstep k (by omega))
      fun k hk => hfail k (by omega)]
    have hlast : Inevitably step goal (f n) ↔ P n ∧ Inevitably step goal (f (n + 1)) := by
      by_cases hn : P n
      · rw [inevitably_step (hgoal n (by omega)) (hstep n (by omega) hn)]
        exact (and_iff_right hn).symm
      · exact iff_of_false (hfail n (by omega) hn) fun h => hn h.1
    rw [hlast, Nat.forall_lt_succ_right, and_assoc]

theorem inevitably_steps {f : Nat → σ} {n : Nat} (hgoal : ∀ k < n, ¬ goal (f k))
    (hstep : ∀ k < n, ∀ s', step (f k) s' ↔ s' = f (k + 1)) :
    Inevitably step goal (f 0) ↔ Inevitably step goal (f n) := by
  have hchain := inevitably_chain (P := fun _ => True) hgoal (fun k hk _ => hstep k hk)
    fun k _ hk => absurd trivial hk
  simpa using hchain

end OperatingSystems.Inevitable
