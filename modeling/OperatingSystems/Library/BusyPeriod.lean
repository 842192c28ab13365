import Mathlib.Algebra.BigOperators.Group.List.Basic
import Mathlib.Algebra.Order.Monoid.Canonical.Defs
import Mathlib.Data.List.Induction
import Mathlib.Tactic.Common

namespace OperatingSystems.BusyPeriod

-- pieces of work, each with its time of arrival and its size, for a server that never waits while
-- there is work to do
variable {τ : Type} [LinearOrder τ] [AddCommMonoid τ]

def lastDeparture (free : τ) : List (τ × τ) → τ
  | [] => free
  | x :: rest => lastDeparture (max x.1 free + x.2) rest

def departures (free : τ) : List (τ × τ) → List τ
  | [] => []
  | x :: rest => (max x.1 free + x.2) :: departures (max x.1 free + x.2) rest

def busyEnds (free : τ) : List (τ × τ) → List τ
  | [] => []
  | x :: rest =>
    let done := max x.1 free + x.2
    if ∃ y ∈ rest.head?, y.1 < done then busyEnds done rest else done :: busyEnds done rest

theorem lastDeparture_append (free : τ) (l₁ l₂ : List (τ × τ)) :
    lastDeparture free (l₁ ++ l₂) = lastDeparture (lastDeparture free l₁) l₂ := by
  induction l₁ generalizing free with
  | nil => rfl
  | cons x l₁ ih => exact ih _

theorem departures_append (free : τ) (l₁ l₂ : List (τ × τ)) :
    departures free (l₁ ++ l₂) = departures free l₁ ++ departures (lastDeparture free l₁) l₂ := by
  induction l₁ generalizing free with
  | nil => rfl
  | cons x l₁ ih =>
    rw [List.cons_append, departures, ih]
    rfl

theorem lastDeparture_singleton (free : τ) (x : τ × τ) :
    lastDeparture free [x] = max x.1 free + x.2 := rfl

theorem getLast_departures (free : τ) (l : List (τ × τ)) :
    (departures free l).getLast?.getD free = lastDeparture free l := by
  induction l generalizing free with
  | nil => rfl
  | cons x l ih =>
    rw [departures, lastDeparture, ← ih, List.getLast?_cons]
    rfl

theorem busyEnds_getLast (free : τ) {l : List (τ × τ)} (h : l ≠ []) :
    (busyEnds free l).getLast? = some (lastDeparture free l) := by
  induction l generalizing free with
  | nil => exact absurd rfl h
  | cons x l ih =>
    cases l with
    | nil => simp [busyEnds, lastDeparture]
    | cons y l =>
      have hrest := ih (max x.1 free + x.2) (List.cons_ne_nil y l)
      rw [busyEnds, lastDeparture]
      split
      · exact hrest
      · rw [List.getLast?_cons, hrest]
        rfl

theorem busyEnds_append (free : τ) (l : List (τ × τ)) (y : τ × τ) :
    busyEnds free (l ++ [y]) =
      (if y.1 < lastDeparture free l then (busyEnds free l).dropLast else busyEnds free l) ++
        [max y.1 (lastDeparture free l) + y.2] := by
  induction l generalizing free with
  | nil => simp [busyEnds, lastDeparture]
  | cons x l ih =>
    cases l with
    | nil =>
      simp only [busyEnds, lastDeparture, List.cons_append, List.nil_append, List.head?_cons,
        Option.mem_some_iff, exists_eq_left', List.head?_nil, Option.not_mem_none, false_and,
        exists_false, if_false]
      split <;> rfl
    | cons z l =>
      have hrest := ih (max x.1 free + x.2)
      have hne : busyEnds (max x.1 free + x.2) (z :: l) ≠ [] := by
        intro hnil
        have hlast := busyEnds_getLast (max x.1 free + x.2) (List.cons_ne_nil z l)
        rw [hnil] at hlast
        cases hlast
      have hdrop : ((max x.1 free + x.2) :: busyEnds (max x.1 free + x.2) (z :: l)).dropLast =
          (max x.1 free + x.2) :: (busyEnds (max x.1 free + x.2) (z :: l)).dropLast :=
        List.dropLast_cons_of_ne_nil hne
      rw [List.cons_append, busyEnds, busyEnds, lastDeparture, hrest]
      rcases lt_or_ge z.1 (max x.1 free + x.2) with hz | hz
      · simp [hz]
      · rcases lt_or_ge y.1 (lastDeparture (max x.1 free + x.2) (z :: l)) with hy | hy
        · simp [hz.not_gt, hy, hdrop]
        · simp [hz.not_gt, hy.not_gt]

theorem lastDeparture_le [IsOrderedAddMonoid τ] [CanonicallyOrderedAdd τ] (free : τ)
    {l : List (τ × τ)} (h : l ≠ []) (hfree : ∀ x ∈ l, free ≤ x.1) :
    ∃ x ∈ l, lastDeparture free l ≤ x.1 + (l.map Prod.snd).sum := by
  induction l using List.reverseRecOn with
  | nil => exact absurd rfl h
  | append_singleton l y ih =>
    rw [lastDeparture_append, lastDeparture_singleton, List.map_append, List.sum_append]
    simp only [List.map_singleton, List.sum_singleton]
    rcases le_total (lastDeparture free l) y.1 with hle | hle
    · rw [max_eq_left hle]
      exact ⟨y, by simp, add_le_add_right (le_add_self) _⟩
    · rw [max_eq_right hle]
      cases l with
      | nil =>
        refine ⟨y, by simp, ?_⟩
        have := hfree y (by simp)
        simpa [lastDeparture] using add_le_add_left this y.2
      | cons x l =>
        obtain ⟨z, hz, hbound⟩ := ih (List.cons_ne_nil x l)
          fun x hx => hfree x (List.mem_append_left _ hx)
        refine ⟨z, List.mem_append_left _ hz, ?_⟩
        rw [← add_assoc]
        exact add_le_add_left hbound _

end OperatingSystems.BusyPeriod
