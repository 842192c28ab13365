import Mathlib.Data.Fintype.Card
import Mathlib.Data.List.Basic
import Mathlib.Logic.Relation
import Mathlib.Tactic.Common

namespace OperatingSystems.Ascent

variable {ν : Type} {parent : ν → Option ν}

inductive Ancestors (parent : ν → Option ν) : ν → List ν → Prop
  | root {k : ν} (h : parent k = none) : Ancestors parent k []
  | child {k p : ν} {l : List ν} (h : parent k = some p) (above : Ancestors parent p l) :
      Ancestors parent k (p :: l)

def Above (parent : ν → Option ν) (p k : ν) : Prop := parent k = some p

def Acyclic (parent : ν → Option ν) : Prop := ∀ k, ¬ Relation.TransGen (Above parent) k k

theorem acyclic_of_rank (rank : ν → Nat) (h : ∀ k p, parent k = some p → rank p < rank k) :
    Acyclic parent := by
  intro k hk
  have hrank : ∀ {p k}, Relation.TransGen (Above parent) p k → rank p < rank k := by
    intro p k hp
    induction hp with
    | single hp => exact h _ _ hp
    | tail _ hp ih => exact ih.trans (h _ _ hp)
  exact Nat.lt_irrefl _ (hrank hk)

theorem acyclic_wellFounded [Finite ν] (h : Acyclic parent) : WellFounded (Above parent) := by
  have hirrefl : Std.Irrefl (Relation.TransGen (Above parent)) := ⟨h⟩
  have hwf : WellFounded (Relation.TransGen (Above parent)) :=
    Finite.wellFounded_of_trans_of_irrefl _
  exact Subrelation.wf Relation.TransGen.single hwf

theorem ancestors_exist (h : WellFounded (Above parent)) (k : ν) : ∃ l, Ancestors parent k l := by
  induction k using h.induction with
  | _ k ih =>
    cases hp : parent k with
    | none => exact ⟨[], .root hp⟩
    | some p =>
      obtain ⟨l, hl⟩ := ih p hp
      exact ⟨p :: l, .child hp hl⟩

theorem ancestors_unique {k : ν} {l l' : List ν} (h : Ancestors parent k l)
    (h' : Ancestors parent k l') : l = l' := by
  induction h generalizing l' with
  | root hp =>
    cases h' with
    | root => rfl
    | child hp' => cases hp.symm.trans hp'
  | child hp _ ih =>
    cases h' with
    | root hp' => cases hp.symm.trans hp'
    | child hp' habove =>
      cases hp.symm.trans hp'
      rw [ih habove]

theorem ancestors_short {k : ν} {l : List ν} (h : Ancestors parent k l) :
    l.length ≤ 1 ↔ ∀ p, parent k = some p → parent p = none := by
  cases h with
  | root hp => simp [hp]
  | child hp habove =>
    cases habove with
    | root hroot => simp [hp, hroot]
    | child hp' => simp [hp, hp']

end OperatingSystems.Ascent
