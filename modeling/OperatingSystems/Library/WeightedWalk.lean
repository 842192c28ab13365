import Mathlib.Algebra.Order.Monoid.Canonical.Defs
import Mathlib.Data.Set.Insert
import Mathlib.Order.Bounds.Basic
import Mathlib.Tactic.Common

namespace OperatingSystems.WeightedWalk

variable {V M : Type} [AddCommMonoid M]

-- a walk of one arc or more whose inner vertices lie in `S`, with its weight
inductive Walk (w : V → V → M) (S : Set V) : V → V → M → Prop
  | arc (a b : V) : Walk w S a b (w a b)
  | step {c b : V} {x : M} (a : V) (inner : c ∈ S) (rest : Walk w S c b x) : Walk w S a b (w a c + x)

def weights (w : V → V → M) (S : Set V) (a b : V) : Set M := {x | Walk w S a b x}

variable {w : V → V → M} {S T : Set V} {a b c k : V} {x y : M}

theorem Walk.mono (h : Walk w S a b x) (hST : S ⊆ T) : Walk w T a b x := by
  induction h with
  | arc a b => exact .arc a b
  | step a inner _ ih => exact .step a (hST inner) ih

theorem Walk.append (h : Walk w S a k x) (hk : k ∈ S) (h' : Walk w S k b y) :
    Walk w S a b (x + y) := by
  induction h with
  | arc a k => exact .step a hk h'
  | step a inner _ ih =>
    rw [add_assoc]
    exact .step a inner (ih hk h')

variable [LinearOrder M]

theorem Walk.le_of_relaxed [AddLeftMono M] {D : V → V → M} (harc : ∀ a b, D a b ≤ w a b)
    (hstep : ∀ a b, ∀ c ∈ S, D a b ≤ w a c + D c b) (h : Walk w S a b x) : D a b ≤ x := by
  induction h with
  | arc a b => exact harc a b
  | @step c b x a inner _ ih => exact (hstep a b c inner).trans (add_le_add_right ih _)

section
variable {D : V → V → M} (hD : ∀ a b, IsLeast (weights w S a b) (D a b))
include hD

theorem least_step (a : V) (b : V) (hc : c ∈ S) : D a b ≤ w a c + D c b :=
  (hD a b).2 (Walk.step a hc (hD c b).1)

variable [CanonicallyOrderedAdd M] [AddLeftMono M]

theorem Walk.past (h : Walk w (insert k S) a b x) : D a b ≤ x ∨ D a k + D k b ≤ x := by
  induction h with
  | arc a b => exact .inl ((hD a b).2 (Walk.arc a b))
  | @step c b x a inner _ ih =>
    rcases Set.mem_insert_iff.mp inner with rfl | hc
    · have hfirst : D a c ≤ w a c := (hD a c).2 (Walk.arc a c)
      have hlast : D c b ≤ x := ih.elim id fun hx => le_add_self.trans hx
      exact .inr (add_le_add hfirst hlast)
    · rcases ih with hx | hx
      · exact .inl ((least_step hD a b hc).trans (add_le_add_right hx _))
      · right
        calc D a k + D k b ≤ w a c + D c k + D k b := add_le_add_left (least_step hD a k hc) _
          _ = w a c + (D c k + D k b) := add_assoc _ _ _
          _ ≤ w a c + x := add_le_add_right hx _

theorem least_insert (k a b : V) :
    IsLeast (weights w (insert k S) a b) (min (D a b) (D a k + D k b)) := by
  have hmono : S ⊆ insert k S := Set.subset_insert k S
  refine ⟨?_, fun x hx => ?_⟩
  · rcases min_choice (D a b) (D a k + D k b) with h | h <;> rw [h]
    · exact (hD a b).1.mono hmono
    · exact ((hD a k).1.mono hmono).append (Set.mem_insert k S) ((hD k b).1.mono hmono)
  · exact min_le_iff.mpr (Walk.past hD hx)

end

theorem least_empty (a b : V) : IsLeast (weights w ∅ a b) (w a b) := by
  refine ⟨Walk.arc a b, fun x hx => ?_⟩
  cases hx with
  | arc => exact le_rfl
  | step _ inner => exact absurd inner (Set.notMem_empty _)

end OperatingSystems.WeightedWalk
