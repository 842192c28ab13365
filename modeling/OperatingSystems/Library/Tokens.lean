import Mathlib.Algebra.BigOperators.Group.Finset.Basic
import Mathlib.Algebra.Order.BigOperators.Group.Finset
import Mathlib.Algebra.Order.Group.Multiset
import Mathlib.Algebra.BigOperators.Group.Finset.Piecewise

namespace OperatingSystems.Tokens

variable {ι α : Type}

-- tokens lie in places, and a step takes one from a place to another
structure Moved (a : α) (p q : ι) (f g : ι → Multiset α) : Prop where
  apart : p ≠ q
  source : f p = a ::ₘ g p
  target : g q = a ::ₘ f q
  others : ∀ r, r ≠ p → r ≠ q → g r = f r

variable [Fintype ι]

def total (f : ι → Multiset α) : Multiset α := ∑ p, f p

theorem mem_total {f : ι → Multiset α} {a : α} : a ∈ total f ↔ ∃ p, a ∈ f p := by
  simp [total, Multiset.mem_sum]

theorem card_total (f : ι → Multiset α) : (total f).card = ∑ p, (f p).card :=
  Multiset.card_sum _ _

theorem card_le_total {κ : Type} [Fintype κ] {e : κ → ι} (he : Function.Injective e)
    (f : ι → Multiset α) : ∑ k, (f (e k)).card ≤ (total f).card := by
  rw [card_total]
  calc ∑ k, (f (e k)).card = ∑ p ∈ Finset.univ.map ⟨e, he⟩, (f p).card := by simp
    _ ≤ ∑ p, (f p).card := Finset.sum_le_univ_sum_of_nonneg fun _ => Nat.zero_le _

variable [DecidableEq ι]

theorem total_split (f : ι → Multiset α) {p q : ι} (h : p ≠ q) :
    total f = f p + (f q + ∑ r ∈ (Finset.univ.erase p).erase q, f r) := by
  rw [total, ← Finset.add_sum_erase _ f (Finset.mem_univ p),
    ← Finset.add_sum_erase _ f (Finset.mem_erase.mpr ⟨h.symm, Finset.mem_univ q⟩)]

theorem Moved.total_eq {a : α} {p q : ι} {f g : ι → Multiset α} (h : Moved a p q f g) :
    total g = total f := by
  have hrest : ∑ r ∈ (Finset.univ.erase p).erase q, g r =
      ∑ r ∈ (Finset.univ.erase p).erase q, f r := by
    refine Finset.sum_congr rfl fun r hr => ?_
    obtain ⟨hq, hr⟩ := Finset.mem_erase.mp hr
    exact h.others r (Finset.ne_of_mem_erase hr) hq
  rw [total_split g h.apart, total_split f h.apart, h.source, h.target, hrest]
  simp [Multiset.cons_add, Multiset.add_cons]

theorem place_unique {f : ι → Multiset α} (h : (total f).Nodup) {a : α} {p q : ι} (hp : a ∈ f p)
    (hq : a ∈ f q) : p = q := by
  by_contra hne
  rw [total_split f hne, Multiset.nodup_add] at h
  exact Multiset.disjoint_left.mp h.2.2 hp (Multiset.mem_add.mpr (.inl hq))

end OperatingSystems.Tokens
