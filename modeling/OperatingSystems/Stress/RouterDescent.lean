import Mathlib.Algebra.Order.BigOperators.Group.Finset
import OperatingSystems.Stress.RouterDistances

namespace OperatingSystems.Stress
open Concurrency

variable {n : Nat} {topology : Topology n} {i : Fin n} {m m' : Memory n} {r r' : Router n}
  {queue queue' : Chan n → List (Message n)} {closed : Chan n → Bool}

-- each turn of the states is paid for by a shorter way
structure Descending (topology : Topology n) (i : Fin n) (m : Memory n) (r : Router n) : Prop where
  below : r.pc.cycling = false → ∀ d,
    (m.vector ⟨i, r.next⟩).dist d ≤ (m.vector ⟨i, r.curr⟩).dist d
  strict : r.pc.cycling = false → r.changed = true → ∃ d,
    (m.vector ⟨i, r.next⟩).dist d < (m.vector ⟨i, r.curr⟩).dist d
  spent : r.cycles + ∑ d, (m.vector ⟨i, r.curr⟩).dist d ≤ ∑ d, topology.link i d

theorem start_descending (topology : Topology n) (i : Fin n) :
    Descending topology i (Memory.start topology) (Router.start topology i) :=
  ⟨fun _ _ => le_rfl, by simp [Router.start], by simp [Router.start, Memory.start]⟩

theorem Descending.goes (h : Descending topology i m r) {pc : RouterPc n}
    (cycling : pc.cycling = false → r.pc.cycling = false) :
    Descending topology i m { r with pc := pc } :=
  ⟨fun hc => h.below (cycling hc), fun hc => h.strict (cycling hc), h.spent⟩

theorem settle_descending (h : Descending topology i m r) (pc : r.pc.cycling = false) :
    Descending topology i m r.settle := by
  rcases settle_cases r with ⟨-, hchanged, hr⟩ | ⟨-, hr⟩
  · rw [hr]
    refine ⟨by simp [RouterPc.cycling], by simp [RouterPc.cycling], ?_⟩
    obtain ⟨d, hd⟩ := h.strict pc hchanged
    have hlt : ∑ d, (m.vector ⟨i, r.next⟩).dist d < ∑ d, (m.vector ⟨i, r.curr⟩).dist d :=
      Finset.sum_lt_sum (fun d _ => h.below pc d) ⟨d, Finset.mem_univ d, hd⟩
    have hspent := h.spent
    dsimp only
    omega
  · rw [hr]
    exact h.goes fun _ => pc

theorem relaxed_descending (h : Descending topology i m r) (pc : r.pc.cycling = false)
    (p : VectorPtr n) (x : Nat) (k : Fin n) : Descending topology i m (r.relaxed p x k) := by
  rcases relaxed_cases r p x k with ⟨k', -, hr⟩ | ⟨-, hr⟩
  · rw [hr]
    exact h.goes fun _ => pc
  · rw [hr]
    exact settle_descending h pc

theorem step_descending (h : Descending topology i m r) (hs : Stated topology i m r)
    (step : RouterStep topology i queue closed m r queue' m' r') :
    Descending topology i m' r' := by
  have hne := curr_ne_next hs.toLoose
  cases step with
  | send x j pc two_le count channel empty =>
    have hpc : r.pc.cycling = false := by rw [pc]; rfl
    exact settle_descending ⟨h.below, h.strict, h.spent⟩ hpc
  | report pc empty =>
    have hpc : r.pc.cycling = false := by rw [pc]; rfl
    exact settle_descending ⟨h.below, h.strict, h.spent⟩ hpc
  | vector p pc | null pc | leave pc | source p pc | load p x k pc =>
    exact h.goes fun _ => by rw [pc]; rfl
  | free pc =>
    have hgoes : Descending topology i m { r with pc := .exited } :=
      h.goes fun _ => by rw [pc]; rfl
    exact ⟨hgoes.below, hgoes.strict, hgoes.spent⟩
  | fail fault => exact h.goes fun _ => fault_cycling fault
  | keep p x k y pc least => exact relaxed_descending h (by rw [pc]; rfl) p x k
  | improve p x k y pc less =>
    have hpc : r.pc.cycling = false := by rw [pc]; rfl
    refine relaxed_descending ⟨fun _ d => ?_, fun _ _ => ⟨k, ?_⟩, ?_⟩ (by exact hpc) p x k
    · by_cases hd : d = k
      · subst hd
        simpa [hne] using (Nat.le_of_lt less).trans (h.below hpc d)
      · simpa [hne, hd] using h.below hpc d
    · simpa [hne] using less.trans_le (h.below hpc k)
    · simpa [hne] using h.spent
  | cycle pc =>
    refine ⟨by simp [RouterPc.cycling], by simp [RouterPc.cycling], ?_⟩
    simpa [hne] using h.spent
  | copy k pc =>
    have hstated := copied_stated hs pc
    rcases copied_cases topology i r k with ⟨k', -, hr⟩ | ⟨-, hr⟩
    · rw [hr]
      refine ⟨by simp [RouterPc.cycling], by simp [RouterPc.cycling], ?_⟩
      simpa [hne] using h.spent
    · rw [hr] at hstated ⊢
      refine ⟨fun _ d => (congrFun (hstated.fresh rfl) d).le, by simp [Router.reset], ?_⟩
      simpa [Router.reset, hne] using h.spent

theorem Descending.memory (h : Descending topology i m r)
    (same : ∀ s, m'.vector ⟨i, s⟩ = m.vector ⟨i, s⟩) : Descending topology i m' r := by
  refine ⟨?_, ?_, ?_⟩
  · simpa only [same] using h.below
  · simpa only [same] using h.strict
  · simpa only [same] using h.spent

end OperatingSystems.Stress
