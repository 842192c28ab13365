import Mathlib.Data.List.Chain
import Mathlib.Data.List.Nodup
import Mathlib.Logic.Function.Basic
import Mathlib.Tactic.Common

namespace OperatingSystems.LinkedRing

variable {ν : Type} (null : ν)

def Ring (succ pred : ν → ν) (l : List ν) : Prop :=
  (null :: (l ++ [null])).IsChain fun x y => succ x = y ∧ pred y = x

variable {null} {succ pred : ν → ν}

theorem ring_nil : Ring null succ pred [] ↔ succ null = null ∧ pred null = null := by
  simp [Ring]

theorem ring_congr {succ' pred' : ν → ν} {l : List ν} (h : Ring null succ pred l)
    (hs : ∀ x ∈ null :: l, succ' x = succ x) (hp : ∀ x ∈ null :: l, pred' x = pred x) :
    Ring null succ' pred' l := by
  refine List.IsChain.imp_of_mem_imp (fun a b ha hb hab => ?_) h
  have hmem {x : ν} (hx : x ∈ null :: (l ++ [null])) : x ∈ null :: l := by
    simp at hx ⊢
    tauto
  rw [hs a (hmem ha), hp b (hmem hb)]
  exact hab

theorem ring_reverse {l : List ν} (h : Ring null succ pred l) : Ring null pred succ l.reverse := by
  have e : null :: (l.reverse ++ [null]) = (null :: (l ++ [null])).reverse := by simp
  rw [Ring, e, List.isChain_reverse]
  exact h.imp fun _ _ hab => hab.symm

theorem ring_split (null : ν) (l₁ l₂ : List ν) : ∃ w u v z, null :: l₁ = w ++ [u] ∧ l₂ ++ [null] = v :: z ∧
    null :: (l₁ ++ l₂ ++ [null]) = w ++ u :: v :: z := by
  obtain ⟨w, u, hw⟩ := (List.eq_nil_or_concat (null :: l₁)).resolve_left (by simp)
  obtain ⟨v, z, hz⟩ := List.exists_cons_of_ne_nil (l := l₂ ++ [null]) (by simp)
  rw [List.concat_eq_append] at hw
  refine ⟨w, u, v, z, hw, hz, ?_⟩
  rw [List.append_assoc, hz, ← List.cons_append, hw]
  simp

theorem ring_neighbours {l₁ l₂ w z : List ν} {u v : ν} (h : Ring null succ pred (l₁ ++ l₂))
    (hw : null :: l₁ = w ++ [u]) (hz : l₂ ++ [null] = v :: z) : succ u = v ∧ pred v = u := by
  have e : null :: (l₁ ++ l₂ ++ [null]) = w ++ u :: v :: z := by
    rw [List.append_assoc, hz, ← List.cons_append, hw]
    simp
  rw [Ring, e, List.isChain_append_cons_cons] at h
  exact h.2.1

theorem ring_ends {l : List ν} (h : Ring null succ pred l) :
    pred (succ null) = null ∧ succ (pred null) = null := by
  obtain ⟨w, u, v, z, hw, hz, -⟩ := ring_split null [] l
  obtain ⟨w', u', v', z', hw', hz', -⟩ := ring_split null l []
  obtain ⟨hsu, hpv⟩ := ring_neighbours (by simpa using h) hw hz
  obtain ⟨hsu', hpv'⟩ := ring_neighbours (by simpa using h) hw' hz'
  have hu : null = u := by
    cases w with
    | nil => exact (List.cons.inj hw).1
    | cons a w => simp at hw
  obtain ⟨hv, -⟩ := List.cons.inj hz'
  exact ⟨by rw [hu, hsu, hpv], by rw [hv, hpv', hsu']⟩

theorem ring_around {l₁ l₂ : List ν} {x : ν} (h : Ring null succ pred (l₁ ++ x :: l₂)) :
    succ (pred x) = x ∧ pred (succ x) = x := by
  obtain ⟨w, u, v, z, hw, hz, -⟩ := ring_split null l₁ (x :: l₂)
  obtain ⟨w', u', v', z', hw', hz', -⟩ := ring_split null (l₁ ++ [x]) l₂
  obtain ⟨hsu, hpv⟩ := ring_neighbours h hw hz
  obtain ⟨hsu', hpv'⟩ := ring_neighbours (by simpa using h) hw' hz'
  obtain ⟨hv, -⟩ := List.cons.inj hz
  have hu : x = u' := by
    rw [← List.cons_append] at hw'
    exact List.singleton_inj.mp (List.append_inj' hw' rfl).2
  exact ⟨by rw [hv, hpv, hsu], by rw [hu, hsu', hpv']⟩

theorem ring_apart {l₁ l₂ z : List ν} {v : ν} (hnd : (null :: (l₁ ++ l₂)).Nodup)
    (hz : l₂ ++ [null] = v :: z) : v ∉ l₁ ∧ v ∉ z := by
  simp only [List.nodup_cons, List.nodup_append, List.mem_append, not_or] at hnd
  obtain ⟨⟨hn₁, hn₂⟩, -, hl₂, hdis⟩ := hnd
  constructor
  · intro hm
    have hv : v ∈ l₂ ++ [null] := by simp [hz]
    rcases List.mem_append.mp hv with hv | hv
    · exact hdis v hm v hv rfl
    · exact hn₁ (List.mem_singleton.mp hv ▸ hm)
  · have hnd' : (l₂ ++ [null]).Nodup := by
      simp only [List.nodup_append, List.mem_singleton, List.nodup_singleton, true_and]
      refine ⟨hl₂, ?_⟩
      rintro y hy _ rfl rfl
      exact hn₂ hy
    rw [hz] at hnd'
    exact (List.nodup_cons.mp hnd').1

variable [DecidableEq ν]

theorem ring_insert {l₁ l₂ w z : List ν} {u v x : ν} (h : Ring null succ pred (l₁ ++ l₂))
    (hnd : (null :: (l₁ ++ l₂)).Nodup) (hx : x ∉ null :: (l₁ ++ l₂))
    (hw : null :: l₁ = w ++ [u]) (hz : l₂ ++ [null] = v :: z) :
    Ring null (Function.update (Function.update succ u x) x v)
      (Function.update (Function.update pred v x) x u) (l₁ ++ x :: l₂) := by
  have hmem : ∀ {y}, y ∈ null :: l₁ ∨ y ∈ l₂ ++ [null] → y ∈ null :: (l₁ ++ l₂) := by
    intro y hy
    simp at hy ⊢
    tauto
  have hu : u ∈ null :: l₁ := by simp [hw]
  have hv : v ∈ l₂ ++ [null] := by simp [hz]
  have hxu : x ≠ u := fun e => hx (hmem (.inl (e ▸ hu)))
  have hxv : x ≠ v := fun e => hx (hmem (.inr (e ▸ hv)))
  obtain ⟨hvl, hvz⟩ := ring_apart hnd hz
  obtain ⟨hsu, -⟩ := ring_neighbours h hw hz
  have e₁ : null :: (l₁ ++ l₂ ++ [null]) = w ++ u :: v :: z := by
    rw [List.append_assoc, hz, ← List.cons_append, hw]
    simp
  have e₂ : null :: (l₁ ++ x :: l₂ ++ [null]) = w ++ u :: x :: v :: z := by
    rw [List.append_assoc, List.cons_append, hz, ← List.cons_append, hw]
    simp
  rw [Ring, e₁, List.isChain_append_cons_cons] at h
  rw [Ring, e₂, List.isChain_append_cons_cons, List.isChain_cons_cons]
  obtain ⟨hleft, -, hright⟩ := h
  have keep {a b : ν} (ha : a ≠ x) (hb : b ≠ v) (hbx : b ≠ x) (hab : succ a = b ∧ pred b = a) :
      Function.update (Function.update succ u x) x v a = b ∧
        Function.update (Function.update pred v x) x u b = a := by
    have hau : a ≠ u := fun e => hb (hab.1.symm.trans (e ▸ hsu))
    simp [ha, hau, hb, hbx, hab]
  refine ⟨hleft.imp_of_mem_tail_imp fun a b ha hb hab => keep ?_ ?_ ?_ hab, ?_, ?_,
    hright.imp_of_mem_tail_imp fun a b ha hb hab => keep ?_ ?_ ?_ hab⟩
  · rintro rfl
    exact hx (hmem (.inl (hw ▸ ha)))
  · rintro rfl
    rw [← hw] at hb
    exact hvl hb
  · rintro rfl
    rw [← hw] at hb
    exact hx (hmem (.inl (List.mem_cons_of_mem _ hb)))
  · simp [hxu.symm]
  · simp [hxv.symm]
  · rintro rfl
    exact hx (hmem (.inr (hz ▸ ha)))
  · rintro rfl
    exact hvz hb
  · rintro rfl
    exact hx (hmem (.inr (hz ▸ List.mem_cons_of_mem _ hb)))

theorem ring_remove {l₁ l₂ : List ν} {x : ν} (h : Ring null succ pred (l₁ ++ x :: l₂))
    (hnd : (null :: (l₁ ++ x :: l₂)).Nodup) :
    Ring null (Function.update succ (pred x) (succ x)) (Function.update pred (succ x) (pred x))
      (l₁ ++ l₂) := by
  obtain ⟨w, u, v, z, hw, hz, e₂⟩ := ring_split null l₁ l₂
  have e₁ : null :: (l₁ ++ x :: l₂ ++ [null]) = w ++ u :: x :: v :: z := by
    rw [List.append_assoc, List.cons_append, hz, ← List.cons_append, hw]
    simp
  have hmid : (null :: (l₁ ++ l₂)).Nodup ∧ x ∉ null :: (l₁ ++ l₂) := by
    have hperm : (null :: (l₁ ++ x :: l₂)).Perm (x :: null :: (l₁ ++ l₂)) :=
      (List.Perm.cons null List.perm_middle).trans (.swap x null _)
    have hnd := hperm.nodup_iff.mp hnd
    exact ⟨(List.nodup_cons.mp hnd).2, (List.nodup_cons.mp hnd).1⟩
  obtain ⟨hvl, hvz⟩ := ring_apart hmid.1 hz
  rw [Ring, e₁, List.isChain_append_cons_cons, List.isChain_cons_cons] at h
  rw [Ring, e₂, List.isChain_append_cons_cons]
  obtain ⟨hleft, ⟨hux, hxu⟩, ⟨hxv, hvx⟩, hright⟩ := h
  rw [hxu, hxv]
  have keep {a b : ν} (hb : b ≠ v) (hbx : b ≠ x) (hab : succ a = b ∧ pred b = a) :
      Function.update succ u v a = b ∧ Function.update pred v u b = a := by
    have hau : a ≠ u := fun e => hbx (hab.1.symm.trans (e ▸ hux))
    simp [hau, hb, hab]
  refine ⟨hleft.imp_of_mem_tail_imp fun a b _ hb hab => keep ?_ ?_ hab, by simp,
    hright.imp_of_mem_tail_imp fun a b _ hb hab => keep ?_ ?_ hab⟩
  · rintro rfl
    rw [← hw] at hb
    exact hvl hb
  · rintro rfl
    rw [← hw] at hb
    exact hmid.2 (List.mem_cons_of_mem _ (List.mem_append_left _ hb))
  · rintro rfl
    exact hvz hb
  · rintro rfl
    have hb : b ∈ l₂ ++ [null] := hz ▸ List.mem_cons_of_mem _ hb
    refine hmid.2 ?_
    simp at hb ⊢
    tauto

end OperatingSystems.LinkedRing
