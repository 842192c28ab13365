import Mathlib.Data.List.Chain
import Mathlib.Data.List.Nodup
import Mathlib.Tactic.Common

namespace OperatingSystems.DoublyLinked

variable {ν : Type} (null : ν)

def Linked (succ pred : ν → ν) (l : List ν) : Prop :=
  l.IsChain fun x y => succ x = y ∧ (y ≠ null → pred y = x)

-- `succ null` is the head of the list, and the last node leads back to `null`
def Represents (succ pred : ν → ν) (l : List ν) : Prop :=
  Linked null succ pred (null :: (l ++ [null]))

variable {null} {succ pred succ' pred' : ν → ν}

@[simp] theorem linked_singleton (x : ν) : Linked null succ pred [x] := List.isChain_singleton x

theorem linked_cons_cons {x y : ν} {rest : List ν} :
    Linked null succ pred (x :: y :: rest) ↔
      (succ x = y ∧ (y ≠ null → pred y = x)) ∧ Linked null succ pred (y :: rest) :=
  List.isChain_cons_cons

theorem linked_append (l : List ν) (x : ν) (rest : List ν) :
    Linked null succ pred (l ++ x :: rest) ↔
      Linked null succ pred (l ++ [x]) ∧ Linked null succ pred (x :: rest) :=
  List.isChain_split

theorem linked_congr {l : List ν} (hs : ∀ x ∈ l.dropLast, succ' x = succ x)
    (hp : ∀ y ∈ l.tail, y ≠ null → pred' y = pred y) (h : Linked null succ pred l) :
    Linked null succ' pred' l := by
  refine List.isChain_iff_forall_rel_of_append_cons_cons.mpr fun x y l₁ l₂ he => ?_
  obtain ⟨hxy, hyx⟩ := List.isChain_iff_forall_rel_of_append_cons_cons.mp h he
  subst he
  exact ⟨(hs x (by simp)).trans hxy, fun hy => (hp y (by cases l₁ <;> simp) hy).trans (hyx hy)⟩

theorem represents_congr {l : List ν} (hs : ∀ x ∈ null :: l, succ' x = succ x)
    (hp : ∀ y ∈ l, pred' y = pred y) (h : Represents null succ pred l) :
    Represents null succ' pred' l := by
  refine linked_congr ?_ ?_ h
  · rw [← List.cons_append, List.dropLast_concat]
    exact hs
  · intro y hy hn
    exact hp y (by simpa [hn] using hy)

theorem represents_cons {x : ν} {l : List ν} (hx : x ≠ null) :
    Represents null succ pred (x :: l) ↔
      succ null = x ∧ pred x = null ∧ Linked null succ pred (x :: (l ++ [null])) := by
  simp [Represents, linked_cons_cons, hx, and_assoc]

theorem represents_neighbours {x : ν} {l₁ l₂ : List ν}
    (h : Represents null succ pred (l₁ ++ x :: l₂)) (hx : x ≠ null) :
    pred x ∈ null :: l₁ ∧ succ x ∈ l₂ ++ [null] := by
  obtain ⟨v, z, hz⟩ := List.exists_cons_of_ne_nil (l := l₂ ++ [null]) (by simp)
  obtain ⟨w, u, hw⟩ := (List.eq_nil_or_concat (null :: l₁)).resolve_left (by simp)
  rw [List.concat_eq_append] at hw
  have hfull : Linked null succ pred (w ++ u :: x :: v :: z) := by
    have e : null :: (l₁ ++ x :: l₂ ++ [null]) = w ++ u :: x :: v :: z := by
      rw [List.append_assoc, List.cons_append, hz, ← List.cons_append, hw]
      simp
    exact e ▸ h
  rw [linked_append, linked_cons_cons, linked_cons_cons] at hfull
  obtain ⟨-, ⟨-, hpx⟩, ⟨hvx, -⟩, -⟩ := hfull
  rw [hpx hx, hvx, hw, hz]
  simp

theorem represents_push {x : ν} {l : List ν} (h : Represents null succ pred l)
    (hx : x ≠ null) (hnull : null ∉ l) (hl : l.Nodup)
    (head : succ' null = x) (next : succ' x = succ null) (prev : pred' x = null)
    (old : succ null ≠ null → pred' (succ null) = x)
    (keepNext : ∀ z ∈ l, succ' z = succ z)
    (keepPrev : ∀ z ∈ l, z ≠ succ null → pred' z = pred z) :
    Represents null succ' pred' (x :: l) := by
  obtain ⟨v, z, hz⟩ := List.exists_cons_of_ne_nil (l := l ++ [null]) (by simp)
  have hr := h
  rw [Represents, hz, linked_cons_cons] at hr
  obtain ⟨⟨hv, -⟩, hrest⟩ := hr
  rw [represents_cons hx, hz, linked_cons_cons]
  refine ⟨head, prev, ⟨next.trans hv, fun hn => hv ▸ old (hv ▸ hn)⟩, ?_⟩
  refine linked_congr ?_ ?_ hrest
  · rw [← hz, List.dropLast_concat]
    exact keepNext
  · intro y hy hn
    cases l with
    | nil => simp only [List.nil_append, List.cons.injEq] at hz; simp [← hz.2] at hy
    | cons a l =>
      simp only [List.cons_append, List.cons.injEq] at hz
      obtain ⟨rfl, rfl⟩ := hz
      have hyl : y ∈ l := by simpa [hn] using hy
      refine keepPrev y (by simp [hyl]) ?_
      rintro rfl
      exact (List.nodup_cons.mp hl).1 (hv ▸ hyl)

theorem represents_unlink {x : ν} {l₁ l₂ : List ν} (h : Represents null succ pred (l₁ ++ x :: l₂))
    (hnull : null ∉ l₁ ++ x :: l₂) (hl : (l₁ ++ x :: l₂).Nodup)
    (atPrev : succ' (pred x) = succ x) (atNext : succ x ≠ null → pred' (succ x) = pred x)
    (keepNext : ∀ z ∈ null :: (l₁ ++ l₂), z ≠ pred x → succ' z = succ z)
    (keepPrev : ∀ z ∈ l₁ ++ l₂, z ≠ succ x → pred' z = pred z) :
    Represents null succ' pred' (l₁ ++ l₂) := by
  obtain ⟨v, z, hz⟩ := List.exists_cons_of_ne_nil (l := l₂ ++ [null]) (by simp)
  obtain ⟨w, u, hw⟩ := (List.eq_nil_or_concat (null :: l₁)).resolve_left (by simp)
  rw [List.concat_eq_append] at hw
  simp only [List.mem_append, List.mem_cons, not_or] at hnull
  obtain ⟨hn₁, hnx, hn₂⟩ := hnull
  have hxn : x ≠ null := fun e => hnx e.symm
  obtain ⟨hl₁, hlx, hdis⟩ := List.nodup_append.mp hl
  obtain ⟨hx₂, hl₂⟩ := List.nodup_cons.mp hlx
  have hfull : Linked null succ pred (w ++ u :: x :: v :: z) := by
    have e : null :: (l₁ ++ x :: l₂ ++ [null]) = w ++ u :: x :: v :: z := by
      rw [List.append_assoc, List.cons_append, hz, ← List.cons_append, hw]
      simp
    exact e ▸ h
  rw [linked_append, linked_cons_cons, linked_cons_cons] at hfull
  obtain ⟨hleft, ⟨-, hpx⟩, ⟨hvx, -⟩, hright⟩ := hfull
  have hu := hpx hxn
  have hul : u ∈ null :: l₁ := by rw [hw]; simp
  have huw : u ∉ w := by
    have hnd : (null :: l₁).Nodup := List.nodup_cons.mpr ⟨hn₁, hl₁⟩
    rw [hw] at hnd
    exact fun hm => (List.nodup_append.mp hnd).2.2 u hm u (by simp) rfl
  have hv₁ : v ∉ l₁ := by
    intro hm
    have hvl : v ∈ l₂ ++ [null] := by rw [hz]; simp
    rcases List.mem_append.mp hvl with hv | hv
    · exact hdis v hm v (by simp [hv]) rfl
    · exact hn₁ (List.mem_singleton.mp hv ▸ hm)
  have hgoal : null :: (l₁ ++ l₂ ++ [null]) = w ++ u :: v :: z := by
    rw [List.append_assoc, hz, ← List.cons_append, hw]
    simp
  rw [Represents, hgoal, linked_append, linked_cons_cons]
  refine ⟨linked_congr ?_ ?_ hleft, ⟨?_, ?_⟩, linked_congr ?_ ?_ hright⟩
  · rw [List.dropLast_concat]
    intro y hy
    have hyl : y ∈ null :: l₁ := by rw [hw]; simp [hy]
    refine keepNext y ?_ (fun e => huw (by rwa [← hu, ← e]))
    exact List.cons_subset_cons _ (List.subset_append_left _ _) hyl
  · rw [← hw]
    intro y hy hn
    exact keepPrev y (by simp [show y ∈ l₁ from hy]) (fun e => hv₁ (hvx ▸ e ▸ hy))
  · rw [← hu, atPrev, hvx]
  · intro hn
    rw [← hvx, atNext (hvx ▸ hn), hu]
  · rw [← hz, List.dropLast_concat]
    intro y hy
    refine keepNext y (by simp [hy]) (fun e => ?_)
    rw [e, hu] at hy
    rcases List.mem_cons.mp hul with hun | hul
    · exact hn₂ (hun ▸ hy)
    · exact hdis u hul u (by simp [hy]) rfl
  · intro y hy hn
    cases l₂ with
    | nil => simp only [List.nil_append, List.cons.injEq] at hz; simp [← hz.2] at hy
    | cons a l =>
      simp only [List.cons_append, List.cons.injEq] at hz
      obtain ⟨rfl, rfl⟩ := hz
      have hyl : y ∈ l := by simpa [hn] using hy
      refine keepPrev y (by simp [hyl]) (fun e => ?_)
      exact (List.nodup_cons.mp hl₂).1 (by rwa [← hvx, ← e])

end OperatingSystems.DoublyLinked
