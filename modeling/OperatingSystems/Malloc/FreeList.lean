import OperatingSystems.Malloc.Layout

namespace OperatingSystems.Malloc
open ByteMemory TaggedWord DoublyLinked

namespace Heap

theorem load_lt (s : Heap) (a : Nat) : s.load a < 2 ^ 64 := read_lt s.mem a 8

theorem load_store_same {s : Heap} {a v : Nat} (h : v < 2 ^ 64) : (s.store a v).load a = v := by
  rw [load, store, read_write_same]
  exact Nat.mod_eq_of_lt h

theorem load_store_ne {s : Heap} {a b v : Nat} (h : b + 8 ≤ a ∨ a + 8 ≤ b) :
    (s.store a v).load b = s.load b := read_write_disjoint h

theorem mem_store_outside {s : Heap} {a v y : Nat} (h : y < a ∨ a + 8 ≤ y) :
    (s.store a v).mem y = s.mem y := write_outside h

@[simp] theorem store_heap (s : Heap) (a v : Nat) : (s.store a v).heap = s.heap := rfl
@[simp] theorem store_memBrk (s : Heap) (a v : Nat) : (s.store a v).memBrk = s.memBrk := rfl
@[simp] theorem store_memMaxAddr (s : Heap) (a v : Nat) :
    (s.store a v).memMaxAddr = s.memMaxAddr := rfl
@[simp] theorem store_freeBlockPointer (s : Heap) (a v : Nat) :
    (s.store a v).freeBlockPointer = s.freeBlockPointer := rfl

def succOf (s : Heap) (x : Nat) : Nat := if x = 0 then s.freeBlockPointer else s.nextNode x

def linkNext (s : Heap) (u v : Nat) : Heap :=
  if u ≠ 0 then s.setNextNode u v else { s with freeBlockPointer := v }

def linkPrev (s : Heap) (v u : Nat) : Heap := if v ≠ 0 then s.setPrevNode v u else s

structure SameRegion (s s' : Heap) : Prop where
  heap : s'.heap = s.heap
  memBrk : s'.memBrk = s.memBrk
  memMaxAddr : s'.memMaxAddr = s.memMaxAddr

theorem SameRegion.trans {s s' s'' : Heap} (h : SameRegion s s') (h' : SameRegion s' s'') :
    SameRegion s s'' :=
  ⟨h'.heap.trans h.heap, h'.memBrk.trans h.memBrk, h'.memMaxAddr.trans h.memMaxAddr⟩

theorem sameRegion_linkNext (s : Heap) (u v : Nat) : SameRegion s (s.linkNext u v) := by
  unfold linkNext
  split <;> exact ⟨rfl, rfl, rfl⟩

theorem sameRegion_linkPrev (s : Heap) (v u : Nat) : SameRegion s (s.linkPrev v u) := by
  unfold linkPrev
  split <;> exact ⟨rfl, rfl, rfl⟩

theorem removeFromFreeList_eq (s : Heap) (x : Nat) :
    s.removeFromFreeList x =
      let s₁ := s.linkNext (s.prevNode x) (s.nextNode x)
      s₁.linkPrev (s₁.nextNode x) (s₁.prevNode x) := rfl

theorem addToFreeList_eq (s : Heap) (b : Nat) :
    s.addToFreeList b =
      { ((s.setPrevNode b 0).setNextNode b s.freeBlockPointer).linkPrev s.freeBlockPointer b with
        freeBlockPointer := b } := rfl

end Heap

structure Apart (nodes : List Nat) : Prop where
  positive : ∀ x ∈ nodes, 0 < x
  lt : ∀ x ∈ nodes, x < 2 ^ 64
  apart : ∀ x ∈ nodes, ∀ y ∈ nodes, x ≠ y → x + 32 ≤ y ∨ y + 32 ≤ x

theorem Apart.ne_zero {x : Nat} {l : List Nat} (h : Apart l) (hx : x ∈ l) : x ≠ 0 :=
  Nat.ne_of_gt (h.positive x hx)

theorem Apart.subset {l l' : List Nat} (h : Apart l) (hs : l' ⊆ l) : Apart l' :=
  ⟨fun x hx => h.positive x (hs hx), fun x hx => h.lt x (hs hx),
    fun x hx y hy => h.apart x (hs hx) y (hs hy)⟩

theorem Apart.cons {x : Nat} {l : List Nat} (h : Apart l) (hx : 0 < x) (hlt : x < 2 ^ 64)
    (hfar : ∀ z ∈ l, z + 32 ≤ x ∨ x + 32 ≤ z) : Apart (x :: l) := by
  refine ⟨List.forall_mem_cons.mpr ⟨hx, h.positive⟩, List.forall_mem_cons.mpr ⟨hlt, h.lt⟩, ?_⟩
  intro z hz w hw hzw
  rcases List.mem_cons.mp hz with rfl | hzl <;> rcases List.mem_cons.mp hw with rfl | hwl
  · exact absurd rfl hzw
  · exact (hfar w hwl).symm
  · exact hfar z hzl
  · exact h.apart z hzl w hwl hzw

def InLinks (nodes : List Nat) (y : Nat) : Prop := ∃ x ∈ nodes, x + 8 ≤ y ∧ y < x + 24

theorem InLinks.subset {l l' : List Nat} (hs : l' ⊆ l) {y : Nat} (h : InLinks l' y) :
    InLinks l y := by
  obtain ⟨x, hx, hy⟩ := h
  exact ⟨x, hs hx, hy⟩

namespace Heap

theorem succOf_node (s : Heap) {x : Nat} (h : x ≠ 0) : s.succOf x = s.nextNode x := if_neg h

theorem setLinks_self (s : Heap) (b : Nat) {w : Nat} (hw : w < 2 ^ 64) :
    ((s.setPrevNode b 0).setNextNode b w).nextNode b = w ∧
      ((s.setPrevNode b 0).setNextNode b w).prevNode b = 0 := by
  refine ⟨load_store_same hw, ?_⟩
  rw [prevNode, setNextNode, load_store_ne (by omega), setPrevNode, load_store_same (by decide)]

theorem setLinks_other (s : Heap) {b z : Nat} (w : Nat) (hz : z + 32 ≤ b ∨ b + 32 ≤ z) :
    ((s.setPrevNode b 0).setNextNode b w).nextNode z = s.nextNode z ∧
      ((s.setPrevNode b 0).setNextNode b w).prevNode z = s.prevNode z := by
  constructor
  · rw [nextNode, setNextNode, load_store_ne (by omega), setPrevNode, load_store_ne (by omega)]
    rfl
  · rw [prevNode, setNextNode, load_store_ne (by omega), setPrevNode, load_store_ne (by omega)]
    rfl

section
variable {s : Heap} {nodes : List Nat} (hn : Apart nodes)
include hn

theorem succOf_linkNext {u v z : Nat} (hu : u ∈ 0 :: nodes) (hz : z ∈ 0 :: nodes)
    (hv : v < 2 ^ 64) : (s.linkNext u v).succOf z = if z = u then v else s.succOf z := by
  unfold linkNext
  by_cases hu0 : u = 0
  · subst hu0
    by_cases hz0 : z = 0 <;> simp [succOf, nextNode, load, hz0]
  · have hun : u ∈ nodes := by simpa [hu0] using hu
    simp only [ne_eq, hu0, not_false_eq_true, if_true]
    by_cases hz0 : z = 0
    · subst hz0
      simp [succOf, setNextNode, Ne.symm hu0]
    · have hzn : z ∈ nodes := by simpa [hz0] using hz
      simp only [succOf, hz0, if_false, nextNode, setNextNode]
      by_cases hzu : z = u
      · subst hzu
        simp only [if_true]
        exact load_store_same hv
      · have := hn.apart z hzn u hun hzu
        simp only [hzu, if_false]
        exact load_store_ne (by omega)

theorem prevNode_linkNext {u v z : Nat} (hu : u ∈ 0 :: nodes) (hz : z ∈ nodes) :
    (s.linkNext u v).prevNode z = s.prevNode z := by
  unfold linkNext
  split
  · have hun : u ∈ nodes := by simpa [‹u ≠ 0›] using hu
    refine load_store_ne ?_
    by_cases hzu : z = u
    · subst hzu
      omega
    · have := hn.apart z hz u hun hzu
      omega
  · rfl

theorem succOf_linkPrev {u v z : Nat} (hv : v ∈ 0 :: nodes) (hz : z ∈ 0 :: nodes) :
    (s.linkPrev v u).succOf z = s.succOf z := by
  unfold linkPrev
  split
  · have hvn : v ∈ nodes := by simpa [‹v ≠ 0›] using hv
    by_cases hz0 : z = 0
    · simp [succOf, hz0, setPrevNode]
    · have hzn : z ∈ nodes := by simpa [hz0] using hz
      simp only [succOf, hz0, if_false]
      refine load_store_ne ?_
      by_cases hzv : z = v
      · subst hzv
        omega
      · have := hn.apart z hzn v hvn hzv
        omega
  · rfl

theorem prevNode_linkPrev {u v z : Nat} (hv : v ∈ 0 :: nodes) (hz : z ∈ nodes)
    (hu : u < 2 ^ 64) : (s.linkPrev v u).prevNode z = if z = v then u else s.prevNode z := by
  unfold linkPrev
  have hz0 := hn.positive z hz
  split
  · have hvn : v ∈ nodes := by simpa [‹v ≠ 0›] using hv
    by_cases hzv : z = v
    · subst hzv
      simp only [if_true]
      exact load_store_same hu
    · have := hn.apart z hz v hvn hzv
      simp only [hzv, if_false]
      exact load_store_ne (by omega)
  · rename_i h
    have hv0 : v = 0 := not_not.mp h
    simp [show z ≠ v by omega]

omit hn in
theorem mem_linkNext {u v y : Nat} (hu : u ∈ 0 :: nodes) (hy : ¬ InLinks nodes y) :
    (s.linkNext u v).mem y = s.mem y := by
  unfold linkNext
  split
  · have hun : u ∈ nodes := by simpa [‹u ≠ 0›] using hu
    refine mem_store_outside ?_
    by_contra hc
    exact hy ⟨u, hun, by omega⟩
  · rfl

omit hn in
theorem mem_linkPrev {u v y : Nat} (hv : v ∈ 0 :: nodes) (hy : ¬ InLinks nodes y) :
    (s.linkPrev v u).mem y = s.mem y := by
  unfold linkPrev
  split
  · have hvn : v ∈ nodes := by simpa [‹v ≠ 0›] using hv
    refine mem_store_outside ?_
    by_contra hc
    exact hy ⟨v, hvn, by omega⟩
  · rfl

end

end Heap

structure FreeList (s : Heap) (fl : List Nat) : Prop where
  linked : Represents 0 s.succOf s.prevNode fl
  nodup : fl.Nodup
  nodes : Apart fl

theorem FreeList.zero_notMem {s : Heap} {fl : List Nat} (h : FreeList s fl) : 0 ∉ fl :=
  fun h0 => absurd (h.nodes.positive 0 h0) (lt_irrefl 0)

theorem FreeList.frame {s s' : Heap} {fl : List Nat} (h : FreeList s fl)
    (hp : s'.freeBlockPointer = s.freeBlockPointer)
    (keep : ∀ y, InLinks fl y → s'.mem y = s.mem y) : FreeList s' fl := by
  refine ⟨represents_congr ?_ ?_ h.linked, h.nodup, h.nodes⟩
  · intro x hx
    by_cases hx0 : x = 0
    · simp [Heap.succOf, hx0, hp]
    · have hxl : x ∈ fl := by simpa [hx0] using hx
      simp only [Heap.succOf, hx0, if_false]
      exact read_congr fun y h1 h2 => keep y ⟨x, hxl, by omega⟩
  · intro x hx
    exact read_congr fun y h1 h2 => keep y ⟨x, hx, by omega⟩

structure Relinked (s s' : Heap) (fl : List Nat) : Prop where
  list : FreeList s' fl
  region : s.SameRegion s'
  mem : ∀ y, ¬ InLinks fl y → s'.mem y = s.mem y

theorem removeFromFreeList_spec {s : Heap} {x : Nat} {l₁ l₂ : List Nat}
    (h : FreeList s (l₁ ++ x :: l₂)) :
    Relinked s (s.removeFromFreeList x) (l₁ ++ l₂) := by
  have hxn : x ≠ 0 := h.nodes.ne_zero (by simp)
  have hsub : l₁ ++ l₂ ⊆ l₁ ++ x :: l₂ := by
    intro y hy
    rcases List.mem_append.mp hy with hy | hy <;> simp [hy]
  have hA := h.nodes
  have hA' := hA.subset hsub
  obtain ⟨hu, hv⟩ := represents_neighbours h.linked hxn
  have hv' : s.nextNode x ∈ l₂ ++ [0] := by simpa [Heap.succOf, hxn] using hv
  set u := s.prevNode x with hu_def
  set v := s.nextNode x with hv_def
  have hu64 : u < 2 ^ 64 := s.load_lt _
  have hv64 : v < 2 ^ 64 := s.load_lt _
  have huN : u ∈ 0 :: (l₁ ++ l₂) := List.cons_subset_cons _ (List.subset_append_left _ _) hu
  have hvN : v ∈ 0 :: (l₁ ++ l₂) := by
    rcases List.mem_append.mp hv' with hm | hm
    · simp [hm]
    · simp [List.mem_singleton.mp hm]
  have huF : u ∈ 0 :: (l₁ ++ x :: l₂) := List.cons_subset_cons _ hsub huN
  have hux : x ≠ u := by
    rintro hxu
    rw [← hxu] at hu
    have hxl : x ∈ l₁ := by simpa [hxn] using hu
    exact (List.nodup_append.mp h.nodup).2.2 x hxl x (by simp) rfl
  have hnext : (s.linkNext u v).nextNode x = v := by
    have := Heap.succOf_linkNext (s := s) hA huF (z := x) (by simp) hv64
    simpa [Heap.succOf, hxn, hux] using this
  have hprev : (s.linkNext u v).prevNode x = u := Heap.prevNode_linkNext hA huF (by simp)
  have heq : s.removeFromFreeList x = (s.linkNext u v).linkPrev v u := by
    rw [Heap.removeFromFreeList_eq]
    simp only [← hu_def, ← hv_def, hnext, hprev]
  have hsucc : ∀ z ∈ 0 :: (l₁ ++ l₂),
      ((s.linkNext u v).linkPrev v u).succOf z = if z = u then v else s.succOf z := by
    intro z hz
    rw [Heap.succOf_linkPrev hA' hvN hz, Heap.succOf_linkNext hA' huN hz hv64]
  have hpred : ∀ z ∈ l₁ ++ l₂,
      ((s.linkNext u v).linkPrev v u).prevNode z = if z = v then u else s.prevNode z := by
    intro z hz
    rw [Heap.prevNode_linkPrev hA' hvN hz hu64, Heap.prevNode_linkNext hA' huN hz]
  have hsx : s.succOf x = v := by simp [Heap.succOf, hxn, hv_def]
  rw [heq]
  refine ⟨⟨?_, ?_, hA'⟩, ?_, ?_⟩
  · apply represents_unlink h.linked h.zero_notMem h.nodup
    · rw [hsucc _ huN, if_pos rfl, hsx]
    · rw [hsx]
      intro hv0
      have hvl : v ∈ l₁ ++ l₂ := by simpa [hv0] using hvN
      rw [hpred v hvl, if_pos rfl]
    · intro z hz hzu
      rw [hsucc z hz, if_neg hzu]
    · intro z hz hzv
      rw [hsx] at hzv
      rw [hpred z hz, if_neg hzv]
  · exact List.Nodup.sublist (List.Sublist.append_left (List.sublist_cons_self x l₂) l₁) h.nodup
  · exact (Heap.sameRegion_linkNext _ _ _).trans (Heap.sameRegion_linkPrev _ _ _)
  · intro y hy
    rw [Heap.mem_linkPrev hvN hy, Heap.mem_linkNext huN hy]

theorem addToFreeList_spec {s : Heap} {b : Nat} {fl : List Nat} (h : FreeList s fl)
    (hA : Apart (b :: fl)) (hb : b ∉ fl) : Relinked s (s.addToFreeList b) (b :: fl) := by
  have hb0 : b ≠ 0 := hA.ne_zero (by simp)
  have hb64 := hA.lt b (by simp)
  have hapart : ∀ z ∈ fl, z + 32 ≤ b ∨ b + 32 ≤ z := fun z hz =>
    hA.apart z (by simp [hz]) b (by simp) (fun e => hb (e ▸ hz))
  have hhead : s.freeBlockPointer ∈ fl ++ [0] := by
    obtain ⟨v, z, hz⟩ := List.exists_cons_of_ne_nil (l := fl ++ [0]) (by simp)
    have hl := h.linked
    rw [Represents, hz, linked_cons_cons] at hl
    rw [hz, ← hl.1.1]
    simp [Heap.succOf]
  set w := s.freeBlockPointer with hw_def
  have hwF : w ∈ 0 :: fl := by simpa [or_comm] using hhead
  have hwA : w ∈ 0 :: b :: fl := List.cons_subset_cons _ (List.subset_cons_self _ _) hwF
  have hw64 : w < 2 ^ 64 := by
    rcases List.mem_cons.mp hwF with hw0 | hw
    · rw [hw0]; decide
    · exact h.nodes.lt w hw
  have hwb : b ≠ w := by
    rintro rfl
    exact hb (by simpa [hb0] using hwF)
  set s₁ := (s.setPrevNode b 0).setNextNode b w with hs₁
  have hother : ∀ z ∈ fl, s₁.nextNode z = s.nextNode z ∧ s₁.prevNode z = s.prevNode z :=
    fun z hz => s.setLinks_other w (hapart z hz)
  obtain ⟨hbnext, hbprev⟩ : s₁.nextNode b = w ∧ s₁.prevNode b = 0 := s.setLinks_self b hw64
  have hnextAll : ∀ z ∈ b :: fl, (s₁.linkPrev w b).nextNode z = s₁.nextNode z := by
    intro z hz
    have hlink := Heap.succOf_linkPrev (s := s₁) (u := b) hA hwA (z := z) (by simp [hz])
    rwa [Heap.succOf_node _ (hA.ne_zero hz), Heap.succOf_node _ (hA.ne_zero hz)] at hlink
  have hprevAll : ∀ z ∈ b :: fl,
      (s₁.linkPrev w b).prevNode z = if z = w then b else s₁.prevNode z := fun z hz =>
    Heap.prevNode_linkPrev hA hwA hz hb64
  have hs0 : s.succOf 0 = w := by simp [Heap.succOf, hw_def]
  have heq : s.addToFreeList b = { s₁.linkPrev w b with freeBlockPointer := b } :=
    Heap.addToFreeList_eq s b
  have hsucc : ∀ z ∈ b :: fl,
      (s.addToFreeList b).succOf z = (s₁.linkPrev w b).nextNode z := by
    intro z hz
    rw [heq, Heap.succOf_node _ (hA.ne_zero hz)]
    rfl
  have hpred : ∀ z, (s.addToFreeList b).prevNode z = (s₁.linkPrev w b).prevNode z := by
    intro z
    rw [heq]
    rfl
  refine ⟨⟨?_, List.nodup_cons.mpr ⟨hb, h.nodup⟩, hA⟩, ?_, ?_⟩
  · apply represents_push h.linked hb0 h.zero_notMem h.nodup
    · rw [heq]
      simp [Heap.succOf]
    · rw [hsucc b (by simp), hnextAll b (by simp), hbnext, hs0]
    · rw [hpred, hprevAll b (by simp), if_neg hwb, hbprev]
    · rw [hs0]
      intro hw0
      have hwl : w ∈ fl := by simpa [hw0] using hwF
      rw [hpred, hprevAll w (by simp [hwl]), if_pos rfl]
    · intro z hz
      rw [hsucc z (by simp [hz]), hnextAll z (by simp [hz]), (hother z hz).1,
        Heap.succOf_node s (h.nodes.ne_zero hz)]
    · intro z hz hzw
      rw [hs0] at hzw
      rw [hpred, hprevAll z (by simp [hz]), if_neg hzw, (hother z hz).2]
  · rw [heq]
    have hr := Heap.sameRegion_linkPrev s₁ w b
    exact ⟨hr.heap, hr.memBrk, hr.memMaxAddr⟩
  · intro y hy
    have hyb : y < b + 8 ∨ b + 24 ≤ y := by
      by_contra hc
      exact hy ⟨b, by simp, by omega⟩
    rw [heq]
    show (s₁.linkPrev w b).mem y = s.mem y
    rw [Heap.mem_linkPrev hwA hy, hs₁, Heap.setNextNode, Heap.mem_store_outside (by omega),
      Heap.setPrevNode, Heap.mem_store_outside (by omega)]

end OperatingSystems.Malloc
