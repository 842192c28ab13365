import OperatingSystems.Malloc.FreeList

namespace OperatingSystems.Malloc
open ByteMemory TaggedWord DoublyLinked

structure Region (s : Heap) : Prop where
  aligned : s.heap % 16 = 0
  positive : 0 < s.heap
  brk : s.memBrk ≤ s.memMaxAddr
  bound : s.memMaxAddr ≤ 2 ^ 63

def Heap.base (s : Heap) : Nat := s.heap + 8

theorem Heap.SameRegion.base {s s' : Heap} (h : s.SameRegion s') : s'.base = s.base :=
  congrArg (· + 8) h.heap

theorem Region.same {s s' : Heap} (h : Region s) (hr : s.SameRegion s') : Region s' :=
  ⟨by rw [hr.heap]; exact h.aligned, by rw [hr.heap]; exact h.positive,
    by rw [hr.memBrk, hr.memMaxAddr]; exact h.brk, by rw [hr.memMaxAddr]; exact h.bound⟩

structure WellFormed (s : Heap) (bs : List Block) (fl : List Nat) : Prop where
  region : Region s
  covers : s.base + total bs + 8 = s.memBrk
  tiled : Tiled s.mem s.base true bs
  list : FreeList s fl
  exact : fl.Perm (freeAddrs s.base bs)

def Payload (a : Nat) (bs : List Block) (y : Nat) : Prop :=
  ∃ x b, (x, b) ∈ placed a bs ∧ b.alloc = true ∧ x + 8 ≤ y ∧ y < x + b.size

theorem slack_of_payload {a y : Nat} {bs : List Block} (h : Payload a bs y) : Slack a bs y := by
  obtain ⟨x, b, hx, hb, h1, h2⟩ := h
  exact ⟨x, b, hx, h1, by simp [Block.inner, hb, h2]⟩

theorem slack_of_inLinks {a y : Nat} {bs : List Block} {fl : List Nat}
    (hs : fl ⊆ freeAddrs a bs) (h : InLinks fl y) : Slack a bs y := by
  obtain ⟨x, hx, h1, h2⟩ := h
  obtain ⟨b, hb, hf⟩ := mem_freeAddrs.mp (hs hx)
  have := b.large
  refine ⟨x, b, hb, h1, ?_⟩
  simp only [Block.inner, hf]
  simp
  omega

theorem not_inLinks_of_payload {a y : Nat} {bs : List Block} {fl : List Nat}
    (hs : fl ⊆ freeAddrs a bs) (h : Payload a bs y) : ¬ InLinks fl y := by
  rintro ⟨x, hx, h1, h2⟩
  obtain ⟨b, hb, hf⟩ := mem_freeAddrs.mp (hs hx)
  obtain ⟨z, c, hz, hc, h3, h4⟩ := h
  have := b.large
  rcases placed_apart hb hz with ⟨rfl, rfl⟩ | h | h
  · simp [hf] at hc
  · omega
  · omega

theorem slack_middle {a y : Nat} {pre post : List Block} {b : Block} :
    Slack a (pre ++ b :: post) y ↔ Slack a pre y ∨
      (a + total pre + 8 ≤ y ∧ y < a + total pre + b.inner) ∨
      Slack (a + total pre + b.size) post y := by
  rw [slack_append, slack_cons]

theorem slack_off_header {a y : Nat} {pre post : List Block} {b : Block}
    (h : Slack a (pre ++ b :: post) y) :
    (y < a + total pre ∨ a + total pre + 8 ≤ y) ∧
      (y < a + total pre + b.size ∨ a + total pre + b.size + 8 ≤ y) := by
  have hi := b.inner_bounds
  have hl := b.large
  rcases slack_middle.mp h with h | h | h
  · have := slack_bounds h
    omega
  · omega
  · have := slack_bounds h
    omega

theorem apart_placed {a : Nat} {bs : List Block} (ha : 0 < a) (hb : a + total bs ≤ 2 ^ 63) :
    Apart ((placed a bs).map Prod.fst) := by
  refine ⟨?_, ?_, ?_⟩
  · intro x hx
    obtain ⟨⟨y, b⟩, hy, rfl⟩ := List.mem_map.mp hx
    have := placed_bounds hy
    dsimp only
    omega
  · intro x hx
    obtain ⟨⟨y, b⟩, hy, rfl⟩ := List.mem_map.mp hx
    have := placed_bounds hy
    dsimp only
    omega
  · intro x hx y hy hxy
    obtain ⟨⟨x', b⟩, hb, rfl⟩ := List.mem_map.mp hx
    obtain ⟨⟨y', c⟩, hc, rfl⟩ := List.mem_map.mp hy
    have := b.large
    have := c.large
    rcases placed_apart hb hc with ⟨h, -⟩ | h | h
    · exact absurd h hxy
    · exact .inl (by dsimp only; omega)
    · exact .inr (by dsimp only; omega)

theorem freeAddrs_subset (a : Nat) (bs : List Block) :
    freeAddrs a bs ⊆ (placed a bs).map Prod.fst :=
  List.map_subset _ (List.filter_sublist).subset

theorem freeAddrs_bounds {a z : Nat} {bs : List Block} (h : z ∈ freeAddrs a bs) :
    a ≤ z ∧ z + 32 ≤ a + total bs := by
  obtain ⟨c, hc, -⟩ := mem_freeAddrs.mp h
  have hbounds := placed_bounds hc
  have hlarge := c.large
  omega

theorem payload_outside {a z : Nat} {pre mid post : List Block} {f : Block} (hf : f.alloc = false)
    (hsize : total mid = f.size) (h : Payload a (pre ++ f :: post) z) :
    Payload a (pre ++ mid ++ post) z ∧ (z < a + total pre ∨ a + total pre + f.size ≤ z) := by
  obtain ⟨w, c, hw, hc, h1, h2⟩ := h
  simp only [placed_append, placed_cons, List.mem_append, List.mem_cons, Prod.mk.injEq] at hw
  rcases hw with hw | ⟨-, rfl⟩ | hw
  · have hbounds := placed_bounds hw
    exact ⟨⟨w, c, by simp [hw], hc, h1, h2⟩, by omega⟩
  · rw [hf] at hc
    cases hc
  · have hbounds := placed_bounds hw
    refine ⟨⟨w, c, ?_, hc, h1, h2⟩, by omega⟩
    rw [← hsize, Nat.add_assoc, ← total_append] at hw
    rw [placed_append]
    exact List.mem_append_right _ hw

theorem length_freeAddrs (a : Nat) (bs : List Block) : 32 * (freeAddrs a bs).length ≤ total bs := by
  induction bs generalizing a with
  | nil => simp
  | cons b bs ih =>
    have := ih (a + b.size)
    have := b.large
    rw [freeAddrs_cons, List.length_append, total_cons]
    split <;> simp <;> omega

theorem Tiled.relink {s s' : Heap} {a : Nat} {p : Bool} {bs : List Block} {fl : List Nat}
    (h : Tiled s.mem a p bs) (hs : fl ⊆ freeAddrs a bs) (hr : Relinked s s' fl) :
    Tiled s'.mem a p bs :=
  tiled_frame h fun y _ _ hy => hr.mem y fun hl => hy (slack_of_inLinks hs hl)

structure Kept (s s' : Heap) (bs : List Block) : Prop where
  heap : s'.heap = s.heap
  memMaxAddr : s'.memMaxAddr = s.memMaxAddr
  payload : ∀ y, Payload s.base bs y → s'.mem y = s.mem y

theorem Kept.base {s s' : Heap} {bs : List Block} (h : Kept s s' bs) : s'.base = s.base :=
  congrArg (· + 8) h.heap

namespace WellFormed
variable {s : Heap} {bs : List Block} {fl : List Nat}

theorem subset (h : WellFormed s bs fl) : fl ⊆ freeAddrs s.base bs := h.exact.subset

theorem bounds (h : WellFormed s bs fl) {x : Nat} {b : Block} (hx : (x, b) ∈ placed s.base bs) :
    s.base ≤ x ∧ x + b.size + 8 ≤ s.memBrk ∧ s.memBrk ≤ 2 ^ 63 ∧ 8 < x := by
  have h1 := placed_bounds hx
  have h2 := h.covers
  have h3 := h.region.brk
  have h4 := h.region.bound
  have h5 := h.region.positive
  unfold Heap.base at *
  omega

theorem base_mod (h : WellFormed s bs fl) : s.base % 16 = 8 := by
  have := h.region.aligned
  unfold Heap.base
  omega

theorem apart (h : WellFormed s bs fl) : Apart ((placed s.base bs).map Prod.fst) := by
  have h2 := h.covers
  have h3 := h.region.brk
  have h4 := h.region.bound
  have h5 := h.region.positive
  unfold Heap.base at *
  exact apart_placed (by omega) (by omega)

theorem mem_list (h : WellFormed s bs fl) {x : Nat} :
    x ∈ fl ↔ ∃ b, (x, b) ∈ placed s.base bs ∧ b.alloc = false :=
  h.exact.mem_iff.trans mem_freeAddrs

theorem list_apart (h : WellFormed s bs fl) {x : Nat} {b : Block}
    (hx : (x, b) ∈ placed s.base bs) (hb : b.alloc = true) {z : Nat} (hz : z ∈ fl) :
    z + 32 ≤ x ∨ x + b.size ≤ z := by
  obtain ⟨c, hc, hcf⟩ := h.mem_list.mp hz
  have hlarge := c.large
  rcases placed_apart hx hc with ⟨-, rfl⟩ | hle | hle
  · rw [hb] at hcf
    cases hcf
  · exact .inr hle
  · exact .inl (by omega)

theorem slack_of_links (h : WellFormed s bs fl) {y : Nat} (hy : InLinks fl y) :
    Slack s.base bs y := slack_of_inLinks h.subset hy

theorem split {pre post : List Block} {b : Block} (h : WellFormed s (pre ++ b :: post) fl) :
    Tags s.mem s.base true pre ∧ s.load (s.base + total pre) = b.header (lastAlloc true pre) ∧
      (b.alloc = false → s.load (s.base + total pre + b.size - 8) = b.size) ∧
      Tiled s.mem (s.base + total pre + b.size) b.alloc post := by
  obtain ⟨h1, h2⟩ := tiled_append.mp h.tiled
  obtain ⟨h3, h4, h5⟩ := tiled_cons.mp h2
  exact ⟨h1, h3, h4, h5⟩

theorem header_at (h : WellFormed s bs fl) {x : Nat} {b : Block}
    (hx : (x, b) ∈ placed s.base bs) : ∃ p, s.load x = b.header p := by
  obtain ⟨pre, post, rfl, rfl⟩ := placed_split hx
  exact ⟨_, h.split.2.1⟩

theorem blockSize_at (h : WellFormed s bs fl) {x : Nat} {b : Block}
    (hx : (x, b) ∈ placed s.base bs) : s.blockSize x = b.size := by
  obtain ⟨p, hp⟩ := h.header_at hx
  have hb := h.bounds hx
  have ht := b.tag_lt p
  rw [Heap.blockSize, Heap.sizeNode, hp, Block.header,
    and_complement b.size_mod_four ht 3 (by decide) (by omega)]
  simp

end WellFormed

theorem header_tags (b : Block) (p : Bool) (h : b.size + 4 ≤ 2 ^ 64) :
    b.header p &&& 2 = 2 * p.toNat ∧ b.header p &&& 1 = b.alloc.toNat ∧
      b.header p &&& complement 3 = b.size ∧
      b.header p &&& complement 1 = (b.withAlloc false).header p := by
  have ht := b.tag_lt p
  have hm := b.size_mod_four
  refine ⟨?_, ?_, ?_, ?_⟩
  · rw [Block.header, and_tag hm ht 2 (by decide)]
    cases p <;> cases b.alloc <;> rfl
  · rw [Block.header, and_tag hm ht 1 (by decide)]
    cases p <;> cases b.alloc <;> rfl
  · rw [Block.header, and_complement hm ht 3 (by decide) (by omega)]
    simp
  · rw [Block.header, and_complement hm ht 1 (by decide) (by omega)]
    cases p <;> cases b.alloc <;> rfl

theorem header_lt (b : Block) (p : Bool) (h : b.size + 4 ≤ 2 ^ 64) : b.header p < 2 ^ 64 := by
  have ht := b.tag_lt p
  rw [Block.header]
  omega

theorem headWord_tags (p : Bool) (bs : List Block) (h : total bs + 4 ≤ 2 ^ 64) :
    headWord p bs ^^^ 2 = headWord (!p) bs ∧ headWord p bs &&& complement 2 = headWord false bs ∧
      headWord p bs < 2 ^ 64 := by
  cases bs with
  | nil => cases p <;> decide
  | cons b bs =>
    have ht := b.tag_lt p
    have hm := b.size_mod_four
    simp only [total_cons] at h
    refine ⟨?_, ?_, ?_⟩
    · rw [headWord, Block.header, xor_tag hm ht 2 (by decide)]
      cases p <;> cases hb : b.alloc <;> simp [headWord, Block.header, hb]
    · rw [headWord, Block.header, and_complement hm ht 2 (by decide) (by omega)]
      cases p <;> cases hb : b.alloc <;> simp [headWord, Block.header, hb]
    · simp only [headWord, Block.header]
      omega

theorem offset_eq {p k : Nat} (h : p + 8 * k < 2 ^ 64) : offset p k = p + 8 * k := by
  unfold offset
  omega

theorem offset_size {p size : Nat} (hs : size % 16 = 0) (h : p + size < 2 ^ 64) :
    offset p (size / 8 : Nat) = p + size := by
  rw [offset_eq] <;> omega

theorem offset_footer {p size : Nat} (hs : size % 16 = 0) (hl : 8 ≤ size)
    (h : p + size < 2 ^ 64) : offset p ((size / 8 : Nat) - 1) = p + size - 8 := by
  unfold offset
  omega

namespace Heap

theorem store_store (s : Heap) (a v w : Nat) : (s.store a v).store a w = s.store a w := by
  have hm : ((s.store a v).store a w).mem = (s.store a w).mem := by
    funext y
    by_cases h : y < a ∨ a + 8 ≤ y
    · rw [mem_store_outside h, mem_store_outside h, mem_store_outside h]
    · show write _ a 8 w y = write _ a 8 w y
      rw [write_inside (by omega), write_inside (by omega)]
  show Heap.mk _ _ _ _ _ = Heap.mk _ _ _ _ _
  exact congrArg (fun m => Heap.mk m s.heap s.memBrk s.memMaxAddr s.freeBlockPointer) hm

theorem setAllocated_eq {s : Heap} {x size : Nat} {p : Bool} (hp : s.load x &&& 2 = 2 * p.toNat)
    (hs : size % 4 = 0) (hb : size + 4 ≤ 2 ^ 64) :
    s.setAllocated x size = s.store x (size + (2 * p.toNat + 1)) := by
  have hor : size ||| 1 = size + 1 := or_tag (t := 0) hs (by decide) 1 (by decide)
  have hxor : (size + 1) ^^^ 2 = size + 3 := xor_tag hs (by decide) 2 (by decide)
  unfold setAllocated setSizeNode sizeNode
  rw [hp, hor]
  cases p
  · simp
  · simp only [Bool.toNat_true, Nat.mul_one, ne_eq, OfNat.ofNat_ne_zero, not_false_eq_true, if_true]
    rw [load_store_same (by omega), hxor, store_store]

theorem setFree_eq {s : Heap} {x size : Nat} {p : Bool} (hp : s.load x &&& 2 = 2 * p.toNat)
    (hs : size % 4 = 0) (hb : size + 4 ≤ 2 ^ 64) :
    s.setFree x size = s.store x (size + 2 * p.toNat) := by
  have hxor : size ^^^ 2 = size + 2 := xor_tag (t := 0) hs (by decide) 2 (by decide)
  unfold setFree setSizeNode sizeNode
  rw [hp]
  cases p
  · simp
  · simp only [Bool.toNat_true, Nat.mul_one, ne_eq, OfNat.ofNat_ne_zero, not_false_eq_true, if_true]
    rw [load_store_same (by omega), hxor, store_store]

end Heap

end OperatingSystems.Malloc
