import OperatingSystems.Malloc.Operations

namespace OperatingSystems.Malloc
open ByteMemory TaggedWord DoublyLinked

theorem heapEnd_words {s : Heap} {y : Nat} (h : s.memBrk = y + 16) (hb : y + 16 < 2 ^ 64) :
    offset (s.mmHeapHi + 1) (-2) = y ∧ offset (s.mmHeapHi + 1) (-1) = y + 8 := by
  have hend : s.mmHeapHi + 1 = y + 16 := by
    rw [Heap.mmHeapHi, h]
    omega
  rw [hend]
  unfold offset
  omega

theorem mmInit_single {mem : Memory} {addr : Nat} (ha : addr % 16 = 0) (hpos : 0 < addr)
    (hb : addr + maxHeapSize ≤ 2 ^ 63) :
    ∃ s b fl, (memInit addr mem).mmInit = (true, s) ∧ WellFormed s [b] fl := by
  have hmax : maxHeapSize = 2 ^ 40 := rfl
  set s : Heap := { memInit addr mem with memBrk := addr + 4112 } with hs
  have hsbrk : (memInit addr mem).mmSbrk (4096 + 16) = (addr, s) := by
    rw [Heap.mmSbrk, if_neg (by decide), if_neg (by simp only [memInit]; omega)]
    rfl
  have hfail : addr ≠ sbrkFailed := by
    unfold sbrkFailed
    omega
  set s₁ := s.store addr 1 with hs₁
  set s₂ := s₁.store (addr + 8) 4096 with hs₂
  set s₃ := s₂.store (addr + 24) 0 with hs₃
  set s₄ := s₃.store (addr + 16) 0 with hs₄
  set s₅ := s₄.store (addr + 8) 4098 with hs₅
  set s₆ : Heap := { s₅ with freeBlockPointer := addr + 8 } with hs₆
  set s₇ := s₆.store (addr + 4096) 4096 with hs₇
  set s₈ := s₇.store (addr + 4104) 1 with hs₈
  let b : Block := ⟨4096, false, rfl, by decide⟩
  have hload : ∀ v, s₆.load v = s₅.load v := fun _ => rfl
  have hhead : s₈.load (addr + 8) = 4098 := by
    rw [hs₈, Heap.load_store_ne (by omega), hs₇, Heap.load_store_ne (by omega), hload, hs₅,
      Heap.load_store_same (by decide)]
  have hnext : s₈.load (addr + 16) = 0 := by
    rw [hs₈, Heap.load_store_ne (by omega), hs₇, Heap.load_store_ne (by omega), hload, hs₅,
      Heap.load_store_ne (by omega), hs₄, Heap.load_store_same (by decide)]
  have hprev : s₈.load (addr + 24) = 0 := by
    rw [hs₈, Heap.load_store_ne (by omega), hs₇, Heap.load_store_ne (by omega), hload, hs₅,
      Heap.load_store_ne (by omega), hs₄, Heap.load_store_ne (by omega), hs₃,
      Heap.load_store_same (by decide)]
  have hfoot : s₈.load (addr + 4096) = 4096 := by
    rw [hs₈, Heap.load_store_ne (by omega), hs₇, Heap.load_store_same (by decide)]
  have hepi : s₈.load (addr + 4104) = 1 := by
    rw [hs₈, Heap.load_store_same (by decide)]
  have hinit : (memInit addr mem).mmInit = (true, s₈) := by
    have hsize : s₄.load (addr + 8) = 4096 := by
      rw [hs₄, Heap.load_store_ne (by omega), hs₃, Heap.load_store_ne (by omega), hs₂,
        Heap.load_store_same (by decide)]
    have hbrk : s.memBrk = addr + 4112 := rfl
    obtain ⟨hend₁, hend₂⟩ := @heapEnd_words s (addr + 4096) (by omega) (by omega)
    rw [Nat.add_assoc] at hend₂
    have hmarked : (s₄.setSizeNode (addr + 8) (s₄.sizeNode (addr + 8) ^^^ 2)) = s₅ := by
      rw [Heap.sizeNode, hsize]
      rfl
    rw [Heap.mmInit, hsbrk]
    simp only [hfail, if_false, hend₁, hend₂]
    exact congrArg (fun t : Heap => (true, (({ t with freeBlockPointer := addr + 8 } : Heap).store
      (addr + 4096) 4096).store (addr + 4104) 1)) hmarked
  have hbase : s₈.base = addr + 8 := rfl
  refine ⟨s₈, b, [addr + 8], hinit, ⟨⟨ha, hpos, ?_, hb⟩, rfl, ?_, ⟨?_, by simp, ?_⟩,
    by simp [hbase, freeAddrs, b]⟩⟩
  · show addr + 4112 ≤ addr + maxHeapSize
    omega
  · exact tiled_cons.mpr ⟨hhead, fun _ => hfoot, tiled_nil.mpr hepi⟩
  · rw [represents_cons (by omega)]
    refine ⟨rfl, hprev,
      linked_cons_cons.mpr ⟨⟨?_, fun h => absurd rfl h⟩, linked_singleton _⟩⟩
    rw [Heap.succOf, if_neg (by omega)]
    exact hnext
  · refine ⟨by simp, ?_, by simp⟩
    simp only [List.mem_singleton, forall_eq]
    omega

theorem mmInit_spec {mem : Memory} {addr : Nat} (ha : addr % 16 = 0) (hpos : 0 < addr)
    (hb : addr + maxHeapSize ≤ 2 ^ 63) :
    ∃ s bs fl, (memInit addr mem).mmInit = (true, s) ∧ WellFormed s bs fl := by
  obtain ⟨s, b, fl, hinit, hw⟩ := @mmInit_single mem addr ha hpos hb
  exact ⟨s, [b], fl, hinit, hw⟩

theorem WellFormed.payload_write {s : Heap} {bs : List Block} {fl : List Nat} {m : Memory}
    (h : WellFormed s bs fl) (keep : ∀ y, ¬ Payload s.base bs y → m y = s.mem y) :
    WellFormed { s with mem := m } bs fl := by
  refine ⟨⟨h.region.aligned, h.region.positive, h.region.brk, h.region.bound⟩, h.covers, ?_, ?_,
    h.exact⟩
  · exact tiled_frame h.tiled fun y _ _ hy => keep y fun hp => hy (slack_of_payload hp)
  · exact h.list.frame rfl fun y hy => keep y fun hp => not_inLinks_of_payload h.subset hp hy

theorem payload_range {a x y n : Nat} {b : Block} {bs : List Block} (h : InUse a bs x b)
    (hn : n + 8 ≤ b.size) (h1 : x + 8 ≤ y) (h2 : y < x + 8 + n) : Payload a bs y :=
  payload_iff.mpr ⟨x, b, h, h1, by omega⟩

theorem inUse_unique {a x : Nat} {b c : Block} {bs : List Block} (hb : InUse a bs x b)
    (hc : InUse a bs x c) : c = b := by
  have hbl := b.large
  have hcl := c.large
  rcases placed_apart hb.1 hc.1 with ⟨-, he⟩ | he | he
  · exact he.symm
  · omega
  · omega

theorem inUse_apart {a x y : Nat} {b c : Block} {bs : List Block} (hb : InUse a bs x b)
    (hc : InUse a bs y c) (hne : y ≠ x) : y + c.size ≤ x ∨ x + b.size ≤ y := by
  rcases placed_apart hb.1 hc.1 with ⟨he, -⟩ | he | he
  · exact absurd he.symm hne
  · exact .inr he
  · exact .inl he

theorem outside_other {a x y x' : Nat} {b c : Block} {bs : List Block} (h : InUse a bs x b)
    (h' : InUse a bs x' c) (hne : x' ≠ x) (h1 : x' + 8 ≤ y) (h2 : y < x' + c.size) :
    y < x ∨ x + b.size ≤ y := by
  rcases inUse_apart h h' hne with h | h
  · exact .inl (by omega)
  · exact .inr (by omega)

-- a request of `size` bytes finds no block in the free list and no room in `mm_sbrk`
def Heap.refuses (s : Heap) (size : Nat) : Prop :=
  s.search (requiredBlockSize size) = some 0 ∧ s.memMaxAddr < s.memBrk + requiredBlockSize size

instance (s : Heap) (size : Nat) : Decidable (s.refuses size) := inferInstanceAs (Decidable (_ ∧ _))

def Served (s : Heap) (bs : List Block) (size r : Nat) (s' : Heap) : Prop :=
  (r = 0 ∧ s' = s ∧ (size = 0 ∨ s.refuses size)) ∨
  ∃ found x bs' fl', r = x + 8 ∧
    s.search (requiredBlockSize size) = some found ∧
    Granted s.base (requiredBlockSize size) found bs x bs' ∧ WellFormed s' bs' fl' ∧ Kept s s' bs

section
variable {s : Heap} {bs : List Block} {fl : List Nat} {size : Nat}

theorem served_fill {s' : Heap} {x : Nat} {m : Memory} (h : Served s bs size (x + 8) s')
    (hsize : size + 23 < 2 ^ 64)
    (keep : ∀ y, (y < x + 8 ∨ x + 8 + size ≤ y) → m y = s'.mem y) :
    Served s bs size (x + 8) { s' with mem := m } := by
  rcases h with ⟨h, -⟩ | ⟨found, z, bs', fl', hz, hsearch, hg, hw, hkept⟩
  · omega
  · obtain rfl : x = z := by omega
    obtain ⟨⟨new, hnew, hneed⟩, hold, -⟩ := granted_inUse hg
    have hreq := (requiredBlockSize_spec hsize).2.2.1
    have hbase : s'.base = s.base := hkept.base
    refine .inr ⟨found, x, bs', fl', hz, hsearch, hg, hw.payload_write fun y hy => keep y ?_,
      ⟨hkept.heap, hkept.memMaxAddr, fun y hy => ?_⟩⟩
    · by_contra hc
      refine hy (hbase ▸ payload_range hnew (n := size) (by omega) ?_ ?_) <;> omega
    · rw [← hkept.payload y hy]
      obtain ⟨w, c, hc, h1, h2⟩ := payload_iff.mp hy
      obtain ⟨hc', hne⟩ := hold w c hc
      have := outside_other hnew hc' hne h1 h2
      exact keep y (by omega)

theorem served_zero_or {r : Nat} {s' : Heap} (hs : Served s bs size r s') :
    r = 0 ∨ ∃ x, r = x + 8 := by
  rcases hs with ⟨hr, -⟩ | ⟨found, x, bs', fl', hr, -⟩
  · exact .inl hr
  · exact .inr ⟨x, hr⟩

theorem refused_malloc (hr : s.refuses size) : s.malloc size = some (0, s) := by
  rw [Heap.malloc]
  split
  · rfl
  · simp [hr.1, Heap.extend, mmSbrk_refused hr.2]

theorem Served.refused {r : Nat} {s' : Heap} (hs : Served s bs size r s') (hr : r = 0)
    (hpos : size ≠ 0) : s' = s ∧ s.refuses size := by
  rcases hs with ⟨-, he, hzero⟩ | ⟨found, x, bs', fl', hx, -⟩
  · exact ⟨he, hzero.resolve_left hpos⟩
  · omega

variable (h : WellFormed s bs fl)
include h

theorem malloc_served : ∃ r s', s.malloc size = some (r, s') ∧ Served s bs size r s' := by
  by_cases hpos : size = 0
  · exact ⟨0, s, by rw [Heap.malloc, if_pos hpos], .inl ⟨rfl, rfl, .inl hpos⟩⟩
  · rcases malloc_spec h (Nat.pos_of_ne_zero hpos) with
      ⟨hm, hex⟩ | ⟨found, x, s', bs', fl', hm, hsearch, hg, hw, hkept⟩
    · obtain ⟨found, hsearch, ⟨rfl, -⟩ | ⟨b, hb, hfree, hfit⟩⟩ :=
        search_spec h (requiredBlockSize size)
      · exact ⟨0, s, hm, .inl ⟨rfl, rfl, .inr ⟨hsearch, hex.refused⟩⟩⟩
      · have := hex.nofit found b hb hfree
        omega
    · exact ⟨x + 8, s', hm, .inr ⟨found, x, bs', fl', rfl, hsearch, hg, hw, hkept⟩⟩

variable (hsize : size + 23 < 2 ^ 64)
include hsize

theorem calloc_served {nmemb n : Nat} (he : n * nmemb = size) :
    ∃ r s', s.calloc nmemb n = some (r, s') ∧ Served s bs size r s' := by
  obtain ⟨r, s', hm, hs⟩ := @malloc_served _ _ _ size h
  have hwrap : wrap (n * nmemb) = size := by
    rw [he]
    exact Nat.mod_eq_of_lt (by omega)
  rw [Heap.calloc]
  simp only [hwrap, hm, Option.map_some]
  refine ⟨_, _, rfl, ?_⟩
  rcases served_zero_or hs with rfl | ⟨x, rfl⟩
  · simpa using hs
  · rw [if_pos (by omega)]
    exact served_fill hs hsize fun y hy => mmMemset_outside _ _ _ _ _ hy

theorem realloc_served {x : Nat} (hx : x ≠ 0) (hpos : size ≠ 0) :
    ∃ r mid, s.realloc x size = some (r, mid.free x) ∧ Served s bs size r mid := by
  obtain ⟨r, s', hm, hs⟩ := @malloc_served _ _ _ size h
  rw [Heap.realloc, if_neg hx, if_neg hpos, hm, Option.map_some]
  refine ⟨_, _, rfl, ?_⟩
  rcases served_zero_or hs with rfl | ⟨z, rfl⟩
  · simpa using hs
  · rw [if_pos (by omega)]
    refine served_fill hs hsize fun y hy => mmMemcpy_outside _ _ _ _ _ ?_
    split <;> omega

end

end OperatingSystems.Malloc
