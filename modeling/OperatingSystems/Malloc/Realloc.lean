import OperatingSystems.Malloc.Contracts

namespace OperatingSystems.Malloc
open ByteMemory

namespace Heap

-- the length that `copyPayload` passes to `memcpy`
def bytesToCopy (s : Heap) (oldptr size : Nat) : Nat :=
  let oldBlockSize := s.blockSize (oldptr - 8)
  if oldBlockSize < size then oldBlockSize else size

theorem copyPayload_mem (s : Heap) (newMemory oldptr size : Nat) :
    (s.copyPayload newMemory oldptr size).mem =
      mmMemcpy s.mem newMemory oldptr (s.bytesToCopy oldptr size) := rfl

-- the addresses whose bytes `realloc` copies to the new payload
def taken (s : Heap) (oldptr size : Nat) : List Nat :=
  if oldptr = 0 ∨ size = 0 then []
  else
    (s.malloc size).elim [] fun (newMemory, mid) =>
      if newMemory ≠ 0 then mmMemcpySources oldptr (mid.bytesToCopy oldptr size) else []

end Heap

section
variable {s : Heap} {bs : List Block} {fl : List Nat} {size oldptr : Nat}

theorem realloc_spec (h : WellFormed s bs fl) (hold : oldptr ≠ 0) (hpos : 0 < size) :
    (s.malloc size = some (0, s) ∧ s.realloc oldptr size = some (0, s.free oldptr) ∧
      Exhausted s bs (requiredBlockSize size)) ∨
    ∃ found z mid bs' fl', s.malloc size = some (z + 8, mid) ∧
      s.realloc oldptr size =
        some (z + 8, (mid.copyPayload (z + 8) oldptr size).free oldptr) ∧
      s.search (requiredBlockSize size) = some found ∧
      Granted s.base (requiredBlockSize size) found bs z bs' ∧ WellFormed mid bs' fl' ∧
      Kept s mid bs := by
  have hzero : size ≠ 0 := by omega
  rcases malloc_spec h hpos with ⟨hm, hex⟩ | ⟨found, z, mid, bs', fl', hm, hsearch, hg, hw, hkept⟩
  · refine .inl ⟨hm, ?_, hex⟩
    simp [Heap.realloc, hold, hzero, hm]
  · refine .inr ⟨found, z, mid, bs', fl', hm, ?_, hsearch, hg, hw, hkept⟩
    simp [Heap.realloc, hold, hzero, hm]

end

structure Copied (s s' : Heap) (z x : Nat) (b c : Block) (size : Nat) : Prop where
  region : s.SameRegion s'
  freeBlockPointer : s'.freeBlockPointer = s.freeBlockPointer
  inside : ∀ i, i < b.size → i < size → s'.mem (z + 8 + i) = s.mem (x + 8 + i)
  outside : ∀ y, (y < z + 8 ∨ z + c.size ≤ y) → s'.mem y = s.mem y

theorem copyPayload_copied {s : Heap} {bs : List Block} {fl : List Nat} {x z size : Nat}
    {b c : Block} (h : WellFormed s bs fl) (hb : InUse s.base bs x b) (hc : InUse s.base bs z c)
    (hne : z ≠ x) (hroom : size + 8 ≤ c.size) :
    Copied s (s.copyPayload (z + 8) (x + 8) size) z x b c size := by
  have hapart := inUse_apart hb hc hne
  have hlength : s.bytesToCopy (x + 8) size = min b.size size := by
    rw [Heap.bytesToCopy, Nat.add_sub_cancel, h.blockSize_at hb.1]
    split <;> omega
  refine ⟨⟨rfl, rfl, rfl⟩, rfl, fun i h1 h2 => ?_, fun y hy => ?_⟩
  · rw [Heap.copyPayload_mem, hlength]
    exact mmMemcpy_inside _ _ _ _ _ (by omega) (by omega)
  · rw [Heap.copyPayload_mem, hlength]
    exact mmMemcpy_outside _ _ _ _ _ (by omega)

theorem Copied.wellFormed {s s' : Heap} {bs : List Block} {fl : List Nat} {x z size : Nat}
    {b c : Block} (hcopy : Copied s s' z x b c size) (h : WellFormed s bs fl)
    (hc : InUse s.base bs z c) : WellFormed s' bs fl := by
  have hkeep := h.payload_write (m := s'.mem) fun y hy => hcopy.outside y (by
    by_contra hin
    exact hy (payload_iff.mpr ⟨z, c, hc, by omega, by omega⟩))
  obtain ⟨hheap, hbrk, hmax⟩ := hcopy.region
  have hfree := hcopy.freeBlockPointer
  cases s'
  dsimp only at hheap hbrk hmax hfree
  subst hheap hbrk hmax hfree
  exact hkeep

structure Moved (s s' mid : Heap) (bs bs' : List Block) (size x z : Nat) (b c : Block) :
    Prop where
  aligned : (z + 8) % 16 = 0
  capacity : size + 8 ≤ c.size
  inUse : ∀ y d, InUse s'.base bs' y d ↔ (InUse s.base bs y d ∧ y ≠ x) ∨ (y = z ∧ d = c)
  disjoint : ∀ y d, InUse s'.base bs' y d → y ≠ z → y + d.size ≤ z ∨ z + c.size ≤ y
  contents : ∀ i, i < min (b.size - 8) size → s'.mem (z + 8 + i) = s.mem (x + 8 + i)
  copy : ∀ y, (y < z + 8 ∨ z + c.size ≤ y) →
    (mid.copyPayload (z + 8) (x + 8) size).mem y = mid.mem y
  payload : ∀ y d, InUse s.base bs y d → y ≠ x → ∀ a, y + 8 ≤ a → a < y + d.size →
    s'.mem a = s.mem a

theorem realloc_correct {s mid : Heap} {bs : List Block} {fl : List Nat} {x size q : Nat}
    {b : Block} (h : WellFormed s bs fl) (hs : Separated bs) (hx : InUse s.base bs x b)
    (hpos : 1 ≤ size) (hsize : size + 23 < 2 ^ 64) (hm : s.malloc size = some (q, mid))
    (hq : q ≠ 0) :
    ∃ z s' bs' fl' c, q = z + 8 ∧ s.realloc (x + 8) size = some (q, s') ∧
      WellFormed s' bs' fl' ∧ Moved s s' mid bs bs' size x z b c := by
  rcases @realloc_spec _ _ _ size (x + 8) h (by omega) hpos with
    ⟨hm', -⟩ | ⟨found, z, mid', bs₁, fl₁, hm', hr, -, hg, hw, hkept⟩
  · rw [hm, Option.some.injEq, Prod.mk.injEq] at hm'
    exact absurd hm'.1 hq
  · rw [hm, Option.some.injEq, Prod.mk.injEq] at hm'
    obtain ⟨rfl, rfl⟩ := hm'
    have hbase : mid.base = s.base := hkept.base
    obtain ⟨c, hallot⟩ := hg.allotted h hsize hw hkept
    have hbmid := (hallot.inUse x b).mpr (.inl hx)
    have hcmid := (hallot.inUse z c).mpr (.inr ⟨rfl, rfl⟩)
    have hne : z ≠ x := ((granted_inUse hg).2.1 x b hx).2.symm
    have hcopy := copyPayload_copied hw hbmid hcmid hne hallot.capacity
    have hwc := hcopy.wellFormed hw hcmid
    set copied := mid.copyPayload (z + 8) (x + 8) size with hcopied
    have hcbase : copied.base = mid.base := hcopy.region.base
    obtain ⟨hmem, hb⟩ := hbmid
    obtain ⟨pre, post, rfl, hxpre⟩ := placed_split hmem
    obtain ⟨pre', left, post', right, fl', -, hw', hfreed⟩ := free_freed hwc (hg.separated hs) hb
    rw [hcbase, ← hxpre] at hw' hfreed
    have huse : ∀ y d, InUse (copied.free (x + 8)).base
        (pre' ++ fused left (b.withAlloc false) right :: post') y d ↔
          (InUse s.base bs y d ∧ y ≠ x) ∨ (y = z ∧ d = c) := by
      intro y d
      rw [hfreed.inUse, hcbase, hallot.inUse]
      constructor
      · rintro ⟨hd | hd, hyx⟩
        · exact .inl ⟨hd, hyx⟩
        · exact .inr hd
      · rintro (⟨hd, hyx⟩ | ⟨rfl, rfl⟩)
        · exact ⟨.inl hd, hyx⟩
        · exact ⟨.inr ⟨rfl, rfl⟩, hne⟩
    refine ⟨z, copied.free (x + 8), _, fl', c, rfl, hr, hw', hallot.aligned, hallot.capacity, huse,
      fun y d hd hyz => ?_, fun i hi => ?_, hcopy.outside, fun y d hd hyx a h1 h2 => ?_⟩
    · exact hallot.fresh y d (((huse y d).mp hd).resolve_right fun he => hyz he.1).1
    · have hcap := hallot.capacity
      rw [hfreed.payload z c (hcbase ▸ hcmid) hne _ (by omega) (by omega),
        hcopy.inside i (by omega) (by omega)]
      exact hallot.payload x b hx _ (by omega) (by omega)
    · have hfar := hallot.fresh y d hd
      rw [hfreed.payload y d (hcbase ▸ (hallot.inUse y d).mpr (.inl hd)) hyx a h1 h2,
        hcopy.outside a (by omega)]
      exact hallot.payload y d hd a h1 h2

theorem realloc_correct_first : ∃ s bs fl b mid z s' bs' fl' c,
    firstHeap.malloc 24 = some (8176, s) ∧ WellFormed s bs fl ∧ s.malloc 300 = some (z + 8, mid) ∧
      s.realloc 8176 300 = some (z + 8, s') ∧ WellFormed s' bs' fl' ∧
        Moved s s' mid bs bs' 300 8168 z b c := by
  obtain ⟨s, bs, fl, b, hm, hw, hs, hb, -⟩ := firstHeap_served
  have hr : ((firstHeap.malloc 24).bind fun r => (r.2.malloc 300).map Prod.fst) = some 7856 := by
    decide +kernel
  rw [hm, Option.bind_some] at hr
  obtain ⟨⟨q, mid⟩, hmid, hq⟩ := Option.map_eq_some_iff.mp hr
  obtain ⟨z, s', bs', fl', c, rfl, hrealloc, hw', hmoved⟩ :=
    realloc_correct hw hs hb (by decide) (by decide) hmid (by dsimp only at hq; omega)
  exact ⟨s, bs, fl, b, mid, z, s', bs', fl', c, hm, hw, hmid, hrealloc, hw', hmoved⟩

theorem free_releases {s : Heap} {bs bs' : List Block} {fl fl' : List Nat} {x : Nat} {b c : Block}
    (h : WellFormed s bs fl) (hx : InUse s.base bs x b)
    (h' : WellFormed (s.free (x + 8)) bs' fl') : ¬ InUse (s.free (x + 8)).base bs' x c := by
  have hbase := (free_sameRegion h hx).base
  obtain ⟨hm, hb⟩ := hx
  obtain ⟨pre, post, rfl, rfl⟩ := placed_split hm
  by_cases hok : s.twoFreeBefore (s.base + total pre)
  · exact absurd h' (free_broken h hb hok bs' fl')
  · obtain ⟨bs₁, fl₁, hw₁, -, huse⟩ := free_wellFormed h hb hok
    obtain rfl := wellFormed_unique hw₁ h'
    rw [hbase]
    exact fun hc => ((huse _ c).mp hc).2 rfl

theorem realloc_failure {s mid : Heap} {bs : List Block} {fl : List Nat} {x size : Nat} {b : Block}
    (h : WellFormed s bs fl) (hx : InUse s.base bs x b) (hpos : 1 ≤ size)
    (hm : s.malloc size = some (0, mid)) :
    s.realloc (x + 8) size ≠ some (0, s) ∧
      ∃ s', s.realloc (x + 8) size = some (0, s') ∧
        ∀ bs' fl' c, WellFormed s' bs' fl' → ¬ InUse s'.base bs' x c := by
  rcases @realloc_spec _ _ _ size (x + 8) h (by omega) hpos with
    ⟨-, hr, -⟩ | ⟨found, z, mid', bs₁, fl₁, hm', -⟩
  · have hgone : ∀ bs' fl' c, WellFormed (s.free (x + 8)) bs' fl' →
        ¬ InUse (s.free (x + 8)).base bs' x c := fun bs' fl' c hw' => free_releases h hx hw'
    refine ⟨fun hsame => ?_, s.free (x + 8), hr, hgone⟩
    rw [hr, Option.some.injEq, Prod.mk.injEq] at hsame
    rw [hsame.2] at hgone
    exact hgone bs fl b h hx
  · rw [hm, Option.some.injEq, Prod.mk.injEq] at hm'
    omega

theorem realloc_failure_first : ∃ s mid s', firstHeap.malloc 24 = some (8176, s) ∧
    s.malloc (2 ^ 41) = some (0, mid) ∧ s.realloc 8176 (2 ^ 41) = some (0, s') ∧
      s.realloc 8176 (2 ^ 41) ≠ some (0, s) := by
  obtain ⟨s, bs, fl, b, hm, hw, -, hb, -⟩ := firstHeap_served
  have hr : ((firstHeap.malloc 24).bind fun r => (r.2.malloc (2 ^ 41)).map Prod.fst) = some 0 := by
    decide +kernel
  rw [hm, Option.bind_some] at hr
  obtain ⟨⟨q, mid⟩, hmid, rfl⟩ := Option.map_eq_some_iff.mp hr
  obtain ⟨hne, s', hs', -⟩ := realloc_failure hw hb (by decide) hmid
  exact ⟨s, mid, s', hm, hmid, hs', hne⟩

theorem realloc_not_atomic : ∃ s bs fl b mid s', WellFormed s bs fl ∧ InUse s.base bs 8168 b ∧
    s.malloc (2 ^ 41) = some (0, mid) ∧ s.realloc 8176 (2 ^ 41) = some (0, s') ∧
      s'.sizeNode 8168 ≠ s.sizeNode 8168 := by
  obtain ⟨s, bs, fl, b, hm, hw, -, hb, -⟩ := firstHeap_served
  have hr : ((firstHeap.malloc 24).bind fun r => (r.2.malloc (2 ^ 41)).bind fun r' =>
      (r.2.realloc 8176 (2 ^ 41)).map fun r'' =>
        (r'.1, r''.1, r.2.sizeNode 8168, r''.2.sizeNode 8168)) = some (0, 0, 33, 32) := by
    decide +kernel
  rw [hm, Option.bind_some] at hr
  obtain ⟨⟨q, mid⟩, hmid, hr⟩ := Option.bind_eq_some_iff.mp hr
  obtain ⟨⟨q', s'⟩, hrealloc, hr⟩ := Option.map_eq_some_iff.mp hr
  simp only [Prod.mk.injEq] at hr
  obtain ⟨rfl, rfl, hs, hs'⟩ := hr
  exact ⟨s, bs, fl, b, mid, s', hw, hb, hmid, hrealloc, by omega⟩

theorem Granted.not_exhausted {s s' : Heap} {bs bs' : List Block} {fl fl' : List Nat}
    {need found x : Nat} (h : WellFormed s bs fl) (hg : Granted s.base need found bs x bs')
    (hw : WellFormed s' bs' fl') (hkept : Kept s s' bs) : ¬ Exhausted s bs need := by
  intro hex
  have hbase : s'.base = s.base := hkept.base
  cases hg with
  | @whole pre post b free fits =>
    have := hex.nofit (s.base + total pre) b (by simp) free
    omega
  | @split pre post b rest new free restFree newAlloc exact parts =>
    have := hex.nofit (s.base + total pre) b (by simp) free
    omega
  | @grow _ new newAlloc exact nofit =>
    have hcov := h.covers
    have hcov' := hw.covers
    have hbrk := hw.region.brk
    have hrefused := hex.refused
    rw [hbase, total_append, total_cons, total_nil] at hcov'
    rw [hkept.memMaxAddr] at hbrk
    omega

theorem realloc_copies_payload {s : Heap} {bs : List Block} {fl : List Nat} {x size : Nat}
    {b : Block} (h : WellFormed s bs fl) (hx : InUse s.base bs x b) :
    (∀ a ∈ s.taken (x + 8) size, x + 8 ≤ a ∧ a < x + b.size) ↔
      size + 8 ≤ b.size ∨ Exhausted s bs (requiredBlockSize size) := by
  have hlarge := b.large
  rcases Nat.eq_zero_or_pos size with rfl | hpos
  · refine iff_of_true ?_ (.inl (by omega))
    simp [Heap.taken]
  have hzero : size ≠ 0 := by omega
  rcases @realloc_spec _ _ _ size (x + 8) h (by omega) hpos with
    ⟨hm, -, hex⟩ | ⟨found, z, mid, bs', fl', hm, -, -, hg, hw, hkept⟩
  · refine iff_of_true ?_ (.inr hex)
    simp [Heap.taken, hm]
  · have hbase : mid.base = s.base := hkept.base
    have hb := ((granted_inUse hg).2.1 x b hx).1
    have hlength : mid.bytesToCopy (x + 8) size = min b.size size := by
      rw [Heap.bytesToCopy, Nat.add_sub_cancel, hw.blockSize_at (hbase ▸ hb.1)]
      split <;> omega
    have htaken : s.taken (x + 8) size = mmMemcpySources (x + 8) (min b.size size) := by
      simp [Heap.taken, hm, hzero, hlength]
    rw [htaken, or_iff_left (hg.not_exhausted h hw hkept)]
    simp only [mem_mmMemcpySources]
    constructor
    · intro hall
      have hlast := hall (x + 8 + (min b.size size - 1)) (by omega)
      omega
    · intro hfit a ha
      omega

theorem realloc_copies_payload_first : ∃ s bs fl b, firstHeap.malloc 24 = some (8176, s) ∧
    WellFormed s bs fl ∧ InUse s.base bs 8168 b ∧
      ∀ a ∈ s.taken 8176 16, 8176 ≤ a ∧ a < 8168 + b.size := by
  obtain ⟨s, bs, fl, b, hm, hw, -, hb, hsize⟩ := firstHeap_served
  exact ⟨s, bs, fl, b, hm, hw, hb, (realloc_copies_payload hw hb).mpr (.inl (by omega))⟩

-- the word behind the payload is the epilogue, and comes into the new payload
theorem realloc_copies_header : ∃ s bs fl b q s', firstHeap.malloc 24 = some (8176, s) ∧
    WellFormed s bs fl ∧ InUse s.base bs 8168 b ∧ 8200 ∈ s.taken 8176 100 ∧
      ¬ 8200 < 8168 + b.size ∧ s.realloc 8176 100 = some (q, s') ∧ s.load 8200 = 3 ∧
        s'.load (q + 24) = 3 := by
  obtain ⟨s, bs, fl, b, hm, hw, -, hb, hsize⟩ := firstHeap_served
  have hr : ((firstHeap.malloc 24).bind fun r => (r.2.realloc 8176 100).map fun r' =>
      (decide (8200 ∈ r.2.taken 8176 100), r.2.load 8200, r'.2.load (r'.1 + 24))) =
        some (true, 3, 3) := by
    decide +kernel
  rw [hm, Option.bind_some] at hr
  obtain ⟨⟨q, s'⟩, hrealloc, hr⟩ := Option.map_eq_some_iff.mp hr
  simp only [Prod.mk.injEq, decide_eq_true_eq] at hr
  exact ⟨s, bs, fl, b, q, s', hm, hw, hb, hr.1, by omega, hrealloc, hr.2.1, hr.2.2⟩

end OperatingSystems.Malloc
