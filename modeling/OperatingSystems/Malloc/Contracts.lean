import OperatingSystems.Malloc.Separated

namespace OperatingSystems.Malloc
open ByteMemory

theorem fits_iff {size : Nat} (hsize : size + 23 < 2 ^ 64) (c : Block) :
    requiredBlockSize size ≤ c.size ↔ size + 8 ≤ c.size := by
  have hmod := c.aligned
  have hlarge := c.large
  unfold requiredBlockSize align wrap
  dsimp only
  split <;> omega

def NoFit (s : Heap) (bs : List Block) (size : Nat) : Prop :=
  ∀ y c, (y, c) ∈ placed s.base bs → c.alloc = false → c.size < size + 8

theorem Exhausted.sbrk {s : Heap} {bs : List Block} {need : Nat} (h : Exhausted s bs need) :
    (s.mmSbrk need).1 = sbrkFailed := by
  rw [mmSbrk_refused h.refused]

structure Allotted (s s' : Heap) (bs bs' : List Block) (size x : Nat) (b : Block) : Prop where
  aligned : (x + 8) % 16 = 0
  capacity : size + 8 ≤ b.size
  fresh : ∀ y c, InUse s.base bs y c → y + c.size ≤ x ∨ x + b.size ≤ y
  inUse : ∀ y c, InUse s'.base bs' y c ↔ InUse s.base bs y c ∨ (y = x ∧ c = b)
  payload : ∀ y c, InUse s.base bs y c → ∀ z, y + 8 ≤ z → z < y + c.size → s'.mem z = s.mem z
  grown : s'.memBrk ≠ s.memBrk → NoFit s bs size

theorem Granted.extent {a need found x : Nat} {bs bs' : List Block}
    (h : Granted a need found bs x bs') (ha : 0 < a) :
    (found ≠ 0 ∧ total bs' = total bs) ∨
      (found = 0 ∧ total bs' = total bs + need ∧
        ∀ y c, (y, c) ∈ placed a bs → c.alloc = false → c.size < need) := by
  cases h with
  | whole free fits => exact .inl ⟨by omega, by simp [Block.withAlloc]⟩
  | split free restFree newAlloc exact parts =>
    refine .inl ⟨by omega, ?_⟩
    simp only [total_append, total_cons]
    omega
  | grow newAlloc exact nofit => exact .inr ⟨rfl, by simp [exact], nofit⟩

theorem Granted.allotted {s s' : Heap} {bs bs' : List Block} {fl fl' : List Nat}
    {size found x : Nat} (h : WellFormed s bs fl) (hsize : size + 23 < 2 ^ 64)
    (hg : Granted s.base (requiredBlockSize size) found bs x bs') (hw : WellFormed s' bs' fl')
    (hkept : Kept s s' bs) : ∃ b, Allotted s s' bs bs' size x b := by
  obtain ⟨⟨b, hb, hneed⟩, hold, honly⟩ := granted_inUse hg
  have hbase : s'.base = s.base := hkept.base
  refine ⟨b, ?_, (fits_iff hsize b).mp hneed, fun y c hc => ?_, fun y c => ?_,
    fun y c hc z h1 h2 => ?_, fun hbrk y c hc hfree => ?_⟩
  · have hmod := placed_mod hb.1
    have hbm := h.base_mod
    omega
  · obtain ⟨hc', hne⟩ := hold y c hc
    exact inUse_apart hb hc' hne
  · rw [hbase]
    constructor
    · intro hc
      refine (honly y c hc).imp_right fun hyx => ⟨hyx, ?_⟩
      exact inUse_unique hb (hyx ▸ hc)
    · rintro (hc | ⟨rfl, rfl⟩)
      · exact (hold y c hc).1
      · exact hb
  · exact hkept.payload z (payload_iff.mpr ⟨y, c, hc, h1, h2⟩)
  · have hcov := h.covers
    have hcov' := hw.covers
    rw [hbase] at hcov'
    rcases hg.extent (Nat.succ_pos _) with ⟨-, hsame⟩ | ⟨-, -, hnofit⟩
    · omega
    · have hlt := hnofit y c hc hfree
      by_contra hle
      exact absurd ((fits_iff hsize c).mpr (by omega)) (by omega)

theorem malloc_correct {s : Heap} {bs : List Block} {fl : List Nat} {size : Nat}
    (h : WellFormed s bs fl) (hpos : 1 ≤ size) (hsize : size + 23 < 2 ^ 64) :
    ∃ r s', s.malloc size = some (r, s') ∧
      ((r = 0 ∧ s' = s ∧ NoFit s bs size ∧ (s.mmSbrk (requiredBlockSize size)).1 = sbrkFailed) ∨
        ∃ x b bs' fl', r = x + 8 ∧ WellFormed s' bs' fl' ∧ Allotted s s' bs bs' size x b) := by
  rcases malloc_spec h hpos with ⟨hm, hex⟩ | ⟨found, x, s', bs', fl', hm, -, hg, hw, hkept⟩
  · refine ⟨0, s, hm, .inl ⟨rfl, rfl, fun y c hc hfree => ?_, hex.sbrk⟩⟩
    have hlt := hex.nofit y c hc hfree
    by_contra hle
    exact absurd ((fits_iff hsize c).mpr (by omega)) (by omega)
  · obtain ⟨b, hb⟩ := hg.allotted h hsize hw hkept
    exact ⟨x + 8, s', hm, .inr ⟨x, b, bs', fl', rfl, hw, hb⟩⟩

def firstHeap : Heap := ((memInit 4096 fun _ => 0).mmInit).2

theorem firstHeap_wellFormed : ∃ b fl, WellFormed firstHeap [b] fl := by
  obtain ⟨s, b, fl, hinit, hw⟩ :=
    @mmInit_single (fun _ => 0) 4096 (by decide) (by decide) (by decide)
  refine ⟨b, fl, ?_⟩
  rw [firstHeap, hinit]
  exact hw

theorem malloc_correct_first : ∃ b fl s' new bs' fl', WellFormed firstHeap [b] fl ∧
    firstHeap.malloc 100 = some (8096, s') ∧ WellFormed s' bs' fl' ∧
      Allotted firstHeap s' [b] bs' 100 8088 new := by
  obtain ⟨b, fl, hw⟩ := firstHeap_wellFormed
  obtain ⟨r, s', hm, hcase⟩ := @malloc_correct _ _ _ 100 hw (by decide) (by decide)
  have hr : (firstHeap.malloc 100).map Prod.fst = some 8096 := by decide +kernel
  rw [hm, Option.map_some, Option.some.injEq] at hr
  dsimp only at hr
  subst hr
  rcases hcase with ⟨h0, -⟩ | ⟨x, new, bs', fl', hx, hw', ha⟩
  · cases h0
  · obtain rfl : x = 8088 := by omega
    exact ⟨b, fl, s', new, bs', fl', hw, hm, hw', ha⟩

theorem total_prefix {p q p' q' : List Block} (h : p ++ q = p' ++ q') (ht : total p = total p') :
    p = p' := by
  rcases List.append_eq_append_iff.mp h with ⟨m, rfl, -⟩ | ⟨m, rfl, -⟩
  · have hm : m = [] := eq_nil_of_total (by simp only [total_append] at ht; omega)
    simp [hm]
  · have hm : m = [] := eq_nil_of_total (by simp only [total_append] at ht; omega)
    simp [hm]

theorem mergesPrev_alone {pre pre' left : List Block} (h : MergesPrev pre pre' left)
    (hlast : lastAlloc true pre = true) : pre' = pre ∧ left = [] := by
  cases h with
  | alone => exact ⟨rfl, rfl⟩
  | absorb free => simp [free] at hlast

theorem mergesPrev_absorb {pre pre' left : List Block} {c : Block}
    (h : MergesPrev (pre ++ [c]) pre' left) (hc : c.alloc = false) : pre' = pre ∧ left = [c] := by
  generalize he : pre ++ [c] = p at h
  cases h with
  | alone allocated => simp [← he, hc] at allocated
  | absorb free =>
    obtain ⟨rfl, hcd⟩ := List.append_inj' he rfl
    exact ⟨rfl, hcd.symm⟩

theorem mergesNext_alone {near : Prop} {post post' right : List Block}
    (h : MergesNext near post post' right) (hf : Fenced post) : post' = post ∧ right = [] := by
  cases h with
  | alone => exact ⟨rfl, rfl⟩
  | absorb free => simp [Fenced, free] at hf

theorem free_sameRegion {s : Heap} {bs : List Block} {fl : List Nat} {x : Nat} {b : Block}
    (h : WellFormed s bs fl) (hx : InUse s.base bs x b) : s.SameRegion (s.free (x + 8)) := by
  obtain ⟨hm, hb⟩ := hx
  obtain ⟨pre, post, rfl, rfl⟩ := placed_split hm
  obtain ⟨s₁, pre', left, post', right, -, -, hsame, -, hreleased, -⟩ := free_released h hb
  exact hsame.trans hreleased.region

structure Freed (s s' : Heap) (bs bs' : List Block) (x : Nat) : Prop where
  region : s.SameRegion s'
  inUse : ∀ y c, InUse s'.base bs' y c ↔ InUse s.base bs y c ∧ y ≠ x
  payload : ∀ y c, InUse s.base bs y c → y ≠ x → ∀ z, y + 8 ≤ z → z < y + c.size →
    s'.mem z = s.mem z

theorem free_freed {s : Heap} {pre post : List Block} {b : Block} {fl : List Nat}
    (h : WellFormed s (pre ++ b :: post) fl) (hs : Separated (pre ++ b :: post))
    (hb : b.alloc = true) : ∃ pre' left post' right fl', MergesPrev pre pre' left ∧
      WellFormed (s.free (s.base + total pre + 8))
        (pre' ++ fused left (b.withAlloc false) right :: post') fl' ∧
      Freed s (s.free (s.base + total pre + 8)) (pre ++ b :: post)
        (pre' ++ fused left (b.withAlloc false) right :: post') (s.base + total pre) := by
  have hregion := free_sameRegion h (x := s.base + total pre) ⟨by simp, hb⟩
  obtain ⟨pre', left, post', right, fl', hp, -, hw, hkept, huse⟩ :=
    free_spec h hb (separated_orderly h hs)
  refine ⟨pre', left, post', right, fl', hp, hw, hregion, ?_, fun y c hc hne z h1 h2 => ?_⟩
  · rw [hregion.base]
    exact huse
  · exact hkept.payload z (payload_iff.mpr ⟨y, c, (huse y c).mpr ⟨hc, hne⟩, h1, h2⟩)

theorem free_correct {s : Heap} {bs : List Block} {fl : List Nat} {x : Nat} {b : Block}
    (h : WellFormed s bs fl) (hs : Separated bs) (hx : InUse s.base bs x b) :
    ∃ bs' fl', WellFormed (s.free (x + 8)) bs' fl' ∧ Freed s (s.free (x + 8)) bs bs' x ∧
      ∀ z c, (z, c) ∈ placed s.base bs → c.alloc = false → z + c.size = x →
        ∃ f, (z, f) ∈ placed s.base bs' ∧ f.alloc = false ∧ c.size + b.size ≤ f.size := by
  obtain ⟨hm, hb⟩ := hx
  obtain ⟨pre, post, rfl, rfl⟩ := placed_split hm
  obtain ⟨pre', left, post', right, fl', hp, hw, hfreed⟩ := free_freed h hs hb
  refine ⟨_, fl', hw, hfreed, fun z c hz hc hnext => ?_⟩
  obtain ⟨q, q', hq, rfl⟩ := placed_split hz
  have hsplit : pre ++ b :: post = (q ++ [c]) ++ q' := by simp [hq]
  have hpre : pre = q ++ [c] := by
    refine total_prefix hsplit ?_
    simp only [total_append, total_cons, total_nil]
    omega
  subst hpre
  obtain ⟨rfl, rfl⟩ := mergesPrev_absorb hp hc
  refine ⟨fused [c] (b.withAlloc false) right, by simp, rfl, ?_⟩
  simp only [fused, Block.withAlloc, total_cons, total_nil]
  omega

theorem firstHeap_served : ∃ s bs fl b, firstHeap.malloc 24 = some (8176, s) ∧
    WellFormed s bs fl ∧ Separated bs ∧ InUse s.base bs 8168 b ∧ b.size = 32 := by
  obtain ⟨b, fl, hw⟩ := firstHeap_wellFormed
  have hr : (firstHeap.malloc 24).map (fun r => (r.1, r.2.blockSize 8168)) = some (8176, 32) := by
    decide +kernel
  rcases @malloc_spec _ _ _ 24 hw (by decide) with
    ⟨hm, -⟩ | ⟨found, x, s, bs, fl', hm, -, hg, hw', hkept⟩
  · rw [hm, Option.map_some, Option.some.injEq, Prod.mk.injEq] at hr
    cases hr.1
  · rw [hm, Option.map_some, Option.some.injEq, Prod.mk.injEq] at hr
    obtain rfl : x = 8168 := by omega
    obtain ⟨⟨new, hnew, -⟩, -⟩ := granted_inUse hg
    have hbase : s.base = firstHeap.base := hkept.base
    rw [← hbase] at hnew
    exact ⟨s, bs, fl', new, hm, hw', hg.separated (.singleton b), hnew,
      (hw'.blockSize_at hnew.1).symm.trans hr.2⟩

theorem free_correct_first : ∃ s bs fl bs' fl', firstHeap.malloc 24 = some (8176, s) ∧
    WellFormed s bs fl ∧ WellFormed (s.free 8176) bs' fl' ∧
      Freed s (s.free 8176) bs bs' 8168 := by
  obtain ⟨s, bs, fl, b, hm, hw, hs, hb, -⟩ := firstHeap_served
  obtain ⟨bs', fl', hw', hfreed, -⟩ := free_correct hw hs hb
  exact ⟨s, bs, fl, bs', fl', hm, hw, hw', hfreed⟩

theorem free_alone {s : Heap} {pre post : List Block} {b : Block} {fl : List Nat}
    (h : WellFormed s (pre ++ b :: post) fl) (hb : b.alloc = true)
    (hlast : lastAlloc true pre = true) (hf : Fenced post) :
    ∃ fl', WellFormed (s.free (s.base + total pre + 8)) (pre ++ b.withAlloc false :: post) fl' ∧
      (s.free (s.base + total pre + 8)).base = s.base := by
  have horderly : ¬ s.twoFreeBefore (s.base + total pre) := by
    rw [twoFreeBefore_iff h (.alone hlast), hlast]
    simp
  obtain ⟨pre', left, post', right, fl', hp, hn, hw, hkept, -⟩ := free_spec h hb horderly
  obtain ⟨rfl, rfl⟩ := mergesPrev_alone hp hlast
  obtain ⟨rfl, rfl⟩ := mergesNext_alone hn hf
  rw [fused_alone rfl] at hw
  exact ⟨fl', hw, hkept.base⟩

theorem free_behind {s : Heap} {pre post : List Block} {b c : Block} {fl : List Nat}
    (h : WellFormed s (pre ++ c :: b :: post) fl) (hc : c.alloc = false) (hb : b.alloc = true)
    (hlast : lastAlloc true pre = true) (hf : Fenced post) :
    ∃ fl', WellFormed (s.free (s.base + total pre + c.size + 8))
        (pre ++ fused [c] (b.withAlloc false) [] :: post) fl' ∧
      (s.free (s.base + total pre + c.size + 8)).base = s.base := by
  have hpre : s.base + total pre + c.size = s.base + total (pre ++ [c]) := by
    simp [Nat.add_assoc]
  rw [hpre]
  rw [List.append_cons pre c] at h
  have horderly : ¬ s.twoFreeBefore (s.base + total (pre ++ [c])) := by
    rw [twoFreeBefore_iff h (.absorb hc), hlast]
    simp
  obtain ⟨pre', left, post', right, fl', hp, hn, hw, hkept, -⟩ := free_spec h hb horderly
  obtain ⟨rfl, rfl⟩ := mergesPrev_absorb hp hc
  obtain ⟨rfl, rfl⟩ := mergesNext_alone hn hf
  exact ⟨fl', hw, hkept.base⟩

theorem fused_parts {b rest new : Block} (hb : b.alloc = false)
    (hparts : rest.size + new.size = b.size) : fused [rest] (new.withAlloc false) [] = b := by
  cases b
  simp_all [fused, Block.withAlloc]

theorem granted_free {s s' : Heap} {bs bs' : List Block} {fl' : List Nat} {need found x : Nat}
    (hs : Separated bs) (hg : Granted s.base need found bs x bs') (hfound : found ≠ 0)
    (hw : WellFormed s' bs' fl') (hbase : s'.base = s.base) :
    ∃ fl, WellFormed (s'.free (x + 8)) bs fl ∧ (s'.free (x + 8)).base = s.base := by
  cases hg with
  | @whole pre post b free fits =>
    obtain ⟨-, -, hnext⟩ := separated_middle.mp hs
    obtain ⟨hlast, hfence⟩ := hnext.resolve_left (by simp [free])
    obtain ⟨fl, hw', hbase'⟩ := free_alone hw rfl hlast hfence
    have hb : (b.withAlloc true).withAlloc false = b := by
      cases b
      simp_all [Block.withAlloc]
    rw [hb, hbase] at hw'
    rw [hbase] at hbase'
    exact ⟨fl, hw', hbase'⟩
  | @split pre post b rest new free restFree newAlloc exact parts =>
    obtain ⟨-, -, hnext⟩ := separated_middle.mp hs
    obtain ⟨hlast, hfence⟩ := hnext.resolve_left (by simp [free])
    obtain ⟨fl, hw', hbase'⟩ := free_behind hw restFree newAlloc hlast hfence
    rw [fused_parts free parts, hbase] at hw'
    rw [hbase] at hbase'
    exact ⟨fl, hw', hbase'⟩
  | grow => exact absurd rfl hfound

structure Restored (s s' : Heap) (bs : List Block) (fl fl' : List Nat) : Prop where
  wellFormed : WellFormed s' bs fl'
  region : s.SameRegion s'
  headers : ∀ x b, (x, b) ∈ placed s.base bs → s'.load x = s.load x
  footers : ∀ x b, (x, b) ∈ placed s.base bs → b.alloc = false →
    s'.load (x + b.size - 8) = s.load (x + b.size - 8)
  epilogue : s'.load (s.base + total bs) = s.load (s.base + total bs)
  list : fl'.Perm fl

theorem malloc_free_restores {s : Heap} {bs : List Block} {fl : List Nat} {size : Nat}
    (h : WellFormed s bs fl) (hs : Separated bs) (hpos : 0 < size)
    (hserved : s.search (requiredBlockSize size) ≠ some 0) :
    ∃ r s' fl', s.malloc size = some (r, s') ∧ r ≠ 0 ∧ Restored s (s'.free r) bs fl fl' := by
  rcases malloc_spec h hpos with ⟨-, hex⟩ | ⟨found, x, s', bs', fl', hm, hsearch, hg, hw, hkept⟩
  · obtain ⟨r, hr, ⟨rfl, -⟩ | ⟨b, hb, hfree, hfit⟩⟩ := search_spec h (requiredBlockSize size)
    · exact absurd hr hserved
    · have hlt := hex.nofit r b hb hfree
      omega
  · have hfound : found ≠ 0 := fun h0 => hserved (h0 ▸ hsearch)
    have hbase : s'.base = s.base := hkept.base
    obtain ⟨fl₁, hw₁, hbase₁⟩ := granted_free hs hg hfound hw hbase
    obtain ⟨hwords, hend⟩ := h.same_words hw₁ hbase₁
    obtain ⟨b, hx, -⟩ := (granted_inUse hg).1
    have hregion := free_sameRegion hw (hbase ▸ hx)
    have hcov := h.covers
    have hcov₁ := hw₁.covers
    have hexact := hw₁.exact
    rw [hbase₁] at hcov₁ hexact
    have hbrk : (s'.free (x + 8)).memBrk = s.memBrk := hcov₁.symm.trans hcov
    exact ⟨x + 8, s', fl₁, hm, by omega, hw₁,
      ⟨hregion.heap.trans hkept.heap, hbrk, hregion.memMaxAddr.trans hkept.memMaxAddr⟩,
      fun y c hy => (hwords y c hy).1, fun y c hy hc => (hwords y c hy).2 hc, hend,
      hexact.trans h.exact.symm⟩

theorem malloc_free_restores_first : ∃ b fl s' fl', WellFormed firstHeap [b] fl ∧
    firstHeap.malloc 100 = some (8096, s') ∧ Restored firstHeap (s'.free 8096) [b] fl fl' := by
  obtain ⟨b, fl, hw⟩ := firstHeap_wellFormed
  obtain ⟨r, s', fl', hm, -, hrestored⟩ := @malloc_free_restores _ _ _ 100 hw (.singleton b)
    (by decide) (by decide +kernel)
  have hr : (firstHeap.malloc 100).map Prod.fst = some 8096 := by decide +kernel
  rw [hm, Option.map_some, Option.some.injEq] at hr
  dsimp only at hr
  subst hr
  exact ⟨b, fl, s', fl', hw, hm, hrestored⟩

end OperatingSystems.Malloc
