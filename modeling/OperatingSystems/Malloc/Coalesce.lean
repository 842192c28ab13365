import OperatingSystems.Malloc.Release

namespace OperatingSystems.Malloc
open ByteMemory TaggedWord DoublyLinked

def Heap.prevFree (s : Heap) (block : Nat) : Prop := s.sizeNode block &&& 2 = 0

instance (s : Heap) (block : Nat) : Decidable (s.prevFree block) := inferInstanceAs (Decidable (_ = _))

def Heap.twoFreeBefore (s : Heap) (block : Nat) : Prop :=
  s.prevFree block ∧ s.prevFree (s.prevHeader block)

instance (s : Heap) (block : Nat) : Decidable (s.twoFreeBefore block) :=
  inferInstanceAs (Decidable (_ ∧ _))

def Heap.nextHeader (s : Heap) (block : Nat) : Nat := offset block (s.blockSize block / 8 : Nat)

-- `(size_t*)mm_heap_hi() - 7` lies 56 bytes below the last byte of the heap
def Heap.near (s : Heap) (header : Nat) : Prop := header + 57 < s.memBrk

section
variable {s : Heap} {bs : List Block} {fl : List Nat}

theorem inRange_iff (h : WellFormed s bs fl) (hbs : 32 ≤ total bs) {x : Nat} (hx : s.base ≤ x) :
    s.inRange x ↔ s.near x := by
  have h1 := h.covers
  have h2 := h.region.brk
  have h3 := h.region.bound
  have h4 := h.region.aligned
  have h5 := h.region.positive
  have hb : s.base = s.heap + 8 := rfl
  have hlo : offset s.mmHeapLo 1 = s.base := offset_eq (p := s.heap) (k := 1) (by omega)
  have hhi : offset s.mmHeapHi (-7) = s.memBrk - 57 := by
    unfold offset Heap.mmHeapHi
    omega
  rw [Heap.inRange, Heap.near, hlo, hhi]
  omega

theorem prevFree_iff {pre post : List Block} {b : Block}
    (h : WellFormed s (pre ++ b :: post) fl) :
    s.prevFree (s.base + total pre) ↔ lastAlloc true pre = false := by
  have hb := h.bounds (x := s.base + total pre) (b := b) (by simp)
  rw [Heap.prevFree, Heap.sizeNode, h.split.2.1, (header_tags b _ (by omega)).1]
  cases lastAlloc true pre <;> simp

theorem nextHeader_eq {pre post : List Block} {b : Block}
    (h : WellFormed s (pre ++ b :: post) fl) :
    s.nextHeader (s.base + total pre) = s.base + total pre + b.size := by
  have hm : (s.base + total pre, b) ∈ placed s.base (pre ++ b :: post) := by simp
  have hbounds := h.bounds hm
  have haligned := b.aligned
  rw [Heap.nextHeader, h.blockSize_at hm]
  exact offset_size (by omega) (by omega)

theorem nextFree_iff {pre post : List Block} {b : Block} (h : WellFormed s (pre ++ b :: post) fl) :
    s.load (s.base + total pre + b.size) &&& 1 = 0 ↔ ∃ d ∈ post.head?, d.alloc = false := by
  cases post with
  | nil =>
    have hword : s.load (s.base + total pre + b.size) = headWord b.alloc [] :=
      tiled_head h.split.2.2.2
    rw [hword]
    cases b.alloc <;> simp [headWord]
  | cons d post =>
    have hm : (s.base + total pre + b.size, d) ∈ placed s.base (pre ++ b :: d :: post) := by simp
    obtain ⟨p, hp⟩ := h.header_at hm
    have hbd := h.bounds hm
    rw [hp, (header_tags d p (by omega)).2.1]
    cases hd : d.alloc <;> simp [hd]

theorem prevHeader_eq {pre post : List Block} {b c : Block}
    (h : WellFormed s (pre ++ c :: b :: post) fl) (hc : c.alloc = false) :
    s.prevHeader (s.base + total pre + c.size) = s.base + total pre := by
  have hm : (s.base + total pre, c) ∈ placed s.base (pre ++ c :: b :: post) := by simp
  obtain ⟨hlo, hhi, hbrk, hx8⟩ := h.bounds hm
  have hca := c.aligned
  have hl := c.large
  have hfoot : s.load (s.base + total pre + c.size - 8) = c.size := h.split.2.2.1 hc
  have hmask : c.size &&& complement 3 = c.size := by
    have := and_complement (t := 0) c.size_mod_four (by decide) 3 (by decide) (by omega)
    simpa using this
  have hprev : offset (s.base + total pre + c.size) (-1) = s.base + total pre + c.size - 8 := by
    unfold offset
    omega
  rw [Heap.prevHeader, hprev, hfoot, hmask]
  unfold offset
  omega

theorem twoFreeBefore_iff {pre pre' left post : List Block} {b : Block}
    (h : WellFormed s (pre ++ b :: post) fl) (hp : MergesPrev pre pre' left) :
    s.twoFreeBefore (s.base + total pre) ↔ lastAlloc true pre' = false := by
  rw [Heap.twoFreeBefore, prevFree_iff h]
  cases hp with
  | alone allocated => simp [allocated]
  | @absorb _ c free =>
    rw [List.append_assoc, List.singleton_append] at h
    have hx : s.base + total (pre' ++ [c]) = s.base + total pre' + c.size := by
      simp [Nat.add_assoc]
    rw [hx, prevHeader_eq h free, prevFree_iff h]
    simp [free]

end

structure Trimmed (s s' : Heap) (fl l : List Nat) : Prop where
  list : FreeList s' l
  region : s.SameRegion s'
  mem : ∀ y, ¬ InLinks fl y → s'.mem y = s.mem y

theorem Trimmed.refl {s : Heap} {fl : List Nat} (h : FreeList s fl) : Trimmed s s fl fl :=
  ⟨h, ⟨rfl, rfl, rfl⟩, fun _ _ => rfl⟩

theorem Trimmed.unlink {s s' : Heap} {fl l : List Nat} {x : Nat} (h : Trimmed s s' fl l)
    (hl : l ⊆ fl) (hx : x ∈ l) :
    ∃ l', l.Perm (x :: l') ∧ l' ⊆ fl ∧ Trimmed s (s'.removeFromFreeList x) fl l' := by
  obtain ⟨l', hperm, hr⟩ := unlink_spec h.list hx
  have hsub : l' ⊆ fl := fun y hy => hl (hperm.symm.subset (by simp [hy]))
  refine ⟨l', hperm, hsub, hr.list, h.region.trans hr.region, fun y hy => ?_⟩
  rw [hr.mem y fun hin => hy (hin.subset hsub), h.mem y hy]

theorem Trimmed.tiled {s s' : Heap} {fl l : List Nat} {bs : List Block} {p : Bool} {a : Nat}
    (h : Trimmed s s' fl l) (hs : fl ⊆ freeAddrs a bs) (ht : Tiled s.mem a p bs) :
    Tiled s'.mem a p bs :=
  tiled_frame ht fun y _ _ hy => h.mem y fun hl => hy (slack_of_inLinks hs hl)

theorem Trimmed.load_header {s s' : Heap} {fl l : List Nat} {bs : List Block} {x : Nat} {b : Block}
    (h : Trimmed s s' fl l) (hw : WellFormed s bs fl) (hx : (x, b) ∈ placed s.base bs) :
    s'.load x = s.load x := by
  obtain ⟨pre, post, rfl, rfl⟩ := placed_split hx
  refine read_congr fun y h1 h2 => h.mem y fun hl => ?_
  have := slack_off_header (hw.slack_of_links hl)
  omega

section
variable {s : Heap} {pre post : List Block} {b : Block} {fl : List Nat}
  (h : WellFormed s (pre ++ b :: post) fl)
include h

theorem mergePrev_spec {pre' left : List Block} (hp : MergesPrev pre pre' left) :
    ∃ s₁ l, s.mergePrev (s.base + total pre) b.size =
        (s₁, total left + b.size, s.base + total pre') ∧
      fl.Perm (freeAddrs (s.base + total pre') left ++ l) ∧ l ⊆ fl ∧ Trimmed s s₁ fl l ∧
      (left = [] → s₁ = s) := by
  have hfree := prevFree_iff h
  cases hp with
  | alone allocated =>
    refine ⟨s, fl, ?_, by simp, List.Subset.refl _, .refl h.list, fun _ => rfl⟩
    have hnot : ¬ s.sizeNode (s.base + total pre) &&& 2 = 0 := by
      intro hz
      simp [hfree.mp hz] at allocated
    simp [Heap.mergePrev, hnot]
  | @absorb _ c free =>
    have hx : s.base + total (pre' ++ [c]) = s.base + total pre' + c.size := by
      simp [Nat.add_assoc]
    have hw := h
    rw [List.append_assoc, List.singleton_append] at hw
    have hm : (s.base + total pre', c) ∈ placed s.base (pre' ++ c :: b :: post) := by simp
    have hcov := hw.covers
    have hbound := hw.bounds hm
    have hbl := b.large
    have hcl := c.large
    simp only [total_append, total_cons] at hcov
    have hrange : s.inRange (s.base + total pre') := by
      rw [inRange_iff hw (by simp only [total_append, total_cons]; omega) (by omega), Heap.near]
      omega
    have hbit : s.sizeNode (s.base + total pre' + c.size) &&& 2 = 0 := by
      rw [← hx]
      exact hfree.mpr (by simp [free])
    obtain ⟨l, hperm, hsub, htrim⟩ := (Trimmed.refl hw.list).unlink (List.Subset.refl _)
      (hw.mem_list.mpr ⟨c, hm, free⟩)
    have hsize : (s.removeFromFreeList (s.base + total pre')).blockSize (s.base + total pre') =
        c.size := by
      rw [Heap.blockSize, Heap.sizeNode, htrim.load_header hw hm]
      exact hw.blockSize_at hm
    refine ⟨_, l, ?_, ?_, hsub, htrim, by simp⟩
    · rw [Heap.mergePrev, hx]
      simp only [hbit, prevHeader_eq hw free, hrange, and_self, if_true, hsize]
      simp only [wrap, total_cons, total_nil]
      rw [Nat.mod_eq_of_lt (by omega), Nat.add_comm b.size, Nat.add_zero]
    · simpa [freeAddrs_cons, free] using hperm

theorem mergeNext_spec {s₁ : Heap} {l : List Nat} {post' right : List Block} {near : Prop}
    (merged : Nat) (ht : Trimmed s s₁ fl l) (hl : l ⊆ fl)
    (hpost : freeAddrs (s.base + total pre + b.size) post ⊆ l)
    (hnear : near ↔ s.near (s.base + total pre + b.size))
    (hn : MergesNext near post post' right) (hmerged : merged ≤ total pre + b.size) :
    ∃ s₂ l', s₁.mergeNext (s.base + total pre + b.size) merged = (s₂, merged + total right) ∧
      l.Perm (freeAddrs (s.base + total pre + b.size) right ++ l') ∧ l' ⊆ fl ∧ Trimmed s s₂ fl l' ∧
      (right = [] → s₂ = s₁) := by
  have hrange : s₁.inRange (s.base + total pre + b.size) ↔ near := by
    have hlarge := b.large
    rw [hnear, ← inRange_iff h (by simp only [total_append, total_cons]; omega) (by omega)]
    unfold Heap.inRange Heap.mmHeapLo Heap.mmHeapHi
    rw [ht.region.heap, ht.region.memBrk]
  cases hn with
  | alone kept =>
    refine ⟨s₁, l, ?_, by simp, hl, ht, fun _ => rfl⟩
    have hnot : ¬ (s₁.inRange (s.base + total pre + b.size) ∧
        s₁.load (s.base + total pre + b.size) &&& 1 = 0) := by
      rw [hrange]
      rintro ⟨hin, hbit⟩
      cases post with
      | nil =>
        have hcov := h.covers
        simp only [total_append, total_cons, total_nil] at hcov
        rw [hnear, Heap.near] at hin
        omega
      | cons d post =>
        have hm : (s.base + total pre + b.size, d) ∈ placed s.base (pre ++ b :: d :: post) := by
          simp
        obtain ⟨p, hp⟩ := h.header_at hm
        have hbd := h.bounds hm
        rw [ht.load_header h hm, hp, (header_tags d p (by omega)).2.1] at hbit
        exact kept d rfl (by simpa using hbit) hin
    rw [Heap.mergeNext, if_neg hnot, total_nil, Nat.add_zero]
  | @absorb d _ free inside =>
    have hm : (s.base + total pre + b.size, d) ∈ placed s.base (pre ++ b :: d :: post') := by
      simp
    have hcov := h.covers
    have hbd := h.bounds hm
    simp only [total_append, total_cons] at hcov
    obtain ⟨p, hp⟩ := h.header_at hm
    have hbit : s₁.load (s.base + total pre + b.size) &&& 1 = 0 := by
      rw [ht.load_header h hm, hp, (header_tags d p (by omega)).2.1, free]
      rfl
    obtain ⟨l', hperm, hsub, htrim⟩ := ht.unlink hl (x := s.base + total pre + b.size)
      (hpost (by simp [freeAddrs_cons, free]))
    have hsize : (s₁.removeFromFreeList (s.base + total pre + b.size)).blockSize
        (s.base + total pre + b.size) = d.size := by
      rw [Heap.blockSize, Heap.sizeNode, htrim.load_header h hm]
      exact h.blockSize_at hm
    refine ⟨_, l', ?_, ?_, hsub, htrim, by simp⟩
    · rw [Heap.mergeNext]
      simp only [hrange.mpr inside, hbit, and_self, if_true, hsize]
      simp only [wrap, total_cons, total_nil, Nat.add_zero]
      rw [Nat.mod_eq_of_lt (by omega)]
    · simpa [freeAddrs_cons, free] using hperm

end

structure Released (s s' : Heap) (pre : List Block) (f : Block) (post : List Block) : Prop where
  region : s.SameRegion s'
  covers : s.base + total (pre ++ f :: post) + 8 = s.memBrk
  free : f.alloc = false
  before : Tags s'.mem s.base true pre
  header : s'.load (s.base + total pre) = f.header true
  footer : s'.load (s.base + total pre + f.size - 8) = f.size
  after : Tiled s'.mem (s.base + total pre + f.size) f.alloc post
  list : ∃ fl, FreeList s' fl ∧ fl.Perm (freeAddrs s.base (pre ++ f :: post))
  payload : ∀ y, Payload s.base (pre ++ f :: post) y → s'.mem y = s.mem y

theorem wellFormed_released {s : Heap} {pre post : List Block} {f : Block} {fl : List Nat}
    (h : WellFormed s (pre ++ f :: post) fl) (hf : f.alloc = false)
    (hp : lastAlloc true pre = true) : Released s s pre f post := by
  obtain ⟨htags, hhead, hfoot, hpost⟩ := h.split
  exact ⟨⟨rfl, rfl, rfl⟩, h.covers, hf, htags, by rw [hhead, hp], hfoot hf, hpost,
    ⟨fl, h.list, h.exact⟩, fun _ _ => rfl⟩

theorem Released.wellFormed {s s' : Heap} {pre post : List Block} {f : Block}
    (h : Released s s' pre f post) (hs : Region s) (hp : lastAlloc true pre = true) :
    ∃ fl, WellFormed s' (pre ++ f :: post) fl := by
  obtain ⟨fl, hlist, hexact⟩ := h.list
  refine ⟨fl, hs.same h.region, ?_, ?_, hlist, ?_⟩
  · rw [h.region.base, h.region.memBrk]
    exact h.covers
  · rw [h.region.base]
    refine tiled_append.mpr ⟨h.before, tiled_cons.mpr ⟨?_, fun _ => h.footer, h.after⟩⟩
    rw [hp]
    exact h.header
  · rw [h.region.base]
    exact hexact

theorem Released.broken {s s' : Heap} {pre post : List Block} {f : Block}
    (h : Released s s' pre f post) (hp : lastAlloc true pre = false) (bs : List Block)
    (fl : List Nat) : ¬ WellFormed s' bs fl := by
  intro hw
  have htiled := hw.tiled
  rw [h.region.base] at htiled
  obtain ⟨rest, rfl⟩ := tags_unique h.before htiled
  have hrest := tiled_head (tiled_append.mp htiled).2
  obtain ⟨size, t, ht, hs, htag, -⟩ := headWord_eq (lastAlloc true pre) rest
  have hhead : read s'.mem (s.base + total pre) 8 = f.header true := h.header
  rw [hhead, ht, Block.header] at hrest
  rw [hp] at htag
  have hf := f.aligned
  have hfa : f.alloc.toNat < 2 := Bool.toNat_lt _
  simp only [Bool.toNat_true, Bool.toNat_false] at *
  omega

theorem fused_alone {b : Block} (hb : b.alloc = false) : fused [] b [] = b := by
  cases b
  simp_all [fused]

theorem eq_nil_of_total {bs : List Block} (h : total bs = 0) : bs = [] := by
  cases bs with
  | nil => rfl
  | cons b bs =>
    have := b.large
    simp only [total_cons] at h
    omega

theorem lastAlloc_free {bs : List Block} (h : ∀ b ∈ bs, b.alloc = false) :
    lastAlloc false bs = false := by
  induction bs with
  | nil => rfl
  | cons b bs ih =>
    rw [lastAlloc_cons, h b (by simp)]
    exact ih fun c hc => h c (by simp [hc])

theorem merged_free {pre pre' left post post' right : List Block} {b : Block} {near : Prop}
    (hb : b.alloc = false) (hp : MergesPrev pre pre' left) (hn : MergesNext near post post' right) :
    ∀ c ∈ left ++ b :: right, c.alloc = false := by
  intro c hc
  rcases List.mem_append.mp hc with hc | hc
  · cases hp with
    | alone => simp at hc
    | absorb free => rwa [List.mem_singleton.mp hc]
  · rcases List.mem_cons.mp hc with rfl | hc
    · exact hb
    · cases hn with
      | alone => simp at hc
      | absorb free => rwa [List.mem_singleton.mp hc]

theorem lastAlloc_merged {p : Bool} {bs : List Block} (hne : bs ≠ [])
    (h : ∀ c ∈ bs, c.alloc = false) : lastAlloc p bs = false := by
  cases bs with
  | nil => exact absurd rfl hne
  | cons b bs =>
    rw [lastAlloc_cons, h b (by simp)]
    exact lastAlloc_free fun c hc => h c (by simp [hc])

theorem perm_cancel {l a r x : List Nat} (h : (r ++ l).Perm (a ++ (r ++ x))) : l.Perm (a ++ x) :=
  (List.perm_append_left_iff r).mp (h.trans (List.perm_append_comm_assoc a r x))

theorem close_released {s s₃ : Heap} {pre mid post : List Block} {f : Block} {fl l : List Nat}
    (h : WellFormed s (pre ++ mid ++ post) fl) (hmid : ∀ c ∈ mid, c.alloc = false) (hne : mid ≠ [])
    (hsize : total mid = f.size) (hf : f.alloc = false) (ht : Trimmed s s₃ fl l)
    (hl : l.Perm (freeAddrs s.base pre ++ freeAddrs (s.base + total pre + f.size) post)) :
    Released s (((s₃.store (s.base + total pre) (f.size + 2)).store
      (s.base + total pre + f.size - 8) f.size).addToFreeList (s.base + total pre)) pre f post := by
  have hbase := ht.region.base
  have hlarge := f.large
  have hcov := h.covers
  have hclose := @close_spec s₃ pre mid post l (h.region.same ht.region)
    (by rw [hbase, ht.region.memBrk]; exact hcov)
    (by rw [hbase]; exact ht.tiled h.subset h.tiled) (lastAlloc_merged hne hmid) (by omega) ht.list
    (by rw [hbase, hsize]; exact hl.subset)
  simp only [hbase, hsize] at hclose
  have hbefore := hclose.before
  have hafter := hclose.after
  rw [hbase] at hbefore
  rw [← hf] at hafter
  have hheader : f.header true = f.size + 2 := by simp [Block.header, hf]
  have hperm : ((s.base + total pre) :: l).Perm (freeAddrs s.base (pre ++ f :: post)) := by
    simp only [freeAddrs_append, freeAddrs_cons, hf, Bool.false_eq_true, if_false,
      List.singleton_append]
    exact (hl.cons _).trans List.perm_middle.symm
  refine ⟨ht.region.trans hclose.region, ?_, hf, hbefore, hheader ▸ hclose.header, hclose.footer,
    hafter, ⟨_, hclose.list, hperm⟩, fun z hz => ?_⟩
  · simp only [total_append, total_cons] at hcov ⊢
    omega
  · obtain ⟨hold, houtside⟩ := payload_outside hf hsize hz
    have hlinks := not_inLinks_of_payload h.subset hold
    have hin : ¬ InLinks l z := fun hin =>
      not_inLinks_of_payload hperm.subset hz (hin.subset (List.subset_cons_self _ l))
    rw [hclose.mem z houtside hin, ht.mem z hlinks]

theorem coalesce_eq {s s₁ s₂ : Heap} {pre post : List Block} {b : Block} {fl : List Nat}
    (h : WellFormed s (pre ++ b :: post) fl) {y size size' : Nat}
    (hprev : s.mergePrev (s.base + total pre) b.size = (s₁, size, y))
    (hnext : s₁.mergeNext (s.base + total pre + b.size) size = (s₂, size')) :
    s.coalesce (s.base + total pre) =
      if size' ≠ b.size then s₂.rebuild (s.base + total pre) y size' else s₂ := by
  have hm : (s.base + total pre, b) ∈ placed s.base (pre ++ b :: post) := by simp
  have hbd := h.bounds hm
  have hoff : offset (s.base + total pre) (b.size / 8 : Nat) = s.base + total pre + b.size :=
    offset_size b.aligned (by omega)
  rw [Heap.coalesce, h.blockSize_at hm, hprev]
  simp only [hoff, hnext]

theorem coalesce_spec {s : Heap} {pre post pre' left post' right : List Block} {b : Block}
    {fl : List Nat} (h : WellFormed s (pre ++ b :: post) fl) (hb : b.alloc = false)
    (hp : MergesPrev pre pre' left)
    (hn : MergesNext (s.near (s.base + total pre + b.size)) post post' right) :
    Released s (s.coalesce (s.base + total pre)) pre' (fused left b right) post' := by
  have hleft := mergesPrev_eq hp
  have hright := mergesNext_eq hn
  obtain ⟨s₁, l₁, hprev, hperm₁, hsub₁, htrim₁, hsame₁⟩ := mergePrev_spec h hp
  have hrest₁ : l₁.Perm (freeAddrs s.base pre' ++ ((s.base + total pre) ::
      freeAddrs (s.base + total pre + b.size) post)) := by
    have hall := hperm₁.symm.trans h.exact
    rw [hleft] at hall ⊢
    simp only [freeAddrs_append, freeAddrs_cons, hb, Bool.false_eq_true, if_false, total_append,
      List.append_assoc, List.singleton_append, ← Nat.add_assoc] at hall ⊢
    exact perm_cancel hall
  obtain ⟨s₂, l₂, hnext, hperm₂, hsub₂, htrim₂, hsame₂⟩ :=
    mergeNext_spec h (total left + b.size) htrim₁ hsub₁
      (fun y hy => hrest₁.symm.subset (by simp [hy])) Iff.rfl hn
      (by rw [hleft, total_append]; omega)
  have hrest₂ : l₂.Perm ((freeAddrs s.base pre' ++ [s.base + total pre]) ++
      freeAddrs (s.base + total pre + b.size + total right) post') := by
    have hall := hperm₂.symm.trans hrest₁
    rw [hright, freeAddrs_append, ← List.singleton_append, ← List.append_assoc] at hall
    exact perm_cancel hall
  rw [coalesce_eq h hprev hnext]
  rcases eq_or_ne (total left + b.size + total right) b.size with hmerge | hmerge
  · have hleftNil : left = [] := eq_nil_of_total (by omega)
    have hrightNil : right = [] := eq_nil_of_total (by omega)
    subst hleftNil hrightNil
    rw [if_neg (not_not.mpr hmerge), hsame₂ rfl, hsame₁ rfl, fused_alone hb]
    have hpre : pre = pre' := by simpa using hleft
    have hpost' : post = post' := by simpa using hright
    subst hpost'
    refine hpre ▸ wellFormed_released h hb ?_
    cases hp with
    | alone allocated => exact allocated
  · rw [if_pos hmerge]
    have hx : s.base + total pre ∈ l₂ := hrest₂.symm.subset (by simp)
    obtain ⟨l₃, hperm₃, hsub₃, htrim₃⟩ := htrim₂.unlink hsub₂ hx
    have hlist : pre ++ b :: post = pre' ++ (left ++ b :: right) ++ post' := by
      rw [hleft, hright]
      simp
    have hmid : total (left ++ b :: right) = (fused left b right).size := by
      simp [fused, Nat.add_assoc]
    have hend : s.base + total pre + b.size + total right =
        s.base + total pre' + (fused left b right).size := by
      rw [← hmid, hleft]
      simp only [total_append, total_cons]
      omega
    have hrest₃ : l₃.Perm (freeAddrs s.base pre' ++
        freeAddrs (s.base + total pre' + (fused left b right).size) post') := by
      have hall := hperm₃.symm.trans hrest₂
      rw [← List.singleton_append, List.append_assoc, hend] at hall
      exact perm_cancel hall
    have hbound : s.base + total pre' + (fused left b right).size + 8 ≤ 2 ^ 63 := by
      have hcov := h.covers
      have hbrk := h.region.brk
      have hmax := h.region.bound
      rw [hlist] at hcov
      simp only [total_append, hmid] at hcov
      omega
    rw [show total left + b.size + total right = (fused left b right).size from rfl,
      rebuild_eq _ (fused left b right).aligned (fused left b right).large hbound]
    exact close_released (hlist ▸ h) (merged_free hb hp hn) (by simp) hmid rfl htrim₃ hrest₃

end OperatingSystems.Malloc
