import OperatingSystems.Malloc.WellFormed

namespace OperatingSystems.Malloc
open ByteMemory TaggedWord DoublyLinked

-- the search ended at `found`, and the new block starts at the second address
inductive Granted (a need : Nat) : Nat → List Block → Nat → List Block → Prop
  | whole {pre post : List Block} {b : Block} (free : b.alloc = false) (fits : need ≤ b.size) :
      Granted a need (a + total pre) (pre ++ b :: post) (a + total pre)
        (pre ++ b.withAlloc true :: post)
  | split {pre post : List Block} {b rest new : Block} (free : b.alloc = false)
      (restFree : rest.alloc = false) (newAlloc : new.alloc = true) (exact : new.size = need)
      (parts : rest.size + new.size = b.size) :
      Granted a need (a + total pre) (pre ++ b :: post) (a + total pre + rest.size)
        (pre ++ rest :: new :: post)
  | grow {bs : List Block} {new : Block} (newAlloc : new.alloc = true) (exact : new.size = need)
      (nofit : ∀ y b, (y, b) ∈ placed a bs → b.alloc = false → b.size < need) :
      Granted a need 0 bs (a + total bs) (bs ++ [new])

theorem granted_placed {a need found x : Nat} {bs bs' : List Block}
    (h : Granted a need found bs x bs') :
    ∃ b, (x, b) ∈ placed a bs' ∧ b.alloc = true ∧ need ≤ b.size := by
  cases h with
  | @whole pre post b free fits =>
    exact ⟨b.withAlloc true, by simp, rfl, fits⟩
  | @split pre post b rest new free restFree newAlloc exact parts =>
    exact ⟨new, by simp, newAlloc, exact.ge⟩
  | @grow bs new newAlloc exact nofit => exact ⟨new, by simp, newAlloc, exact.ge⟩

theorem granted_keeps {a need found x y : Nat} {c : Block} {bs bs' : List Block}
    (h : Granted a need found bs x bs') (hy : (y, c) ∈ placed a bs) (hc : c.alloc = true) :
    (y, c) ∈ placed a bs' ∧ y ≠ x := by
  have hl := c.large
  cases h with
  | @whole pre post b free fits =>
    simp only [placed_append, placed_cons, List.mem_append, List.mem_cons, Prod.mk.injEq] at hy ⊢
    have hb := b.large
    rcases hy with hy | ⟨rfl, rfl⟩ | hy
    · have := placed_bounds hy
      exact ⟨.inl hy, by omega⟩
    · simp [free] at hc
    · have := placed_bounds hy
      exact ⟨.inr (.inr hy), by omega⟩
  | @split pre post b rest new free restFree newAlloc exact parts =>
    simp only [placed_append, placed_cons, List.mem_append, List.mem_cons, Prod.mk.injEq] at hy ⊢
    have hn := new.large
    rw [Nat.add_assoc _ rest.size, parts]
    rcases hy with hy | ⟨rfl, rfl⟩ | hy
    · have := placed_bounds hy
      exact ⟨.inl hy, by omega⟩
    · simp [free] at hc
    · have := placed_bounds hy
      exact ⟨.inr (.inr (.inr hy)), by omega⟩
  | @grow bs new newAlloc exact nofit =>
    have := placed_bounds hy
    exact ⟨by simp [hy], by omega⟩

theorem granted_only {a need found x y : Nat} {c : Block} {bs bs' : List Block}
    (h : Granted a need found bs x bs') (hy : (y, c) ∈ placed a bs') (hc : c.alloc = true) :
    (y, c) ∈ placed a bs ∨ y = x := by
  cases h with
  | @whole pre post b free fits =>
    simp only [placed_append, placed_cons, List.mem_append, List.mem_cons, Prod.mk.injEq] at hy ⊢
    rcases hy with hy | ⟨rfl, -⟩ | hy
    · exact .inl (.inl hy)
    · exact .inr rfl
    · exact .inl (.inr (.inr hy))
  | @split pre post b rest new free restFree newAlloc exact parts =>
    simp only [placed_append, placed_cons, List.mem_append, List.mem_cons, Prod.mk.injEq] at hy ⊢
    rw [Nat.add_assoc _ rest.size, parts] at hy
    rcases hy with hy | ⟨rfl, rfl⟩ | ⟨rfl, -⟩ | hy
    · exact .inl (.inl hy)
    · simp [restFree] at hc
    · exact .inr rfl
    · exact .inl (.inr (.inr hy))
  | @grow bs new newAlloc exact nofit =>
    simp only [placed_append, placed_cons, placed_nil, List.mem_append, List.mem_cons,
      Prod.mk.injEq, List.not_mem_nil, or_false] at hy
    rcases hy with hy | ⟨rfl, -⟩
    · exact .inl hy
    · exact .inr rfl

theorem searchFrom_spec {s : Heap} {size u fuel : Nat} {l : List Nat}
    (h : Linked 0 s.succOf s.prevNode (u :: (l ++ [0]))) (hl : 0 ∉ l) (hf : l.length < fuel) :
    ∃ r, s.searchFrom size fuel (s.succOf u) = some r ∧
      ((r = 0 ∧ ∀ y ∈ l, s.blockSize y < size) ∨ (r ∈ l ∧ size ≤ s.blockSize r)) := by
  induction l generalizing u fuel with
  | nil =>
    obtain ⟨fuel, rfl⟩ := Nat.exists_eq_succ_of_ne_zero (by omega : fuel ≠ 0)
    obtain ⟨⟨hu, -⟩, -⟩ := linked_cons_cons.mp h
    exact ⟨0, by simp [Heap.searchFrom, hu], .inl ⟨rfl, by simp⟩⟩
  | cons x l ih =>
    obtain ⟨fuel, rfl⟩ := Nat.exists_eq_succ_of_ne_zero (by omega : fuel ≠ 0)
    simp only [List.mem_cons, not_or] at hl
    have hx : x ≠ 0 := fun e => hl.1 e.symm
    obtain ⟨⟨hu, -⟩, hrest⟩ := linked_cons_cons.mp h
    have hn : s.nextNode x = s.succOf x := by simp [Heap.succOf, hx]
    simp only [List.length_cons, Nat.succ_eq_add_one, Nat.add_lt_add_iff_right] at hf
    simp only [Heap.searchFrom, hu, hx, if_false, hn]
    by_cases hfit : size ≤ s.blockSize x
    · exact ⟨x, if_pos hfit, .inr ⟨by simp, hfit⟩⟩
    · obtain ⟨r, hr, hcase⟩ := ih hrest hl.2 hf
      refine ⟨r, by rw [if_neg hfit, hr], ?_⟩
      rcases hcase with ⟨h0, hall⟩ | ⟨hm, hle⟩
      · exact .inl ⟨h0, by simpa using ⟨not_le.mp hfit, hall⟩⟩
      · exact .inr ⟨by simp [hm], hle⟩

theorem search_spec {s : Heap} {bs : List Block} {fl : List Nat} (h : WellFormed s bs fl)
    (size : Nat) : ∃ r, s.search size = some r ∧
      ((r = 0 ∧ ∀ y b, (y, b) ∈ placed s.base bs → b.alloc = false → b.size < size) ∨
        ∃ b, (r, b) ∈ placed s.base bs ∧ b.alloc = false ∧ size ≤ b.size) := by
  have hlen := length_freeAddrs s.base bs
  have hcov := h.covers
  rw [← h.exact.length_eq] at hlen
  unfold Heap.base at hcov
  have hbrk := h.region.brk
  have hbound := h.region.bound
  have hfuel : fl.length < 2 ^ 64 := by omega
  obtain ⟨r, hr, hcase⟩ := @searchFrom_spec s size _ _ _ h.list.linked h.list.zero_notMem hfuel
  refine ⟨r, hr, ?_⟩
  rcases hcase with ⟨h0, hall⟩ | ⟨hm, hle⟩
  · refine .inl ⟨h0, fun y b hy hb => ?_⟩
    rw [← h.blockSize_at hy]
    exact hall y (h.mem_list.mpr ⟨b, hy, hb⟩)
  · obtain ⟨b, hb, hf⟩ := h.mem_list.mp hm
    exact .inr ⟨b, hb, hf, by rwa [h.blockSize_at hb] at hle⟩

theorem requiredBlockSize_aligned (size : Nat) :
    requiredBlockSize size % 16 = 0 ∧ 32 ≤ requiredBlockSize size ∧
      requiredBlockSize size < 2 ^ 64 := by
  unfold requiredBlockSize align wrap
  dsimp only
  split <;> omega

theorem requiredBlockSize_spec {size : Nat} (h : size + 23 < 2 ^ 64) :
    requiredBlockSize size % 16 = 0 ∧ 32 ≤ requiredBlockSize size ∧
      size + 8 ≤ requiredBlockSize size ∧ requiredBlockSize size < 2 ^ 64 := by
  unfold requiredBlockSize align wrap
  dsimp only
  split <;> omega

theorem takeWhole_spec {s : Heap} {pre post : List Block} {b : Block} {fl : List Nat}
    (h : WellFormed s (pre ++ b :: post) fl) (hb : b.alloc = false) :
    ∃ s' fl', s.takeWhole (s.base + total pre) b.size = (s.base + total pre + 8, s') ∧
      WellFormed s' (pre ++ b.withAlloc true :: post) fl' ∧ Kept s s' (pre ++ b :: post) := by
  obtain ⟨-, hhead, -, hpost⟩ := h.split
  have hmem : (s.base + total pre, b) ∈ placed s.base (pre ++ b :: post) := by simp
  obtain ⟨hlo, hhi, hbrk, hx8⟩ := h.bounds hmem
  have hlarge := b.large
  have hcov := h.covers
  simp only [total_append, total_cons] at hcov
  set x := s.base + total pre with hx
  set p := lastAlloc true pre with hp
  have hfl : x ∈ fl := h.mem_list.mpr ⟨b, hmem, hb⟩
  obtain ⟨l₁, l₂, rfl⟩ := List.mem_iff_append.mp hfl
  have hbits := header_tags b p (by omega)
  have hs₁ : s.setAllocated x b.size = s.store x ((b.withAlloc true).header p) := by
    rw [Heap.setAllocated_eq (p := p) (by rw [hhead, hbits.1]) b.size_mod_four (by omega)]
    rfl
  have hword : s.load (x + b.size) = headWord false post := by rw [← hb]; exact tiled_head hpost
  obtain ⟨hxor, -, -⟩ := headWord_tags false post (by omega)
  have hw64 := (headWord_tags true post (by omega)).2.2
  set s₁ := s.store x ((b.withAlloc true).header p) with hs₁_def
  set s₂ := s₁.store (x + b.size) (headWord true post) with hs₂_def
  have hs₂ : s₁.togglePrev (offset x (b.size / 8 : Nat)) = s₂ := by
    rw [offset_size b.aligned (by omega), Heap.togglePrev, hs₁_def,
      Heap.load_store_ne (by omega), hword, hxor]
    rfl
  have hkeep₂ : ∀ y, (y < x ∨ x + 8 ≤ y) → (y < x + b.size ∨ x + b.size + 8 ≤ y) →
      s₂.mem y = s.mem y := by
    intro y h1 h2
    rw [hs₂_def, Heap.mem_store_outside h2, hs₁_def, Heap.mem_store_outside h1]
  have hslack : ∀ y, Slack s.base (pre ++ b :: post) y → s₂.mem y = s.mem y := by
    intro y hy
    obtain ⟨h1, h2⟩ := slack_off_header hy
    exact hkeep₂ y h1 h2
  have hbs : (b.withAlloc true).size = b.size := rfl
  have htiled : Tiled s₂.mem s.base true (pre ++ b.withAlloc true :: post) := by
    refine tiled_replace h.tiled hbs (fun y h1 h2 => hkeep₂ y h1 (by omega)) ?_ ?_ ?_
    · show s₂.load x = _
      rw [hs₂_def, Heap.load_store_ne (by omega), hs₁_def,
        Heap.load_store_same (header_lt _ p (by omega))]
    · intro hc
      cases hc
    · exact Heap.load_store_same hw64
  have hlist : FreeList s₂ (l₁ ++ x :: l₂) :=
    h.list.frame rfl fun y hy => hslack y (h.slack_of_links hy)
  have hrem := removeFromFreeList_spec hlist
  have hexact : (l₁ ++ l₂).Perm (freeAddrs s.base (pre ++ b.withAlloc true :: post)) := by
    have hperm := h.exact
    simp only [freeAddrs_append, freeAddrs_cons, hb, Bool.false_eq_true, if_false] at hperm
    simp only [freeAddrs_append, freeAddrs_cons, Block.withAlloc, if_true, List.nil_append]
    exact (List.perm_middle.symm.trans (hperm.trans List.perm_middle)).cons_inv
  have hreg : s.SameRegion (s₂.removeFromFreeList x) :=
    @Heap.SameRegion.trans s s₂ _ ⟨rfl, rfl, rfl⟩ hrem.region
  have hbase := hreg.base
  refine ⟨s₂.removeFromFreeList x, l₁ ++ l₂, ?_,
    ⟨h.region.same hreg, ?_, ?_, hrem.list, ?_⟩, ⟨hreg.heap, hreg.memMaxAddr, ?_⟩⟩
  · rw [Heap.takeWhole, hs₁, hs₂, show offset x 1 = x + 8 from offset_eq (k := 1) (by omega)]
  · rw [hbase, hreg.memBrk]
    simp only [total_append, total_cons, Block.withAlloc]
    exact hcov
  · rw [hbase]
    exact htiled.relink hexact.subset hrem
  · rw [hbase]
    exact hexact
  · intro y hy
    have hsub : l₁ ++ l₂ ⊆ freeAddrs s.base (pre ++ b :: post) := by
      intro z hz
      refine h.subset ?_
      rcases List.mem_append.mp hz with hz | hz <;> simp [hz]
    rw [hrem.mem y (not_inLinks_of_payload hsub hy), hslack y (slack_of_payload hy)]

theorem takeSplit_spec {s : Heap} {pre post : List Block} {b rest new : Block} {fl : List Nat}
    (h : WellFormed s (pre ++ b :: post) fl) (hb : b.alloc = false) (hrest : rest.alloc = false)
    (hnew : new.alloc = true) (hparts : rest.size + new.size = b.size) (hbig : 48 ≤ rest.size) :
    ∃ s', s.takeSplit (s.base + total pre) b.size new.size =
        (s.base + total pre + rest.size + 8, s') ∧
      WellFormed s' (pre ++ rest :: new :: post) fl ∧ Kept s s' (pre ++ b :: post) := by
  obtain ⟨htags, hhead, hfoot, hpost⟩ := h.split
  have hmem : (s.base + total pre, b) ∈ placed s.base (pre ++ b :: post) := by simp
  obtain ⟨hlo, hhi, hbrk, hx8⟩ := h.bounds hmem
  have hcov := h.covers
  have hnl := new.large
  simp only [total_append, total_cons] at hcov
  set x := s.base + total pre with hx
  set p := lastAlloc true pre with hp
  have hextra : b.size - new.size = rest.size := by omega
  have hs₁ : s.setFree x rest.size = s.store x (rest.header p) := by
    rw [Heap.setFree_eq (p := p) (by rw [hhead, (header_tags b p (by omega)).1])
      rest.size_mod_four (by omega), Block.header, hrest]
    rfl
  have hhead64 := header_lt rest p (by omega)
  have hnew1 : new.size ||| 1 = new.header false := by
    rw [show new.size ||| 1 = new.size + 1 from or_tag (t := 0) new.size_mod_four (by decide) 1
      (by decide), Block.header, hnew]
    rfl
  have hnew64 := header_lt new false (by omega)
  have hword : s.load (x + b.size) = headWord false post := by rw [← hb]; exact tiled_head hpost
  obtain ⟨hxor, -, -⟩ := headWord_tags false post (by omega)
  have hw64 := (headWord_tags true post (by omega)).2.2
  set s₁ := s.store x (rest.header p) with hs₁_def
  set s₂ := s₁.store (x + rest.size - 8) rest.size with hs₂_def
  set s₃ := s₂.store (x + rest.size) (new.header false) with hs₃_def
  set s₄ := s₃.store (x + b.size) (headWord true post) with hs₄_def
  have hs₄ : s₃.togglePrev (offset x (b.size / 8 : Nat)) = s₄ := by
    rw [offset_size b.aligned (by omega), Heap.togglePrev, hs₃_def,
      Heap.load_store_ne (by omega), hs₂_def, Heap.load_store_ne (by omega), hs₁_def,
      Heap.load_store_ne (by omega), hword, hxor]
    rfl
  have hkeep : ∀ y, (y < x ∨ x + 8 ≤ y) → (y < x + rest.size - 8 ∨ x + rest.size + 8 ≤ y) →
      (y < x + b.size ∨ x + b.size + 8 ≤ y) → s₄.mem y = s.mem y := by
    intro y h1 h2 h3
    rw [hs₄_def, Heap.mem_store_outside h3, hs₃_def, Heap.mem_store_outside (by omega), hs₂_def,
      Heap.mem_store_outside (by omega), hs₁_def, Heap.mem_store_outside h1]
  have houter : ∀ y, Slack s.base (pre ++ b :: post) y →
      (y < x + 24 ∨ x + b.size ≤ y) → s₄.mem y = s.mem y := by
    intro y hy hin
    obtain ⟨h1, h2⟩ := slack_off_header hy
    exact hkeep y h1 (by omega) h2
  have htiled : Tiled s₄.mem s.base true (pre ++ rest :: new :: post) := by
    refine tiled_append.mpr ⟨tags_frame htags ?_, tiled_cons.mpr ⟨?_, ?_, tiled_cons.mpr ⟨?_, ?_, ?_⟩⟩⟩
    · intro y _ hy _
      exact hkeep y (by omega) (by omega) (by omega)
    · show s₄.load x = _
      rw [hs₄_def, Heap.load_store_ne (by omega), hs₃_def, Heap.load_store_ne (by omega), hs₂_def,
        Heap.load_store_ne (by omega), hs₁_def, Heap.load_store_same hhead64]
    · intro _
      show s₄.load (x + rest.size - 8) = _
      rw [hs₄_def, Heap.load_store_ne (by omega), hs₃_def, Heap.load_store_ne (by omega), hs₂_def,
        Heap.load_store_same (by omega)]
    · show s₄.load (x + rest.size) = _
      rw [hs₄_def, Heap.load_store_ne (by omega), hs₃_def, Heap.load_store_same hnew64, hrest]
    · intro hc
      rw [hnew] at hc
      cases hc
    · rw [hnew, Nat.add_assoc (s.base + total pre), hparts]
      refine tiled_setPrev hpost ?_ ?_
      · exact Heap.load_store_same hw64
      · intro y h1 _ _
        exact hkeep y (by omega) (by omega) (by omega)
  have hexact : fl.Perm (freeAddrs s.base (pre ++ rest :: new :: post)) := by
    have hperm := h.exact
    simp only [freeAddrs_append, freeAddrs_cons, hb, hrest, hnew, Bool.false_eq_true, if_false,
      if_true, List.nil_append] at hperm ⊢
    rwa [Nat.add_assoc _ rest.size, hparts]
  have hlinks : ∀ y, InLinks fl y → y < x + 24 ∨ x + b.size ≤ y := by
    rintro y ⟨z, hz, h1, h2⟩
    obtain ⟨c, hc, -⟩ := h.mem_list.mp hz
    have := c.large
    rcases placed_apart hmem hc with ⟨h, -⟩ | h | h <;> omega
  have hlist : FreeList s₄ fl :=
    h.list.frame rfl fun y hy => houter y (h.slack_of_links hy) (hlinks y hy)
  refine ⟨s₄, ?_, ⟨h.region.same ⟨rfl, rfl, rfl⟩, ?_, htiled, hlist, hexact⟩, ⟨rfl, rfl, ?_⟩⟩
  · rw [Heap.takeSplit, hextra]
    simp only [hs₁]
    rw [offset_footer rest.aligned (by omega) (by omega), offset_size rest.aligned (by omega), hnew1,
      ← hs₂_def, ← hs₃_def, hs₄, show offset (x + rest.size) 1 = x + rest.size + 8 from
        offset_eq (k := 1) (by omega)]
  · simp only [total_append, total_cons]
    show s.base + _ + 8 = s.memBrk
    omega
  · rintro y ⟨z, c, hz, hc, h1, h2⟩
    refine houter y (slack_of_payload ⟨z, c, hz, hc, h1, h2⟩) ?_
    rcases placed_apart hmem hz with ⟨-, rfl⟩ | h | h
    · simp [hb] at hc
    · omega
    · omega

theorem extend_spec {s : Heap} {bs : List Block} {fl : List Nat} {new : Block}
    (h : WellFormed s bs fl) (hnew : new.alloc = true) (hroom : s.memBrk + new.size ≤ s.memMaxAddr) :
    ∃ s', s.extend new.size = (s.base + total bs + 8, s') ∧
      WellFormed s' (bs ++ [new]) fl ∧ Kept s s' bs := by
  have hcov := h.covers
  have hbrk := h.region.brk
  have hbound := h.region.bound
  have hpos := h.region.positive
  have hnl := new.large
  have hbase : s.base = s.heap + 8 := rfl
  set x := s.base + total bs with hx
  set p := lastAlloc true bs with hp
  have hhead : s.load x = 2 * p.toNat + 1 := h.tiled.2
  set s₁ : Heap := { s with memBrk := s.memBrk + new.size } with hs₁_def
  have hsbrk : s.mmSbrk new.size = (s.memBrk, s₁) := by
    rw [Heap.mmSbrk, if_neg (by omega), if_neg (by omega)]
  have hnotFailed : s.memBrk ≠ sbrkFailed := by
    unfold sbrkFailed
    omega
  have hhead64 := header_lt new p (by omega)
  set s₂ := s₁.store x (new.header p) with hs₂_def
  set s₃ := s₂.store (x + new.size) 3 with hs₃_def
  have hs₂ : s₁.setAllocated (s.memBrk - 8) new.size = s₂ := by
    have hbit : s₁.load x &&& 2 = 2 * p.toNat := by
      show s.load x &&& 2 = _
      rw [hhead]
      cases p <;> rfl
    rw [show s.memBrk - 8 = x by omega, Heap.setAllocated_eq hbit new.size_mod_four (by omega),
      hs₂_def, Block.header, hnew]
    rfl
  have hkeep : ∀ y, y < x ∨ (x + 8 ≤ y ∧ y < x + new.size) → s₃.mem y = s.mem y := by
    intro y hy
    rw [hs₃_def, Heap.mem_store_outside (by omega), hs₂_def, Heap.mem_store_outside (by omega)]
  have htiled : Tiled s₃.mem s.base true (bs ++ [new]) := by
    refine tiled_append.mpr ⟨tags_frame h.tiled.1 ?_, tiled_cons.mpr ⟨?_, ?_, tiled_nil.mpr ?_⟩⟩
    · intro y _ hy _
      exact hkeep y (.inl hy)
    · show s₃.load x = _
      rw [hs₃_def, Heap.load_store_ne (by omega), hs₂_def, Heap.load_store_same hhead64]
    · intro hc
      rw [hnew] at hc
      cases hc
    · show s₃.load (x + new.size) = _
      rw [hs₃_def, Heap.load_store_same (by decide), hnew]
      rfl
  have hslack : ∀ y, Slack s.base bs y → s₃.mem y = s.mem y := by
    intro y hy
    have := slack_bounds hy
    exact hkeep y (.inl (by omega))
  have hlist : FreeList s₃ fl := h.list.frame rfl fun y hy => hslack y (h.slack_of_links hy)
  refine ⟨s₃, ?_, ⟨⟨h.region.aligned, hpos, hroom, hbound⟩, ?_, htiled, hlist, ?_⟩, ⟨rfl, rfl, ?_⟩⟩
  · rw [Heap.extend, hsbrk]
    simp only [hnotFailed, if_false, hs₂]
    have hend : offset (s₁.mmHeapHi + 1) (-1) = x + new.size := by
      show offset (s.memBrk + new.size - 1 + 1) (-1) = _
      unfold offset
      omega
    rw [hend, ← hs₃_def, show s.memBrk = x + 8 by omega]
  · show s.base + total (bs ++ [new]) + 8 = s.memBrk + new.size
    simp only [total_append, total_cons, total_nil]
    omega
  · show fl.Perm (freeAddrs s.base (bs ++ [new]))
    simpa [freeAddrs_append, freeAddrs_cons, hnew] using h.exact
  · intro y hy
    exact hslack y (slack_of_payload hy)

structure Exhausted (s : Heap) (bs : List Block) (need : Nat) : Prop where
  nofit : ∀ y b, (y, b) ∈ placed s.base bs → b.alloc = false → b.size < need
  refused : s.memMaxAddr < s.memBrk + need

theorem mmSbrk_refused {s : Heap} {need : Nat} (h : s.memMaxAddr < s.memBrk + need) :
    s.mmSbrk need = (sbrkFailed, s) := by
  rw [Heap.mmSbrk, if_pos h, ite_self]

theorem malloc_spec {s : Heap} {bs : List Block} {fl : List Nat} {size : Nat}
    (h : WellFormed s bs fl) (hpos : 0 < size) :
    (s.malloc size = some (0, s) ∧ Exhausted s bs (requiredBlockSize size)) ∨
    ∃ found x s' bs' fl', s.malloc size = some (x + 8, s') ∧
      s.search (requiredBlockSize size) = some found ∧
      Granted s.base (requiredBlockSize size) found bs x bs' ∧ WellFormed s' bs' fl' ∧
      Kept s s' bs := by
  obtain ⟨hmod, hlarge, h64⟩ := requiredBlockSize_aligned size
  obtain ⟨r, hr, hcase⟩ := search_spec h (requiredBlockSize size)
  set need := requiredBlockSize size with hneed_def
  have hbrk := h.region.brk
  have hbound := h.region.bound
  have hcov := h.covers
  unfold Heap.malloc
  rw [if_neg (by omega)]
  dsimp only
  rw [← hneed_def, hr, Option.map_some]
  let new : Block := ⟨need, true, hmod, hlarge⟩
  rcases hcase with ⟨rfl, hnofit⟩ | ⟨b, hb, hfree, hfit⟩
  · by_cases hroom : s.memBrk + need ≤ s.memMaxAddr
    · obtain ⟨s', hext, hwf, hkept⟩ := @extend_spec _ _ _ new h rfl hroom
      exact .inr ⟨_, _, s', _, fl, by simpa using hext, rfl, .grow rfl rfl hnofit, hwf, hkept⟩
    · refine .inl ⟨?_, ⟨hnofit, by omega⟩⟩
      have hfail : s.mmSbrk need = (sbrkFailed, s) := mmSbrk_refused (by omega)
      simp [Heap.extend, hfail]
  · obtain ⟨pre, post, rfl, rfl⟩ := placed_split hb
    have hx := h.bounds hb
    have hx0 : s.base + total pre ≠ 0 := by omega
    have hba := b.aligned
    have hbsize := h.blockSize_at hb
    rw [if_pos hx0, hbsize]
    by_cases hwhole : b.size - need ≤ 32 ∨ b.size = need
    · obtain ⟨s', fl', htake, hwf, hkept⟩ := takeWhole_spec h hfree
      exact .inr ⟨_, _, s', _, fl', by rw [if_pos hwhole, htake], rfl, .whole hfree hfit, hwf, hkept⟩
    · let rest : Block := ⟨b.size - need, false, by omega, by omega⟩
      have hparts : rest.size + new.size = b.size := by
        show b.size - need + need = b.size
        omega
      obtain ⟨s', htake, hwf, hkept⟩ := @takeSplit_spec _ _ _ _ rest new _ h hfree rfl rfl
        hparts (by show 48 ≤ b.size - need; omega)
      exact .inr ⟨_, _, s', _, fl, by rw [if_neg hwhole]; exact congrArg some htake, rfl,
        .split hfree rfl rfl rfl hparts, hwf, hkept⟩

end OperatingSystems.Malloc
