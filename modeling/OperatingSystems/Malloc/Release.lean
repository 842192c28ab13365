import OperatingSystems.Malloc.Allocate

namespace OperatingSystems.Malloc
open ByteMemory TaggedWord DoublyLinked

inductive MergesPrev : List Block → List Block → List Block → Prop
  | alone {pre : List Block} (allocated : lastAlloc true pre = true) : MergesPrev pre pre []
  | absorb {pre : List Block} {c : Block} (free : c.alloc = false) : MergesPrev (pre ++ [c]) pre [c]

inductive MergesNext (near : Prop) : List Block → List Block → List Block → Prop
  | alone {post : List Block} (kept : ∀ d ∈ post.head?, d.alloc = false → ¬ near) :
      MergesNext near post post []
  | absorb {d : Block} {post : List Block} (free : d.alloc = false) (inside : near) :
      MergesNext near (d :: post) post [d]

def fused (left : List Block) (b : Block) (right : List Block) : Block where
  size := total left + b.size + total right
  alloc := false
  aligned := by
    have := total_mod left
    have := total_mod right
    have := b.aligned
    omega
  large := by
    have := b.large
    omega

theorem mergesPrev_eq {pre pre' left : List Block} (h : MergesPrev pre pre' left) :
    pre = pre' ++ left := by
  cases h <;> simp

theorem mergesNext_eq {near : Prop} {post post' right : List Block}
    (h : MergesNext near post post' right) : post = right ++ post' := by
  cases h <;> simp

theorem mergesPrev_exists (pre : List Block) : ∃ pre' left, MergesPrev pre pre' left := by
  cases hp : lastAlloc true pre with
  | true => exact ⟨_, _, .alone hp⟩
  | false =>
    rcases List.eq_nil_or_concat pre with rfl | ⟨pre, c, rfl⟩
    · simp at hp
    · rw [List.concat_eq_append] at hp ⊢
      exact ⟨_, _, .absorb (by simpa using hp)⟩

theorem mergesNext_exists (near : Prop) (post : List Block) :
    ∃ post' right, MergesNext near post post' right := by
  cases post with
  | nil => exact ⟨_, _, .alone (by simp)⟩
  | cons d post =>
    by_cases h : d.alloc = false ∧ near
    · exact ⟨_, _, .absorb h.1 h.2⟩
    · exact ⟨_, _, .alone (by simpa using fun hd hn => h ⟨hd, hn⟩)⟩

theorem unlink_spec {s : Heap} {fl : List Nat} {x : Nat} (h : FreeList s fl) (hx : x ∈ fl) :
    ∃ l, fl.Perm (x :: l) ∧ Relinked s (s.removeFromFreeList x) l := by
  obtain ⟨l₁, l₂, rfl⟩ := List.mem_iff_append.mp hx
  exact ⟨l₁ ++ l₂, List.perm_middle, removeFromFreeList_spec h⟩

theorem markFree_spec {s : Heap} {pre post : List Block} {b : Block} {fl : List Nat}
    (h : WellFormed s (pre ++ b :: post) fl) (hb : b.alloc = true) :
    WellFormed ((s.markFree (s.base + total pre)).addToFreeList (s.base + total pre))
        (pre ++ b.withAlloc false :: post) ((s.base + total pre) :: fl) ∧
      Kept s ((s.markFree (s.base + total pre)).addToFreeList (s.base + total pre))
        (pre ++ b.withAlloc false :: post) := by
  obtain ⟨-, hhead, -, hpost⟩ := h.split
  have hmem : (s.base + total pre, b) ∈ placed s.base (pre ++ b :: post) := by simp
  obtain ⟨hlo, hhi, hbrk, hx8⟩ := h.bounds hmem
  have hlarge := b.large
  have hcov := h.covers
  simp only [total_append, total_cons] at hcov
  have hbs : (b.withAlloc false).size = b.size := rfl
  have hnot : s.base + total pre ∉ fl := by
    intro hx
    have hapart := h.list_apart hmem hb hx
    omega
  have hApart : Apart ((s.base + total pre) :: fl) := by
    refine h.apart.subset ?_
    intro y hy
    rcases List.mem_cons.mp hy with rfl | hy
    · exact List.mem_map.mpr ⟨_, hmem, rfl⟩
    · exact freeAddrs_subset _ _ (h.subset hy)
  set x := s.base + total pre with hx
  set p := lastAlloc true pre with hp
  have hbits := header_tags b p (by omega)
  have hfree64 := header_lt (b.withAlloc false) p (by omega)
  have hword : s.load (x + b.size) = headWord true post := by rw [← hb]; exact tiled_head hpost
  obtain ⟨-, hclear, -⟩ := headWord_tags true post (by omega)
  have hw64 := (headWord_tags false post (by omega)).2.2
  set s₁ := s.store x ((b.withAlloc false).header p) with hs₁_def
  set s₂ := s₁.store (x + b.size - 8) b.size with hs₂_def
  set s₃ := s₂.store (x + b.size) (headWord false post) with hs₃_def
  have hsize : s₁.blockSize x = b.size := by
    rw [Heap.blockSize, Heap.sizeNode, hs₁_def, Heap.load_store_same hfree64,
      (header_tags (b.withAlloc false) p (by omega)).2.2.1, hbs]
  have hmark : s.markFree x = s₃ := by
    unfold Heap.markFree
    rw [Heap.setSizeNode, Heap.sizeNode, hhead, hbits.2.2.2, ← hs₁_def]
    simp only [hsize]
    rw [offset_footer b.aligned (by omega) (by omega), offset_size b.aligned (by omega), ← hs₂_def,
      hs₂_def, Heap.load_store_ne (by omega), hs₁_def, Heap.load_store_ne (by omega), hword, hclear]
  have hkeep : ∀ y, (y < x ∨ x + 8 ≤ y) → (y < x + b.size - 8 ∨ x + b.size + 8 ≤ y) →
      s₃.mem y = s.mem y := by
    intro y h1 h2
    rw [hs₃_def, Heap.mem_store_outside (by omega), hs₂_def, Heap.mem_store_outside (by omega),
      hs₁_def, Heap.mem_store_outside h1]
  have htiled : Tiled s₃.mem s.base true (pre ++ b.withAlloc false :: post) := by
    refine tiled_replace h.tiled hbs hkeep ?_ ?_ ?_
    · show s₃.load x = _
      rw [hs₃_def, Heap.load_store_ne (by omega), hs₂_def, Heap.load_store_ne (by omega), hs₁_def,
        Heap.load_store_same hfree64]
    · intro _
      show s₃.load (x + b.size - 8) = _
      rw [hs₃_def, Heap.load_store_ne (by omega), hs₂_def, Heap.load_store_same (by omega), hbs]
    · exact Heap.load_store_same hw64
  have houter : ∀ y, (y < x ∨ x + b.size ≤ y) → Slack s.base (pre ++ b :: post) y →
      s₃.mem y = s.mem y := by
    intro y hy hs
    obtain ⟨h1, h2⟩ := slack_off_header hs
    exact hkeep y h1 (by omega)
  have hlist : FreeList s₃ fl := by
    refine h.list.frame rfl ?_
    rintro y ⟨z, hz, h1, h2⟩
    have hapart := h.list_apart hmem hb hz
    exact houter y (by omega) (h.slack_of_links ⟨z, hz, h1, h2⟩)
  have hadd := addToFreeList_spec hlist hApart hnot
  rw [hmark]
  have hreg : s.SameRegion (s₃.addToFreeList x) :=
    @Heap.SameRegion.trans s s₃ _ ⟨rfl, rfl, rfl⟩ hadd.region
  have hbase := hreg.base
  have hexact : (x :: fl).Perm (freeAddrs s.base (pre ++ b.withAlloc false :: post)) := by
    have hperm := h.exact
    simp only [freeAddrs_append, freeAddrs_cons, hb, if_true, List.nil_append] at hperm
    simp only [freeAddrs_append, freeAddrs_cons, Block.withAlloc, Bool.false_eq_true, if_false,
      List.singleton_append]
    exact (hperm.cons x).trans List.perm_middle.symm
  refine ⟨⟨h.region.same hreg, ?_, ?_, hadd.list, ?_⟩, ⟨hreg.heap, hreg.memMaxAddr, ?_⟩⟩
  · rw [hbase, hreg.memBrk]
    simp only [total_append, total_cons, hbs]
    exact hcov
  · rw [hbase]
    exact htiled.relink hexact.subset hadd
  · rw [hbase]
    exact hexact
  · intro y hy
    rw [hadd.mem y (not_inLinks_of_payload hexact.subset hy)]
    obtain ⟨hold, houtside⟩ :=
      payload_outside (show (b.withAlloc false).alloc = false from rfl)
        (show total [b] = (b.withAlloc false).size from Nat.add_zero _) hy
    rw [List.append_assoc, List.singleton_append] at hold
    exact houter y houtside (slack_of_payload hold)

structure Closed (s s' : Heap) (pre post : List Block) (y size : Nat) (l : List Nat) : Prop where
  before : Tags s'.mem s.base true pre
  header : s'.load y = size + 2
  footer : s'.load (y + size - 8) = size
  after : Tiled s'.mem (y + size) false post
  list : FreeList s' (y :: l)
  region : s.SameRegion s'
  mem : ∀ z, (z < y ∨ y + size ≤ z) → ¬ InLinks l z → s'.mem z = s.mem z

theorem close_spec {s : Heap} {pre mid post : List Block} {l : List Nat} (hreg : Region s)
    (hcov : s.base + total (pre ++ mid ++ post) + 8 = s.memBrk)
    (htiled : Tiled s.mem s.base true (pre ++ mid ++ post))
    (hfree : lastAlloc (lastAlloc true pre) mid = false) (hlarge : 32 ≤ total mid)
    (hlist : FreeList s l)
    (hl : l ⊆ freeAddrs s.base pre ++ freeAddrs (s.base + total pre + total mid) post) :
    Closed s (((s.store (s.base + total pre) (total mid + 2)).store
        (s.base + total pre + total mid - 8) (total mid)).addToFreeList (s.base + total pre))
      pre post (s.base + total pre) (total mid) l := by
  have hbrk := hreg.brk
  have hbound := hreg.bound
  have hpos := hreg.positive
  have hbase : s.base = s.heap + 8 := rfl
  have hmod := total_mod mid
  simp only [total_append] at hcov
  rw [List.append_assoc, tiled_append, tiled_append, hfree] at htiled
  obtain ⟨htags, -, hpost⟩ := htiled
  set y := s.base + total pre with hy
  set size := total mid with hsize
  have hwhere : ∀ z ∈ l, (s.base ≤ z ∧ z + 32 ≤ y) ∨ y + size ≤ z ∧ z + 32 ≤ 2 ^ 63 := by
    intro z hz
    rcases List.mem_append.mp (hl hz) with hz | hz
    · have hbounds := freeAddrs_bounds hz
      omega
    · have hbounds := freeAddrs_bounds hz
      omega
  have hnot : y ∉ l := fun hm => by have := hwhere y hm; omega
  have hApart : Apart (y :: l) := by
    refine hlist.nodes.cons (by omega) (by omega) fun z hz => ?_
    have hoff := hwhere z hz
    omega
  set s₁ := s.store y (size + 2) with hs₁_def
  set s₂ := s₁.store (y + size - 8) size with hs₂_def
  have hkeep : ∀ z, (z < y ∨ y + size ≤ z) → s₂.mem z = s.mem z := by
    intro z hz
    rw [hs₂_def, Heap.mem_store_outside (by omega), hs₁_def, Heap.mem_store_outside (by omega)]
  have hlist₂ : FreeList s₂ l := by
    refine hlist.frame rfl ?_
    rintro z ⟨w, hw, h1, h2⟩
    have := hwhere w hw
    exact hkeep z (by omega)
  have hadd := addToFreeList_spec hlist₂ hApart hnot
  have hin : ∀ z, InLinks (y :: l) z ↔ (y + 8 ≤ z ∧ z < y + 24) ∨ InLinks l z := by
    intro z
    simp [InLinks]
  have hmem : ∀ z, (z < y ∨ y + size ≤ z) → ¬ InLinks l z →
      (s₂.addToFreeList y).mem z = s.mem z := by
    intro z hz hnl
    have hout : ¬ InLinks (y :: l) z := by
      rw [hin]
      rintro (h | h)
      · omega
      · exact hnl h
    rw [hadd.mem z hout, hkeep z hz]
  have hload : ∀ a, (∀ z, a ≤ z → z < a + 8 → ¬ InLinks (y :: l) z) →
      (s₂.addToFreeList y).load a = s₂.load a := fun a ha =>
    read_congr fun z h1 h2 => hadd.mem z (ha z h1 h2)
  have hinside : ∀ z, y ≤ z → z < y + size → ¬ InLinks l z := by
    rintro z h1 h2 ⟨w, hw, h3, h4⟩
    have := hwhere w hw
    omega
  have hsub₁ : ∀ z, z < y → ¬ Slack s.base pre z → ¬ InLinks l z := by
    rintro z hz hs ⟨w, hw, h3, h4⟩
    rcases List.mem_append.mp (hl hw) with hw | hw
    · exact hs (slack_of_inLinks (fun _ h => h) ⟨w, hw, h3, h4⟩)
    · have hbounds := freeAddrs_bounds hw
      omega
  have hsub₂ : ∀ z, y + size ≤ z → ¬ Slack (y + size) post z → ¬ InLinks l z := by
    rintro z hz hs ⟨w, hw, h3, h4⟩
    rcases List.mem_append.mp (hl hw) with hw | hw
    · have hbounds := freeAddrs_bounds hw
      omega
    · exact hs (slack_of_inLinks (fun _ h => h) ⟨w, hw, h3, h4⟩)
  refine ⟨tags_frame htags ?_, ?_, ?_, tiled_frame hpost ?_, hadd.list,
    @Heap.SameRegion.trans s s₂ _ ⟨rfl, rfl, rfl⟩ hadd.region, hmem⟩
  · intro z _ hz hs
    exact hmem z (.inl hz) (hsub₁ z hz hs)
  · rw [hload y ?_, hs₂_def, Heap.load_store_ne (by omega), hs₁_def, Heap.load_store_same (by omega)]
    intro z h1 h2
    rw [hin]
    rintro (h | h)
    · omega
    · exact hinside z h1 (by omega) h
  · rw [hload _ ?_, hs₂_def, Heap.load_store_same (by omega)]
    intro z h1 h2
    rw [hin]
    rintro (h | h)
    · omega
    · exact hinside z (by omega) (by omega) h
  · intro z h1 _ hs
    exact hmem z (.inr h1) (hsub₂ z h1 hs)

theorem rebuild_eq (s : Heap) {x y size : Nat} (hs : size % 16 = 0) (hl : 32 ≤ size)
    (hb : y + size + 8 ≤ 2 ^ 63) :
    s.rebuild x y size = (((s.removeFromFreeList x).store y (size + 2)).store
      (y + size - 8) size).addToFreeList y := by
  have hxor : size ^^^ 2 = size + 2 := xor_tag (t := 0) (by omega) (by decide) 2 (by decide)
  unfold Heap.rebuild Heap.setSizeNode Heap.sizeNode
  dsimp only
  rw [Heap.load_store_same (by omega), hxor, Heap.store_store, offset_footer hs (by omega) (by omega)]

end OperatingSystems.Malloc
