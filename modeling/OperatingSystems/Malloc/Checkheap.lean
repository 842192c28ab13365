import OperatingSystems.Library.ForLoop
import OperatingSystems.Malloc.Contracts

namespace OperatingSystems.Malloc
open ByteMemory TaggedWord ForLoop DoublyLinked

-- what `dbg_printf` is given
structure Printed where
  format : String
  args : List Nat
deriving DecidableEq

namespace Heap

def inHeap (s : Heap) (p : Nat) : Prop := p ≤ s.mmHeapHi ∧ s.mmHeapLo ≤ p

def heapLowBound (s : Heap) : Nat := offset s.mmHeapLo 1

def heapHighBound (s : Heap) : Nat := s.mmHeapHi - 7

def outOfBounds (s : Heap) (loc : Nat) : Prop := loc < s.heapLowBound ∨ s.heapHighBound ≤ loc

instance (s : Heap) (loc : Nat) : Decidable (s.outOfBounds loc) :=
  inferInstanceAs (Decidable (_ ∨ _))

def footerLoc (s : Heap) (checker : Nat) : Nat :=
  offset checker ((s.blockSize checker / 8 : Nat) - 1)

def checkNode (s : Heap) (checker : Nat) : List Printed :=
  (if s.outOfBounds checker then [⟨"header oob", []⟩] else []) ++
    if s.outOfBounds (s.footerLoc checker) then [⟨"footer oob", []⟩] else []

def checkFreeList (s : Heap) (fuel : Nat) : Option (List Printed) :=
  forLoop s.nextNode (· ≠ 0) (fun checker => some (s.checkNode checker)) fuel s.freeBlockPointer

def inFreeList (s : Heap) (begin fuel : Nat) : Option Bool :=
  findLoop s.nextNode (· ≠ 0) (begin = ·) fuel s.freeBlockPointer

def checkBlock (s : Heap) (fuel begin : Nat) : Option (List Printed) :=
  if s.sizeNode begin &&& 1 = 0 then
    (s.inFreeList begin fuel).map fun inFreeList =>
      if inFreeList then [] else [⟨"Free block not in free list at: %p\n", [begin]⟩]
  else some []

def scanHeap (s : Heap) (fuel : Nat) : Option (List Printed) :=
  forLoop s.nextHeader (· < s.heapHighBound) (s.checkBlock fuel) fuel s.heapLowBound

-- with `DEBUG` defined; the fuel bounds the turns of each loop
def mmCheckheap (s : Heap) (_lineNumber : Int) (fuel : Nat) : Option (List Printed × Bool) :=
  (s.checkFreeList fuel).bind fun nodes => (s.scanHeap fuel).map fun blocks => (nodes ++ blocks, true)

def Checks (s : Heap) (r : List Printed × Bool) : Prop :=
  ∀ lineNumber, ∃ n, ∀ fuel, n ≤ fuel → s.mmCheckheap lineNumber fuel = some r

def Nodes (s : Heap) (nodes : List Nat) : Prop :=
  Walk s.nextNode (· ≠ 0) 0 s.freeBlockPointer nodes

def Blocks (s : Heap) (blocks : List Nat) : Prop :=
  Walk s.nextHeader (· < s.heapHighBound) s.heapHighBound s.heapLowBound blocks

def Fault (s : Heap) (nodes blocks : List Nat) : Prop :=
  (∃ checker ∈ nodes, s.outOfBounds checker ∨ s.outOfBounds (s.footerLoc checker)) ∨
    ∃ begin ∈ blocks, s.sizeNode begin &&& 1 = 0 ∧ begin ∉ nodes

instance (s : Heap) (nodes : List Nat) : Decidable (s.Nodes nodes) :=
  inferInstanceAs (Decidable (Walk s.nextNode (· ≠ 0) 0 s.freeBlockPointer nodes))

instance (s : Heap) (blocks : List Nat) : Decidable (s.Blocks blocks) :=
  inferInstanceAs (Decidable
    (Walk s.nextHeader (· < s.heapHighBound) s.heapHighBound s.heapLowBound blocks))

instance (s : Heap) (nodes blocks : List Nat) : Decidable (s.Fault nodes blocks) :=
  inferInstanceAs (Decidable (_ ∨ _))

end Heap

-- beside what `in_heap` refuses, the test refuses the first word of the heap and its last
theorem Heap.outOfBounds_iff {s : Heap} {loc : Nat} (hlo : s.mmHeapLo + 8 < 2 ^ 64) :
    s.outOfBounds loc ↔ ¬ s.inHeap loc ∨ loc < s.mmHeapLo + 8 ∨ s.mmHeapHi < loc + 8 := by
  have hlow : s.heapLowBound = s.mmHeapLo + 8 := offset_eq (p := s.mmHeapLo) (k := 1) (by omega)
  rw [Heap.outOfBounds, hlow, Heap.heapHighBound, Heap.inHeap]
  omega

theorem Heap.Checks.unique {s : Heap} {r r' : List Printed × Bool} (h : s.Checks r)
    (h' : s.Checks r') : r' = r := by
  obtain ⟨n, hn⟩ := h 0
  obtain ⟨n', hn'⟩ := h' 0
  have he := (hn' (max n n') (by omega)).symm.trans (hn (max n n') (by omega))
  exact Option.some.inj he

theorem checkNode_nil {s : Heap} {checker : Nat} :
    s.checkNode checker = [] ↔ ¬ (s.outOfBounds checker ∨ s.outOfBounds (s.footerLoc checker)) := by
  by_cases h1 : s.outOfBounds checker <;> by_cases h2 : s.outOfBounds (s.footerLoc checker) <;>
    simp [Heap.checkNode, h1, h2]

def Heap.unlisted (s : Heap) (nodes : List Nat) (begin : Nat) : List Printed :=
  if s.sizeNode begin &&& 1 = 0 ∧ begin ∉ nodes then
    [⟨"Free block not in free list at: %p\n", [begin]⟩]
  else []

theorem unlisted_nil {s : Heap} {nodes : List Nat} {begin : Nat} :
    s.unlisted nodes begin = [] ↔ ¬ (s.sizeNode begin &&& 1 = 0 ∧ begin ∉ nodes) := by
  rw [Heap.unlisted]
  split
  · exact iff_of_false (by simp) (not_not.mpr ‹_›)
  · exact iff_of_true rfl ‹_›

section
variable {s : Heap} {nodes blocks : List Nat} (hn : s.Nodes nodes)
include hn

theorem checkFreeList_spec {fuel : Nat} (hfuel : nodes.length < fuel) :
    s.checkFreeList fuel = some (nodes.flatMap s.checkNode) :=
  forLoop_walk hn (fun h => h rfl) (fun _ _ => rfl) hfuel

theorem checkBlock_spec {fuel : Nat} (hfuel : nodes.length < fuel) (begin : Nat) :
    s.checkBlock fuel begin = some (s.unlisted nodes begin) := by
  have hfind : s.inFreeList begin fuel = some (decide (begin ∈ nodes)) := by
    rw [Heap.inFreeList, findLoop_walk hn (fun h => h rfl) hfuel]
    simp
  rw [Heap.checkBlock, Heap.unlisted, hfind]
  by_cases hfree : s.sizeNode begin &&& 1 = 0
  · by_cases hmem : begin ∈ nodes <;> simp [hfree, hmem]
  · simp only [hfree, false_and, if_false]

theorem mmCheckheap_spec (hb : s.Blocks blocks) :
    s.Checks (nodes.flatMap s.checkNode ++ blocks.flatMap (s.unlisted nodes), true) := by
  refine fun lineNumber => ⟨max nodes.length blocks.length + 1, fun fuel hfuel => ?_⟩
  have hscan : s.scanHeap fuel = some (blocks.flatMap (s.unlisted nodes)) :=
    forLoop_walk hb (lt_irrefl _) (fun x _ => checkBlock_spec hn (by omega) x) (by omega)
  rw [Heap.mmCheckheap, checkFreeList_spec hn (by omega), Option.bind_some, hscan, Option.map_some]

omit hn in
theorem printed_nil : nodes.flatMap s.checkNode ++ blocks.flatMap (s.unlisted nodes) = [] ↔
    ¬ s.Fault nodes blocks := by
  simp only [List.append_eq_nil_iff, List.flatMap_eq_nil_iff, checkNode_nil, unlisted_nil,
    Heap.Fault, not_or, not_exists, not_and]

end

namespace WellFormed
variable {s : Heap} {bs : List Block} {fl : List Nat} (h : WellFormed s bs fl)
include h

theorem bounds_eq : s.heapLowBound = s.base ∧ s.heapHighBound = s.base + total bs := by
  have hcov := h.covers
  have hbrk := h.region.brk
  have hbound := h.region.bound
  refine ⟨?_, ?_⟩
  · refine offset_eq (p := s.heap) (k := 1) ?_
    unfold Heap.base at hcov
    omega
  · unfold Heap.heapHighBound Heap.mmHeapHi
    omega

theorem nodes : s.Nodes fl := by
  have hlist : ∀ u l, Linked 0 s.succOf s.prevNode (u :: (l ++ [0])) → 0 ∉ l →
      Walk s.nextNode (· ≠ 0) 0 (s.succOf u) l := by
    intro u l
    induction l generalizing u with
    | nil => exact fun hl _ => (linked_cons_cons.mp hl).1.1
    | cons x l ih =>
      intro hl h0
      simp only [List.mem_cons, not_or] at h0
      have hx : x ≠ 0 := fun e => h0.1 e.symm
      obtain ⟨⟨hu, -⟩, hrest⟩ := linked_cons_cons.mp hl
      have hnext := ih x hrest h0.2
      rw [Heap.succOf, if_neg hx] at hnext
      rw [hu]
      exact ⟨rfl, hx, hnext⟩
  exact hlist 0 fl h.list.linked h.list.zero_notMem

theorem blocks : s.Blocks ((placed s.base bs).map Prod.fst) := by
  obtain ⟨hlow, hhigh⟩ := h.bounds_eq
  have hsuffix : ∀ post pre, bs = pre ++ post →
      Walk s.nextHeader (· < s.heapHighBound) s.heapHighBound (s.base + total pre)
        ((placed (s.base + total pre) post).map Prod.fst) := by
    intro post
    induction post with
    | nil =>
      rintro pre rfl
      simp [hhigh]
    | cons b post ih =>
      rintro pre rfl
      have hlarge := b.large
      have hrest := ih (pre ++ [b]) (by simp)
      have hnext : s.nextHeader (s.base + total pre) = s.base + total (pre ++ [b]) := by
        rw [nextHeader_eq h]
        simp [Nat.add_assoc]
      rw [← hnext] at hrest
      refine ⟨rfl, ?_, ?_⟩
      · rw [hhigh, total_append, total_cons]
        omega
      · rwa [← nextHeader_eq h]
  rw [Heap.Blocks, hlow]
  exact hsuffix bs [] rfl

theorem no_fault : ¬ s.Fault fl ((placed s.base bs).map Prod.fst) := by
  have hcov := h.covers
  rintro (⟨x, hx, hout⟩ | ⟨x, hx, hclear, hmissing⟩)
  · obtain ⟨b, hb, -⟩ := h.mem_list.mp hx
    obtain ⟨hbase, hbrk, h63, -⟩ := h.bounds hb
    have hlarge := b.large
    have hfoot : s.footerLoc x = x + b.size - 8 := by
      rw [Heap.footerLoc, h.blockSize_at hb]
      exact offset_footer b.aligned (by omega) (by omega)
    have hlo : s.mmHeapLo + 8 = s.base := rfl
    have hhi : s.mmHeapHi + 1 = s.memBrk := by
      unfold Heap.mmHeapHi
      omega
    rw [Heap.outOfBounds_iff (by omega), Heap.outOfBounds_iff (by omega), hfoot, Heap.inHeap,
      Heap.inHeap] at hout
    omega
  · obtain ⟨⟨y, b⟩, hb, rfl⟩ := List.mem_map.mp hx
    obtain ⟨p, hp⟩ := h.header_at hb
    have hbounds := h.bounds hb
    rw [Heap.sizeNode, hp, (header_tags b p (by omega)).2.1] at hclear
    exact hmissing (h.mem_list.mpr ⟨b, hb, by simpa using hclear⟩)

end WellFormed

-- the two loops print a line for every fault, but the call returns `true` all the same
theorem mmCheckheap_iff {s : Heap} {nodes blocks : List Nat} (hn : s.Nodes nodes)
    (hb : s.Blocks blocks) :
    (∃ printed, s.Checks (printed, true) ∧ (printed = [] ↔ ¬ s.Fault nodes blocks)) ∧
      (∀ bs fl, WellFormed s bs fl → ¬ s.Fault nodes blocks) ∧
      ((s.Fault nodes blocks → ∃ printed, s.Checks (printed, false)) ∧
        (∀ bs fl, WellFormed s bs fl → ∃ printed, s.Checks (printed, true)) ↔
          ¬ s.Fault nodes blocks) := by
  have hspec := mmCheckheap_spec hn hb
  refine ⟨⟨_, hspec, printed_nil⟩, fun bs fl hw => ?_, fun hright hfault => ?_, fun hok => ?_⟩
  · have hnodes : fl = nodes := Walk.unique hn (fun h => h rfl) hw.nodes
    have hblocks : (placed s.base bs).map Prod.fst = blocks :=
      Walk.unique hb (lt_irrefl _) hw.blocks
    rw [← hnodes, ← hblocks]
    exact hw.no_fault
  · obtain ⟨printed, hfalse⟩ := hright.1 hfault
    cases congrArg Prod.snd (hspec.unique hfalse)
  · exact ⟨fun hfault => absurd hfault hok, fun _ _ _ => ⟨_, hspec⟩⟩

theorem mmCheckheap_iff_first : ∃ nodes blocks, firstHeap.Nodes nodes ∧
    firstHeap.Blocks blocks ∧ ∃ printed, firstHeap.Checks (printed, true) ∧ printed = [] := by
  obtain ⟨b, fl, hw⟩ := firstHeap_wellFormed
  obtain ⟨⟨printed, htrue, hnil⟩, hok, -⟩ := mmCheckheap_iff hw.nodes hw.blocks
  exact ⟨_, _, hw.nodes, hw.blocks, printed, htrue, hnil.mpr (hok _ _ hw)⟩

-- the header of a block in use with its tag cleared
theorem mmCheckheap_misses : ∃ s, firstHeap.malloc 24 = some (8176, s) ∧
    (s.setSizeNode 8168 32).Nodes [4104] ∧ (s.setSizeNode 8168 32).Blocks [4104, 8168] ∧
      (s.setSizeNode 8168 32).Fault [4104] [4104, 8168] ∧
        ¬ ∃ printed, (s.setSizeNode 8168 32).Checks (printed, false) := by
  have hr : (firstHeap.malloc 24).map (fun r => (r.1, decide
      ((r.2.setSizeNode 8168 32).Nodes [4104] ∧ (r.2.setSizeNode 8168 32).Blocks [4104, 8168] ∧
        (r.2.setSizeNode 8168 32).Fault [4104] [4104, 8168]))) = some (8176, true) := by
    decide +kernel
  obtain ⟨⟨q, s⟩, hm, hr⟩ := Option.map_eq_some_iff.mp hr
  simp only [Prod.mk.injEq, decide_eq_true_eq] at hr
  obtain ⟨rfl, hn, hb, hfault⟩ := hr
  refine ⟨s, hm, hn, hb, hfault, fun ⟨printed, hfalse⟩ => ?_⟩
  cases congrArg Prod.snd ((mmCheckheap_spec hn hb).unique hfalse)

end OperatingSystems.Malloc
