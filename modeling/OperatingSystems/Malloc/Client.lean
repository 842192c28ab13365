import OperatingSystems.Library.Transition
import OperatingSystems.Malloc.Requests

namespace OperatingSystems.Malloc
open ByteMemory Transition

-- what the client knows of a payload: the size it asked for and the bytes it stored since
structure Grant where
  ptr : Nat
  size : Nat
  stored : Nat → Option UInt8

structure Client where
  heap : Heap
  live : List Grant

inductive Call
  | malloc (size : Nat)
  | calloc (nmemb size : Nat)
  | realloc (oldptr size : Nat)
  | free (ptr : Nat)
  | write (ptr i : Nat) (v : UInt8)

def Holds (live : List Grant) (ptr : Nat) : Prop := ∃ g ∈ live, g.ptr = ptr

def obtain (live : List Grant) (ptr size : Nat) : List Grant :=
  if ptr = 0 then live else ⟨ptr, size, fun _ => none⟩ :: live

def release (live : List Grant) (ptr : Nat) : List Grant := live.filter fun g => g.ptr ≠ ptr

-- `realloc` returns `ptr` for `oldptr`; if it fails, the client still holds `oldptr` (README 41,
-- and what libc promises), although mm.c 203 frees the block
def exchange (live : List Grant) (oldptr ptr size : Nat) : List Grant :=
  if ptr = 0 ∧ size ≠ 0 then live else obtain (release live oldptr) ptr size

def Grant.record (ptr i : Nat) (v : UInt8) (g : Grant) : Grant :=
  if g.ptr = ptr then { g with stored := Function.update g.stored i (some v) } else g

instance (live : List Grant) (ptr : Nat) : Decidable (Holds live ptr) :=
  inferInstanceAs (Decidable (∃ g ∈ live, _))

namespace Client

def Allowed (c : Client) : Call → Prop
  | .malloc size => size + 23 < 2 ^ 64
  | .calloc nmemb size => size * nmemb + 23 < 2 ^ 64
  | .realloc oldptr size => size + 23 < 2 ^ 64 ∧ (oldptr = 0 ∨ Holds c.live oldptr)
  | .free ptr => ptr = 0 ∨ Holds c.live ptr
  | .write ptr i _ => ∃ g ∈ c.live, g.ptr = ptr ∧ (i < g.size ∨ i + 8 < c.heap.blockSize (ptr - 8))

instance (c : Client) (a : Call) : Decidable (c.Allowed a) := by
  cases a <;> unfold Allowed <;> infer_instance

def perform (c : Client) : Call → Option (Nat × Client)
  | .malloc size => (c.heap.malloc size).map fun (ptr, s) => (ptr, ⟨s, obtain c.live ptr size⟩)
  | .calloc nmemb size =>
    (c.heap.calloc nmemb size).map fun (ptr, s) => (ptr, ⟨s, obtain c.live ptr (size * nmemb)⟩)
  | .realloc oldptr size =>
    (c.heap.realloc oldptr size).map fun (ptr, s) =>
      (ptr, ⟨s, exchange c.live oldptr ptr size⟩)
  | .free ptr => some (0, ⟨c.heap.free ptr, release c.live ptr⟩)
  | .write ptr i v =>
    some (0, ⟨{ c.heap with mem := Function.update c.heap.mem (ptr + i) v },
      c.live.map (Grant.record ptr i v)⟩)

def step (c : Client) (a : Call) : Option (Nat × Client) :=
  if c.Allowed a then c.perform a else none

end Client

def Started (c : Client) : Prop :=
  ∃ addr mem, addr % 16 = 0 ∧ 0 < addr ∧ addr + maxHeapSize ≤ 2 ^ 63 ∧
    (memInit addr mem).mmInit = (true, c.heap) ∧ c.live = []

def allocator : System Client Call Nat where
  init := Started
  step := Client.step

def Consistent (s : Heap) : Prop := ∃ bs fl, WellFormed s bs fl

def Orderly (c : Client) : Call → Prop
  | .free ptr => ptr = 0 ∨ ¬ c.heap.twoFreeBefore (ptr - 8)
  | .realloc oldptr size => oldptr = 0 ∨ ¬ c.heap.twoFreeBefore (oldptr - 8) ∨
      (size ≠ 0 ∧ c.heap.reuses size (oldptr - 8))
  | _ => True

instance (c : Client) (a : Call) : Decidable (Orderly c a) := by
  cases a <;> unfold Orderly <;> infer_instance

-- no `realloc` of a held pointer fails
def Fulfilled (c : Client) : Call → Prop
  | .realloc oldptr size => oldptr = 0 ∨ size = 0 ∨ ¬ c.heap.refuses size
  | _ => True

instance (c : Client) (a : Call) : Decidable (Fulfilled c a) := by
  cases a <;> unfold Fulfilled <;> infer_instance

structure Isolated (c : Client) : Prop where
  inside : ∀ g ∈ c.live, c.heap.mmHeapLo ≤ g.ptr ∧ g.ptr + g.size ≤ c.heap.mmHeapHi + 1
  aligned : ∀ g ∈ c.live, g.ptr % 16 = 0
  disjoint : c.live.Pairwise fun g h => g.ptr + g.size ≤ h.ptr ∨ h.ptr + h.size ≤ g.ptr
  stored : ∀ g ∈ c.live, ∀ i v, g.stored i = some v → c.heap.mem (g.ptr + i) = v

structure Backed (s : Heap) (bs : List Block) (g : Grant) (x : Nat) (b : Block) : Prop where
  ptr : g.ptr = x + 8
  inUse : InUse s.base bs x b
  size : g.size + 8 ≤ b.size
  inside : ∀ i v, g.stored i = some v → i + 8 < b.size
  stored : ∀ i v, g.stored i = some v → s.mem (g.ptr + i) = v

structure Ledger (s : Heap) (bs : List Block) (live : List Grant) : Prop where
  backed : ∀ g ∈ live, ∃ x b, Backed s bs g x b
  distinct : live.Pairwise fun g h => g.ptr ≠ h.ptr

theorem Backed.frame {s s' : Heap} {bs bs' : List Block} {g : Grant} {x : Nat} {b : Block}
    (h : Backed s bs g x b) (hb : s'.base = s.base) (hu : InUse s.base bs' x b)
    (hm : ∀ y, x + 8 ≤ y → y < x + b.size → s'.mem y = s.mem y) : Backed s' bs' g x b := by
  refine ⟨h.ptr, hb ▸ hu, h.size, h.inside, fun i v hv => ?_⟩
  have := h.inside i v hv
  have hp := h.ptr
  rw [hm _ (by omega) (by omega)]
  exact h.stored i v hv

theorem Ledger.fresh {s : Heap} {bs : List Block} {live : List Grant} {x size : Nat} {b : Block}
    (h : Ledger s bs live) (hu : InUse s.base bs x b) (hsize : size + 8 ≤ b.size)
    (hnew : ∀ g ∈ live, g.ptr ≠ x + 8) : Ledger s bs (obtain live (x + 8) size) := by
  rw [obtain, if_neg (by omega)]
  refine ⟨?_, List.pairwise_cons.mpr ⟨fun g hg => (hnew g hg).symm, h.distinct⟩⟩
  intro g hg
  rcases List.mem_cons.mp hg with rfl | hg
  · exact ⟨x, b, rfl, hu, hsize, by simp, by simp⟩
  · exact h.backed g hg

theorem Ledger.served {s s' : Heap} {bs : List Block} {fl : List Nat} {live : List Grant}
    {size r : Nat} (hw : WellFormed s bs fl) (h : Ledger s bs live) (hsize : size + 23 < 2 ^ 64)
    (hs : Served s bs size r s') :
    ∃ bs' fl', WellFormed s' bs' fl' ∧ Ledger s' bs' (obtain live r size) := by
  rcases hs with ⟨rfl, rfl, -⟩ | ⟨found, x, bs', fl', rfl, -, hg, hw', hkept⟩
  · exact ⟨bs, fl, hw, h⟩
  · obtain ⟨⟨new, hnew, hneed⟩, hold, -⟩ := granted_inUse hg
    have hreq := (requiredBlockSize_spec hsize).2.2.1
    have hbase : s'.base = s.base := hkept.base
    refine ⟨bs', fl', hw', Ledger.fresh ⟨?_, h.distinct⟩ (hbase ▸ hnew) (by omega) ?_⟩
    · intro g hg
      obtain ⟨y, c, hb⟩ := h.backed g hg
      refine ⟨y, c, hb.frame hbase (hold y c hb.inUse).1 fun z h1 h2 => ?_⟩
      exact hkept.payload z (payload_iff.mpr ⟨y, c, hb.inUse, h1, h2⟩)
    · intro g hg
      obtain ⟨y, c, hb⟩ := h.backed g hg
      have := (hold y c hb.inUse).2
      rw [hb.ptr]
      omega

theorem Ledger.released {s : Heap} {pre post : List Block} {b : Block} {fl : List Nat}
    {live : List Grant} (hw : WellFormed s (pre ++ b :: post) fl) (hb : b.alloc = true)
    (h : Ledger s (pre ++ b :: post) live) (hok : ¬ s.twoFreeBefore (s.base + total pre)) :
    ∃ bs' fl', WellFormed (s.free (s.base + total pre + 8)) bs' fl' ∧
      Ledger (s.free (s.base + total pre + 8)) bs' (release live (s.base + total pre + 8)) := by
  obtain ⟨bs', fl', hw', hkept, huse⟩ := free_wellFormed hw hb hok
  have hbase : (s.free (s.base + total pre + 8)).base = s.base := hkept.base
  refine ⟨bs', fl', hw', ⟨fun g hg => ?_, h.distinct.sublist List.filter_sublist⟩⟩
  obtain ⟨hg, hne⟩ := List.mem_filter.mp hg
  obtain ⟨y, c, hc⟩ := h.backed g hg
  have hyx : y ≠ s.base + total pre := by
    have := hc.ptr
    have := of_decide_eq_true hne
    omega
  have hy := (huse y c).mpr ⟨hc.inUse, hyx⟩
  exact ⟨y, c, hc.frame hbase hy fun z h1 h2 => hkept.payload z (payload_iff.mpr ⟨y, c, hy, h1, h2⟩)⟩

theorem Ledger.written {s : Heap} {bs : List Block} {fl : List Nat} {live : List Grant}
    {ptr i : Nat} {v : UInt8} (hw : WellFormed s bs fl) (h : Ledger s bs live)
    (ha : (Client.mk s live).Allowed (.write ptr i v)) :
    WellFormed { s with mem := Function.update s.mem (ptr + i) v } bs fl ∧
      Ledger { s with mem := Function.update s.mem (ptr + i) v } bs
        (live.map (Grant.record ptr i v)) := by
  obtain ⟨g, hg, rfl, hi⟩ := ha
  obtain ⟨x, b, hb⟩ := h.backed g hg
  have hptr := hb.ptr
  have hsize := hb.size
  have hblock := hw.blockSize_at hb.inUse.1
  have hin : i + 8 < b.size := by
    simp only [hptr, Nat.add_sub_cancel, hblock] at hi
    omega
  refine ⟨hw.payload_write fun y hy => ?_, ⟨?_, ?_⟩⟩
  · refine Function.update_of_ne ?_ _ _
    rintro rfl
    exact hy (payload_iff.mpr ⟨x, b, hb.inUse, by omega, by omega⟩)
  · intro g' hg'
    obtain ⟨k, hk, rfl⟩ := List.mem_map.mp hg'
    obtain ⟨y, c, hc⟩ := h.backed k hk
    by_cases hkp : k.ptr = g.ptr
    · have hyx : y = x := by
        have := hc.ptr
        omega
      subst hyx
      obtain rfl := inUse_unique hb.inUse hc.inUse
      refine ⟨y, c, ?_⟩
      rw [Grant.record, if_pos hkp]
      refine ⟨hc.ptr, hc.inUse, hc.size, fun j w hj => ?_, fun j w hj => ?_⟩
      · by_cases hji : j = i
        · rw [hji]
          exact hin
        · exact hc.inside j w (by simpa [hji] using hj)
      · by_cases hji : j = i
        · subst hji
          simpa [hkp] using hj
        · have hold := hc.stored j w (by simpa [hji] using hj)
          rw [← hold]
          exact Function.update_of_ne (by dsimp only; omega) _ _
    · refine ⟨y, c, ?_⟩
      rw [Grant.record, if_neg hkp]
      have hyx : y ≠ x := by
        have := hc.ptr
        omega
      refine hc.frame rfl hc.inUse fun z h1 h2 => ?_
      have := outside_other hb.inUse hc.inUse hyx h1 h2
      exact Function.update_of_ne (by omega) _ _
  · refine List.pairwise_map.mpr (h.distinct.imp fun {k l} hkl => ?_)
    have hsame : ∀ k : Grant, (k.record g.ptr i v).ptr = k.ptr := by
      intro k
      rw [Grant.record]
      split <;> rfl
    rw [hsame, hsame]
    exact hkl

end OperatingSystems.Malloc
