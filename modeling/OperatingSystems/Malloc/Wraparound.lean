import OperatingSystems.Malloc.Realloc

namespace OperatingSystems.Malloc
open ByteMemory

theorem write_zero {m : Memory} {a n y : Nat} (h : a ≤ y ∧ y < a + n) : write m a n 0 y = 0 := by
  rw [write_inside h, Nat.zero_div]
  rfl

theorem setLoop_zero (m : Memory) (dst n y : Nat) (h1 : dst ≤ y) (h2 : y < dst + n) :
    setLoop 0 m dst n y = 0 := by
  fun_induction setLoop 0 m dst n with
  | case1 m dst n hn ih =>
    by_cases h : y < dst + 8
    · rw [setLoop_outside _ _ _ _ _ (by omega)]
      exact write_zero ⟨h1, h⟩
    · exact ih (by omega) (by omega)
  | case2 m dst n hn h0 => exact write_zero ⟨h1, h2⟩
  | case3 => omega

theorem mmMemset_zero (m : Memory) (dst n y : Nat) (h1 : dst ≤ y) (h2 : y < dst + n) :
    mmMemset m dst 0 n y = 0 := setLoop_zero m dst n y h1 h2

-- `size + 8` or the rounding in `align` wraps around
theorem requiredBlockSize_wraps {size : Nat} (h : 2 ^ 64 ≤ size + 23) (hlt : size < 2 ^ 64) :
    requiredBlockSize size = 32 := by
  unfold requiredBlockSize align wrap
  dsimp only
  split <;> omega

namespace Heap

def mallocServes (s : Heap) (size : Nat) : Prop :=
  ∃ r s', s.malloc size = some (r, s') ∧ (r = 0 ∨ size + 8 ≤ s'.blockSize (r - 8))

def callocServes (s : Heap) (nmemb size : Nat) : Prop :=
  ∃ r s', s.calloc nmemb size = some (r, s') ∧
    (r = 0 ∨ size * nmemb + 8 ≤ s'.blockSize (r - 8) ∧ ∀ i, i < size * nmemb → s'.mem (r + i) = 0)

end Heap

section
variable {s : Heap} {bs : List Block} {fl : List Nat} {size : Nat} (h : WellFormed s bs fl)
include h

theorem malloc_cases (hpos : 0 < size) :
    (s.malloc size = some (0, s) ∧ Exhausted s bs (requiredBlockSize size)) ∨
    ∃ (z : Nat) (mid : Heap) (b : Block), s.malloc size = some (z + 8, mid) ∧
      ¬ Exhausted s bs (requiredBlockSize size) ∧
      mid.blockSize z = b.size ∧ requiredBlockSize size ≤ b.size ∧ b.size < 2 ^ 63 := by
  rcases malloc_spec h hpos with h0 | ⟨found, z, mid, bs', fl', hm, -, hg, hw, hkept⟩
  · exact .inl h0
  · have hbase : mid.base = s.base := hkept.base
    obtain ⟨b, hb, -, hneed⟩ := granted_placed hg
    rw [← hbase] at hb
    have hbounds := hw.bounds hb
    exact .inr ⟨z, mid, b, hm, hg.not_exhausted h hw hkept, hw.blockSize_at hb, hneed, by omega⟩

theorem mallocServes_iff (hpos : 1 ≤ size) (hlt : size < 2 ^ 64) :
    s.mallocServes size ↔ size + 23 < 2 ^ 64 ∨ Exhausted s bs 32 := by
  rcases malloc_cases h hpos with ⟨hm, hex⟩ | ⟨z, mid, b, hm, hex, hsize, hneed, hb⟩
  · refine iff_of_true ⟨0, s, hm, .inl rfl⟩ ?_
    by_cases hsmall : size + 23 < 2 ^ 64
    · exact .inl hsmall
    · exact .inr (requiredBlockSize_wraps (by omega) hlt ▸ hex)
  · have hserves : s.mallocServes size ↔ size + 8 ≤ b.size := by
      simp [Heap.mallocServes, hm, hsize]
    rw [hserves]
    by_cases hsmall : size + 23 < 2 ^ 64
    · have hreq := (requiredBlockSize_spec hsmall).2.2.1
      exact iff_of_true (by omega) (.inl hsmall)
    · rw [requiredBlockSize_wraps (by omega) hlt] at hex
      exact iff_of_false (by omega) (not_or.mpr ⟨hsmall, hex⟩)

theorem callocServes_iff (nmemb : Nat) :
    s.callocServes nmemb size ↔ size * nmemb + 23 < 2 ^ 64 ∨ wrap (size * nmemb) = 0 ∨
      Exhausted s bs (requiredBlockSize (wrap (size * nmemb))) := by
  set product := size * nmemb with hproduct
  rcases Nat.eq_zero_or_pos (wrap product) with hzero | hpos
  · refine iff_of_true ⟨0, s, ?_, .inl rfl⟩ (.inr (.inl hzero))
    simp [Heap.calloc, ← hproduct, hzero, Heap.malloc]
  rcases malloc_cases h hpos with ⟨hm, hex⟩ | ⟨z, mid, b, hm, hex, hsize, hneed, hb⟩
  · refine iff_of_true ⟨0, s, ?_, .inl rfl⟩ (.inr (.inr hex))
    simp [Heap.calloc, ← hproduct, hm]
  · have hcalloc : s.calloc nmemb size =
        some (z + 8, { mid with mem := mmMemset mid.mem (z + 8) 0 (wrap product) }) := by
      simp [Heap.calloc, ← hproduct, hm]
    have hheader : ({ mid with mem := mmMemset mid.mem (z + 8) 0 (wrap product) } : Heap).blockSize z
        = b.size := by
      rw [← hsize]
      refine congrArg (· &&& _) (read_congr fun y h1 h2 => ?_)
      exact mmMemset_outside _ _ _ _ _ (.inl (by omega))
    have hserves : s.callocServes nmemb size ↔ product + 8 ≤ b.size ∧
        ∀ i, i < product → mmMemset mid.mem (z + 8) 0 (wrap product) (z + 8 + i) = 0 := by
      simp [Heap.callocServes, hcalloc, hheader, ← hproduct]
    rw [hserves]
    by_cases hsmall : product + 23 < 2 ^ 64
    · have hwrap : wrap product = product := Nat.mod_eq_of_lt (by omega)
      have hreq := (requiredBlockSize_spec hsmall).2.2.1
      rw [hwrap] at hneed ⊢
      refine iff_of_true ⟨by omega, fun i hi => ?_⟩ (.inl hsmall)
      exact mmMemset_zero _ _ _ _ (by omega) (by omega)
    · refine iff_of_false (fun hserved => ?_) (not_or.mpr ⟨hsmall, not_or.mpr ⟨by omega, hex⟩⟩)
      have := hserved.1
      omega

end

theorem sizes_served {s : Heap} {bs : List Block} {fl : List Nat} (h : WellFormed s bs fl) :
    (∀ size, 1 ≤ size → size < 2 ^ 64 →
      (s.mallocServes size ↔ size + 23 < 2 ^ 64 ∨ Exhausted s bs 32)) ∧
    ∀ nmemb size, nmemb < 2 ^ 64 → size < 2 ^ 64 →
      (s.callocServes nmemb size ↔ size * nmemb + 23 < 2 ^ 64 ∨ wrap (size * nmemb) = 0 ∨
        Exhausted s bs (requiredBlockSize (wrap (size * nmemb)))) :=
  ⟨fun _ hpos hlt => mallocServes_iff h hpos hlt, fun nmemb _ _ _ => callocServes_iff h nmemb⟩

theorem sizes_served_first : ∃ s bs fl, firstHeap.malloc 24 = some (8176, s) ∧ WellFormed s bs fl ∧
    s.mallocServes (2 ^ 63) ∧ s.callocServes 3 40 := by
  obtain ⟨s, bs, fl, b, hm, hw, -⟩ := firstHeap_served
  obtain ⟨hmalloc, hcalloc⟩ := sizes_served hw
  exact ⟨s, bs, fl, hm, hw, (hmalloc _ (by decide) (by decide)).mpr (.inl (by decide)),
    (hcalloc 3 40 (by decide) (by decide)).mpr (.inl (by decide))⟩

theorem sizes_not_served : (∃ b fl, WellFormed firstHeap [b] fl) ∧
    ¬ firstHeap.mallocServes (2 ^ 64 - 8) ∧ ¬ firstHeap.callocServes (2 ^ 62 + 1) 4 := by
  refine ⟨firstHeap_wellFormed, ?_, ?_⟩
  · have hr : (firstHeap.malloc (2 ^ 64 - 8)).map (fun r => (r.1, r.2.blockSize (r.1 - 8))) =
        some (8176, 32) := by decide +kernel
    rintro ⟨r, s', hm, hcase⟩
    simp only [hm, Option.map_some, Option.some.injEq, Prod.mk.injEq] at hr
    omega
  · have hr : (firstHeap.calloc (2 ^ 62 + 1) 4).map (fun r => (r.1, r.2.blockSize (r.1 - 8))) =
        some (8176, 32) := by decide +kernel
    rintro ⟨r, s', hm, hcase⟩
    simp only [hm, Option.map_some, Option.some.injEq, Prod.mk.injEq] at hr
    rcases hcase with hcase | ⟨hcase, -⟩ <;> omega

end OperatingSystems.Malloc
