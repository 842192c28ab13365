import OperatingSystems.Library.ByteMemory

namespace OperatingSystems.Malloc
open ByteMemory

def maxHeapSize : Nat := 2 ^ 40

def sbrkFailed : Nat := 2 ^ 64 - 1

structure Heap where
  mem : Memory
  heap : Nat
  memBrk : Nat
  memMaxAddr : Nat
  freeBlockPointer : Nat

namespace Heap

def load (s : Heap) (a : Nat) : Nat := read s.mem a 8

def store (s : Heap) (a v : Nat) : Heap := { s with mem := write s.mem a 8 v }

def mmHeapLo (s : Heap) : Nat := s.heap

def mmHeapHi (s : Heap) : Nat := s.memBrk - 1

-- `incr` reaches `mm_sbrk` as a `size_t` and is read there as an `intptr_t`
def mmSbrk (s : Heap) (incr : Nat) : Nat × Heap :=
  if 2 ^ 63 ≤ incr then (sbrkFailed, s)
  else if s.memMaxAddr < s.memBrk + incr then (sbrkFailed, s)
  else (s.memBrk, { s with memBrk := s.memBrk + incr })

end Heap

def memInit (addr : Nat) (mem : Memory) : Heap :=
  { mem := mem, heap := addr, memBrk := addr, memMaxAddr := addr + maxHeapSize,
    freeBlockPointer := 0 }

def memRead (m : Memory) (addr len : Nat) : Nat :=
  if len < 8 then read m addr 8 &&& (2 ^ (8 * len) - 1) else read m addr 8

def mmMemcpy (m : Memory) (dst src n : Nat) : Memory :=
  if 8 ≤ n then mmMemcpy (write m dst 8 (memRead m src 8)) (dst + 8) (src + 8) (n - 8)
  else if n ≠ 0 then write m dst n (memRead m src n)
  else m
termination_by n

-- the addresses whose bytes the loop of `mm_memcpy` takes, in its order
def mmMemcpySources (src n : Nat) : List Nat :=
  if 8 ≤ n then List.range' src 8 ++ mmMemcpySources (src + 8) (n - 8)
  else List.range' src n
termination_by n

def fill (c : Nat) : Nat :=
  (List.range 8).foldl (fun data i => data ||| (c &&& 255) <<< (8 * i)) 0

def setLoop (data : Nat) (m : Memory) (dst n : Nat) : Memory :=
  if 8 ≤ n then setLoop data (write m dst 8 data) (dst + 8) (n - 8)
  else if n ≠ 0 then write m dst n data
  else m
termination_by n

def mmMemset (m : Memory) (dst c n : Nat) : Memory := setLoop (fill c) m dst n

theorem mem_read_eq (m : Memory) (addr len : Nat) (h : len ≤ 8) :
    memRead m addr len = read m addr 8 % 256 ^ len := by
  have hp : (256 : Nat) ^ len = 2 ^ (8 * len) := by rw [pow_mul]; rfl
  unfold memRead
  split
  · rw [Nat.and_two_pow_sub_one_eq_mod, hp]
  · have hl : len = 8 := by omega
    rw [hl, Nat.mod_eq_of_lt (read_lt m addr 8)]

theorem write_mod (m : Memory) (a n v : Nat) : write m a n (v % 256 ^ n) = write m a n v := by
  funext x
  by_cases h : a ≤ x ∧ x < a + n
  · rw [write_inside h, write_inside h]
    apply UInt8.toNat_inj.mp
    have hs : (256 : Nat) ^ n = 256 ^ (x - a) * 256 ^ (n - (x - a)) := by
      rw [← pow_add]; congr 1; omega
    have hd : 256 ∣ 256 ^ (n - (x - a)) := dvd_pow_self _ (by omega)
    simp only [UInt8.toNat_ofNat', hs, Nat.mod_mul_right_div_self]
    exact Nat.mod_mod_of_dvd _ hd
  · rw [write_outside (by omega), write_outside (by omega)]

theorem write_memRead_byte {m : Memory} {dst src n i : Nat} (hn : n ≤ 8) (hi : i < n) :
    write m dst n (memRead m src n) (dst + i) = m (src + i) := by
  rw [mem_read_eq m src n hn, write_mod, write_inside ⟨by omega, by omega⟩,
    Nat.add_sub_cancel_left, read_byte m src 8 i (by omega)]

theorem mmMemcpy_outside (m : Memory) (dst src n x : Nat) (h : x < dst ∨ dst + n ≤ x) :
    mmMemcpy m dst src n x = m x := by
  fun_induction mmMemcpy m dst src n with
  | case1 m dst src n hn ih => rw [ih (by omega), write_outside (by omega)]
  | case2 m dst src n hn h0 => exact write_outside h
  | case3 => rfl

theorem mmMemcpy_inside (m : Memory) (dst src n i : Nat) (hi : i < n)
    (hd : dst + n ≤ src ∨ src + n ≤ dst) :
    mmMemcpy m dst src n (dst + i) = m (src + i) := by
  fun_induction mmMemcpy m dst src n generalizing i with
  | case1 m dst src n hn ih =>
    by_cases h : i < 8
    · rw [mmMemcpy_outside _ _ _ _ _ (by omega), write_memRead_byte le_rfl h]
    · have hr := ih (i - 8) (by omega) (by omega)
      rw [show dst + 8 + (i - 8) = dst + i by omega,
        show src + 8 + (i - 8) = src + i by omega] at hr
      rw [hr, write_outside (by omega)]
  | case2 m dst src n hn h0 => exact write_memRead_byte (by omega) hi
  | case3 => omega

theorem mem_mmMemcpySources {src n a : Nat} :
    a ∈ mmMemcpySources src n ↔ src ≤ a ∧ a < src + n := by
  fun_induction mmMemcpySources src n with
  | case1 src n hn ih =>
    rw [List.mem_append, ih, List.mem_range'_1]
    omega
  | case2 src n hn => exact List.mem_range'_1

theorem setLoop_outside (data : Nat) (m : Memory) (dst n x : Nat) (h : x < dst ∨ dst + n ≤ x) :
    setLoop data m dst n x = m x := by
  fun_induction setLoop data m dst n with
  | case1 m dst n hn ih => rw [ih (by omega), write_outside (by omega)]
  | case2 m dst n hn h0 => exact write_outside h
  | case3 => rfl

theorem mmMemset_outside (m : Memory) (dst c n x : Nat) (h : x < dst ∨ dst + n ≤ x) :
    mmMemset m dst c n x = m x := setLoop_outside _ _ _ _ _ h

end OperatingSystems.Malloc
