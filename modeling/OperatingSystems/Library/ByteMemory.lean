import Mathlib.Tactic.Common
import Mathlib.Tactic.Ring
import Mathlib.Algebra.Order.Ring.Nat

namespace OperatingSystems.ByteMemory

abbrev Memory := Nat → UInt8

def read (m : Memory) (a : Nat) : Nat → Nat
  | 0 => 0
  | n + 1 => (m a).toNat + 256 * read m (a + 1) n

def write (m : Memory) (a n v : Nat) : Memory :=
  fun x => if a ≤ x ∧ x < a + n then UInt8.ofNat (v / 256 ^ (x - a)) else m x

theorem read_lt (m : Memory) (a n : Nat) : read m a n < 256 ^ n := by
  induction n generalizing a with
  | zero => simp [read]
  | succ n ih =>
    have hb := (m a).toNat_lt
    have hr := ih (a + 1)
    simp only [read, pow_succ]
    omega

theorem read_congr {m m' : Memory} {a n : Nat} (h : ∀ x, a ≤ x → x < a + n → m' x = m x) :
    read m' a n = read m a n := by
  induction n generalizing a with
  | zero => rfl
  | succ n ih =>
    simp only [read]
    rw [h a le_rfl (by omega), ih (fun x h1 h2 => h x (by omega) (by omega))]

theorem read_byte (m : Memory) (a n i : Nat) (h : i < n) :
    UInt8.ofNat (read m a n / 256 ^ i) = m (a + i) := by
  induction n generalizing a i with
  | zero => omega
  | succ n ih =>
    cases i with
    | zero =>
      apply UInt8.toNat_inj.mp
      have hb := (m a).toNat_lt
      simp only [read, pow_zero, Nat.div_one, UInt8.toNat_ofNat', Nat.add_zero]
      omega
    | succ i =>
      have hb := (m a).toNat_lt
      have hd : ((m a).toNat + 256 * read m (a + 1) n) / 256 = read m (a + 1) n := by omega
      simp only [read]
      rw [pow_succ', ← Nat.div_div_eq_div_mul, hd, ih (a + 1) i (by omega)]
      congr 1
      omega

theorem write_outside {m : Memory} {a n v x : Nat} (h : x < a ∨ a + n ≤ x) :
    write m a n v x = m x := if_neg (by omega)

theorem write_inside {m : Memory} {a n v x : Nat} (h : a ≤ x ∧ x < a + n) :
    write m a n v x = UInt8.ofNat (v / 256 ^ (x - a)) := if_pos h

theorem read_write_disjoint {m : Memory} {a n v b k : Nat} (h : b + k ≤ a ∨ a + n ≤ b) :
    read (write m a n v) b k = read m b k :=
  read_congr fun x h1 h2 => write_outside (by omega)

theorem read_write_same (m : Memory) (a n v : Nat) :
    read (write m a n v) a n = v % 256 ^ n := by
  induction n generalizing m a v with
  | zero => simp [read, Nat.mod_one]
  | succ n ih =>
    have hhead : (write m a (n + 1) v a).toNat = v % 256 := by
      rw [write_inside ⟨le_rfl, by omega⟩]
      simp
    have htail : read (write m a (n + 1) v) (a + 1) n = read (write m (a + 1) n (v / 256)) (a + 1) n := by
      apply read_congr
      intro x h1 h2
      rw [write_inside (by omega), write_inside (by omega), Nat.div_div_eq_div_mul, ← pow_succ']
      congr 3
      omega
    rw [read, hhead, htail, ih, pow_succ', Nat.mod_mul]

attribute [irreducible] read write

end OperatingSystems.ByteMemory
