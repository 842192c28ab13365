import Mathlib.Tactic.Common
import Mathlib.Tactic.IntervalCases

namespace OperatingSystems.TaggedWord

def complement (n : Nat) : Nat := 2 ^ 64 - 1 - n

theorem eq_of_quarters {x y : Nat} (hd : x / 2 ^ 2 = y / 2 ^ 2) (hm : x % 2 ^ 2 = y % 2 ^ 2) :
    x = y := by omega

section
variable {size t : Nat} (hs : size % 4 = 0) (ht : t < 4)
include hs ht

theorem quarters : (size + t) / 2 ^ 2 = size / 2 ^ 2 ∧ (size + t) % 2 ^ 2 = t := by omega

theorem and_tag (k : Nat) (hk : k < 4) : (size + t) &&& k = t &&& k := by
  obtain ⟨-, hm⟩ := quarters hs ht
  apply eq_of_quarters
  · rw [Nat.and_div_two_pow, Nat.and_div_two_pow, Nat.div_eq_of_lt hk, Nat.and_zero, Nat.and_zero]
  · rw [Nat.and_mod_two_pow, Nat.and_mod_two_pow, hm, Nat.mod_eq_of_lt ht]

theorem or_tag (k : Nat) (hk : k < 4) : (size + t) ||| k = size + (t ||| k) := by
  obtain ⟨hd, hm⟩ := quarters hs ht
  have hlt : t ||| k < 4 := Nat.or_lt_two_pow (n := 2) ht hk
  obtain ⟨hd', hm'⟩ := quarters hs hlt
  apply eq_of_quarters
  · rw [Nat.or_div_two_pow, hd, hd', Nat.div_eq_of_lt hk, Nat.or_zero]
  · rw [Nat.or_mod_two_pow, hm, hm', Nat.mod_eq_of_lt hk]

theorem xor_tag (k : Nat) (hk : k < 4) : (size + t) ^^^ k = size + (t ^^^ k) := by
  obtain ⟨hd, hm⟩ := quarters hs ht
  have hlt : t ^^^ k < 4 := Nat.xor_lt_two_pow (n := 2) ht hk
  obtain ⟨hd', hm'⟩ := quarters hs hlt
  apply eq_of_quarters
  · rw [Nat.xor_div_two_pow, hd, hd', Nat.div_eq_of_lt hk, Nat.xor_zero]
  · rw [Nat.xor_mod_two_pow, hm, hm', Nat.mod_eq_of_lt hk]

theorem and_complement (k : Nat) (hk : k < 4) (hlt : size + t < 2 ^ 64) :
    (size + t) &&& complement k = size + (t &&& (3 - k)) := by
  obtain ⟨hd, hm⟩ := quarters hs ht
  have hand : t &&& (3 - k) < 4 := lt_of_le_of_lt Nat.and_le_left ht
  obtain ⟨hd', hm'⟩ := quarters hs hand
  have hcd : complement k / 2 ^ 2 = 2 ^ 62 - 1 := by unfold complement; omega
  have hcm : complement k % 2 ^ 2 = 3 - k := by unfold complement; omega
  apply eq_of_quarters
  · rw [Nat.and_div_two_pow, hd, hd', hcd, Nat.and_two_pow_sub_one_eq_mod,
      Nat.mod_eq_of_lt (by omega)]
  · rw [Nat.and_mod_two_pow, hm, hm', hcm]

end

end OperatingSystems.TaggedWord
