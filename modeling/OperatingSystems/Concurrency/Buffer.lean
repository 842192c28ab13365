import Mathlib.Data.List.Basic
import Mathlib.Logic.Function.Basic
import Mathlib.Tactic.Common

namespace OperatingSystems.Concurrency

structure Buffer (α : Type) where
  size : Nat
  next : Nat
  capacity : Nat
  data : Nat → α

namespace Buffer
variable {α : Type}

-- `garbage` is what the fresh allocation holds
def create (capacity : Nat) (garbage : Nat → α) : Buffer α where
  size := 0
  next := 0
  capacity := capacity
  data := garbage

-- `none` is `BUFFER_ERROR`
def add (b : Buffer α) (v : α) : Option (Buffer α) :=
  if b.capacity ≤ b.size then none
  else
    let pos := b.next + b.size
    let pos := if b.capacity ≤ pos then pos - b.capacity else pos
    some { b with data := Function.update b.data pos v, size := b.size + 1 }

def remove (b : Buffer α) : Option (α × Buffer α) :=
  if 0 < b.size then
    let next := b.next + 1
    let next := if b.capacity ≤ next then next - b.capacity else next
    some (b.data b.next, { b with size := b.size - 1, next := next })
  else none

structure Valid (b : Buffer α) : Prop where
  next : b.next < b.capacity
  size : b.size ≤ b.capacity

def slot (b : Buffer α) (i : Nat) : Nat := (b.next + i) % b.capacity

def contents (b : Buffer α) : List α := (List.range b.size).map fun i => b.data (b.slot i)

@[simp] theorem length_contents (b : Buffer α) : b.contents.length = b.size := by
  simp [contents]

theorem create_valid {capacity : Nat} (h : 0 < capacity) (garbage : Nat → α) :
    (create capacity garbage).Valid := ⟨h, Nat.zero_le _⟩

theorem slot_inj {b : Buffer α} (h : b.Valid) {i j : Nat} (hi : i < b.capacity)
    (hj : j < b.capacity) (he : b.slot i = b.slot j) : i = j := by
  have hn := h.next
  unfold slot at he
  have split : ∀ k < b.capacity, (b.next + k) % b.capacity =
      if b.next + k < b.capacity then b.next + k else b.next + k - b.capacity := by
    intro k hk
    split
    · exact Nat.mod_eq_of_lt ‹_›
    · rw [Nat.mod_eq_sub_mod (by omega), Nat.mod_eq_of_lt (by omega)]
  rw [split i hi, split j hj] at he
  split at he <;> split at he <;> omega

theorem wrapped {b : Buffer α} (h : b.Valid) {i : Nat} (hi : i ≤ b.capacity) :
    (if b.capacity ≤ b.next + i then b.next + i - b.capacity else b.next + i) = b.slot i := by
  have hn := h.next
  unfold slot
  split
  · rw [Nat.mod_eq_sub_mod ‹_›, Nat.mod_eq_of_lt (by omega)]
  · rw [Nat.mod_eq_of_lt (by omega)]

theorem add_eq_none {b : Buffer α} {v : α} : b.add v = none ↔ b.capacity ≤ b.size := by
  unfold add
  split <;> simp_all

theorem remove_eq_none {b : Buffer α} : b.remove = none ↔ b.size = 0 := by
  unfold remove
  split <;> simp_all
  omega

theorem add_counts {b b' : Buffer α} {v : α} (h : b.add v = some b') :
    b'.size = b.size + 1 ∧ b'.capacity = b.capacity ∧ b.size < b.capacity := by
  unfold add at h
  split at h
  · cases h
  · cases h
    exact ⟨rfl, rfl, by omega⟩

theorem remove_counts {b b' : Buffer α} {v : α} (h : b.remove = some (v, b')) :
    b.size = b'.size + 1 ∧ b'.capacity = b.capacity := by
  unfold remove at h
  split at h
  · cases h
    exact ⟨by dsimp only; omega, rfl⟩
  · cases h

theorem add_spec {b b' : Buffer α} {v : α} (h : b.Valid) (ha : b.add v = some b') :
    b'.Valid ∧ b'.contents = b.contents ++ [v] ∧ b'.size = b.size + 1 ∧
      b'.capacity = b.capacity ∧ b.size < b.capacity := by
  unfold add at ha
  split at ha
  · cases ha
  · rename_i hroom
    have hn := h.next
    dsimp only at ha
    rw [wrapped h h.size] at ha
    cases ha
    refine ⟨⟨hn, by dsimp only; omega⟩, ?_, rfl, rfl, by omega⟩
    simp only [contents, List.range_succ, List.map_append, List.map_cons, List.map_nil]
    refine congrArg₂ _ (List.map_congr_left fun i hi => ?_) ?_
    · have hi := List.mem_range.mp hi
      refine Function.update_of_ne (fun he => ?_) _ _
      have := slot_inj h (by omega) (by omega) he
      omega
    · exact congrArg (· :: []) (Function.update_self _ _ _)

theorem remove_spec {b b' : Buffer α} {v : α} (h : b.Valid) (hr : b.remove = some (v, b')) :
    b'.Valid ∧ b.contents = v :: b'.contents ∧ b.size = b'.size + 1 ∧
      b'.capacity = b.capacity := by
  unfold remove at hr
  split at hr
  · rename_i hsize
    have hn := h.next
    have hs := h.size
    dsimp only at hr
    rw [wrapped h (by omega)] at hr
    cases hr
    refine ⟨⟨Nat.mod_lt _ (by omega), by dsimp only; omega⟩, ?_, by dsimp only; omega, rfl⟩
    obtain ⟨n, hn'⟩ := Nat.exists_eq_succ_of_ne_zero (by omega : b.size ≠ 0)
    simp only [contents, hn', Nat.succ_eq_add_one, Nat.add_sub_cancel, List.range_succ_eq_map,
      List.map_cons, List.map_map]
    refine congrArg₂ _ ?_ (List.map_congr_left fun i hi => ?_)
    · simp [slot, Nat.mod_eq_of_lt hn]
    · simp only [Function.comp, slot]
      congr 1
      rw [Nat.mod_add_mod]
      congr 1
      omega
  · cases hr

end Buffer

end OperatingSystems.Concurrency
