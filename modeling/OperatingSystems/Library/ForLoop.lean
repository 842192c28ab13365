import Mathlib.Data.List.Basic
import Mathlib.Tactic.Common

namespace OperatingSystems.ForLoop

variable {α β : Type}

-- `for (a; go a; a = next a)` with the outputs of its body; `none` when the fuel runs out
def forLoop (next : α → α) (go : α → Prop) [DecidablePred go] (body : α → Option (List β)) :
    Nat → α → Option (List β)
  | 0, _ => none
  | fuel + 1, a =>
    if go a then (body a).bind fun out => (forLoop next go body fuel (next a)).map (out ++ ·)
    else some []

def findLoop (next : α → α) (go test : α → Prop) [DecidablePred go] [DecidablePred test] :
    Nat → α → Option Bool
  | 0, _ => none
  | fuel + 1, a =>
    if go a then if test a then some true else findLoop next go test fuel (next a)
    else some false

-- `while (go a) a = next a` with the value of `a` behind it
def whileLoop (next : α → α) (go : α → Prop) [DecidablePred go] : Nat → α → Option α
  | 0, _ => none
  | fuel + 1, a => if go a then whileLoop next go fuel (next a) else some a

def Walk (next : α → α) (go : α → Prop) (last : α) : α → List α → Prop
  | a, [] => a = last
  | a, x :: l => x = a ∧ go a ∧ Walk next go last (next a) l

variable {next : α → α} {go : α → Prop} {last : α}

instance decidableWalk [DecidableEq α] [DecidablePred go] :
    (a : α) → (l : List α) → Decidable (Walk next go last a l)
  | a, [] => inferInstanceAs (Decidable (a = last))
  | a, x :: l =>
    let _ : Decidable (Walk next go last (next a) l) := decidableWalk (next a) l
    inferInstanceAs (Decidable (x = a ∧ go a ∧ Walk next go last (next a) l))

@[simp] theorem walk_nil {a : α} : Walk next go last a [] ↔ a = last := Iff.rfl

@[simp] theorem walk_cons {a x : α} {l : List α} :
    Walk next go last a (x :: l) ↔ x = a ∧ go a ∧ Walk next go last (next a) l := Iff.rfl

section
variable {a : α} {l : List α} (h : Walk next go last a l) (hlast : ¬ go last)
include h hlast

theorem Walk.unique {l' : List α} (h' : Walk next go last a l') : l' = l := by
  induction l generalizing a l' with
  | nil =>
    cases l' with
    | nil => rfl
    | cons y l' => exact absurd (walk_nil.mp h ▸ h'.2.1) hlast
  | cons x l ih =>
    cases l' with
    | nil => exact absurd (walk_nil.mp h' ▸ h.2.1) hlast
    | cons y l' => rw [h.1, h'.1, ih h.2.2 h'.2.2]

theorem forLoop_walk [DecidablePred go] {body : α → Option (List β)} {out : α → List β}
    (hbody : ∀ x ∈ l, body x = some (out x)) {fuel : Nat} (hfuel : l.length < fuel) :
    forLoop next go body fuel a = some (l.flatMap out) := by
  induction l generalizing a fuel with
  | nil =>
    obtain ⟨fuel, rfl⟩ := Nat.exists_eq_succ_of_ne_zero (Nat.ne_zero_of_lt hfuel)
    rw [forLoop, if_neg (walk_nil.mp h ▸ hlast), List.flatMap_nil]
  | cons x l ih =>
    obtain ⟨fuel, rfl⟩ := Nat.exists_eq_succ_of_ne_zero (Nat.ne_zero_of_lt hfuel)
    obtain ⟨rfl, hgo, hrest⟩ := h
    have hnext := ih hrest (fun y hy => hbody y (List.mem_cons_of_mem _ hy))
      (Nat.lt_of_succ_lt_succ hfuel)
    rw [forLoop, if_pos hgo, hbody x List.mem_cons_self, Option.bind_some, hnext, Option.map_some,
      List.flatMap_cons]

theorem whileLoop_walk [DecidablePred go] {fuel : Nat} (hfuel : l.length < fuel) :
    whileLoop next go fuel a = some last := by
  induction l generalizing a fuel with
  | nil =>
    obtain ⟨fuel, rfl⟩ := Nat.exists_eq_succ_of_ne_zero (Nat.ne_zero_of_lt hfuel)
    rw [whileLoop, if_neg (walk_nil.mp h ▸ hlast), walk_nil.mp h]
  | cons x l ih =>
    obtain ⟨fuel, rfl⟩ := Nat.exists_eq_succ_of_ne_zero (Nat.ne_zero_of_lt hfuel)
    obtain ⟨rfl, hgo, hrest⟩ := h
    rw [whileLoop, if_pos hgo]
    exact ih hrest (Nat.lt_of_succ_lt_succ hfuel)

theorem findLoop_walk [DecidablePred go] {test : α → Prop} [DecidablePred test] {fuel : Nat}
    (hfuel : l.length < fuel) :
    findLoop next go test fuel a = some (decide (∃ x ∈ l, test x)) := by
  induction l generalizing a fuel with
  | nil =>
    obtain ⟨fuel, rfl⟩ := Nat.exists_eq_succ_of_ne_zero (Nat.ne_zero_of_lt hfuel)
    simp [findLoop, walk_nil.mp h ▸ hlast]
  | cons x l ih =>
    obtain ⟨fuel, rfl⟩ := Nat.exists_eq_succ_of_ne_zero (Nat.ne_zero_of_lt hfuel)
    obtain ⟨rfl, hgo, hrest⟩ := h
    have hnext := ih hrest (Nat.lt_of_succ_lt_succ hfuel)
    rw [findLoop, if_pos hgo]
    by_cases ht : test x
    · simp [ht]
    · simp [ht, hnext]

end

end OperatingSystems.ForLoop
