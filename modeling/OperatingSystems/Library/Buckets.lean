import Mathlib.Data.List.FinRange
import Mathlib.Logic.Function.Basic
import Mathlib.Tactic.Common

namespace OperatingSystems.Buckets

variable {δ κ : Type} [DecidableEq κ]

theorem flatMap_update {q : κ → List δ} {l : κ} (xs : List δ) {keys : List κ} (hnd : keys.Nodup)
    (hl : l ∈ keys) :
    (q l ++ keys.flatMap (Function.update q l xs)).Perm (xs ++ keys.flatMap q) := by
  induction keys with
  | nil => cases hl
  | cons i keys ih =>
    rw [List.nodup_cons] at hnd
    rw [List.flatMap_cons, List.flatMap_cons]
    rcases eq_or_ne i l with rfl | hne
    · have hrest : keys.flatMap (Function.update q i xs) = keys.flatMap q := by
        apply List.flatMap_congr
        intro j hj
        have hne : j ≠ i := fun he => hnd.1 (he ▸ hj)
        exact Function.update_of_ne hne xs q
      rw [Function.update_self, hrest, ← List.append_assoc, ← List.append_assoc]
      exact List.perm_append_comm.append_right _
    · have hmem : l ∈ keys := (List.mem_cons.mp hl).resolve_left hne.symm
      rw [Function.update_of_ne hne]
      refine (List.perm_append_comm_assoc (q l) (q i) _).trans ?_
      exact ((ih hnd.2 hmem).append_left (q i)).trans (List.perm_append_comm_assoc (q i) xs _)

variable {n : Nat}

def contents (q : Fin n → List δ) : List δ := (List.finRange n).flatMap q

theorem mem_contents {q : Fin n → List δ} {x : δ} : x ∈ contents q ↔ ∃ l, x ∈ q l := by
  simp [contents]

theorem contents_nil {q : Fin n → List δ} : contents q = [] ↔ ∀ l, q l = [] := by
  simp [contents]

theorem contents_update (q : Fin n → List δ) (l : Fin n) (xs : List δ) :
    (q l ++ contents (Function.update q l xs)).Perm (xs ++ contents q) :=
  flatMap_update xs (List.nodup_finRange n) (List.mem_finRange l)

theorem contents_push (q : Fin n → List δ) (l : Fin n) (x : δ) :
    (contents (Function.update q l (q l ++ [x]))).Perm (x :: contents q) := by
  have h := contents_update q l (q l ++ [x])
  rw [List.append_assoc] at h
  exact (List.perm_append_left_iff (q l)).mp h

theorem contents_pop {q : Fin n → List δ} {l : Fin n} {x : δ} {xs : List δ} (h : q l = x :: xs) :
    (x :: contents (Function.update q l xs)).Perm (contents q) := by
  have hall := contents_update q l xs
  rw [h, List.cons_append] at hall
  exact (List.perm_append_left_iff xs).mp (List.perm_middle.trans hall)

end OperatingSystems.Buckets
