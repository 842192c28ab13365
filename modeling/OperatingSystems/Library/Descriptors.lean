import Mathlib.Data.List.Basic
import Mathlib.Tactic.Common

namespace OperatingSystems.Descriptors

variable {δ : Type}

abbrev Table (δ : Type) := List (Option δ)

def lookup (t : Table δ) (fd : Nat) : Option δ := t.getD fd none

def put : Table δ → Nat → δ → Table δ
  | [], 0, d => [some d]
  | [], fd + 1, d => none :: put [] fd d
  | _ :: t, 0, d => some d :: t
  | x :: t, fd + 1, d => x :: put t fd d

def lowest : Table δ → Nat
  | [] => 0
  | none :: _ => 0
  | some _ :: t => lowest t + 1

def allocate (t : Table δ) (d : δ) : Table δ := put t (lowest t) d

def close (t : Table δ) (fd : Nat) : Table δ := t.set fd none

-- nothing happens when `old` is not open
def dup2 (t : Table δ) (old new : Nat) : Table δ :=
  match lookup t old with
  | none => t
  | some d => if old = new then t else put t new d

theorem lookup_nil (fd : Nat) : lookup ([] : Table δ) fd = none := rfl

@[simp] theorem lookup_zero (x : Option δ) (t : Table δ) : lookup (x :: t) 0 = x := rfl

@[simp] theorem lookup_succ (x : Option δ) (t : Table δ) (fd : Nat) :
    lookup (x :: t) (fd + 1) = lookup t fd := rfl

theorem lookup_put (t : Table δ) (fd : Nat) (d : δ) (n : Nat) :
    lookup (put t fd d) n = if n = fd then some d else lookup t n := by
  induction t, fd, d using put.induct generalizing n with
  | case1 d => cases n <;> simp [put, lookup_nil]
  | case2 fd d ih =>
    cases n with
    | zero => simp [put, lookup_nil]
    | succ n => simp [put, ih, lookup_nil]
  | case3 x t d => cases n <;> simp [put]
  | case4 x t fd d ih =>
    cases n with
    | zero => simp [put]
    | succ n => simp [put, ih]

theorem lookup_lowest (t : Table δ) : lookup t (lowest t) = none := by
  induction t using lowest.induct with
  | case1 => rfl
  | case2 t => rfl
  | case3 d t ih => simpa [lowest] using ih

theorem lookup_lt_lowest {t : Table δ} {n : Nat} (h : n < lowest t) : lookup t n ≠ none := by
  induction t using lowest.induct generalizing n with
  | case1 => exact absurd h (Nat.not_lt_zero n)
  | case2 t => exact absurd h (Nat.not_lt_zero n)
  | case3 d t ih =>
    cases n with
    | zero => exact fun hn => nomatch hn
    | succ n => exact ih (Nat.lt_of_succ_lt_succ h)

theorem lowest_unique {t : Table δ} {n : Nat} (hfree : lookup t n = none)
    (hused : ∀ m < n, lookup t m ≠ none) : lowest t = n := by
  rcases Nat.lt_trichotomy (lowest t) n with hlt | heq | hlt
  · exact absurd (lookup_lowest t) (hused _ hlt)
  · exact heq
  · exact absurd hfree (lookup_lt_lowest hlt)

theorem lookup_allocate (t : Table δ) (d : δ) (n : Nat) :
    lookup (allocate t d) n = if n = lowest t then some d else lookup t n :=
  lookup_put t (lowest t) d n

theorem lookup_close (t : Table δ) (fd n : Nat) :
    lookup (close t fd) n = if n = fd then none else lookup t n := by
  unfold lookup close
  rw [List.getD_eq_getElem?_getD, List.getD_eq_getElem?_getD, List.getElem?_set]
  by_cases hn : fd = n
  · subst hn
    by_cases hlt : fd < t.length <;> simp [hlt]
  · simp [hn, Ne.symm hn]

theorem lookup_dup2 {t : Table δ} {old : Nat} {d : δ} (h : lookup t old = some d) (new n : Nat) :
    lookup (dup2 t old new) n = if n = new then some d else lookup t n := by
  rw [dup2, h]
  by_cases he : old = new
  · subst he
    by_cases hn : n = old <;> simp [hn, h]
  · simp [he, lookup_put]

end OperatingSystems.Descriptors
