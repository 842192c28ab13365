import Mathlib.Data.List.Basic
import Mathlib.Order.Lattice
import Mathlib.Tactic.Common

namespace OperatingSystems.SortedMap

abbrev Entries (κ α : Type) := List (κ × α)

variable {κ α : Type} [LinearOrder κ]

def lookup (m : Entries κ α) (k : κ) : Option α := (m.find? fun e => e.1 = k).map Prod.snd

def insert (m : Entries κ α) (k : κ) (v : α) : Entries κ α :=
  m.filter (fun e => e.1 < k) ++ (k, v) :: m.filter fun e => k < e.1

def erase (m : Entries κ α) (k : κ) : Entries κ α := m.filter fun e => e.1 ≠ k

def nearest (m : Entries κ α) (k : κ) : Option α :=
  ((m.filter fun e => e.1 ≤ k).getLast?).map Prod.snd

theorem lookup_at {before behind : Entries κ α} {k : κ} {v : α} (hb : ∀ e ∈ before, e.1 < k) :
    lookup (before ++ (k, v) :: behind) k = some v := by
  have hnone : before.find? (fun e => e.1 = k) = none := by
    simp only [List.find?_eq_none, decide_eq_true_eq]
    exact fun e he => (hb e he).ne
  rw [lookup, List.find?_append, hnone]
  simp

section
variable {before behind : Entries κ α} {k : κ} {v : α} (hb : ∀ e ∈ before, e.1 < k)
  (ha : ∀ e ∈ behind, k < e.1)
include hb ha

theorem lookup_none : lookup (before ++ behind) k = none := by
  simp only [lookup, Option.map_eq_none_iff, List.find?_eq_none, List.mem_append, decide_eq_true_eq]
  rintro e (he | he)
  · exact (hb e he).ne
  · exact (ha e he).ne'

theorem insert_between : insert (before ++ behind) k v = before ++ (k, v) :: behind := by
  have hbefore : before.filter (fun e => e.1 < k) = before :=
    List.filter_eq_self.mpr fun e he => by simpa using hb e he
  have hbehind : behind.filter (fun e => k < e.1) = behind :=
    List.filter_eq_self.mpr fun e he => by simpa using ha e he
  have hbefore' : before.filter (fun e => k < e.1) = [] :=
    List.filter_eq_nil_iff.mpr fun e he => by simpa using (hb e he).le
  have hbehind' : behind.filter (fun e => e.1 < k) = [] :=
    List.filter_eq_nil_iff.mpr fun e he => by simpa using (ha e he).le
  rw [insert, List.filter_append, List.filter_append, hbefore, hbehind, hbefore', hbehind',
    List.append_nil, List.nil_append]

theorem erase_between : erase (before ++ behind) k = before ++ behind := by
  refine List.filter_eq_self.mpr fun e he => ?_
  rcases List.mem_append.mp he with he | he
  · simpa using (hb e he).ne
  · simpa using (ha e he).ne'

theorem nearest_between : nearest (before ++ behind) k = before.getLast?.map Prod.snd := by
  have hbefore : before.filter (fun e => e.1 ≤ k) = before :=
    List.filter_eq_self.mpr fun e he => by simpa using (hb e he).le
  have hbehind : behind.filter (fun e => e.1 ≤ k) = [] :=
    List.filter_eq_nil_iff.mpr fun e he => by simpa using ha e he
  rw [nearest, List.filter_append, hbefore, hbehind, List.append_nil]

theorem erase_at : erase (before ++ (k, v) :: behind) k = before ++ behind := by
  have hbefore : before.filter (fun e => e.1 ≠ k) = before :=
    List.filter_eq_self.mpr fun e he => by simpa using (hb e he).ne
  have hbehind : behind.filter (fun e => e.1 ≠ k) = behind :=
    List.filter_eq_self.mpr fun e he => by simpa using (ha e he).ne'
  rw [erase, List.filter_append, List.filter_cons, hbefore, hbehind]
  simp

theorem nearest_at : nearest (before ++ (k, v) :: behind) k = some v := by
  have hbefore : before.filter (fun e => e.1 ≤ k) = before :=
    List.filter_eq_self.mpr fun e he => by simpa using (hb e he).le
  have hbehind : behind.filter (fun e => e.1 ≤ k) = [] :=
    List.filter_eq_nil_iff.mpr fun e he => by simpa using ha e he
  rw [nearest, List.filter_append, List.filter_cons, hbefore, hbehind]
  simp

end

end OperatingSystems.SortedMap
