import Mathlib.Data.List.Basic
import Mathlib.Tactic.Common

namespace OperatingSystems.CString

abbrev Buffer := List UInt8

def lineFeed : UInt8 := 10

-- `none` stands for an access behind the end of the buffer
def strlen (buf : Buffer) : Option Nat := if 0 ∈ buf then some (buf.idxOf 0) else none

def store (buf : Buffer) (i : Nat) (b : UInt8) : Option Buffer :=
  if i < buf.length then some (buf.set i b) else none

def strcat (dst src : Buffer) : Option Buffer := do
  let n ← strlen dst
  let m ← strlen src
  if n + m < dst.length then
    some (dst.take n ++ (src.take m ++ 0 :: dst.drop (n + m + 1)))
  else none

-- `garbage` is what the new bytes hold
def realloc (garbage : Nat → UInt8) (buf : Option Buffer) (size : Nat) : Buffer :=
  let old := buf.getD []
  old.take size ++ (List.range (size - old.length)).map garbage

def lineBytes : Nat → List UInt8 → List UInt8
  | 0, _ => []
  | _ + 1, [] => []
  | n + 1, c :: stream => if c = lineFeed then [c] else c :: lineBytes n stream

def fgets (buf : Buffer) (size : Nat) (stream : List UInt8) : Option (Buffer × List UInt8) :=
  match stream with
  | [] => none
  | _ =>
    let bytes := lineBytes (size - 1) stream
    some (bytes ++ 0 :: buf.drop (bytes.length + 1), stream.drop bytes.length)

structure Spells (buf : Buffer) (s : List UInt8) : Prop where
  clean : 0 ∉ s
  split : ∃ rest, buf = s ++ 0 :: rest

section
variable {buf dst src : Buffer} {s t stream : List UInt8}

theorem spells_terminated (h : 0 ∉ s) (rest : List UInt8) : Spells (s ++ 0 :: rest) s :=
  ⟨h, rest, rfl⟩

theorem spells_unique (h : Spells buf s) (h' : Spells buf t) : s = t := by
  obtain ⟨hs, r, rfl⟩ := h
  obtain ⟨ht, r', h'⟩ := h'
  have hidx : (s ++ 0 :: r).idxOf 0 = (t ++ 0 :: r').idxOf 0 := congrArg (List.idxOf 0) h'
  rw [List.idxOf_append_of_notMem hs, List.idxOf_append_of_notMem ht] at hidx
  exact List.append_inj_left h' (by simpa using hidx)

theorem strlen_spells (h : Spells buf s) : strlen buf = some s.length := by
  obtain ⟨hs, r, rfl⟩ := h
  rw [strlen, if_pos (by simp), List.idxOf_append_of_notMem hs, List.idxOf_cons_self, Nat.add_zero]

theorem spells_length (h : Spells buf s) : s.length < buf.length := by
  obtain ⟨-, r, rfl⟩ := h
  simp

theorem spells_append (h : Spells buf s) (more : List UInt8) : Spells (buf ++ more) s := by
  obtain ⟨hs, r, rfl⟩ := h
  exact ⟨hs, r ++ more, by simp⟩

theorem strcat_spells (hd : Spells dst s) (hs : Spells src t)
    (hroom : s.length + t.length < dst.length) :
    ∃ line, strcat dst src = some line ∧ line.length = dst.length ∧ Spells line (s ++ t) := by
  obtain ⟨hs₀, r, rfl⟩ := hd
  obtain ⟨ht₀, r', rfl⟩ := hs
  rw [strcat, strlen_spells ⟨hs₀, r, rfl⟩, strlen_spells ⟨ht₀, r', rfl⟩]
  simp only [Option.bind_eq_bind, Option.bind_some, if_pos hroom, List.take_left]
  refine ⟨_, rfl, ?_, ?_, _, (List.append_assoc _ _ _).symm⟩
  · simp only [List.length_append, List.length_cons, List.length_drop] at hroom ⊢
    omega
  · simp [hs₀, ht₀]

theorem store_zero (h : Spells buf s) {i : Nat} (hi : i ≤ s.length) :
    ∃ buf', store buf i 0 = some buf' ∧ buf'.length = buf.length ∧ Spells buf' (s.take i) := by
  have hlen := spells_length h
  refine ⟨_, if_pos (by omega), List.length_set, ?_⟩
  obtain ⟨hs₀, r, rfl⟩ := h
  refine ⟨fun hm => hs₀ (List.mem_of_mem_take hm), (s ++ 0 :: r).drop (i + 1), ?_⟩
  rw [List.set_eq_take_append_cons_drop, if_pos (by simp; omega), List.take_append_of_le_length hi]

theorem store_first {b : UInt8} : ∃ buf', store (b :: buf) 0 0 = some buf' ∧
    buf'.length = (b :: buf).length ∧ Spells buf' [] :=
  ⟨0 :: buf, rfl, rfl, by simp, buf, rfl⟩

theorem store_behind (h : Spells buf s) (b : UInt8) (more : Buffer) :
    ∃ buf', store (buf ++ b :: more) buf.length 0 = some buf' ∧
      buf'.length = (buf ++ b :: more).length ∧ Spells buf' s := by
  refine ⟨buf ++ 0 :: more, ?_, by simp, spells_append h _⟩
  rw [store, if_pos (by simp), List.set_append_right _ _ (Nat.le_refl _), Nat.sub_self,
    List.set_cons_zero]

theorem realloc_length (garbage : Nat → UInt8) (buf : Option Buffer) {size : Nat}
    (h : (buf.getD []).length ≤ size) : (realloc garbage buf size).length = size := by
  simp only [realloc, List.length_append, List.length_take, List.length_map, List.length_range]
  omega

theorem realloc_grow (garbage : Nat → UInt8) (buf : Option Buffer) {size : Nat}
    (h : (buf.getD []).length < size) :
    ∃ b more, realloc garbage buf size = buf.getD [] ++ b :: more := by
  obtain ⟨n, hn⟩ := Nat.exists_eq_add_of_lt h
  refine ⟨garbage 0, (List.range n).map fun i => garbage (i + 1), ?_⟩
  have hsub : size - (buf.getD []).length = n + 1 := by omega
  rw [realloc, List.take_of_length_le (Nat.le_of_lt h), hsub, List.range_succ_eq_map]
  simp [Function.comp_def]

theorem lineBytes_open {n : Nat} (hs : lineFeed ∉ s) (hn : s.length = n ∨ s.length ≤ n ∧ t = []) :
    lineBytes n (s ++ t) = s := by
  induction s generalizing n with
  | nil =>
    rcases hn with rfl | ⟨-, rfl⟩
    · rfl
    · cases n <;> rfl
  | cons c s ih =>
    rw [List.mem_cons, not_or] at hs
    obtain ⟨n, rfl⟩ : ∃ m, n = m + 1 := Nat.exists_eq_succ_of_ne_zero (by
      rw [List.length_cons] at hn
      omega)
    rw [List.cons_append, lineBytes, if_neg (Ne.symm hs.1), ih hs.2]
    exact hn.imp Nat.succ.inj fun hn => ⟨Nat.le_of_succ_le_succ hn.1, hn.2⟩

theorem lineBytes_closed {n : Nat} (hs : lineFeed ∉ s) (hn : s.length < n) :
    lineBytes n (s ++ lineFeed :: t) = s ++ [lineFeed] := by
  induction s generalizing n with
  | nil =>
    obtain ⟨n, rfl⟩ := Nat.exists_eq_succ_of_ne_zero (Nat.ne_zero_of_lt hn)
    simp [lineBytes]
  | cons c s ih =>
    rw [List.mem_cons, not_or] at hs
    obtain ⟨n, rfl⟩ := Nat.exists_eq_succ_of_ne_zero (Nat.ne_zero_of_lt hn)
    rw [List.cons_append, lineBytes, if_neg (Ne.symm hs.1), ih hs.2 (Nat.lt_of_succ_lt_succ hn),
      List.cons_append]

theorem fgets_reads {n : Nat} (hne : s ≠ []) (hclean : 0 ∉ s)
    (hbytes : lineBytes (n - 1) (s ++ t) = s) (hroom : s.length < buf.length) :
    ∃ buf', fgets buf n (s ++ t) = some (buf', t) ∧ buf'.length = buf.length ∧ Spells buf' s := by
  obtain ⟨c, s', rfl⟩ := List.exists_cons_of_ne_nil hne
  refine ⟨c :: s' ++ 0 :: buf.drop ((c :: s').length + 1), ?_, ?_, spells_terminated hclean _⟩
  · change some (_, _) = _
    rw [hbytes, List.drop_left]
  · simp only [List.length_append, List.length_cons, List.length_drop] at hroom ⊢
    omega

end

end OperatingSystems.CString
