import OperatingSystems.Driver.StreeSplay
import OperatingSystems.Library.SortedMap

namespace OperatingSystems.Driver
open LinkedTree LinkedTree.NodeTree LinkedTree.Links SortedMap

namespace Tree
variable {ν ρ : Type} {t : Tree ν ρ} {s sub : NodeTree ν} {x y z : ν} {path : List (Frame ν)}
  {key : Int}

structure Keyed (t : Tree ν ρ) (s : NodeTree ν) : Prop extends Rooted t s where
  sorted : s.nodes.Pairwise fun x y => t.key x < t.key y
  cells : ∀ x, t.live x = true → x ∈ s.nodes

structure Standing (t : Tree ν ρ) (s : NodeTree ν) : Prop extends Keyed t s where
  count : t.nodeCount = s.nodes.length

def entry (t : Tree ν ρ) (x : ν) : Int × Option ρ := (t.key x, t.record x)

def entries (t : Tree ν ρ) (s : NodeTree ν) : Entries Int (Option ρ) := s.nodes.map t.entry

structure Narrow (t : Tree ν ρ) (key : Int) (path : List (Frame ν)) : Prop where
  before : ∀ x ∈ before path, t.key x < key
  behind : ∀ x ∈ behind path, key < t.key x

theorem narrow_nil : Narrow t key [] := ⟨by simp [before], by simp [behind]⟩

section
variable {l r : NodeTree ν} (hs : (plug (node l z r) path).nodes.Pairwise fun x y => t.key x < t.key y)
  (h : Narrow t key path)
include hs h

theorem narrow_right (hz : t.key z < key) : Narrow t key (⟨.right, z, l⟩ :: path) := by
  refine ⟨fun x hx => ?_, h.behind⟩
  rw [nodes_plug, nodes_node] at hs
  simp only [LinkedTree.before, List.mem_append, List.mem_singleton] at hx
  rcases hx with (hx | hx) | rfl
  · exact h.before x hx
  · refine lt_trans ?_ hz
    have hl := (List.pairwise_append.mp (List.pairwise_append.mp hs).1).2.1
    exact (List.pairwise_append.mp hl).2.2 x hx z List.mem_cons_self
  · exact hz

theorem narrow_left (hz : key < t.key z) : Narrow t key (⟨.left, z, r⟩ :: path) := by
  refine ⟨h.before, fun x hx => ?_⟩
  rw [nodes_plug, nodes_node] at hs
  simp only [LinkedTree.behind, List.cons_append, List.mem_cons, List.mem_append] at hx
  rcases hx with rfl | hx | hx
  · exact hz
  · refine lt_trans hz ?_
    have hr := (List.pairwise_append.mp (List.pairwise_append.mp hs).1).2.1
    exact List.rel_of_pairwise_cons (List.pairwise_append.mp hr).2.1 hx
  · exact h.behind x hx

end

inductive Arrival (t : Tree ν ρ) (s : NodeTree ν) (key : Int) : Option ν → List (Frame ν) → Prop
  | found {l r : NodeTree ν} {z : ν} {path : List (Frame ν)} (tree : plug (node l z r) path = s)
      (holds : t.key z = key) : Arrival t s key (some z) path
  | missing {path : List (Frame ν)} (tree : plug nil path = s) (narrow : Narrow t key path) :
      Arrival t s key none path

section
variable (h : Rooted t (plug sub path))
  (hs : (plug sub path).nodes.Pairwise fun x y => t.key x < t.key y) (hn : Narrow t key path)
  {fuel : Nat} (hfuel : sub.nodes.length < fuel)
include h hs hn hfuel

theorem descend_arrives : ∃ found path', Arrival t (plug sub path) key found path' ∧
    t.descend key fuel sub.root (owner (place path)) = some (found, owner (place path')) := by
  induction sub generalizing path fuel with
  | nil =>
    cases fuel with
    | zero => exact absurd hfuel (Nat.not_lt_zero _)
    | succ fuel => exact ⟨none, path, .missing rfl hn, rfl⟩
  | node l z r ihl ihr =>
    cases fuel with
    | zero => exact absurd hfuel (Nat.not_lt_zero _)
    | succ fuel =>
      have hz := h.live z (target_mem (mem_place (node l z r) path))
      simp only [nodes_node, List.length_append, List.length_cons] at hfuel
      simp only [root_node, descend, Option.bind_eq_bind, deref_live hz, Option.bind_some]
      rcases lt_trichotomy key (t.key z) with hlt | heq | hlt
      · rw [if_neg hlt.ne, if_neg hlt.not_gt,
          h.represents.child_eq (mem_child .left l z r path)]
        exact ihl (show Rooted t (plug l (⟨.left, z, r⟩ :: path)) from h) hs
          (narrow_left hs hn hlt) (by omega)
      · rw [if_pos heq]
        exact ⟨some z, path, .found rfl heq.symm, rfl⟩
      · rw [if_neg hlt.ne', if_pos hlt, h.represents.child_eq (mem_child .right r z l path)]
        exact ihr (show Rooted t (plug r (⟨.right, z, l⟩ :: path)) from h) hs
          (narrow_right hs hn hlt) (by omega)

theorem descendNearest_arrives : ∃ found path', Arrival t (plug sub path) key found path' ∧
    t.descendNearest key fuel sub.root (before path).getLast? =
      some (found.orElse fun _ => (before path').getLast?) := by
  induction sub generalizing path fuel with
  | nil =>
    cases fuel with
    | zero => exact absurd hfuel (Nat.not_lt_zero _)
    | succ fuel => exact ⟨none, path, .missing rfl hn, rfl⟩
  | node l z r ihl ihr =>
    cases fuel with
    | zero => exact absurd hfuel (Nat.not_lt_zero _)
    | succ fuel =>
      have hz := h.live z (target_mem (mem_place (node l z r) path))
      simp only [nodes_node, List.length_append, List.length_cons] at hfuel
      simp only [root_node, descendNearest, Option.bind_eq_bind, deref_live hz, Option.bind_some]
      rcases lt_trichotomy key (t.key z) with hlt | heq | hlt
      · rw [if_neg hlt.ne, if_neg hlt.not_gt,
          h.represents.child_eq (mem_child .left l z r path)]
        exact ihl (show Rooted t (plug l (⟨.left, z, r⟩ :: path)) from h) hs
          (narrow_left hs hn hlt) (by omega)
      · rw [if_pos heq]
        exact ⟨some z, path, .found rfl heq.symm, rfl⟩
      · rw [if_neg hlt.ne', if_pos hlt, h.represents.child_eq (mem_child .right r z l path)]
        have hsize : r.nodes.length < fuel := by omega
        have hnext := ihr (show Rooted t (plug r (⟨.right, z, l⟩ :: path)) from h) hs
          (narrow_right hs hn hlt) hsize
        rw [show (before (⟨.right, z, l⟩ :: path)).getLast? = some z by simp [before]] at hnext
        cases hlast : (before path).getLast? with
        | none => exact hnext
        | some n =>
          have hmem : n ∈ before path := List.mem_of_getLast? hlast
          have hn : t.live n = true := h.live n (by rw [nodes_plug]; simp [hmem])
          have hlt : t.key n < t.key z := by
            rw [nodes_plug, List.append_assoc] at hs
            exact (List.pairwise_append.mp hs).2.2 n hmem z (by simp)
          simp only [deref_live hn, Option.map_some, Option.bind_some, hlt, decide_true, if_true]
          exact hnext

end

theorem Arrival.found_split (hs : s.nodes.Pairwise fun x y => t.key x < t.key y)
    (ha : Arrival t s key (some z) path) : ∃ b c, s.nodes = b ++ z :: c ∧ t.key z = key ∧
      (∀ x ∈ b, t.key x < key) ∧ ∀ x ∈ c, key < t.key x := by
  cases ha with
  | @found l r _ _ tree holds =>
    have hnodes : s.nodes = (before path ++ l.nodes) ++ z :: (r.nodes ++ behind path) := by
      rw [← tree, nodes_plug, nodes_node]
      simp
    rw [hnodes] at hs
    obtain ⟨-, hcons, hall⟩ := List.pairwise_append.mp hs
    refine ⟨_, _, hnodes, holds, fun x hx => ?_, fun x hx => ?_⟩
    · exact holds ▸ hall x hx z List.mem_cons_self
    · exact holds ▸ List.rel_of_pairwise_cons hcons hx

theorem Arrival.missing_split (ha : Arrival t s key none path) :
    s.nodes = before path ++ behind path ∧ Narrow t key path := by
  cases ha with
  | missing tree narrow =>
    rw [← tree, nodes_plug]
    exact ⟨by simp, narrow⟩

theorem entry_below {b : List ν} (hb : ∀ x ∈ b, t.key x < key) :
    ∀ e ∈ b.map t.entry, e.1 < key := by
  intro e he
  obtain ⟨x, hx, rfl⟩ := List.mem_map.mp he
  exact hb x hx

theorem entry_above {c : List ν} (hc : ∀ x ∈ c, key < t.key x) :
    ∀ e ∈ c.map t.entry, key < e.1 := by
  intro e he
  obtain ⟨x, hx, rfl⟩ := List.mem_map.mp he
  exact hc x hx

theorem entries_split {b c : List ν} (hs : s.nodes = b ++ z :: c) (hz : t.key z = key) :
    t.entries s = b.map t.entry ++ (key, t.record z) :: c.map t.entry := by
  rw [entries, hs, List.map_append, List.map_cons, entry, hz]

section
variable [Fintype ν] (h : Keyed t s)
include h

theorem descend_steps (key : Int) : ∃ found path, Arrival t s key found path ∧
    t.descend key t.steps t.root none = some (found, owner (place path)) := by
  have hroot : t.root = s.root := h.represents.target_eq (mem_place s [])
  rw [hroot]
  exact descend_arrives (show Rooted t (plug s []) from h.toRooted) h.sorted narrow_nil
    (Nat.lt_succ_of_le h.nodup.length_le_card)

theorem nearest_steps (key : Int) : ∃ found path, Arrival t s key found path ∧
    t.descendNearest key t.steps t.root none =
      some (found.orElse fun _ => (before path).getLast?) := by
  have hroot : t.root = s.root := h.represents.target_eq (mem_place s [])
  rw [hroot]
  exact descendNearest_arrives (show Rooted t (plug s []) from h.toRooted) h.sorted narrow_nil
    (Nat.lt_succ_of_le h.nodup.length_le_card)

theorem treeFind_eq (key : Int) :
    t.treeFind key = some (lookup (t.entries s) key).join := by
  obtain ⟨found, path, ha, hd⟩ := descend_steps h key
  rw [treeFind, hd]
  cases found with
  | none =>
    obtain ⟨hs, hn⟩ := ha.missing_split
    rw [entries, hs, List.map_append, lookup_none (entry_below hn.before) (entry_above hn.behind)]
    rfl
  | some z =>
    obtain ⟨b, c, hs, hz, hb, -⟩ := ha.found_split h.sorted
    rw [entries_split hs hz, lookup_at (entry_below hb)]
    exact deref_live (h.live z (by rw [hs]; simp)) _

theorem treeFindNearest_eq (key : Int) :
    t.treeFindNearest key = some (nearest (t.entries s) key).join := by
  obtain ⟨found, path, ha, hd⟩ := nearest_steps h key
  rw [treeFindNearest, hd]
  cases found with
  | none =>
    obtain ⟨hs, hn⟩ := ha.missing_split
    rw [entries, hs, List.map_append, nearest_between (entry_below hn.before)
      (entry_above hn.behind), List.getLast?_map]
    cases hlast : (before path).getLast? with
    | none => rfl
    | some n =>
      have hmem : n ∈ s.nodes := by
        rw [hs]
        exact List.mem_append_left _ (List.mem_of_getLast? hlast)
      exact deref_live (h.live n hmem) _
  | some z =>
    obtain ⟨b, c, hs, hz, hb, hc⟩ := ha.found_split h.sorted
    rw [entries_split hs hz, nearest_at (entry_below hb) (entry_above hc)]
    exact deref_live (h.live z (by rw [hs]; simp)) _

end

end Tree
end OperatingSystems.Driver
