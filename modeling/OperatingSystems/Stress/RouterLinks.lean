import Mathlib.Logic.Equiv.Basic
import OperatingSystems.Stress.Router

namespace OperatingSystems.Stress
open Concurrency

variable {n : Nat} {topology : Topology n} {i j : Fin n} {r r' : Router n}

def Topology.Linked (topology : Topology n) (i j : Fin n) : Prop :=
  j ≠ i ∧ topology.link i j ≠ infDistance

theorem mem_neighbors : j ∈ neighbors topology i ↔ topology.Linked i j := by
  simp [neighbors, Topology.Linked]

theorem swapChannels_eq {l : List (Link n)} {a b : Nat} {e f : Link n} (ha : l[a]? = some e)
    (hb : l[b]? = some f) (x : Nat) : (swapChannels l a b)[x]? =
      if x = b then some { f with channel := e.channel }
      else if x = a then some { e with channel := f.channel } else l[x]? := by
  have ha' : a < l.length := (List.getElem?_eq_some_iff.mp ha).1
  have hb' : b < l.length := (List.getElem?_eq_some_iff.mp hb).1
  simp only [swapChannels, ha, hb, List.getElem?_set, List.length_set]
  grind

def Router.channelAt (r : Router n) (x : Nat) : Option (Chan n) :=
  (r.selectList[x]?).map Entry.channel

def Router.Pending (r : Router n) (i : Fin n) : Prop :=
  ∃ x, 2 ≤ x ∧ x < r.selectCount ∧ r.channelAt x = some (.node i)

def RouterPc.cycling : RouterPc n → Bool
  | .cycle => true
  | .copy _ => true
  | _ => false

-- the channel that sends of the first `selectCount` are still due on, then those that are done
structure Shaped (topology : Topology n) (i : Fin n) (r : Router n) : Prop where
  length : r.selectList.length = totalSelectCount topology i
  two_le : 2 ≤ r.selectCount
  count_le : r.selectCount ≤ r.selectList.length
  done : r.selectList[0]? = some ⟨.done, .recv, none⟩
  own : r.selectList[1]? = some ⟨.node i, .recv, none⟩
  sends : ∀ x e, 2 ≤ x → r.selectList[x]? = some e → e.dir = .send ∧
    (r.pc.cycling = false → e.data = some ⟨i, r.curr⟩) ∧
      ∃ j, topology.Linked i j ∧ e.channel = .node j
  targets : ∀ j, topology.Linked i j → ∃ x, 2 ≤ x ∧ r.channelAt x = some (.node j)
  apart : ∀ x y c, 2 ≤ x → 2 ≤ y → r.channelAt x = some c → r.channelAt y = some c → x = y

theorem start_shaped (topology : Topology n) (i : Fin n) : Shaped topology i (.start topology i) := by
  have hsend (x : Nat) : (Router.start topology i).selectList[x + 2]? =
      ((neighbors topology i)[x]?).map fun j => ⟨.node j, .send, some ⟨i, 2⟩⟩ := by
    simp [Router.start]
  have hchannel (x : Nat) : (Router.start topology i).channelAt (x + 2) =
      ((neighbors topology i)[x]?).map .node := by
    rw [Router.channelAt, hsend, Option.map_map]
    rfl
  have hnodup : (neighbors topology i).Nodup := (List.nodup_finRange n).filter _
  have hlength : (Router.start topology i).selectList.length = totalSelectCount topology i := by
    simp only [Router.start, List.length_cons, List.length_map, totalSelectCount]
    omega
  refine ⟨hlength, Nat.le_add_right 2 _, hlength.ge, rfl, rfl, ?_, ?_, ?_⟩
  · intro x e hx he
    obtain ⟨x, rfl⟩ := Nat.exists_eq_add_of_le' hx
    rw [hsend] at he
    obtain ⟨j, hj, rfl⟩ := Option.map_eq_some_iff.mp he
    exact ⟨rfl, fun _ => rfl, j, mem_neighbors.mp (List.mem_of_getElem? hj), rfl⟩
  · intro j hj
    obtain ⟨x, hx⟩ := List.getElem?_of_mem (mem_neighbors.mpr hj)
    exact ⟨x + 2, Nat.le_add_left 2 x, by rw [hchannel, hx]; rfl⟩
  · intro x y c hx hy hcx hcy
    obtain ⟨x, rfl⟩ := Nat.exists_eq_add_of_le' hx
    obtain ⟨y, rfl⟩ := Nat.exists_eq_add_of_le' hy
    rw [hchannel] at hcx hcy
    obtain ⟨j, hj, rfl⟩ := Option.map_eq_some_iff.mp hcx
    obtain ⟨j', hj', he⟩ := Option.map_eq_some_iff.mp hcy
    cases he
    obtain ⟨hx, hxe⟩ := List.getElem?_eq_some_iff.mp hj
    obtain ⟨hy, hye⟩ := List.getElem?_eq_some_iff.mp hj'
    rw [(hnodup.getElem_inj_iff).mp (hxe.trans hye.symm)]

theorem Shaped.linked (h : Shaped topology i r) (hj : r.Pending j) : topology.Linked i j := by
  obtain ⟨x, hx, -, hc⟩ := hj
  obtain ⟨e, he, hce⟩ := Option.map_eq_some_iff.mp hc
  obtain ⟨-, -, j', hlinked, hj'⟩ := h.sends x e hx he
  cases hce.symm.trans hj'
  exact hlinked

theorem Shaped.keep (h : Shaped topology i r) (list : r'.selectList = r.selectList)
    (count : r'.selectCount = r.selectCount)
    (curr : r'.pc.cycling = false → r'.curr = r.curr ∧ r.pc.cycling = false) :
    Shaped topology i r' := by
  refine ⟨by rw [list]; exact h.length, by rw [count]; exact h.two_le,
    by rw [count, list]; exact h.count_le, by rw [list]; exact h.done, by rw [list]; exact h.own,
    ?_, ?_, ?_⟩
  · rw [list]
    intro x e hx he
    obtain ⟨hdir, hdata, hj⟩ := h.sends x e hx he
    refine ⟨hdir, fun hc => ?_, hj⟩
    rw [(curr hc).1]
    exact hdata (curr hc).2
  · simpa only [Router.channelAt, list] using h.targets
  · simpa only [Router.channelAt, list] using h.apart

theorem pending_keep (list : r'.selectList = r.selectList) (count : r'.selectCount = r.selectCount) :
    r'.Pending j ↔ r.Pending j := by
  simp only [Router.Pending, Router.channelAt, list, count]

section
variable {x : Nat}

theorem sent_channelAt (h : Shaped topology i r) (hx : x < r.selectCount) (y : Nat) :
    (r.sent x).channelAt y = r.channelAt (Equiv.swap (r.selectCount - 1) x y) := by
  have hlast : r.selectCount - 1 < r.selectList.length := by
    have := h.two_le
    have := h.count_le
    omega
  have hlen : x < r.selectList.length := hx.trans_le h.count_le
  obtain ⟨e, he⟩ : ∃ e, r.selectList[r.selectCount - 1]? = some e :=
    ⟨_, List.getElem?_eq_getElem hlast⟩
  obtain ⟨f, hf⟩ : ∃ f, r.selectList[x]? = some f := ⟨_, List.getElem?_eq_getElem hlen⟩
  simp only [Router.channelAt, Router.sent, swapChannels_eq he hf]
  by_cases hyx : y = x
  · subst hyx
    rw [Equiv.swap_apply_right, if_pos rfl, he]
    rfl
  · rw [if_neg hyx]
    by_cases hyl : y = r.selectCount - 1
    · rw [if_pos hyl, hyl, Equiv.swap_apply_left, hf]
      rfl
    · rw [if_neg hyl, Equiv.swap_apply_of_ne_of_ne hyl hyx]

theorem swap_two_le {a b y : Nat} (ha : 2 ≤ a) (hb : 2 ≤ b) : 2 ≤ Equiv.swap a b y ↔ 2 ≤ y := by
  rw [Equiv.swap_apply_def]
  split
  · omega
  · split <;> omega

variable (h : Shaped topology i r) (hx : 2 ≤ x) (hcount : x < r.selectCount)
include h hx hcount

theorem sent_shaped : Shaped topology i (r.sent x) := by
  have hlast : 2 ≤ r.selectCount - 1 := by omega
  have hle := h.count_le
  obtain ⟨e, he⟩ : ∃ e, r.selectList[r.selectCount - 1]? = some e :=
    ⟨_, List.getElem?_eq_getElem (by omega)⟩
  obtain ⟨f, hf⟩ : ∃ f, r.selectList[x]? = some f := ⟨_, List.getElem?_eq_getElem (by omega)⟩
  have hlist (y : Nat) := swapChannels_eq he hf y
  obtain ⟨hedir, hedata, hej⟩ := h.sends _ e hlast he
  obtain ⟨hfdir, hfdata, hfj⟩ := h.sends _ f hx hf
  have hlength : (r.sent x).selectList.length = r.selectList.length := by
    simp [Router.sent, swapChannels, he, hf]
  refine ⟨hlength.trans h.length, hlast, ?_, ?_, ?_, ?_, ?_, ?_⟩
  · rw [hlength]
    exact (Nat.sub_le _ _).trans hle
  · rw [Router.sent, hlist, if_neg (by omega), if_neg (by omega)]
    exact h.done
  · rw [Router.sent, hlist, if_neg (by omega), if_neg (by omega)]
    exact h.own
  · intro y g hy hg
    rw [Router.sent, hlist] at hg
    split at hg
    · cases hg
      exact ⟨hfdir, hfdata, hej⟩
    · split at hg
      · cases hg
        exact ⟨hedir, hedata, hfj⟩
      · exact h.sends y g hy hg
  · intro j hj
    obtain ⟨y, hy, hc⟩ := h.targets j hj
    refine ⟨Equiv.swap (r.selectCount - 1) x y, (swap_two_le hlast hx).mpr hy, ?_⟩
    rw [sent_channelAt h hcount, Equiv.swap_apply_self, hc]
  · intro y z c hy hz hcy hcz
    rw [sent_channelAt h hcount] at hcy hcz
    exact (Equiv.swap _ _).injective (h.apart _ _ c ((swap_two_le hlast hx).mpr hy)
      ((swap_two_le hlast hx).mpr hz) hcy hcz)

theorem sent_pending {k : Fin n} (hchannel : r.channelAt x = some (.node k)) :
    (r.sent x).Pending j ↔ r.Pending j ∧ j ≠ k := by
  have hlast : 2 ≤ r.selectCount - 1 := by omega
  constructor
  · rintro ⟨y, hy, hlt, hc⟩
    rw [sent_channelAt h hcount] at hc
    have hlt : y < r.selectCount - 1 := hlt
    refine ⟨⟨_, (swap_two_le hlast hx).mpr hy, ?_, hc⟩, ?_⟩
    · rw [Equiv.swap_apply_def]
      split <;> [omega; (split <;> omega)]
    · rintro rfl
      have hsame := h.apart _ _ _ ((swap_two_le hlast hx).mpr hy) hx hc hchannel
      rw [Equiv.swap_apply_eq_iff, Equiv.swap_apply_right] at hsame
      omega
  · rintro ⟨⟨y, hy, hlt, hc⟩, hne⟩
    have hyx : y ≠ x := by
      rintro rfl
      rw [hc] at hchannel
      cases hchannel
      exact hne rfl
    refine ⟨Equiv.swap (r.selectCount - 1) x y, (swap_two_le hlast hx).mpr hy, ?_, ?_⟩
    · change _ < r.selectCount - 1
      rw [Equiv.swap_apply_def]
      split <;> [omega; omega]
    · rw [sent_channelAt h hcount, Equiv.swap_apply_self, hc]

end

theorem reset_selectList (h : Shaped topology i r) (x : Nat) :
    (r.reset topology i).selectList[x]? = if x < 2 then r.selectList[x]?
      else (r.selectList[x]?).map fun e => { e with data := some ⟨i, r.curr⟩ } := by
  have hlen : 2 ≤ r.selectList.length := h.two_le.trans h.count_le
  simp only [Router.reset, List.getElem?_append, List.length_take, Nat.min_eq_left hlen]
  split
  · rw [List.getElem?_take, if_pos ‹_›]
  · rw [List.getElem?_map, List.getElem?_drop, Nat.add_sub_cancel' (Nat.le_of_not_lt ‹_›)]

theorem reset_channelAt (h : Shaped topology i r) (x : Nat) :
    (r.reset topology i).channelAt x = r.channelAt x := by
  rw [Router.channelAt, reset_selectList h]
  split
  · rfl
  · rw [Option.map_map]
    rfl

theorem reset_shaped (h : Shaped topology i r) : Shaped topology i (r.reset topology i) := by
  have hlen : 2 ≤ r.selectList.length := h.two_le.trans h.count_le
  have hlength : (r.reset topology i).selectList.length = r.selectList.length := by
    simp [Router.reset]
    omega
  refine ⟨hlength.trans h.length, h.length.le.trans' hlen, (hlength.trans h.length).ge, ?_, ?_, ?_, ?_, ?_⟩
  · rw [reset_selectList h]
    exact h.done
  · rw [reset_selectList h]
    exact h.own
  · intro x e hx he
    rw [reset_selectList h, if_neg (Nat.not_lt.mpr hx)] at he
    obtain ⟨f, hf, rfl⟩ := Option.map_eq_some_iff.mp he
    obtain ⟨hdir, -, hj⟩ := h.sends x f hx hf
    exact ⟨hdir, fun _ => rfl, hj⟩
  · simpa only [reset_channelAt h] using h.targets
  · simpa only [reset_channelAt h] using h.apart

theorem reset_pending (h : Shaped topology i r) :
    (r.reset topology i).Pending j ↔ topology.Linked i j := by
  constructor
  · exact (reset_shaped h).linked
  · intro hj
    obtain ⟨x, hx, hc⟩ := h.targets j hj
    refine ⟨x, hx, ?_, by rw [reset_channelAt h, hc]⟩
    obtain ⟨e, he, -⟩ := Option.map_eq_some_iff.mp hc
    exact ((List.getElem?_eq_some_iff.mp he).1).trans_le h.length.le

theorem start_pending : (Router.start topology i).Pending j ↔ topology.Linked i j := by
  constructor
  · exact (start_shaped topology i).linked
  · intro hj
    obtain ⟨x, hx, hc⟩ := (start_shaped topology i).targets j hj
    refine ⟨x, hx, ?_, hc⟩
    obtain ⟨e, he, -⟩ := Option.map_eq_some_iff.mp hc
    exact ((List.getElem?_eq_some_iff.mp he).1).trans_le (start_shaped topology i).length.le

end OperatingSystems.Stress
