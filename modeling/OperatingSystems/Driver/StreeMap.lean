import OperatingSystems.Driver.StreeUpdate
import OperatingSystems.Library.Transition

namespace OperatingSystems.Driver
open LinkedTree LinkedTree.NodeTree LinkedTree.Links SortedMap

namespace Tree
variable {ν ρ : Type} {t : Tree ν ρ} {s s' : NodeTree ν} {x y z u : ν} {path : List (Frame ν)}
  {key : Int} {k : Links ν}

theorem Keyed.counted (h : Keyed t s) (n : Nat) : Keyed { t with nodeCount := n } s :=
  ⟨⟨h.represents, h.nodup, h.live⟩, h.sorted, h.cells⟩

variable [DecidableEq ν]

theorem linkNode_eq (h : Keyed t s) (ha : Arrival t s key none path) (hz : t.live z = false)
    (record : Option ρ) :
    (t.createNode z key record (owner (place path))).linkNode z (owner (place path)) =
      some ((t.createNode z key record (owner (place path))).withLinks
        ((t.toLinks.leaf z (owner (place path))).setTarget (place path) (some z))) := by
  cases path with
  | nil => rfl
  | cons f path =>
    obtain ⟨hs, hn⟩ := ha.missing_split
    have hmem : f.parent ∈ s.nodes := by
      cases ha with
      | missing tree _ => exact tree ▸ target_mem (mem_parent nil f path)
    have hne : f.parent ≠ z := by
      intro hne
      rw [← hne, h.live f.parent hmem] at hz
      cases hz
    have hlive : (t.createNode z key record (owner (place (f :: path)))).live f.parent = true :=
      (Function.update_of_ne hne _ _).trans (h.live f.parent hmem)
    have hkey : (t.createNode z key record (owner (place (f :: path)))).key f.parent =
        t.key f.parent := Function.update_of_ne hne _ _
    have hself : (t.createNode z key record (owner (place (f :: path)))).key z = key :=
      Function.update_self _ _ _
    have hside : (if t.key f.parent < key then Side.right else .left) = f.side := by
      cases hf : f.side with
      | right => exact if_pos (hn.before f.parent (by simp [before, hf]))
      | left => exact if_neg (hn.behind f.parent (by simp [behind, hf])).not_gt
    change ((t.createNode z key record (owner (place (f :: path)))).deref f.parent _).bind _ = _
    rw [deref_live hlive, Option.bind_some, hkey, hself, hside]
    exact setChild_live (t := t.createNode z key record (owner (place (f :: path)))) hlive _ f.side
      (some z)

theorem free_standing {a b : NodeTree ν} {n : Nat} (h : Keyed t (node a z b))
    (hr : Rooted (t.withLinks k) s) (hs : s.nodes = a.nodes ++ b.nodes) (hn : n = s.nodes.length) :
    Standing { t.withLinks k with nodeCount := n, live := Function.update t.live z false } s := by
  obtain ⟨hza, hzb⟩ := nodup_root h.nodup
  have hsub : s.nodes.Sublist (node a z b).nodes := by
    rw [hs, nodes_node]
    exact (List.sublist_cons_self z _).append_left _
  refine ⟨⟨⟨hr.represents, hr.nodup, fun x hx => ?_⟩, h.sorted.sublist hsub, fun x hx => ?_⟩, hn⟩
  · have hxz : x ≠ z := by
      rintro rfl
      rw [hs, List.mem_append] at hx
      exact hx.elim hza hzb
    exact (Function.update_of_ne hxz _ _).trans (hr.live x hx)
  · have hx : Function.update t.live z false x = true := hx
    have hxz : x ≠ z := by
      rintro rfl
      rw [Function.update_self] at hx
      cases hx
    rw [Function.update_of_ne hxz] at hx
    have hmem := h.cells x hx
    rw [nodes_node, List.mem_append, List.mem_cons] at hmem
    rw [hs, List.mem_append]
    exact hmem.imp_right fun hc => hc.resolve_left hxz

variable [Fintype ν]

theorem treeInsert_new (h : Standing t s) (ha : Arrival t s key none path) (hz : t.live z = false)
    (hd : t.descend key t.steps t.root none = some (none, owner (place path)))
    (record : Option ρ) :
    ∃ t' s', t.treeInsert key record z = some (true, t') ∧ Standing t' s' ∧
      t'.entries s' = insert (t.entries s) key record := by
  have hkeyed := created_keyed h.toKeyed ha hz record
  obtain ⟨k, l, r, hk, hrooted, hnodes⟩ := splay_raised hkeyed.toRooted
  have hcount : (plug (node l z r) []).nodes.length = s.nodes.length + 1 := by
    rw [hnodes, nodes_plug, (ha.missing_split).1]
    simp only [List.length_append, nodes_node, nodes_nil, List.length_cons, List.length_nil]
    omega
  refine ⟨{ (t.createNode z key record (owner (place path))).withLinks k with
    nodeCount := t.nodeCount + 1 }, plug (node l z r) [], ?_, ⟨(hkeyed.relinked hrooted hnodes).counted _, ?_⟩, ?_⟩
  · rw [treeInsert, hd]
    simp only [Option.bind_eq_bind, Option.bind_some, linkNode_eq h.toKeyed ha hz, hk]
    rfl
  · exact (congrArg (· + 1) h.count).trans hcount.symm
  · exact (entries_relinked (k := k) hnodes).trans (created_entries h.toKeyed ha hz record)

theorem treeInsert_spec (h : Standing t s) (hz : t.live z = false) (key : Int)
    (record : Option ρ) : ∃ t' s',
      t.treeInsert key record z = some ((lookup (t.entries s) key).isNone, t') ∧ Standing t' s' ∧
        t'.entries s' = if (lookup (t.entries s) key).isNone then insert (t.entries s) key record
          else t.entries s := by
  obtain ⟨found, path, ha, hd⟩ := descend_steps h.toKeyed key
  cases found with
  | none =>
    obtain ⟨t', s', hinsert, hstanding, hentries⟩ := treeInsert_new h ha hz hd record
    obtain ⟨hs, hn⟩ := ha.missing_split
    have hnone : lookup (t.entries s) key = none := by
      rw [entries, hs, List.map_append]
      exact lookup_none (entry_below hn.before) (entry_above hn.behind)
    rw [hnone]
    exact ⟨t', s', hinsert, hstanding, hentries⟩
  | some x =>
    obtain ⟨b, c, hs, hx, hb, -⟩ := ha.found_split h.sorted
    have hsome : lookup (t.entries s) key = some (t.record x) := by
      rw [entries_split hs hx]
      exact lookup_at (entry_below hb)
    rw [hsome]
    exact ⟨t, s, by rw [treeInsert, hd]; rfl, h, rfl⟩

theorem treeRemove_spec (h : Standing t s) (key : Int) : ∃ t' s',
    t.treeRemove key = some ((lookup (t.entries s) key).join, t') ∧ Standing t' s' ∧
      t'.entries s' = erase (t.entries s) key := by
  obtain ⟨found, path, ha, hd⟩ := descend_steps h.toKeyed key
  cases found with
  | none =>
    obtain ⟨hs, hn⟩ := ha.missing_split
    rw [entries, hs, List.map_append, lookup_none (entry_below hn.before) (entry_above hn.behind),
      erase_between (entry_below hn.before) (entry_above hn.behind)]
    refine ⟨t, s, by rw [treeRemove, hd]; rfl, h, ?_⟩
    rw [entries, hs, List.map_append]
  | some z =>
    obtain ⟨b, c, hs, hz, hb, hc⟩ := ha.found_split h.sorted
    rw [entries_split hs hz, lookup_at (entry_below hb), erase_at (entry_below hb) (entry_above hc)]
    cases ha with
    | @found l r _ _ tree _ =>
      have hroot : Rooted t (plug (node l z r) path) := tree ▸ h.toRooted
      obtain ⟨k, l', r', hk, hrooted, hnodes⟩ := splay_raised hroot
      rw [tree, hs] at hnodes
      have hkeyed := h.toKeyed.relinked hrooted (hnodes.trans hs.symm)
      obtain ⟨k', s', hunlink, hrooted', hnodes'⟩ := unlink_spec hrooted
      obtain ⟨hzl, hzr⟩ := nodup_root hrooted.nodup
      obtain ⟨rfl, -, rfl⟩ := (List.append_cons_inj_of_notMem hzl hzr).mp hnodes
      have hlive := h.live z (by rw [hs]; simp)
      refine ⟨_, s', ?_, free_standing (n := t.nodeCount - 1) hkeyed hrooted' hnodes' ?_, ?_⟩
      · rw [treeRemove, hd]
        simp only [Option.bind_eq_bind, Option.bind_some, hk, hunlink]
        have hrecord : ((t.withLinks k).withLinks k').deref z
            (((t.withLinks k).withLinks k').record z) = some (t.record z) := deref_live hlive _
        rw [hrecord]
        exact congrArg (Option.bind · fun t' => some (t.record z, t')) (deref_live hlive _)
      · have hcount := h.count
        rw [hs] at hcount
        rw [hnodes']
        simp only [List.length_append, List.length_cons] at hcount ⊢
        omega
      · rw [← List.map_append, ← hnodes']
        rfl

section
omit [Fintype ν]

def without (t : Tree ν ρ) (l : List ν) : Tree ν ρ :=
  { t with live := fun x => t.live x && decide (x ∉ l) }

theorem freeSubtree_spec {sub : NodeTree ν} {fuel : Nat} (h : t.toLinks.Represents (plug sub path))
    (hd : sub.nodes.Nodup) (hlive : ∀ x ∈ sub.nodes, t.live x = true)
    (hfuel : sub.nodes.length < fuel) : freeSubtree fuel t sub.root =
      some (sub.postorder.map t.record, t.without sub.nodes) := by
  induction sub generalizing t path fuel with
  | nil =>
    cases fuel with
    | zero => exact absurd hfuel (Nat.not_lt_zero _)
    | succ fuel =>
      refine congrArg (fun live => some ([], { t with live := live })) (funext fun x => ?_)
      simp
  | node l x r ihl ihr =>
    cases fuel with
    | zero => exact absurd hfuel (Nat.not_lt_zero _)
    | succ fuel =>
      obtain ⟨hxl, hxr⟩ := nodup_root hd
      obtain ⟨hdl, hdr, hdisjoint⟩ := List.nodup_append.mp hd
      simp only [nodes_node, List.length_append, List.length_cons] at hfuel
      have hx := hlive x (by simp)
      have hleft := h.child_eq (mem_child .left l x r path)
      have hright := h.child_eq (mem_child .right r x l path)
      have hl := ihl (show t.toLinks.Represents (plug l (⟨.left, x, r⟩ :: path)) from h) hdl
        (fun y hy => hlive y (by simp [hy])) (show l.nodes.length < fuel by omega)
      have hr := ihr (t := t.without l.nodes)
        (show t.toLinks.Represents (plug r (⟨.right, x, l⟩ :: path)) from h)
        (List.nodup_cons.mp hdr).2 (fun y hy => by
          have hyl : y ∉ l.nodes := fun hyl => hdisjoint y hyl y (List.mem_cons_of_mem x hy) rfl
          simp [without, hlive y (by simp [hy]), hyl]) (show r.nodes.length < fuel by omega)
      have hx₁ : (t.without l.nodes).live x = true := by simp [without, hx, hxl]
      have hx₂ : ((t.without l.nodes).without r.nodes).live x = true := by
        simp [without, hx, hxl, hxr]
      have hfree : ((t.without l.nodes).without r.nodes).free x =
          some (t.without (node l x r).nodes) := by
        refine (deref_live hx₂ _).trans (congrArg (fun live => some { t with live := live }) ?_)
        funext y
        by_cases hy : y = x
        · subst hy
          simp [without]
        · simp [without, hy, Bool.and_assoc]
      rw [root_node, freeSubtree]
      simp only [Option.bind_eq_bind, deref_live hx, Option.bind_some, hleft, hl, deref_live hx₁]
      rw [show (t.without l.nodes).child .right x = r.root from hright, hr]
      simp only [Option.bind_some, deref_live hx₂, hfree, postorder, List.map_append]
      rfl

end

theorem treeFree_spec (h : Standing t s) : ∃ records t', t.treeFree = some (records, t') ∧
    records.Perm ((t.entries s).map Prod.snd) ∧ Standing t'.treeNew nil := by
  have hroot : t.root = s.root := h.represents.target_eq (mem_place s [])
  refine ⟨s.postorder.map t.record, t.without s.nodes, ?_, ?_, ⟨⟨⟨?_, by simp, by simp⟩, by simp,
    fun x hx => ?_⟩, rfl⟩⟩
  · have hsize : s.nodes.length < t.steps := Nat.lt_succ_of_le h.nodup.length_le_card
    have hfree := freeSubtree_spec (show t.toLinks.Represents (plug s []) from h.represents)
      h.nodup h.live hsize
    rw [treeFree, hroot]
    cases s with
    | nil =>
      refine congrArg (fun live => some ([], { t with live := live })) (funext fun x => ?_)
      simp
    | node l x r => exact hfree
  · rw [entries, List.map_map]
    exact s.postorder_perm.map _
  · intro e he
    simp only [edges, innerEdges, root_nil, add_zero, Multiset.mem_singleton] at he
    subst he
    exact ⟨rfl, by simp⟩
  · have hx : (t.live x && decide (x ∉ s.nodes)) = true := hx
    rw [Bool.and_eq_true, decide_eq_true_eq] at hx
    exact absurd (h.cells x hx.1) hx.2

end Tree
end OperatingSystems.Driver
