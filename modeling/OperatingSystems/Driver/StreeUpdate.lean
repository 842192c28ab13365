import OperatingSystems.Driver.StreeSearch

namespace OperatingSystems.Driver
open LinkedTree LinkedTree.NodeTree LinkedTree.Links SortedMap

namespace Tree
variable {ν ρ : Type} {t : Tree ν ρ} {s s' : NodeTree ν} {x y z u : ν} {path : List (Frame ν)}
  {key : Int} {k : Links ν}

theorem Keyed.relinked (h : Keyed t s) (hr : Rooted (t.withLinks k) s')
    (hnodes : s'.nodes = s.nodes) : Keyed (t.withLinks k) s' :=
  ⟨hr, by rw [hnodes]; exact h.sorted, by rw [hnodes]; exact h.cells⟩

theorem entries_relinked (hnodes : s'.nodes = s.nodes) :
    (t.withLinks k).entries s' = t.entries s := by
  rw [entries, hnodes]
  rfl

section
variable [DecidableEq ν]

theorem replace_eq (h : Rooted t s) {p : Place ν} (he : (p, some u) ∈ edges s) {v : Option ν}
    (hv : ∀ x, v = some x → t.live x = true) : t.replace u v =
      some (t.withLinks ((t.toLinks.setTarget p v).setParentOf v (owner p))) := by
  have hu := h.live u (target_mem he)
  have hlink : t.relink u v = _ := relink_eq (l := t.toLinks) hu (h.represents.parent_eq he)
    (fun q => h.owner_live he) (h.represents.target_eq he) (fun q => h.left_ne he) v
  rw [replace, hlink]
  simp only [Option.bind_eq_bind, Option.bind_some, deref_withLinks, deref_live hu,
    withLinks_toLinks, parent_setTarget, h.represents.parent_eq he, setParentOf_live hv]

omit [DecidableEq ν] in
theorem minimum_spec {fuel : Nat} {a b : NodeTree ν} (h : Rooted t (plug (node a u b) path))
    (hfuel : (node a u b).nodes.length ≤ fuel) : ∃ y c path',
      node a u b = plug (node nil y c) path' ∧ (node a u b).nodes = y :: (plug c path').nodes ∧
        t.subtreeMinimum fuel u = some y := by
  induction a generalizing u b path fuel with
  | nil => 
    cases fuel with
    | zero => simp at hfuel
    | succ fuel =>
      refine ⟨u, b, [], rfl, rfl, ?_⟩
      rw [subtreeMinimum, h.child (mem_child .left nil u b path)]
      rfl
  | node a₁ v a₂ ih _ =>
    cases fuel with
    | zero => simp at hfuel
    | succ fuel =>
      have hsize : (node a₁ v a₂).nodes.length ≤ fuel := by
        simp only [nodes_node, List.length_append, List.length_cons] at hfuel ⊢
        omega
      obtain ⟨y, c, path', htree, hnodes, hmin⟩ :=
        ih (show Rooted t (plug (node a₁ v a₂) (⟨.left, u, b⟩ :: path)) from h) hsize
      refine ⟨y, c, path' ++ [⟨.left, u, b⟩], ?_, ?_, ?_⟩
      · rw [plug_append, ← htree]
        rfl
      · rw [plug_append, nodes_node, hnodes]
        rfl
      · rw [subtreeMinimum, h.child (mem_child .left (node a₁ v a₂) u b path)]
        exact hmin

theorem takePlace_eq {v : ν} (hz : t.live z = true) (hy : t.live y = true)
    (hv : t.live v = true) (hparent : k.parent z = none) (htarget : k.root = some z)
    (hchild : k.child .left z = some v) :
    (t.withLinks k).takePlace z y = some (t.withLinks (k.crowned y (some v))) := by
  have hlink := relink_eq (p := none) (t := t) hz hparent (fun q hq => by cases hq) htarget
    (fun q hq => by cases hq) (some y)
  have hreplace : (t.withLinks k).replace z (some y) =
      some (t.withLinks ((k.setTarget none (some y)).setParent y none)) := by
    rw [replace, hlink]
    simp only [Option.bind_eq_bind, Option.bind_some, deref_withLinks, deref_live hz,
      withLinks_toLinks, parent_setTarget, hparent]
    exact setParent_live hy _ none
  have hleft : ((k.setTarget none (some y)).setParent y none).child .left z = some v := hchild
  rw [takePlace, hreplace]
  simp only [Option.bind_eq_bind, Option.bind_some, deref_withLinks, deref_live hz,
    withLinks_toLinks, hleft, setChild_live hy]
  exact setParent_live hv _ (some y)

section
variable {a b c : NodeTree ν} {f : Frame ν} {path : List (Frame ν)}

theorem takeRight_near (h : Rooted t (node a z (node nil y c))) : t.takeRight z y = some t := by
  have hparent := mem_place (node nil y c) [⟨.right, z, a⟩]
  have hy := h.parent hparent
  rw [takeRight, hy]
  exact if_pos rfl

theorem takeRight_far (h : Rooted t (node a z (plug (node nil y c) (f :: path))))
    (hfz : f.parent ≠ z) :
    ∃ k k₁, t.takeRight z y = some (t.withLinks k) ∧
      Rooted (t.withLinks k₁) (node a z (plug c (f :: path))) ∧
      k = (k₁.setTarget (some (.right, y)) (plug c (f :: path)).root).setParentOf
        (plug c (f :: path)).root (some y) := by
  have htree (u : NodeTree ν) : plug u (f :: path ++ [⟨.right, z, a⟩]) =
      node a z (plug u (f :: path)) := plug_append u (f :: path) [⟨.right, z, a⟩]
  rw [← htree] at h
  have hplace := mem_place (node nil y c) (f :: path ++ [⟨.right, z, a⟩])
  have hy := h.live y (target_mem hplace)
  have hright := mem_child .right c y nil (f :: path ++ [⟨.right, z, a⟩])
  have hreplace := replace_eq h hplace (v := c.root) fun x hx => h.live x (target_mem (hx ▸ hright))
  have hsub : (plug c (f :: path ++ [⟨.right, z, a⟩])).nodes.Sublist
      (plug (node nil y c) (f :: path ++ [⟨.right, z, a⟩])).nodes := by
    rw [nodes_plug, nodes_plug]
    exact ((List.sublist_cons_self y c.nodes).append_left _).append_right _
  have hrepresents := h.represents.spliced (d := .left) h.nodup
  generalize (t.toLinks.setTarget (place (f :: path ++ [⟨.right, z, a⟩])) c.root).setParentOf c.root
    (owner (place (f :: path ++ [⟨.right, z, a⟩]))) = k₁ at hreplace hrepresents
  have hspliced : Rooted (t.withLinks k₁) (plug c (f :: path ++ [⟨.right, z, a⟩])) :=
    ⟨hrepresents, hsub.nodup h.nodup, fun x hx => h.live x (hsub.subset hx)⟩
  obtain ⟨r, hr⟩ := plug_root c f path
  rw [htree] at hspliced
  have hz := hspliced.child (mem_child .right (plug c (f :: path)) z a [])
  have hne : some z ≠ owner (place (f :: path ++ [⟨.right, z, a⟩])) :=
    fun hz => hfz (Option.some.inj hz).symm
  have hlive : t.live r = true := hspliced.live r (by
    rw [nodes_node]
    exact List.mem_append_right _ (List.mem_cons_of_mem _ (mem_nodes_of_root hr)))
  refine ⟨_, _, ?_, hspliced, rfl⟩
  rw [takeRight, h.parent hplace]
  simp only [Option.bind_eq_bind, Option.bind_some, if_neg hne, h.child hright, hreplace]
  rw [hz, hr]
  simp only [Option.bind_some, setChild_live hy]
  exact setParent_live hlive _ (some y)

theorem takePlace_rooted (h : Rooted t (node a z b)) (hb : b.nodes = y :: c.nodes) {v : ν}
    (ha : a.root = some v) (hparent : k.parent z = none) (htarget : k.root = some z)
    (hchild : k.child .left z = some v)
    (held : ∀ e ∈ ({(some (.right, y), c.root)} + (a.innerEdges + c.innerEdges) : Multiset (Edge ν)),
      k.Holds e) :
    ∃ k', (t.withLinks k).takePlace z y = some (t.withLinks k') ∧
      Rooted (t.withLinks k') (node a y c) := by
  have hsub : (node a y c).nodes.Sublist (node a z b).nodes := by
    rw [nodes_node, nodes_node, hb]
    exact (List.sublist_cons_self z _).append_left _
  have hz := h.live z (by simp)
  have hy := h.live y (hsub.subset (by simp))
  have hv := h.live v (hsub.subset (by simp [mem_nodes_of_root ha]))
  refine ⟨_, takePlace_eq hz hy hv hparent htarget hchild, ?_, hsub.nodup h.nodup,
    fun x hx => h.live x (hsub.subset hx)⟩
  rw [← ha]
  exact crowned_represents (hsub.nodup h.nodup) held

variable [Fintype ν]

theorem unlink_both (h : Rooted t (node a z b)) {u v : ν} (ha : a.root = some v)
    (hb : b.root = some u) : ∃ k s', t.unlink z = some (t.withLinks k) ∧
      Rooted (t.withLinks k) s' ∧ s'.nodes = a.nodes ++ b.nodes := by
  have hunlink : t.unlink z = (t.subtreeMinimum t.steps u).bind fun y =>
      (t.takeRight z y).bind fun t => t.takePlace z y := by
    rw [unlink, h.child (mem_child .left a z b []), h.child (mem_child .right b z a []), ha, hb]
    rfl
  have hnodup := h.nodup
  have hsize : b.nodes.length ≤ t.steps := by
    refine le_trans ?_ (Nat.le_succ_of_le h.nodup.length_le_card)
    simp only [nodes_node, List.length_append, List.length_cons]
    omega
  have hparent := h.represents.parent_eq (mem_place (node a z b) [])
  have htarget := h.represents.target_eq (mem_place (node a z b) [])
  have hchild := h.represents.child_eq (mem_child .left a z b [])
  cases b with
  | nil => cases hb
  | node b₁ w b₂ =>
    obtain rfl : w = u := Option.some.inj hb
    obtain ⟨y, c, path, htree, hnodes, hmin⟩ := minimum_spec
      (show Rooted t (plug (node b₁ w b₂) [⟨.right, z, a⟩]) from h) hsize
    rw [hunlink, hmin, Option.bind_some]
    rw [htree] at h hnodes hnodup
    cases path with
    | nil =>
      have h : Rooted t (node a z (node nil y c)) := h
      obtain ⟨k', hk', hrooted⟩ := takePlace_rooted (k := t.toLinks) h rfl ha hparent htarget
        (hchild.trans ha) fun e he => h.represents e (by
          simp only [edges, innerEdges, Multiset.mem_add] at he ⊢
          tauto)
      refine ⟨k', _, ?_, hrooted, by simp [htree]⟩
      rw [takeRight_near h]
      exact hk'
    | cons f path =>
      have hy : y ∉ (node a z (plug c (f :: path))).nodes := by
        rw [nodes_node, hnodes, List.append_cons, List.nodup_middle, List.nodup_cons] at hnodup
        simpa using hnodup.1
      have hfz : f.parent ≠ z := fun hfz => (nodup_root h.nodup).2
        (hfz ▸ target_mem (mem_parent (node nil y c) f path))
      obtain ⟨k, k₁, hk, hspliced, hkeq⟩ := takeRight_far h hfz
      have hz : (plug c (f :: path)).root ≠ some z :=
        fun hz => (nodup_root hspliced.nodup).2 (mem_nodes_of_root hz)
      obtain ⟨k', hk', hrooted⟩ := takePlace_rooted (k := k) h hnodes ha
        (by
          rw [hkeq, parent_setParentOf_of_ne _ _ hz, parent_setTarget]
          exact hspliced.represents.parent_eq (mem_place _ []))
        (by
          have hroot : k₁.root = some z := hspliced.represents.target_eq (mem_place _ [])
          have hsame : k.target none = k₁.target none := by
            rw [hkeq, target_setParentOf, target_setTarget_of_ne _ _ (by simp)]
          exact hsame.trans hroot)
        (by
          have hsame : k.target (some (.left, z)) = k₁.target (some (.left, z)) := by
            rw [hkeq, target_setParentOf, target_setTarget_of_ne _ _ (by simp)]
          exact (hsame.trans (hspliced.represents.target_eq (mem_child .left a z _ []))).trans ha)
        (hkeq ▸ hspliced.represents.adopted hspliced.nodup hy)
      refine ⟨k', _, ?_, hrooted, by rw [htree, hnodes]; rfl⟩
      rw [hk]
      exact hk'

theorem unlink_single {d : Side} (h : Rooted t (join d nil z b)) :
    ∃ k s', t.unlink z = some (t.withLinks k) ∧ Rooted (t.withLinks k) s' ∧ s'.nodes = b.nodes := by
  have hsub : b.nodes.Sublist (join d nil z b).nodes := by
    cases d
    · exact List.sublist_cons_self z _
    · exact List.sublist_append_left _ _
  have hroot := mem_place (join d nil z b) []
  rw [root_join] at hroot
  have hreplace := replace_eq h hroot (v := b.root) fun x hx =>
    h.live x (hsub.subset (mem_nodes_of_root hx))
  have hrooted : Rooted t (plug (join d nil z b) []) := h
  refine ⟨_, b, .trans ?_ hreplace, ⟨hrooted.represents.spliced hrooted.nodup,
    hsub.nodup h.nodup, fun x hx => h.live x (hsub.subset hx)⟩, rfl⟩
  cases d with
  | left =>
    rw [unlink, h.child (mem_child .left nil z b []), h.child (mem_child .right b z nil [])]
    rfl
  | right =>
    rw [unlink, h.child (mem_child .left b z nil []), h.child (mem_child .right nil z b [])]
    cases b <;> rfl

theorem unlink_spec (h : Rooted t (node a z b)) : ∃ k s', t.unlink z = some (t.withLinks k) ∧
    Rooted (t.withLinks k) s' ∧ s'.nodes = a.nodes ++ b.nodes := by
  cases a with
  | nil => exact unlink_single (d := .left) h
  | node a₁ v a₂ =>
    cases b with
    | nil =>
      obtain ⟨k, s', hk, hrooted, hnodes⟩ := unlink_single (d := .right) h
      exact ⟨k, s', hk, hrooted, hnodes.trans (List.append_nil _).symm⟩
    | node b₁ u b₂ => exact unlink_both h rfl rfl

theorem splay_raised (h : Rooted t (plug (node a x b) path)) :
    Raised t (plug (node a x b) path) x [] (t.splay x) :=
  splayLoop_raised h (Nat.lt_succ_of_le ((length_le_nodes _ _).trans h.nodup.length_le_card))

end

section
variable (h : Keyed t s) (ha : Arrival t s key none path) (hz : t.live z = false)
include h ha hz

theorem created_keyed (record : Option ρ) : Keyed ((t.createNode z key record (owner (place path))).withLinks
    ((t.toLinks.leaf z (owner (place path))).setTarget (place path) (some z)))
      (plug (node nil z nil) path) := by
  have hnew {x : ν} (hx : x ∈ s.nodes) : x ≠ z := by
    rintro rfl
    rw [h.live x hx] at hz
    cases hz
  obtain ⟨hs, hn⟩ := ha.missing_split
  have hnodes : (plug (node nil z nil) path).nodes = before path ++ z :: behind path := by
    rw [nodes_plug]
    simp
  have hmem (x : ν) : x ∈ (plug (node nil z nil) path).nodes ↔ x = z ∨ x ∈ s.nodes := by
    rw [hnodes, hs]
    simp only [List.mem_append, List.mem_cons]
    tauto
  have hkey {x : ν} (hx : x ∈ s.nodes) : Function.update t.key z key x = t.key x :=
    Function.update_of_ne (hnew hx) _ _
  cases ha with
  | missing tree _ =>
    refine ⟨⟨?_, ?_, fun x hx => ?_⟩, ?_, fun x hx => ?_⟩
    · exact (tree ▸ h.represents).inserted (tree ▸ h.nodup) fun hx => hnew (tree ▸ hx) rfl
    · rw [hnodes, List.nodup_middle, List.nodup_cons, ← hs]
      exact ⟨fun hx => hnew hx rfl, h.nodup⟩
    · change Function.update t.live z true x = true
      rcases (hmem x).mp hx with rfl | hx
      · exact Function.update_self x true t.live
      · rw [Function.update_of_ne (hnew hx)]
        exact h.live x hx
    · change (plug (node nil z nil) path).nodes.Pairwise fun x y =>
        Function.update t.key z key x < Function.update t.key z key y
      have hb (x : ν) (hx : x ∈ before path) : Function.update t.key z key x = t.key x :=
        hkey (hs ▸ List.mem_append_left _ hx)
      have hc (x : ν) (hx : x ∈ behind path) : Function.update t.key z key x = t.key x :=
        hkey (hs ▸ List.mem_append_right _ hx)
      have hsorted := h.sorted
      rw [hs, List.pairwise_append] at hsorted
      obtain ⟨hbefore, hbehind, hall⟩ := hsorted
      rw [hnodes, List.pairwise_append, List.pairwise_cons]
      refine ⟨hbefore.imp_of_mem fun {x y} hx hy hxy => ?_, ⟨fun y hy => ?_,
        hbehind.imp_of_mem fun {x y} hx hy hxy => ?_⟩, fun x hx y hy => ?_⟩
      · rwa [hb x hx, hb y hy]
      · rw [Function.update_self, hc y hy]
        exact hn.behind y hy
      · rwa [hc x hx, hc y hy]
      · rw [hb x hx]
        rcases List.mem_cons.mp hy with rfl | hy
        · rw [Function.update_self]
          exact hn.before x hx
        · rw [hc y hy]
          exact hall x hx y hy
    · have hx : Function.update t.live z true x = true := hx
      rw [hmem]
      by_cases hxz : x = z
      · exact .inl hxz
      · rw [Function.update_of_ne hxz] at hx
        exact .inr (h.cells x hx)

theorem created_entries (record : Option ρ) : (t.createNode z key record (owner (place path))).entries
    (plug (node nil z nil) path) = insert (t.entries s) key record := by
  obtain ⟨hs, hn⟩ := ha.missing_split
  have hsame (x : ν) (hx : x ∈ s.nodes) :
      (t.createNode z key record (owner (place path))).entry x = t.entry x := by
    have hxz : x ≠ z := by
      rintro rfl
      rw [h.live x hx] at hz
      cases hz
    exact Prod.ext (Function.update_of_ne hxz _ _) (Function.update_of_ne hxz _ _)
  have hself : (t.createNode z key record (owner (place path))).entry z = (key, record) :=
    Prod.ext (Function.update_self _ _ _) (Function.update_self _ _ _)
  simp only [entries, hs, nodes_plug, nodes_node, nodes_nil, List.map_append, List.map_cons,
    List.map_nil, List.nil_append, hself]
  rw [insert_between (entry_below hn.before) (entry_above hn.behind), List.append_assoc,
    List.map_congr_left fun x hx => hsame x (hs ▸ List.mem_append_left _ hx),
    List.map_congr_left fun x hx => hsame x (hs ▸ List.mem_append_right _ hx)]
  rfl

end

end

end Tree
end OperatingSystems.Driver
