import OperatingSystems.Library.LinkedTree

namespace OperatingSystems.LinkedTree
open NodeTree

variable {ν : Type}

namespace Links

section
variable {d : Side} {a b c : NodeTree ν} {x y : ν} {path : List (Frame ν)}

theorem edges_upper : edges (plug (join d (join d.other b y c) x a) path) =
    ({(place path, some x)} + {(some (d, x), some y)} + {(some (d.other, y), b.root)}) +
      ({(some (d.other, x), a.root)} + {(some (d, y), c.root)} +
        (a.innerEdges + b.innerEdges + c.innerEdges + around path)) := by
  rw [edges_plug, root_join, innerEdges_join, root_join, innerEdges_join, Side.other_other]
  abel

theorem edges_lower : edges (plug (join d.other (join d b x a) y c) path) =
    ({(place path, some y)} + {(some (d.other, y), some x)} + {(some (d, x), b.root)}) +
      ({(some (d.other, x), a.root)} + {(some (d, y), c.root)} +
        (a.innerEdges + b.innerEdges + c.innerEdges + around path)) := by
  rw [edges_plug, root_join, innerEdges_join, root_join, innerEdges_join, Side.other_other]
  abel

structure Apart (d : Side) (p : Place ν) (x y : ν) (v : Option ν) : Prop where
  nodes : x ≠ y
  upper : v ≠ some x
  lower : v ≠ some y
  place_upper : p ≠ some (d, x)
  place_other : p ≠ some (d.other, x)
  place_lower : p ≠ some (d.other, y)
  places : (some (d, x) : Place ν) ≠ some (d.other, y)

variable (hd : (plug (join d (join d.other b y c) x a) path).nodes.Nodup)
include hd

theorem rotation_apart : Apart d (place path) x y b.root := by
  have hplaces := places_nodup hd
  rw [edges_upper] at hplaces
  simp only [Multiset.singleton_add, Multiset.cons_add, Multiset.map_cons, Multiset.nodup_cons,
    Multiset.mem_cons, not_or] at hplaces
  obtain ⟨⟨hpx, hpy, hpo, -⟩, ⟨hxy, -⟩, -⟩ := hplaces
  have hxmem : (place path, some x) ∈ edges (plug (join d (join d.other b y c) x a) path) := by
    simp [edges_upper]
  have hymem : (some (d, x), some y) ∈ edges (plug (join d (join d.other b y c) x a) path) := by
    simp [edges_upper]
  have hmem : (some (d.other, y), b.root) ∈
      edges (plug (join d (join d.other b y c) x a) path) := by
    simp [edges_upper]
  refine ⟨?_, fun hb => ?_, fun hb => ?_, hpx, hpo, hpy, hxy⟩
  · rintro rfl
    exact hpx (edges_inj hd hxmem hymem)
  · exact hpy (edges_inj hd hxmem (hb ▸ hmem))
  · exact hxy (edges_inj hd hymem (hb ▸ hmem))

end

section
variable [DecidableEq ν]

def rotated (l : Links ν) (d : Side) (p : Place ν) (x y : ν) (v : Option ν) : Links ν :=
  (((((l.setTarget (some (d, x)) v).setParentOf v (some x)).setParent y (owner p)).setTarget p
    (some y)).setTarget (some (d.other, y)) (some x)).setParent x (some y)

theorem Represents.rotated {d : Side} {a b c : NodeTree ν} {x y : ν} {path : List (Frame ν)}
    {l : Links ν} (h : l.Represents (plug (join d (join d.other b y c) x a) path))
    (hd : (plug (join d (join d.other b y c) x a) path).nodes.Nodup) :
    (l.rotated d (place path) x y b.root).Represents
      (plug (join d.other (join d b x a) y c) path) := by
  have hapart := rotation_apart hd
  refine h.exchange hd edges_upper edges_lower ?_ (fun e _ he => ?_) fun e _ z _ hz => ?_
  · simp only [Multiset.mem_add, Multiset.mem_singleton]
    rintro e ((rfl | rfl) | rfl)
    · refine ⟨?_, fun z hz => ?_⟩
      · simp [Links.rotated, target_setTarget_of_ne _ _ hapart.place_lower]
      · cases hz
        simp [Links.rotated, parent_setParent_of_ne _ _ hapart.nodes.symm]
    · refine ⟨by simp [Links.rotated], fun z hz => ?_⟩
      cases hz
      simp [Links.rotated]
    · refine ⟨?_, fun z hz => ?_⟩
      · simp [Links.rotated, target_setTarget_of_ne _ _ hapart.places,
          target_setTarget_of_ne _ _ hapart.place_upper.symm]
      · have hzx : z ≠ x := fun hzx => hapart.upper (hz.trans (congrArg some hzx))
        have hzy : z ≠ y := fun hzy => hapart.lower (hz.trans (congrArg some hzy))
        simp [Links.rotated, parent_setParent_of_ne _ _ hzx, parent_setParent_of_ne _ _ hzy,
          parent_setParentOf _ _ hz]
  · simp only [Multiset.map_add, Multiset.map_singleton, Multiset.mem_add, Multiset.mem_singleton,
      not_or] at he
    obtain ⟨⟨hep, hex⟩, hey⟩ := he
    simp [Links.rotated, target_setTarget_of_ne _ _ hep, target_setTarget_of_ne _ _ hex,
      target_setTarget_of_ne _ _ hey]
  · have hzx : z ≠ x := by
      rintro rfl
      simp [Multiset.mem_filterMap] at hz
    have hzy : z ≠ y := by
      rintro rfl
      simp [Multiset.mem_filterMap] at hz
    have hzb : b.root ≠ some z := by
      intro hb
      simp [Multiset.mem_filterMap, hb] at hz
    simp [Links.rotated, parent_setParent_of_ne _ _ hzx, parent_setParent_of_ne _ _ hzy,
      parent_setParentOf_of_ne _ _ hzb]

def leaf (l : Links ν) (z : ν) (p : Option ν) : Links ν :=
  ((l.setTarget (some (.right, z)) none).setTarget (some (.left, z)) none).setParent z p

theorem Represents.inserted {l : Links ν} {z : ν} {path : List (Frame ν)}
    (h : l.Represents (plug nil path)) (hd : (plug nil path).nodes.Nodup)
    (hz : z ∉ (plug nil path).nodes) :
    ((l.leaf z (owner (place path))).setTarget (place path) (some z)).Represents
      (plug (node nil z nil) path) := by
  have hold : edges (plug (nil : NodeTree ν) path) = {(place path, none)} + around path := by
    rw [edges_plug]
    simp [innerEdges]
  have hnew : edges (plug (node nil z nil) path) =
      ({(place path, some z)} + {(some (.left, z), none)} + {(some (.right, z), none)}) +
        around path := by
    rw [edges_plug, innerEdges]
    simp only [root_node, root_nil, innerEdges]
    abel
  have hother {e : Edge ν} (he : e ∈ edges (plug (nil : NodeTree ν) path)) (d : Side) :
      e.1 ≠ some (d, z) := by
    obtain ⟨p, v⟩ := e
    rintro rfl
    exact hz (owner_mem he)
  have hplace (d : Side) : (some (d, z) : Place ν) ≠ place path :=
    fun hp => hother (mem_place nil path) d hp.symm
  refine h.exchange hd hold hnew ?_ (fun e he hp => ?_) fun e he x hx _ => ?_
  · simp only [Multiset.mem_add, Multiset.mem_singleton]
    rintro e ((rfl | rfl) | rfl)
    · refine ⟨by simp, fun x hx => ?_⟩
      cases hx
      simp [leaf]
    · exact ⟨by simp [leaf, target_setTarget_of_ne _ _ (hplace .left)], by simp⟩
    · refine ⟨?_, by simp⟩
      have hsides : (some (.right, z) : Place ν) ≠ some (.left, z) := by simp
      simp [leaf, target_setTarget_of_ne _ _ (hplace .right), target_setTarget_of_ne _ _ hsides]
  · have hmem : e ∈ edges (plug (nil : NodeTree ν) path) := by
      rw [hold]
      exact Multiset.mem_add.mpr (.inr he)
    have hp : e.1 ≠ place path := by simpa using hp
    simp [leaf, target_setTarget_of_ne _ _ hp, target_setTarget_of_ne _ _ (hother hmem _)]
  · have hmem : e ∈ edges (plug (nil : NodeTree ν) path) := by
      rw [hold]
      exact Multiset.mem_add.mpr (.inr he)
    obtain ⟨p, v⟩ := e
    obtain rfl : v = some x := hx
    have hxz : x ≠ z := fun hxz => hz (hxz ▸ target_mem hmem)
    simp [leaf, parent_setParent_of_ne _ _ hxz]

theorem Represents.spliced {l : Links ν} {d : Side} {s : NodeTree ν} {z : ν}
    {path : List (Frame ν)} (h : l.Represents (plug (join d nil z s) path))
    (hd : (plug (join d nil z s) path).nodes.Nodup) :
    ((l.setTarget (place path) s.root).setParentOf s.root (owner (place path))).Represents
      (plug s path) := by
  have hold : edges (plug (join d nil z s) path) =
      ({(place path, some z)} + {(some (d, z), none)} + {(some (d.other, z), s.root)}) +
        (s.innerEdges + around path) := by
    rw [edges_plug, root_join, innerEdges_join, root_nil, innerEdges]
    abel
  have hnew : edges (plug s path) = {(place path, s.root)} + (s.innerEdges + around path) := by
    rw [edges_plug]
    abel
  refine h.exchange hd hold hnew ?_ (fun e he hp => ?_) fun e he x hx hp => ?_
  · simp only [Multiset.mem_singleton]
    rintro e rfl
    refine ⟨by simp, fun x hx => ?_⟩
    rw [parent_setParentOf _ _ hx]
  · simp only [Multiset.map_add, Multiset.map_singleton, Multiset.mem_add, Multiset.mem_singleton,
      not_or] at hp
    simp [target_setTarget_of_ne _ _ hp.1.1]
  · have hroot : s.root ≠ some x := by
      intro hroot
      simp [Multiset.mem_filterMap, hroot] at hp
    simp [parent_setParentOf_of_ne _ _ hroot]

def crowned (l : Links ν) (y : ν) (v : Option ν) : Links ν :=
  (((l.setTarget none (some y)).setParent y none).setTarget (some (.left, y)) v).setParentOf v
    (some y)

theorem crowned_represents {l : Links ν} {a b : NodeTree ν} {y : ν}
    (hd : (node a y b).nodes.Nodup)
    (held : ∀ e ∈ ({(some (.right, y), b.root)} + (a.innerEdges + b.innerEdges) : Multiset (Edge ν)),
      l.Holds e) : (l.crowned y a.root).Represents (node a y b) := by
  have hedges : edges (node a y b) = ({(none, some y)} + {(some (.left, y), a.root)}) +
      ({(some (.right, y), b.root)} + (a.innerEdges + b.innerEdges)) := by
    rw [edges, root_node, innerEdges]
    abel
  have hya : a.root ≠ some y := fun ha => (nodup_root hd).1 (mem_nodes_of_root ha)
  refine complete hd hedges held ?_ (fun e he hp => ?_) fun e he x hx hp => ?_
  · simp only [Multiset.mem_add, Multiset.mem_singleton]
    rintro e (rfl | rfl)
    · refine ⟨by simp [crowned, target_setTarget_of_ne], fun x hx => ?_⟩
      cases hx
      simp [crowned, parent_setParentOf_of_ne _ _ hya]
    · exact ⟨by simp [crowned], fun x hx => by simp [crowned, parent_setParentOf _ _ hx]⟩
  · simp only [Multiset.map_add, Multiset.map_singleton, Multiset.mem_add, Multiset.mem_singleton,
      not_or] at hp
    simp [crowned, target_setTarget_of_ne _ _ hp.1, target_setTarget_of_ne _ _ hp.2]
  · have hxy : x ≠ y := by
      rintro rfl
      simp [Multiset.mem_filterMap] at hp
    have hxa : a.root ≠ some x := by
      intro ha
      simp [Multiset.mem_filterMap, ha] at hp
    simp [crowned, parent_setParentOf_of_ne _ _ hxa, parent_setParent_of_ne _ _ hxy]

theorem Represents.adopted {l : Links ν} {a b : NodeTree ν} {y z : ν}
    (h : l.Represents (node a z b)) (hd : (node a z b).nodes.Nodup) (hy : y ∉ (node a z b).nodes) :
    ∀ e ∈ ({(some (.right, y), b.root)} + (a.innerEdges + b.innerEdges) : Multiset (Edge ν)),
      ((l.setTarget (some (.right, y)) b.root).setParentOf b.root (some y)).Holds e := by
  have hedges : edges (node a z b) = ({(none, some z)} + {(some (.left, z), a.root)} +
      {(some (.right, z), b.root)}) + (a.innerEdges + b.innerEdges) := by
    rw [edges, root_node, innerEdges]
    abel
  intro e he
  rw [Multiset.mem_add, Multiset.mem_singleton] at he
  rcases he with rfl | he
  · exact ⟨by simp, fun x hx => parent_setParentOf _ _ hx⟩
  · obtain ⟨-, htarget⟩ := apart hd hedges he
    have hmem : e ∈ edges (node a z b) := by
      rw [hedges]
      exact Multiset.mem_add.mpr (.inr he)
    refine (h e hmem).agree ?_ fun x hx => ?_
    · have hplace : e.1 ≠ some (.right, y) := by
        obtain ⟨p, v⟩ := e
        rintro rfl
        exact hy (owner_mem hmem)
      simp [target_setTarget_of_ne _ _ hplace]
    · have hroot : b.root ≠ some x := by
        intro hb
        exact htarget x hx (by simp [Multiset.mem_filterMap, hb])
      simp [parent_setParentOf_of_ne _ _ hroot]

end

end Links

end OperatingSystems.LinkedTree
