import Mathlib.Algebra.Order.Group.Multiset
import Mathlib.Data.Multiset.Bind
import Mathlib.Data.Multiset.Filter
import Mathlib.Tactic.Abel

namespace OperatingSystems.LinkedTree

inductive Side
  | left
  | right
deriving DecidableEq

def Side.other : Side → Side
  | .left => .right
  | .right => .left

@[simp] theorem Side.other_other (d : Side) : d.other.other = d := by cases d <;> rfl

@[simp] theorem Side.other_ne (d : Side) : d.other ≠ d := by cases d <;> decide

@[simp] theorem Side.ne_other (d : Side) : d ≠ d.other := by cases d <;> decide

inductive NodeTree (ν : Type)
  | nil
  | node (l : NodeTree ν) (x : ν) (r : NodeTree ν)

variable {ν : Type}

-- where a pointer to a node is kept: the root, or one side of a node
abbrev Place (ν : Type) := Option (Side × ν)

abbrev Edge (ν : Type) := Place ν × Option ν

def owner (p : Place ν) : Option ν := p.map Prod.snd

@[simp] theorem owner_none : owner (none : Place ν) = none := rfl

@[simp] theorem owner_some (d : Side) (x : ν) : owner (some (d, x)) = some x := rfl

namespace NodeTree

def root : NodeTree ν → Option ν
  | nil => none
  | node _ x _ => some x

def nodes : NodeTree ν → List ν
  | nil => []
  | node l x r => l.nodes ++ x :: r.nodes

def postorder : NodeTree ν → List ν
  | nil => []
  | node l x r => l.postorder ++ r.postorder ++ [x]

def innerEdges : NodeTree ν → Multiset (Edge ν)
  | nil => 0
  | node l x r =>
    {(some (.left, x), l.root)} + {(some (.right, x), r.root)} + (l.innerEdges + r.innerEdges)

def join : Side → NodeTree ν → ν → NodeTree ν → NodeTree ν
  | .left, s, x, t => node s x t
  | .right, s, x, t => node t x s

@[simp] theorem root_nil : (nil : NodeTree ν).root = none := rfl

@[simp] theorem root_node (l : NodeTree ν) (x : ν) (r : NodeTree ν) : (node l x r).root = some x := rfl

@[simp] theorem nodes_nil : (nil : NodeTree ν).nodes = [] := rfl

@[simp] theorem nodes_node (l : NodeTree ν) (x : ν) (r : NodeTree ν) :
    (node l x r).nodes = l.nodes ++ x :: r.nodes := rfl

@[simp] theorem root_join (d : Side) (s : NodeTree ν) (x : ν) (t : NodeTree ν) :
    (join d s x t).root = some x := by cases d <;> rfl

theorem join_other (d : Side) (s : NodeTree ν) (x : ν) (t : NodeTree ν) :
    join d.other s x t = join d t x s := by cases d <;> rfl

theorem join_node (d : Side) (s : NodeTree ν) (x : ν) (t : NodeTree ν) :
    ∃ l r, join d s x t = node l x r := by
  cases d
  · exact ⟨s, t, rfl⟩
  · exact ⟨t, s, rfl⟩

theorem node_join (d : Side) (l : NodeTree ν) (x : ν) (r : NodeTree ν) :
    ∃ s t, node l x r = join d s x t := by
  cases d
  · exact ⟨l, r, rfl⟩
  · exact ⟨r, l, rfl⟩

theorem innerEdges_join (d : Side) (s : NodeTree ν) (x : ν) (t : NodeTree ν) : (join d s x t).innerEdges =
    {(some (d, x), s.root)} + {(some (d.other, x), t.root)} + (s.innerEdges + t.innerEdges) := by
  cases d with
  | left => rfl
  | right =>
    simp only [join, innerEdges, Side.other]
    abel

theorem nodes_rotate (d : Side) (a b c : NodeTree ν) (x y : ν) :
    (join d.other (join d b x a) y c).nodes = (join d (join d.other b y c) x a).nodes := by
  cases d <;> simp [join, Side.other]

theorem postorder_perm (t : NodeTree ν) : t.postorder.Perm t.nodes := by
  induction t with
  | nil => rfl
  | node l x r ihl ihr =>
    rw [postorder, nodes_node, List.append_assoc]
    exact ihl.append ((List.perm_append_comm).trans (ihr.cons x))

theorem nodup_root {l r : NodeTree ν} {x : ν} (h : (node l x r).nodes.Nodup) :
    x ∉ l.nodes ∧ x ∉ r.nodes := by
  rw [nodes_node, List.nodup_middle, List.nodup_cons, List.mem_append, not_or] at h
  exact h.1

theorem mem_nodes_of_root {t : NodeTree ν} {x : ν} (h : t.root = some x) : x ∈ t.nodes := by
  cases t with
  | nil => cases h
  | node l y r =>
    cases h
    simp

end NodeTree

open NodeTree

def edges (t : NodeTree ν) : Multiset (Edge ν) := {(none, t.root)} + t.innerEdges

-- a node on the way down to a place, and what is on its other side
structure Frame (ν : Type) where
  side : Side
  parent : ν
  sibling : NodeTree ν

def fill (f : Frame ν) (t : NodeTree ν) : NodeTree ν := join f.side t f.parent f.sibling

def plug (t : NodeTree ν) : List (Frame ν) → NodeTree ν
  | [] => t
  | f :: c => plug (fill f t) c

def place : List (Frame ν) → Place ν
  | [] => none
  | f :: _ => some (f.side, f.parent)

def around : List (Frame ν) → Multiset (Edge ν)
  | [] => 0
  | f :: c => {(place c, some f.parent)} + {(some (f.side.other, f.parent), f.sibling.root)} +
      (f.sibling.innerEdges + around c)

def before : List (Frame ν) → List ν
  | [] => []
  | f :: c => match f.side with
    | .left => before c
    | .right => before c ++ f.sibling.nodes ++ [f.parent]

def behind : List (Frame ν) → List ν
  | [] => []
  | f :: c => match f.side with
    | .left => f.parent :: f.sibling.nodes ++ behind c
    | .right => behind c

@[simp] theorem plug_nil (t : NodeTree ν) : plug t [] = t := rfl

@[simp] theorem plug_cons (t : NodeTree ν) (f : Frame ν) (c : List (Frame ν)) :
    plug t (f :: c) = plug (fill f t) c := rfl

theorem edges_plug (t : NodeTree ν) (c : List (Frame ν)) :
    edges (plug t c) = {(place c, t.root)} + t.innerEdges + around c := by
  induction c generalizing t with
  | nil => simp [edges, around, place]
  | cons f c ih =>
    rw [plug_cons, ih, fill, root_join, innerEdges_join, around, place]
    abel

theorem plug_append (t : NodeTree ν) (c c' : List (Frame ν)) :
    plug t (c ++ c') = plug (plug t c) c' := by
  induction c generalizing t with
  | nil => rfl
  | cons f c ih => exact ih (fill f t)

theorem plug_root (t : NodeTree ν) (f : Frame ν) (c : List (Frame ν)) :
    ∃ x, (plug t (f :: c)).root = some x := by
  induction c generalizing t f with
  | nil => exact ⟨f.parent, root_join _ _ _ _⟩
  | cons g c ih => exact ih (fill f t) g

theorem mem_place (t : NodeTree ν) (c : List (Frame ν)) : (place c, t.root) ∈ edges (plug t c) := by
  rw [edges_plug]
  simp

theorem mem_parent (t : NodeTree ν) (f : Frame ν) (c : List (Frame ν)) :
    (place c, some f.parent) ∈ edges (plug t (f :: c)) := by
  rw [edges_plug, around]
  simp

theorem mem_child (d : Side) (u : NodeTree ν) (x : ν) (v : NodeTree ν) (c : List (Frame ν)) :
    (some (d, x), u.root) ∈ edges (plug (join d u x v) c) := by
  rw [edges_plug, innerEdges_join]
  simp

theorem nodes_plug (t : NodeTree ν) (c : List (Frame ν)) :
    (plug t c).nodes = before c ++ t.nodes ++ behind c := by
  induction c generalizing t with
  | nil => simp [before, behind]
  | cons f c ih =>
    rw [plug_cons, ih, before, behind]
    cases hside : f.side <;> simp [fill, join, hside]

theorem length_le_nodes (t : NodeTree ν) (c : List (Frame ν)) :
    c.length ≤ (plug t c).nodes.length := by
  have hc : c.length ≤ (before c).length + (behind c).length := by
    induction c with
    | nil => exact Nat.zero_le _
    | cons f c ih =>
      rw [before, behind]
      cases f.side <;> simp <;> omega
  rw [nodes_plug, List.length_append, List.length_append]
  omega

theorem nodes_rotated (d : Side) (a b c : NodeTree ν) (x y : ν) (path : List (Frame ν)) :
    (plug (join d.other (join d b x a) y c) path).nodes =
      (plug (join d (join d.other b y c) x a) path).nodes := by
  rw [nodes_plug, nodes_plug, nodes_rotate]

theorem edges_targets (t : NodeTree ν) : (edges t).filterMap Prod.snd = t.nodes := by
  have hone (p : Place ν) (c : Option ν) (s : Multiset (Edge ν)) :
      ({(p, c)} + s).filterMap Prod.snd = (c.toList : Multiset ν) + s.filterMap Prod.snd := by
    rw [Multiset.singleton_add]
    cases c with
    | none => simp
    | some x => simp [Multiset.filterMap_cons_some]
  induction t with
  | nil => rfl
  | node l x r ihl ihr =>
    rw [edges, hone] at ihl ihr ⊢
    rw [innerEdges, add_assoc, hone, hone, Multiset.filterMap_add, nodes_node, ← Multiset.coe_add,
      ← Multiset.cons_coe, ← ihl, ← ihr, root_node, Option.toList_some, Multiset.coe_singleton,
      ← Multiset.singleton_add]
    abel

theorem edges_places (t : NodeTree ν) : (edges t).map Prod.fst =
    {none} + (t.nodes : Multiset ν).bind fun x => {some (Side.left, x)} + {some (Side.right, x)} := by
  rw [edges, Multiset.map_add, Multiset.map_singleton]
  congr 1
  induction t with
  | nil => rfl
  | node l x r ihl ihr =>
    rw [innerEdges, Multiset.map_add, Multiset.map_add, Multiset.map_add, ihl, ihr, nodes_node,
      ← Multiset.coe_add, ← Multiset.cons_coe, Multiset.add_bind, Multiset.cons_bind,
      Multiset.map_singleton, Multiset.map_singleton]
    abel

theorem places_nodup {t : NodeTree ν} (h : t.nodes.Nodup) : ((edges t).map Prod.fst).Nodup := by
  rw [edges_places, Multiset.singleton_add, Multiset.nodup_cons, Multiset.nodup_bind]
  refine ⟨by simp, fun x _ => by simp, Multiset.pairwise_coe_iff_pairwise.mpr ?_⟩
  refine h.imp fun {x y} hxy => ?_
  simp [Function.onFun, Multiset.disjoint_left, hxy]

theorem targets_nodup {t : NodeTree ν} (h : t.nodes.Nodup) :
    ((edges t).filterMap Prod.snd).Nodup := by
  rw [edges_targets]
  exact Multiset.coe_nodup.mpr h

structure Links (ν : Type) where
  root : Option ν
  child : Side → ν → Option ν
  parent : ν → Option ν

namespace Links

def target (l : Links ν) : Place ν → Option ν
  | none => l.root
  | some (d, x) => l.child d x

structure Holds (l : Links ν) (e : Edge ν) : Prop where
  target : l.target e.1 = e.2
  parent : ∀ x, e.2 = some x → l.parent x = owner e.1

def Represents (l : Links ν) (t : NodeTree ν) : Prop := ∀ e ∈ edges t, l.Holds e

section
variable [DecidableEq ν]

def setTarget (l : Links ν) (p : Place ν) (v : Option ν) : Links ν :=
  match p with
  | none => { l with root := v }
  | some (d, x) => { l with
      child := Function.update l.child d (Function.update (l.child d) x v) }

def setParent (l : Links ν) (x : ν) (v : Option ν) : Links ν :=
  { l with parent := Function.update l.parent x v }

variable (l : Links ν) {p q : Place ν} {x y : ν} (v : Option ν)

@[simp] theorem target_setTarget : (l.setTarget p v).target p = v := by
  rcases p with _ | ⟨d, x⟩ <;> simp [setTarget, target]

theorem target_setTarget_of_ne (h : q ≠ p) : (l.setTarget p v).target q = l.target q := by
  rcases p with _ | ⟨d, x⟩ <;> rcases q with _ | ⟨e, y⟩
  · exact absurd rfl h
  · rfl
  · rfl
  · by_cases hd : e = d
    · subst hd
      have hx : y ≠ x := fun hx => h (by rw [hx])
      simp [setTarget, target, hx]
    · simp [setTarget, target, hd]

@[simp] theorem parent_setTarget : (l.setTarget p v).parent x = l.parent x := by
  rcases p with _ | ⟨d, x⟩ <;> rfl

@[simp] theorem target_setParent : (l.setParent x v).target p = l.target p := by
  rcases p with _ | ⟨d, x⟩ <;> rfl

@[simp] theorem parent_setParent : (l.setParent x v).parent x = v := by simp [setParent]

theorem parent_setParent_of_ne (h : y ≠ x) : (l.setParent x v).parent y = l.parent y := by
  simp [setParent, h]

def setParentOf (l : Links ν) (v : Option ν) (p : Option ν) : Links ν :=
  match v with
  | none => l
  | some x => l.setParent x p

@[simp] theorem target_setParentOf (l : Links ν) (v p : Option ν) (q : Place ν) :
    (l.setParentOf v p).target q = l.target q := by
  cases v with
  | none => rfl
  | some x => exact target_setParent l p

theorem parent_setParentOf (l : Links ν) {v : Option ν} {x : ν} (p : Option ν) (h : v = some x) :
    (l.setParentOf v p).parent x = p := by
  rw [h]
  exact parent_setParent l p

theorem parent_setParentOf_of_ne (l : Links ν) {v : Option ν} {x : ν} (p : Option ν)
    (h : v ≠ some x) : (l.setParentOf v p).parent x = l.parent x := by
  cases v with
  | none => rfl
  | some y => exact parent_setParent_of_ne l p fun hx => h (by rw [hx])

end

section
variable {l l' : Links ν} {t t' : NodeTree ν} {old new rest : Multiset (Edge ν)}

theorem Holds.agree {e : Edge ν} (h : l.Holds e) (hplace : l'.target e.1 = l.target e.1)
    (hparent : ∀ x, e.2 = some x → l'.parent x = l.parent x) : l'.Holds e :=
  ⟨hplace.trans h.target, fun x hx => (hparent x hx).trans (h.parent x hx)⟩

theorem apart {part : Multiset (Edge ν)} (hd : t.nodes.Nodup) (hedges : edges t = part + rest)
    {e : Edge ν} (he : e ∈ rest) :
    e.1 ∉ part.map Prod.fst ∧ ∀ x, e.2 = some x → x ∉ part.filterMap Prod.snd := by
  have hplaces := places_nodup hd
  have htargets := targets_nodup hd
  rw [hedges, Multiset.map_add, Multiset.nodup_add] at hplaces
  rw [hedges, Multiset.filterMap_add, Multiset.nodup_add] at htargets
  refine ⟨fun hmem => ?_, fun x hx hmem => ?_⟩
  · exact Multiset.disjoint_left.mp hplaces.2.2 hmem (Multiset.mem_map_of_mem _ he)
  · exact Multiset.disjoint_left.mp htargets.2.2 hmem ((Multiset.mem_filterMap _ _).mpr ⟨e, he, hx⟩)

theorem Represents.exchange (h : l.Represents t) (hd : t.nodes.Nodup) (hold : edges t = old + rest)
    (hnew : edges t' = new + rest) (held : ∀ e ∈ new, l'.Holds e)
    (hplace : ∀ e ∈ rest, e.1 ∉ old.map Prod.fst → l'.target e.1 = l.target e.1)
    (hparent : ∀ e ∈ rest, ∀ x, e.2 = some x → x ∉ old.filterMap Prod.snd →
      l'.parent x = l.parent x) : l'.Represents t' := by
  intro e he
  rw [hnew, Multiset.mem_add] at he
  rcases he with he | he
  · exact held e he
  · obtain ⟨hfst, hsnd⟩ := apart hd hold he
    exact (h e (by rw [hold]; exact Multiset.mem_add.mpr (.inr he))).agree (hplace e he hfst)
      fun x hx => hparent e he x hx (hsnd x hx)

theorem complete (hd : t.nodes.Nodup) (hnew : edges t = new + rest) (hrest : ∀ e ∈ rest, l.Holds e)
    (held : ∀ e ∈ new, l'.Holds e)
    (hplace : ∀ e ∈ rest, e.1 ∉ new.map Prod.fst → l'.target e.1 = l.target e.1)
    (hparent : ∀ e ∈ rest, ∀ x, e.2 = some x → x ∉ new.filterMap Prod.snd →
      l'.parent x = l.parent x) : l'.Represents t := by
  intro e he
  rw [hnew, Multiset.mem_add] at he
  rcases he with he | he
  · exact held e he
  · obtain ⟨hfst, hsnd⟩ := apart hd hnew he
    exact (hrest e he).agree (hplace e he hfst) fun x hx => hparent e he x hx (hsnd x hx)

end

section
variable {l : Links ν} {t : NodeTree ν} {p q : Place ν} {x y : ν}

theorem Represents.target_eq (h : l.Represents t) {v : Option ν} (he : (p, v) ∈ edges t) :
    l.target p = v := (h _ he).target

theorem Represents.child_eq (h : l.Represents t) {d : Side} {v : Option ν}
    (he : (some (d, x), v) ∈ edges t) : l.child d x = v := h.target_eq he

theorem Represents.parent_eq (h : l.Represents t) (he : (p, some x) ∈ edges t) :
    l.parent x = owner p := (h _ he).parent x rfl

theorem edges_inj (hd : t.nodes.Nodup) (hp : (p, some x) ∈ edges t) (hq : (q, some x) ∈ edges t) :
    p = q := by
  obtain ⟨r, hr⟩ := Multiset.exists_cons_of_mem hp
  have hnodup := targets_nodup hd
  rw [hr, Multiset.filterMap_cons_some Prod.snd (p, some x) r rfl, Multiset.nodup_cons] at hnodup
  rw [hr, Multiset.mem_cons] at hq
  rcases hq with hq | hq
  · exact (Prod.mk.inj hq).1.symm
  · exact absurd ((Multiset.mem_filterMap Prod.snd r).mpr ⟨_, hq, rfl⟩) hnodup.1

theorem exists_edge (d : Side) (hx : x ∈ t.nodes) : ∃ v, (some (d, x), v) ∈ edges t := by
  have hmem : some (d, x) ∈ (edges t).map Prod.fst := by
    rw [edges_places, Multiset.mem_add, Multiset.mem_bind]
    exact .inr ⟨x, hx, by cases d <;> simp⟩
  obtain ⟨⟨p, v⟩, he, hp⟩ := Multiset.mem_map.mp hmem
  exact ⟨v, hp ▸ he⟩

theorem target_mem {v : ν} (he : (p, some v) ∈ edges t) : v ∈ t.nodes := by
  have hmem : v ∈ (edges t).filterMap Prod.snd := (Multiset.mem_filterMap _ _).mpr ⟨_, he, rfl⟩
  rwa [edges_targets] at hmem

theorem owner_mem {d : Side} {v : Option ν} (he : (some (d, x), v) ∈ edges t) : x ∈ t.nodes := by
  have hmem := Multiset.mem_map_of_mem Prod.fst he
  rw [edges_places, Multiset.mem_add, Multiset.mem_bind] at hmem
  rcases hmem with hmem | ⟨y, hy, hmem⟩
  · simp at hmem
  · have hxy : x = y := by
      simp only [Multiset.mem_add, Multiset.mem_singleton, Option.some.injEq, Prod.mk.injEq] at hmem
      rcases hmem with h | h <;> exact h.2
    exact hxy ▸ hy

theorem Represents.child_inj (h : l.Represents t) (hd : t.nodes.Nodup) {d e : Side}
    (he : (some (d, y), some x) ∈ edges t) (hc : l.child e y = some x) : e = d := by
  obtain ⟨v, hv⟩ := exists_edge e (owner_mem he)
  obtain rfl : v = some x := (h.target_eq hv).symm.trans hc
  exact congrArg Prod.fst (Option.some.inj (edges_inj hd hv he))

end

end Links

end OperatingSystems.LinkedTree
