import OperatingSystems.Driver.Stree
import OperatingSystems.Library.LinkedTreeEdits

namespace OperatingSystems.Driver
open LinkedTree LinkedTree.NodeTree LinkedTree.Links

namespace Tree
variable {ν ρ : Type} {t : Tree ν ρ} {s : NodeTree ν} {x y u : ν} {p : Place ν}

theorem deref_live {α : Type} (hx : t.live x = true) (field : α) : t.deref x field = some field :=
  if_pos hx

structure Rooted (t : Tree ν ρ) (s : NodeTree ν) : Prop where
  represents : t.toLinks.Represents s
  nodup : s.nodes.Nodup
  live : ∀ x ∈ s.nodes, t.live x = true

theorem Rooted.child (h : Rooted t s) {d : Side} {v : Option ν} (he : (some (d, x), v) ∈ edges s) :
    t.deref x (t.child d x) = some v := by
  rw [deref_live (h.live x (owner_mem he))]
  exact congrArg some (h.represents.target_eq he)

theorem Rooted.parent (h : Rooted t s) (he : (p, some x) ∈ edges s) :
    t.deref x (t.parent x) = some (owner p) := by
  rw [deref_live (h.live x (target_mem he))]
  exact congrArg some (h.represents.parent_eq he)

theorem Rooted.owner_live (h : Rooted t s) {v : Option ν} (he : (p, v) ∈ edges s) {q : ν}
    (hq : owner p = some q) : t.live q = true := by
  rcases p with _ | ⟨d, r⟩
  · cases hq
  · obtain rfl : r = q := Option.some.inj hq
    exact h.live r (owner_mem he)

theorem Rooted.left_ne (h : Rooted t s) (he : (p, some x) ∈ edges s) {q : ν}
    (hp : p = some (.right, q)) : t.toLinks.target (some (.left, q)) ≠ some x := by
  intro hc
  subst hp
  cases h.represents.child_inj h.nodup he hc

section
variable [DecidableEq ν]

theorem setChild_live (hx : t.live x = true) (l : Links ν) (d : Side) (v : Option ν) :
    (t.withLinks l).setChild d x v = some (t.withLinks (l.setTarget (some (d, x)) v)) := if_pos hx

theorem setParent_live (hx : t.live x = true) (l : Links ν) (v : Option ν) :
    (t.withLinks l).setParent x v = some (t.withLinks (l.setParent x v)) := if_pos hx

theorem setParentOf_live {v : Option ν} (hv : ∀ z, v = some z → t.live z = true) (l : Links ν)
    (q : Option ν) :
    (t.withLinks l).setParentOf v q = some (t.withLinks (l.setParentOf v q)) := by
  cases v with
  | none => rfl
  | some z => exact setParent_live (hv z rfl) l q

theorem relink_eq {l : Links ν} (hu : t.live u = true) (hp : l.parent u = owner p)
    (hlive : ∀ q, owner p = some q → t.live q = true) (ht : l.target p = some u)
    (hone : ∀ q, p = some (.right, q) → l.target (some (.left, q)) ≠ some u) (v : Option ν) :
    (t.withLinks l).relink u v = some (t.withLinks (l.setTarget p v)) := by
  rw [relink, deref_withLinks, deref_live hu, withLinks_toLinks, hp]
  rcases p with _ | ⟨d, q⟩
  · rfl
  · have hq := hlive q rfl
    simp only [owner_some, Option.bind_eq_bind, Option.bind_some, deref_withLinks, deref_live hq]
    cases d with
    | left =>
      rw [if_pos (show some u = l.child .left q from ht.symm)]
      exact setChild_live hq l .left v
    | right =>
      rw [if_neg fun hl => hone q rfl hl.symm]
      exact setChild_live hq l .right v

theorem rotate_eq {d : Side} {a b c : NodeTree ν} {path : List (Frame ν)}
    (h : Rooted t (plug (join d (join d.other b y c) x a) path)) :
    t.rotate d x = some (t.withLinks (t.toLinks.rotated d (place path) x y b.root)) := by
  have hapart := rotation_apart h.nodup
  have hupper : (place path, some x) ∈ edges (plug (join d (join d.other b y c) x a) path) := by
    simp [edges_upper]
  have hlower : (some (d, x), some y) ∈ edges (plug (join d (join d.other b y c) x a) path) := by
    simp [edges_upper]
  have hinner : (some (d.other, y), b.root) ∈
      edges (plug (join d (join d.other b y c) x a) path) := by simp [edges_upper]
  have hx := h.live x (target_mem hupper)
  have hy := h.live y (target_mem hlower)
  have hb : ∀ z, b.root = some z → t.live z = true :=
    fun z hz => h.live z (target_mem (hz ▸ hinner))
  have hparent : (((t.toLinks.setTarget (some (d, x)) b.root).setParentOf b.root (some x)).setParent
      y (owner (place path))).parent x = owner (place path) := by
    rw [parent_setParent_of_ne _ _ hapart.nodes, parent_setParentOf_of_ne _ _ hapart.upper,
      parent_setTarget]
    exact h.represents.parent_eq hupper
  have htarget {p : Place ν} (hp : p ≠ some (d, x)) :
      (((t.toLinks.setTarget (some (d, x)) b.root).setParentOf b.root (some x)).setParent y
        (owner (place path))).target p = t.toLinks.target p := by
    rw [target_setParent, target_setParentOf, target_setTarget_of_ne _ _ hp]
  have hlink := relink_eq (p := place path) hx hparent (fun q => h.owner_live hupper)
    ((htarget hapart.place_upper).trans (h.represents.target_eq hupper)) (fun q hq => by
      have hqx : (some (.left, q) : Place ν) ≠ some (d, x) := by
        rintro ⟨rfl, rfl⟩
        exact hapart.place_other hq
      rw [htarget hqx]
      exact h.left_ne hupper hq) (some y)
  have hfirst : t.setChild d x b.root = _ := setChild_live hx t.toLinks d b.root
  rw [rotate, h.child hlower]
  simp only [Option.bind_eq_bind, Option.bind_some, h.child hinner, hfirst, setParentOf_live hb,
    deref_withLinks, withLinks_toLinks, deref_live hx, parent_setParentOf_of_ne _ _ hapart.upper,
    parent_setTarget, h.represents.parent_eq hupper, setParent_live hy, hlink, setChild_live hy,
    setParent_live hx]
  rfl

theorem Rooted.rotate {d : Side} {a b c : NodeTree ν} {path : List (Frame ν)}
    (h : Rooted t (plug (join d (join d.other b y c) x a) path)) :
    ∃ l, t.rotate d x = some (t.withLinks l) ∧
      Rooted (t.withLinks l) (plug (join d.other (join d b x a) y c) path) := by
  refine ⟨_, rotate_eq h, h.represents.rotated h.nodup, ?_, ?_⟩
  · rw [nodes_rotated]
    exact h.nodup
  · rw [nodes_rotated]
    exact h.live

def Raised (t : Tree ν ρ) (s : NodeTree ν) (x : ν) (path : List (Frame ν))
    (result : Option (Tree ν ρ)) : Prop :=
  ∃ k l r, result = some (t.withLinks k) ∧ Rooted (t.withLinks k) (plug (node l x r) path) ∧
    (plug (node l x r) path).nodes = s.nodes

section
variable {d : Side} {g : ν} {l r a b : NodeTree ν} {path : List (Frame ν)}

theorem Rooted.raise (h : Rooted t (plug (join d (node l x r) y a) path)) :
    Raised t (plug (join d (node l x r) y a) path) x path (t.rotate d y) := by
  obtain ⟨b, c, hjoin⟩ := node_join d.other l x r
  rw [hjoin] at h ⊢
  obtain ⟨k, hk, hrooted⟩ := h.rotate
  obtain ⟨l', r', hnode⟩ := join_node d.other (join d b y a) x c
  refine ⟨k, l', r', hk, hnode ▸ hrooted, ?_⟩
  rw [← hnode, nodes_rotated]

theorem Rooted.rotateParent (h : Rooted t (plug (join d (node l x r) y a) path)) :
    t.rotateParent d x = t.rotate d y := by
  have hparent : (some (d, y), some x) ∈ edges (plug (join d (node l x r) y a) path) := by
    simp [edges_plug, innerEdges_join]
  rw [Tree.rotateParent, h.parent hparent]
  rfl

theorem Rooted.zigZig (h : Rooted t (plug (join d (join d (node l x r) y a) g b) path)) :
    Raised t (plug (join d (join d (node l x r) y a) g b) path) x path
      ((t.rotate d g).bind fun t => t.rotateParent d x) := by
  rw [← join_other d a] at h ⊢
  obtain ⟨k, hk, hrooted⟩ := h.rotate
  rw [join_other] at hrooted
  obtain ⟨k', l', r', hresult, hrooted', hnodes⟩ := hrooted.raise
  refine ⟨k', l', r', ?_, hrooted', ?_⟩
  · rw [hk, Option.bind_some, hrooted.rotateParent]
    exact hresult
  · rw [hnodes, ← join_other, nodes_rotated]

theorem Rooted.zigZag (h : Rooted t (plug (join d.other (join d (node l x r) y a) g b) path)) :
    Raised t (plug (join d.other (join d (node l x r) y a) g b) path) x path
      ((t.rotate d y).bind fun t => t.rotateParent d.other x) := by
  have h : Rooted t (plug (join d (node l x r) y a) (⟨d.other, g, b⟩ :: path)) := h
  obtain ⟨k, l', r', hk, hrooted, hnodes⟩ := h.raise
  have hrooted : Rooted (t.withLinks k) (plug (join d.other (node l' x r') g b) path) := hrooted
  obtain ⟨k', l'', r'', hresult, hrooted', hnodes'⟩ := hrooted.raise
  refine ⟨k', l'', r'', ?_, hrooted', hnodes'.trans hnodes⟩
  rw [hk, Option.bind_some, hrooted.rotateParent]
  exact hresult

theorem Rooted.hasChild (h : Rooted t s) (he : (some (d, y), some x) ∈ edges s) (e : Side) :
    t.hasChild e y x = some (decide (e = d)) := by
  rw [Tree.hasChild, deref_live (h.live y (owner_mem he)), Option.map_some]
  refine congrArg some (decide_eq_decide.mpr ⟨fun hc => h.represents.child_inj h.nodup he hc, ?_⟩)
  rintro rfl
  exact h.represents.target_eq he

theorem splayRound_raised {f : Frame ν} (h : Rooted t (plug (node l x r) (f :: path))) :
    ∃ path', path'.length ≤ path.length ∧
      Raised t (plug (node l x r) (f :: path)) x path' (t.splayRound x f.parent) := by
  obtain ⟨d, y, a⟩ := f
  have hxy := mem_place (node l x r) (⟨d, y, a⟩ :: path)
  have hy := mem_parent (node l x r) ⟨d, y, a⟩ path
  cases path with
  | nil =>
    refine ⟨[], le_rfl, ?_⟩
    rw [splayRound, h.parent hy]
    cases d with
    | left =>
      simp only [place, owner_none, Option.bind_eq_bind, Option.bind_some, h.hasChild hxy]
      exact h.raise (d := .left)
    | right =>
      simp only [place, owner_none, Option.bind_eq_bind, Option.bind_some, h.hasChild hxy]
      exact h.raise (d := .right)
  | cons g path =>
    obtain ⟨e, g, b⟩ := g
    refine ⟨path, by simp, ?_⟩
    rw [splayRound, h.parent hy]
    simp only [place, owner_some, Option.bind_eq_bind, Option.bind_some, h.hasChild hxy,
      h.hasChild hy]
    cases d <;> cases e
    · exact h.zigZig (d := .left)
    · exact h.zigZag (d := .left)
    · exact h.zigZag (d := .right)
    · exact h.zigZig (d := .right)

theorem splayLoop_raised {fuel : Nat} (h : Rooted t (plug (node l x r) path))
    (hfuel : path.length < fuel) :
    Raised t (plug (node l x r) path) x [] (splayLoop fuel t x) := by
  induction fuel generalizing t l r path with
  | zero => exact absurd hfuel (Nat.not_lt_zero _)
  | succ fuel ih =>
    have hx := mem_place (node l x r) path
    rw [splayLoop, h.parent hx]
    cases path with
    | nil => exact ⟨t.toLinks, l, r, rfl, h, rfl⟩
    | cons f path =>
      obtain ⟨path', hlength, k, l', r', hk, hrooted, hnodes⟩ := splayRound_raised h
      obtain ⟨k', l'', r'', hresult, hrooted', hnodes'⟩ :=
        ih hrooted (hlength.trans_lt (Nat.lt_of_succ_lt_succ hfuel))
      refine ⟨k', l'', r'', ?_, hrooted', hnodes'.trans hnodes⟩
      simp only [place, owner_some, Option.bind_eq_bind, Option.bind_some, hk]
      exact hresult

end
end
end Tree
end OperatingSystems.Driver
