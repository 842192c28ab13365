import Mathlib.Algebra.Order.Group.Nat
import Mathlib.Data.List.FinRange
import Mathlib.Logic.Equiv.Fin.Basic
import OperatingSystems.Library.WeightedWalk

namespace OperatingSystems.Stress
open WeightedWalk

def infDistance : Nat := 0x7fffffff

-- `distance_t` is an unsigned int
def addDistance (a b : Nat) : Nat := (a + b) % 2 ^ 32

abbrev Matrix (n : Nat) := Vector Nat (n * n)

namespace Matrix
variable {n : Nat}

def ofFn (f : Fin n → Fin n → Nat) : Matrix n :=
  Vector.ofFn fun i => f (finProdFinEquiv.symm i).1 (finProdFinEquiv.symm i).2

def getDistance (m : Matrix n) (src dst : Fin n) : Nat := m[finProdFinEquiv (src, dst)]

def setDistance (m : Matrix n) (src dst : Fin n) (distance : Nat) : Matrix n :=
  Vector.set m (finProdFinEquiv (src, dst)) distance

@[simp] theorem getDistance_ofFn (f : Fin n → Fin n → Nat) (src dst : Fin n) :
    (ofFn f).getDistance src dst = f src dst := by
  simp only [ofFn, getDistance, Fin.getElem_fin, Vector.getElem_ofFn, Fin.eta,
    Equiv.symm_apply_apply]

theorem getDistance_setDistance (m : Matrix n) (src dst a b : Fin n) (x : Nat) :
    (m.setDistance src dst x).getDistance a b =
      if a = src ∧ b = dst then x else m.getDistance a b := by
  have hindex : finProdFinEquiv (src, dst) = finProdFinEquiv (a, b) ↔ a = src ∧ b = dst := by
    rw [finProdFinEquiv.injective.eq_iff, Prod.mk.injEq, eq_comm, @eq_comm _ dst]
  simp only [getDistance, setDistance, Fin.getElem_fin, Vector.getElem_set, ← Fin.ext_iff, hindex]

end Matrix

structure Topology (n : Nat) where
  matrix : Matrix n
  bounded : ∀ src dst, matrix.getDistance src dst ≤ infDistance

def Topology.link {n : Nat} (topology : Topology n) (src dst : Fin n) : Nat :=
  topology.matrix.getDistance src dst

-- what `%d` stores in the unsigned `distance`, cut to `inf_distance`
def scanDistance (value : Int) : Nat :=
  let distance := (value % 0x100000000).toNat
  if infDistance < distance then infDistance else distance

theorem scanDistance_le (value : Int) : scanDistance value ≤ infDistance := by
  unfold scanDistance
  dsimp only
  split <;> omega

def createTopology {n : Nat} (values : Fin n → Fin n → Int) : Topology n where
  matrix := .ofFn fun src dst => scanDistance (values src dst)
  bounded := fun src dst => by
    rw [Matrix.getDistance_ofFn]
    exact scanDistance_le _

namespace Matrix
variable {n : Nat}

def relax (intermediate src : Fin n) (solution : Matrix n) (dst : Fin n) : Matrix n :=
  let through := addDistance (solution.getDistance src intermediate)
    (solution.getDistance intermediate dst)
  if through < solution.getDistance src dst then solution.setDistance src dst through else solution

def relaxRow (intermediate : Fin n) (solution : Matrix n) (src : Fin n) : Matrix n :=
  (List.finRange n).foldl (relax intermediate src) solution

def relaxAll (solution : Matrix n) (intermediate : Fin n) : Matrix n :=
  (List.finRange n).foldl (relaxRow intermediate) solution

def shorter (m : Matrix n) (k a b : Fin n) : Nat :=
  min (m.getDistance a b) (m.getDistance a k + m.getDistance k b)

structure Visited (m m' : Matrix n) (k : Fin n) (done : Fin n → Fin n → Prop) : Prop where
  done : ∀ a b, done a b → m'.getDistance a b = m.shorter k a b
  either : ∀ a b, m'.getDistance a b = m.getDistance a b ∨ m'.getDistance a b = m.shorter k a b

variable {m m' : Matrix n} {k src dst : Fin n} {done : Fin n → Fin n → Prop}

theorem visited_start (m : Matrix n) (k : Fin n) : Visited m m k fun _ _ => False :=
  ⟨fun _ _ h => h.elim, fun _ _ => .inl rfl⟩

theorem Visited.row (h : Visited m m' k done) (a : Fin n) :
    m'.getDistance a k = m.getDistance a k := by
  rcases h.either a k with he | he <;> rw [he]
  exact Nat.min_eq_left (Nat.le_add_right _ _)

theorem Visited.column (h : Visited m m' k done) (b : Fin n) :
    m'.getDistance k b = m.getDistance k b := by
  rcases h.either k b with he | he <;> rw [he]
  exact Nat.min_eq_left (Nat.le_add_left _ _)

theorem addDistance_eq {a b : Nat} (ha : a ≤ infDistance) (hb : b ≤ infDistance) :
    addDistance a b = a + b := by
  unfold infDistance at ha hb
  exact Nat.mod_eq_of_lt (by omega)

variable (hm : ∀ a b, m.getDistance a b ≤ infDistance)
include hm

theorem relax_apply (h : Visited m m' k done) (a b : Fin n) :
    (relax k src m' dst).getDistance a b =
      if a = src ∧ b = dst then m.shorter k src dst else m'.getDistance a b := by
  have hshort : min (m'.getDistance src dst) (m.getDistance src k + m.getDistance k dst) =
      m.shorter k src dst := by
    rcases h.either src dst with he | he
    · rw [he, shorter]
    · rw [he, shorter, Nat.min_assoc, Nat.min_self]
  unfold relax
  dsimp only
  rw [h.row, h.column, addDistance_eq (hm _ _) (hm _ _), ← hshort]
  split
  · rename_i hlt
    rw [getDistance_setDistance, Nat.min_eq_right (Nat.le_of_lt hlt)]
  · rename_i hle
    split
    · rename_i he
      rw [he.1, he.2, Nat.min_eq_left (Nat.le_of_not_lt hle)]
    · rfl

theorem relax_visited (h : Visited m m' k done) (src dst : Fin n) :
    Visited m (relax k src m' dst) k fun a b => done a b ∨ a = src ∧ b = dst := by
  refine ⟨fun a b hd => ?_, fun a b => ?_⟩ <;> rw [relax_apply hm h] <;> split
  · rename_i he
    rw [he.1, he.2]
  · rename_i hne
    exact h.done a b (hd.resolve_right hne)
  · rename_i he
    rw [he.1, he.2]
    exact .inr rfl
  · exact h.either a b

theorem relaxRow_visited (h : Visited m m' k done) (src : Fin n) (dsts : List (Fin n)) :
    Visited m (dsts.foldl (relax k src) m') k fun a b => done a b ∨ a = src ∧ b ∈ dsts := by
  induction dsts generalizing m' done with
  | nil => simpa using h
  | cons dst dsts ih =>
    have hnext := ih (relax_visited hm h src dst)
    refine ⟨fun a b hd => hnext.done a b ?_, hnext.either⟩
    rcases hd with hd | ⟨rfl, hb⟩
    · exact .inl (.inl hd)
    · rcases List.mem_cons.mp hb with rfl | hb
      · exact .inl (.inr ⟨rfl, rfl⟩)
      · exact .inr ⟨rfl, hb⟩

theorem relaxRows_visited (h : Visited m m' k done) (srcs : List (Fin n)) :
    Visited m (srcs.foldl (relaxRow k) m') k fun a b => done a b ∨ a ∈ srcs := by
  induction srcs generalizing m' done with
  | nil => simpa using h
  | cons src srcs ih =>
    have hnext := ih (relaxRow_visited hm h src (List.finRange n))
    refine ⟨fun a b hd => hnext.done a b ?_, hnext.either⟩
    rcases hd with hd | ha
    · exact .inl (.inl hd)
    · rcases List.mem_cons.mp ha with rfl | ha
      · exact .inl (.inr ⟨rfl, List.mem_finRange b⟩)
      · exact .inr ha

-- the update in place reads no entry that it has changed
theorem relaxAll_apply (k a b : Fin n) : (relaxAll m k).getDistance a b = m.shorter k a b :=
  (relaxRows_visited hm (visited_start m k) (List.finRange n)).done a b
    (.inr (List.mem_finRange a))

end Matrix

def floydWarshall {n : Nat} (topology : Topology n) : Matrix n :=
  (List.finRange n).foldl Matrix.relaxAll topology.matrix

section
variable {n : Nat} (topology : Topology n)

def Topology.walks (src dst : Fin n) : Set Nat := weights topology.link Set.univ src dst

theorem relaxAll_least {m : Matrix n} {S : Set (Fin n)}
    (hm : ∀ a b, IsLeast (weights topology.link S a b) (m.getDistance a b)) (k a b : Fin n) :
    IsLeast (weights topology.link (insert k S) a b) ((Matrix.relaxAll m k).getDistance a b) := by
  have hbounded : ∀ a b, m.getDistance a b ≤ infDistance := fun a b =>
    ((hm a b).2 (Walk.arc a b)).trans (topology.bounded a b)
  rw [Matrix.relaxAll_apply hbounded]
  exact least_insert hm k a b

theorem foldl_least {m : Matrix n} {S : Set (Fin n)} (ks : List (Fin n))
    (hm : ∀ a b, IsLeast (weights topology.link S a b) (m.getDistance a b)) (a b : Fin n) :
    IsLeast (weights topology.link (S ∪ {k | k ∈ ks}) a b)
      ((ks.foldl Matrix.relaxAll m).getDistance a b) := by
  induction ks generalizing m S with
  | nil => simpa using hm a b
  | cons k ks ih =>
    have hset : S ∪ {c | c ∈ k :: ks} = insert k S ∪ {c | c ∈ ks} := by
      ext c
      simp only [Set.mem_union, Set.mem_ofPred_eq, List.mem_cons, Set.mem_insert_iff]
      tauto
    rw [hset]
    exact ih (relaxAll_least topology hm k)

theorem floydWarshall_least (src dst : Fin n) :
    IsLeast (topology.walks src dst) ((floydWarshall topology).getDistance src dst) := by
  have hall : ∅ ∪ {k | k ∈ List.finRange n} = (Set.univ : Set (Fin n)) := by
    ext k
    simp
  unfold floydWarshall Topology.walks
  rw [← hall]
  exact foldl_least topology _ least_empty src dst

end

end OperatingSystems.Stress
