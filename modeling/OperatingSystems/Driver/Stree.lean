import Mathlib.Data.Fintype.Card
import OperatingSystems.Library.LinkedTree

namespace OperatingSystems.Driver
open LinkedTree

-- `tree_t` and its nodes; `live` are the cells that `malloc` has handed out
structure Tree (ν ρ : Type) extends Links ν where
  nodeCount : Nat
  live : ν → Bool
  key : ν → Int
  record : ν → Option ρ

namespace Tree
variable {ν ρ : Type}

def withLinks (t : Tree ν ρ) (l : Links ν) : Tree ν ρ := { t with toLinks := l }

@[simp] theorem withLinks_toLinks (t : Tree ν ρ) (l : Links ν) : (t.withLinks l).toLinks = l := rfl

@[simp] theorem withLinks_withLinks (t : Tree ν ρ) (l l' : Links ν) :
    (t.withLinks l).withLinks l' = t.withLinks l' := rfl

@[simp] theorem withLinks_live (t : Tree ν ρ) (l : Links ν) : (t.withLinks l).live = t.live := rfl

-- `none` stands for a pointer to no live node and for a loop that does not end
def deref {α : Type} (t : Tree ν ρ) (x : ν) (field : α) : Option α :=
  if t.live x then some field else none

@[simp] theorem deref_withLinks {α : Type} (t : Tree ν ρ) (l : Links ν) (x : ν) (field : α) :
    (t.withLinks l).deref x field = t.deref x field := rfl

section
variable [DecidableEq ν]

def setChild (t : Tree ν ρ) (d : Side) (x : ν) (v : Option ν) : Option (Tree ν ρ) :=
  t.deref x (t.withLinks (t.toLinks.setTarget (some (d, x)) v))

def setParent (t : Tree ν ρ) (x : ν) (v : Option ν) : Option (Tree ν ρ) :=
  t.deref x (t.withLinks (t.toLinks.setParent x v))

-- `if (v) v->parent = p`
def setParentOf (t : Tree ν ρ) (v p : Option ν) : Option (Tree ν ρ) :=
  match v with
  | none => some t
  | some x => t.setParent x p

def relink (t : Tree ν ρ) (u : ν) (v : Option ν) : Option (Tree ν ρ) := do
  match ← t.deref u (t.parent u) with
  | none => some (t.withLinks (t.toLinks.setTarget none v))
  | some p =>
    if some u = (← t.deref p (t.child .left p)) then t.setChild .left p v
    else t.setChild .right p v

def rotate (d : Side) (t : Tree ν ρ) (x : ν) : Option (Tree ν ρ) := do
  match ← t.deref x (t.child d x) with
  | none => (← t.relink x none).setParent x none
  | some y => do
    let inner ← t.deref y (t.child d.other y)
    let t ← (← t.setChild d x inner).setParentOf inner (some x)
    let t ← t.setParent y (← t.deref x (t.parent x))
    let t ← (← t.relink x (some y)).setChild d.other y (some x)
    t.setParent x (some y)

def leftRotate : Tree ν ρ → ν → Option (Tree ν ρ) := rotate .right

def rightRotate : Tree ν ρ → ν → Option (Tree ν ρ) := rotate .left

def rotateParent (d : Side) (t : Tree ν ρ) (x : ν) : Option (Tree ν ρ) := do
  match ← t.deref x (t.parent x) with
  | none => none
  | some p => rotate d t p

def hasChild (t : Tree ν ρ) (d : Side) (p x : ν) : Option Bool :=
  (t.deref p (t.child d p)).map fun c => c = some x

-- one round of the loop of `splay`, with `x->parent` at hand
def splayRound (t : Tree ν ρ) (x p : ν) : Option (Tree ν ρ) := do
  match ← t.deref p (t.parent p) with
  | none => if ← t.hasChild .left p x then t.rightRotate p else t.leftRotate p
  | some g =>
    if (← t.hasChild .left p x) && (← t.hasChild .left g p) then
      (← t.rightRotate g).rotateParent .left x
    else if (← t.hasChild .right p x) && (← t.hasChild .right g p) then
      (← t.leftRotate g).rotateParent .right x
    else if (← t.hasChild .left p x) && (← t.hasChild .right g p) then
      (← t.rightRotate p).rotateParent .right x
    else (← t.leftRotate p).rotateParent .left x

def splayLoop : Nat → Tree ν ρ → ν → Option (Tree ν ρ)
  | 0, _, _ => none
  | fuel + 1, t, x => do
    match ← t.deref x (t.parent x) with
    | none => some t
    | some p => splayLoop fuel (← t.splayRound x p) x

def replace (t : Tree ν ρ) (u : ν) (v : Option ν) : Option (Tree ν ρ) := do
  let t ← t.relink u v
  t.setParentOf v (← t.deref u (t.parent u))

def free (t : Tree ν ρ) (x : ν) : Option (Tree ν ρ) :=
  t.deref x { t with live := Function.update t.live x false }

end

def descend (t : Tree ν ρ) (key : Int) : Nat → Option ν → Option ν → Option (Option ν × Option ν)
  | 0, _, _ => none
  | _ + 1, none, p => some (none, p)
  | fuel + 1, some z, p => do
    let k ← t.deref z (t.key z)
    if key = k then some (some z, p)
    else t.descend key fuel (← t.deref z (t.child (if k < key then .right else .left) z)) (some z)

def descendNearest (t : Tree ν ρ) (key : Int) : Nat → Option ν → Option ν → Option (Option ν)
  | 0, _, _ => none
  | _ + 1, none, n => some n
  | fuel + 1, some z, n => do
    let k ← t.deref z (t.key z)
    if key = k then some (some z)
    else if k < key then do
      let closer ← match n with
        | none => some true
        | some n => (t.deref n (t.key n)).map fun nearest => decide (nearest < k)
      t.descendNearest key fuel (← t.deref z (t.child .right z)) (if closer then some z else n)
    else t.descendNearest key fuel (← t.deref z (t.child .left z)) n

def subtreeMinimum (t : Tree ν ρ) : Nat → ν → Option ν
  | 0, _ => none
  | fuel + 1, u => do
    match ← t.deref u (t.child .left u) with
    | none => some u
    | some l => t.subtreeMinimum fuel l

-- the records in the order in which they are passed to `free_fun`
def freeSubtree [DecidableEq ν] : Nat → Tree ν ρ → Option ν → Option (List (Option ρ) × Tree ν ρ)
  | 0, _, _ => none
  | _ + 1, t, none => some ([], t)
  | fuel + 1, t, some x => do
    let (left, t) ← freeSubtree fuel t (← t.deref x (t.child .left x))
    let (right, t) ← freeSubtree fuel t (← t.deref x (t.child .right x))
    let record ← t.deref x (t.record x)
    some (left ++ right ++ [record], ← t.free x)

-- a walk along the nodes takes less steps than there are cells
variable [Fintype ν]

def steps (_ : Tree ν ρ) : Nat := Fintype.card ν + 1

def treeNew (t : Tree ν ρ) : Tree ν ρ := { t with root := none, nodeCount := 0 }

def treeFind (t : Tree ν ρ) (key : Int) : Option (Option ρ) := do
  match ← t.descend key t.steps t.root none with
  | (none, _) => some none
  | (some z, _) => t.deref z (t.record z)

def treeFindNearest (t : Tree ν ρ) (key : Int) : Option (Option ρ) := do
  match ← t.descendNearest key t.steps t.root none with
  | none => some none
  | some n => t.deref n (t.record n)

variable [DecidableEq ν]

def splay (t : Tree ν ρ) (x : ν) : Option (Tree ν ρ) := splayLoop t.steps t x

def createNode (t : Tree ν ρ) (z : ν) (key : Int) (record : Option ρ) (p : Option ν) :
    Tree ν ρ where
  toLinks := ((t.toLinks.setTarget (some (.right, z)) none).setTarget (some (.left, z)) none).setParent
    z p
  nodeCount := t.nodeCount
  live := Function.update t.live z true
  key := Function.update t.key z key
  record := Function.update t.record z record

def linkNode (t : Tree ν ρ) (z : ν) (p : Option ν) : Option (Tree ν ρ) :=
  match p with
  | none => some (t.withLinks (t.toLinks.setTarget none (some z)))
  | some p => do
    let k ← t.deref p (t.key p)
    t.setChild (if k < t.key z then .right else .left) p (some z)

def treeInsert (t : Tree ν ρ) (key : Int) (record : Option ρ) (z : ν) :
    Option (Bool × Tree ν ρ) := do
  match ← t.descend key t.steps t.root none with
  | (some _, _) => some (false, t)
  | (none, p) => do
    let t ← (t.createNode z key record p).linkNode z p
    let t ← t.splay z
    some (true, { t with nodeCount := t.nodeCount + 1 })

def takeRight (t : Tree ν ρ) (z y : ν) : Option (Tree ν ρ) := do
  if some z = (← t.deref y (t.parent y)) then some t
  else do
    let t ← t.replace y (← t.deref y (t.child .right y))
    let r ← t.deref z (t.child .right z)
    let t ← t.setChild .right y r
    match r with
    | none => none
    | some r => t.setParent r (some y)

def takePlace (t : Tree ν ρ) (z y : ν) : Option (Tree ν ρ) := do
  let t ← t.replace z (some y)
  let l ← t.deref z (t.child .left z)
  let t ← t.setChild .left y l
  match l with
  | none => none
  | some l => t.setParent l (some y)

def unlink (t : Tree ν ρ) (z : ν) : Option (Tree ν ρ) := do
  match ← t.deref z (t.child .left z), ← t.deref z (t.child .right z) with
  | none, r => t.replace z r
  | l, none => t.replace z l
  | some _, some r => do
    let y ← t.subtreeMinimum t.steps r
    (← t.takeRight z y).takePlace z y

def treeRemove (t : Tree ν ρ) (key : Int) : Option (Option ρ × Tree ν ρ) := do
  match ← t.descend key t.steps t.root none with
  | (none, _) => some (none, t)
  | (some z, _) => do
    let t ← t.splay z
    let t ← t.unlink z
    let r ← t.deref z (t.record z)
    some (r, ← { t with nodeCount := t.nodeCount - 1 }.free z)

def treeFree (t : Tree ν ρ) : Option (List (Option ρ) × Tree ν ρ) := do
  match t.root with
  | none => some ([], t)
  | some x => freeSubtree t.steps t (some x)

end Tree
end OperatingSystems.Driver
