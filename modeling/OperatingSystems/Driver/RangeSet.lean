import OperatingSystems.Driver.StreeRefinement

namespace OperatingSystems.Driver

inductive DebugMode
  | none
  | cheap
  | expensive
  deriving DecidableEq

def pointerText (a : Nat) : String :=
  if a = 0 then "(nil)" else "0x" ++ String.ofList (Nat.toDigits 16 a)

-- why `add_range` returns false
inductive Refusal
  | unaligned (lo : Nat)
  | outside (lo hi heapLo heapHi : Nat)
  | overlaps (lo hi otherLo otherHi : Nat)
  deriving DecidableEq

def extentText (lo hi : Nat) : String := "(" ++ pointerText lo ++ ":" ++ pointerText hi ++ ")"

-- the text for `malloc_error`
def Refusal.text : Refusal → String
  | .unaligned lo => "Payload address (" ++ pointerText lo ++ ") not aligned to 16 bytes"
  | .outside lo hi heapLo heapHi =>
    "Payload " ++ extentText lo hi ++ " lies outside heap " ++ extentText heapLo heapHi
  | .overlaps lo hi otherLo otherHi =>
    "Payload " ++ extentText lo hi ++ " overlaps another payload " ++ extentText otherLo otherHi ++ "\n"

-- `(long unsigned) lo` as a `tkey_t`
def toLong (lo : Nat) : Int := if lo < 2 ^ 63 then lo else lo - 0x10000000000000000

theorem toLong_small {lo : Nat} (h : lo < 2 ^ 63) : toLong lo = lo := if_pos h

structure Block where
  lo : Nat
  size : Nat
  index : Int
  heapLo : Nat
  heapHi : Nat

namespace Block

def hi (b : Block) : Nat := (b.lo + b.size - 1) % 2 ^ 64

def Aligned (b : Block) : Prop := b.lo % 16 = 0

def Inside (b : Block) : Prop := b.heapLo ≤ b.lo ∧ b.lo ≤ b.heapHi ∧ b.heapLo ≤ b.hi ∧ b.hi ≤ b.heapHi

instance (b : Block) : Decidable b.Aligned := inferInstanceAs (Decidable (_ = _))

instance (b : Block) : Decidable b.Inside := inferInstanceAs (Decidable (_ ∧ _))

end Block

-- `range_set_t` and its ranges; `live` are the ranges that `malloc` has handed out
structure RangeSet (ν π : Type) where
  list : Option π
  loTree : Tree ν π
  live : π → Bool
  lo : π → Nat
  hi : π → Nat
  index : π → Int
  next : π → Option π
  prev : π → Option π

namespace RangeSet
variable {ν π : Type}

def deref {α : Type} (s : RangeSet ν π) (p : π) (field : α) : Option α :=
  if s.live p then some field else none

theorem deref_live {α : Type} {s : RangeSet ν π} {p : π} (h : s.live p = true) (field : α) :
    s.deref p field = some field := if_pos h

def clash (s : RangeSet ν π) (q : Option π) (test : π → Bool) : Option (Option π) :=
  match q with
  | none => some none
  | some q => s.deref q (if test q then some q else none)

-- `prev->next`, or NULL
def nextOf (s : RangeSet ν π) (prev : Option π) : Option (Option π) :=
  match prev with
  | none => some none
  | some q => s.deref q (s.next q)

-- the loop over `ranges->list` of `eval_mm_valid`
def walk (s : RangeSet ν π) : Nat → Option π → Option (List π)
  | 0, _ => none
  | _ + 1, none => some []
  | fuel + 1, some r => do
    let rest ← s.walk fuel (← s.deref r (s.next r))
    some (r :: rest)

variable [DecidableEq π]

-- `if (prev) prev->next = v; else ranges->list = v`
def setNextOf (s : RangeSet ν π) (prev v : Option π) : Option (RangeSet ν π) :=
  match prev with
  | none => some { s with list := v }
  | some q => s.deref q { s with next := Function.update s.next q v }

-- `if (next) next->prev = v`
def setPrevOf (s : RangeSet ν π) (next v : Option π) : Option (RangeSet ν π) :=
  match next with
  | none => some s
  | some q => s.deref q { s with prev := Function.update s.prev q v }

def createRange (s : RangeSet ν π) (p : π) (b : Block) (prev next : Option π) : RangeSet ν π :=
  { s with
    live := Function.update s.live p true
    lo := Function.update s.lo p b.lo
    hi := Function.update s.hi p b.hi
    index := Function.update s.index p b.index
    next := Function.update s.next p next
    prev := Function.update s.prev p prev }

def free (s : RangeSet ν π) (p : π) : Option (RangeSet ν π) :=
  s.deref p { s with live := Function.update s.live p false }

variable [DecidableEq ν] [Fintype ν]

def record (s : RangeSet ν π) (b : Block) (z : ν) (p : π) (prev next : Option π) :
    Option (RangeSet ν π) := do
  let s ← (s.createRange p b prev next).setNextOf prev (some p)
  let s ← s.setPrevOf next (some p)
  let (_, t) ← s.loTree.treeInsert (toLong b.lo) (some p) z
  some { s with loTree := t }

def addBetween (s : RangeSet ν π) (b : Block) (z : ν) (p : π) (prev next : Option π) :
    Option (Option Refusal × RangeSet ν π) := do
  match ← s.clash prev fun q => b.lo ≤ s.hi q with
  | some q => some (some (.overlaps b.lo b.hi (s.lo q) (s.hi q)), s)
  | none =>
    match ← s.clash next fun q => s.lo q ≤ b.hi with
    | some q => some (some (.overlaps b.lo b.hi (s.lo q) (s.hi q)), s)
    | none => (s.record b z p prev next).map fun s => (none, s)

def addRange (mode : DebugMode) (s : RangeSet ν π) (b : Block) (z : ν) (p : π) :
    Option (Option Refusal × RangeSet ν π) :=
  if b.size = 0 then none
  else if ¬ b.Aligned then some (some (.unaligned b.lo), s)
  else if ¬ b.Inside then some (some (.outside b.lo b.hi b.heapLo b.heapHi), s)
  else if mode = .none then some (none, s)
  else do
    let prev ← s.loTree.treeFindNearest (toLong b.lo)
    let next ← s.nextOf prev
    s.addBetween b z p prev next

def removeRange (s : RangeSet ν π) (lo : Nat) : Option (RangeSet ν π) := do
  let (p, t) ← s.loTree.treeRemove (toLong lo)
  let s := { s with loTree := t }
  match p with
  | none => some s
  | some p => do
    let prev ← s.deref p (s.prev p)
    let next ← s.deref p (s.next p)
    let s ← (← s.setNextOf prev next).setPrevOf next prev
    s.free p

-- `free(NULL)` does nothing
def resetRangeSet (s : RangeSet ν π) : Option (RangeSet ν π) := do
  let (records, t) ← s.loTree.treeFree
  let s ← records.reduceOption.foldlM free s
  some { s with loTree := t.treeNew, list := none }

end RangeSet
end OperatingSystems.Driver
