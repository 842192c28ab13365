import Mathlib.Algebra.GroupWithZero.Nat
import Mathlib.Data.Fintype.Sum
import Mathlib.Tactic.DeriveFintype
import OperatingSystems.Concurrency.Programs
import OperatingSystems.Stress.FloydWarshall

namespace OperatingSystems.Stress
open Concurrency

inductive Thread (n : Nat)
  | main
  | router (index : Fin n)
deriving DecidableEq, Fintype

inductive Chan (n : Nat)
  | node (i : Fin n)
  | done
  | completed
deriving DecidableEq, Fintype

instance slots : NeZero 4 := ⟨Nat.succ_ne_zero 3⟩

-- one of the four states that a router has allocated
structure VectorPtr (n : Nat) where
  owner : Fin n
  slot : Fin 4
deriving DecidableEq

structure DistanceVector (n : Nat) where
  src : Fin n
  epoch : Nat
  dist : Fin n → Nat

structure Memory (n : Nat) where
  vector : VectorPtr n → DistanceVector n
  freed : Fin n → Bool

abbrev Message (n : Nat) := Option (VectorPtr n)

abbrev Link (n : Nat) := Entry (Chan n) (Message n)

inductive RouterPc (n : Nat)
  | select
  | source (neighbor : VectorPtr n)
  | load (neighbor : VectorPtr n) (neighborDist : Nat) (i : Fin n)
  | store (neighbor : VectorPtr n) (neighborDist : Nat) (i : Fin n) (newDist : Nat)
  | reply
  | cycle
  | copy (i : Fin n)
  | exit
  | exited
  | failed
deriving DecidableEq

-- the code does not keep `cycles` and `replies`: how often the states were cycled, and the cycles
-- and what was answered at each test of convergence
structure Router (n : Nat) where
  changed : Bool
  prevPrev : Fin 4
  prev : Fin 4
  curr : Fin 4
  next : Fin 4
  selectList : List (Link n)
  selectCount : Nat
  pc : RouterPc n
  cycles : Nat
  replies : List (Nat × Bool)

inductive MainPc (n : Nat)
  | flush (second : Bool) (i : Fin n)
  | gather (second : Bool) (i : Fin n)
  | source (second : Bool) (i : Fin n) (newData : VectorPtr n)
  | oldEpoch (i : Fin n) (newData : VectorPtr n) (index : Fin n)
  | newEpoch (i : Fin n) (newData : VectorPtr n) (epoch : Nat)
  | check (src dst : Fin n)
  | closeDone
  | join (i : Fin n)
  | closeCompleted
  | closeNode (i : Fin n)
  | returned
  | failed
deriving DecidableEq

-- the code does not keep `rounds`: how often all routers have been tested
structure Main (n : Nat) where
  pc : MainPc n
  valid : Bool
  completed : Fin n → Message n
  rounds : Nat

abbrev Local {n : Nat} : Thread n → Type
  | .main => Main n
  | .router _ => Router n

variable {n : Nat}

def after (i : Fin n) : Option (Fin n) := if h : i + 1 < n then some ⟨i + 1, h⟩ else none

namespace Memory

def read (m : Memory n) (p : VectorPtr n) : Option (DistanceVector n) :=
  if m.freed p.owner then none else some (m.vector p)

@[simps]
def write (m : Memory n) (p : VectorPtr n) (v : DistanceVector n) : Memory n :=
  { m with vector := Function.update m.vector p v }

end Memory

def swapChannels (l : List (Link n)) (a b : Nat) : List (Link n) :=
  match l[a]?, l[b]? with
  | some e, some f => (l.set a { e with channel := f.channel }).set b { f with channel := e.channel }
  | _, _ => l

section
variable (topology : Topology n) (index : Fin n)

def neighbors : List (Fin n) :=
  (List.finRange n).filter fun i => i ≠ index ∧ topology.link index i ≠ infDistance

def totalSelectCount : Nat := 2 + (neighbors topology index).length

def Router.start : Router n where
  changed := false
  prevPrev := 0
  prev := 1
  curr := 2
  next := 3
  selectList := ⟨.done, .recv, none⟩ :: ⟨.node index, .recv, none⟩ ::
    (neighbors topology index).map fun i => ⟨.node i, .send, some ⟨index, 2⟩⟩
  selectCount := totalSelectCount topology index
  pc := .select
  cycles := 0
  replies := []

end

namespace Router

-- what follows each `select`: with nothing left to send, changes are sent on
def settle (r : Router n) : Router n :=
  if r.selectCount = 2 ∧ r.changed = true then
    { r with
      prevPrev := r.prev
      prev := r.curr
      curr := r.next
      next := r.prevPrev
      cycles := r.cycles + 1
      pc := .cycle }
  else { r with pc := .select }

def converged (r : Router n) : Bool := r.selectCount = 2 && !r.changed

def sent (r : Router n) (selectedIndex : Nat) : Router n :=
  { r with
    selectCount := r.selectCount - 1
    selectList := swapChannels r.selectList (r.selectCount - 1) selectedIndex }

-- a failed assertion stops the thread
def selected (r : Router n) (selectedIndex : Nat) (data : Message n) : Router n :=
  match selectedIndex, data with
  | 0, _ => { r with pc := .failed }
  | 1, some p => { r with pc := .source p }
  | 1, none => { r with pc := .reply }
  | k + 2, _ => (r.sent (k + 2)).settle

def replied (r : Router n) : Router n :=
  { r with replies := r.replies ++ [(r.cycles, r.converged)] }.settle

-- `curr_state`, or `NULL`
def report (index : Fin n) (r : Router n) : Message n :=
  if r.converged then some ⟨index, r.curr⟩ else none

def ask (index : Fin n) (r : Router n) : Option (Call (Chan n) (Message n)) :=
  match r.pc with
  | .select => some (.select (r.selectList.take r.selectCount))
  | .reply => some (.send .completed (r.report index))
  | _ => none

def answer (r : Router n) (result : Result (Message n)) : Router n :=
  match r.pc, result.status, result.index, result.value with
  | .select, .success, some selectedIndex, some data => r.selected selectedIndex data
  | .select, .closedError, some 0, _ => { r with pc := if r.changed then .failed else .exit }
  | .reply, .success, _, _ => r.replied
  | _, _, _, _ => { r with pc := .failed }

def relaxed (r : Router n) (neighbor : VectorPtr n) (neighborDist : Nat) (i : Fin n) : Router n :=
  match after i with
  | some i' => { r with pc := .load neighbor neighborDist i' }
  | none => r.settle

def reset (topology : Topology n) (index : Fin n) (r : Router n) : Router n :=
  { r with
    selectCount := totalSelectCount topology index
    selectList := r.selectList.take 2 ++
      (r.selectList.drop 2).map fun e => { e with data := some ⟨index, r.curr⟩ }
    changed := false
    pc := .select }

def copied (topology : Topology n) (index : Fin n) (r : Router n) (i : Fin n) : Router n :=
  match after i with
  | some i' => { r with pc := .copy i' }
  | none => r.reset topology index

def move (topology : Topology n) (index : Fin n) (r : Router n) (m : Memory n) :
    Option (Router n × Memory n) :=
  let curr := m.vector ⟨index, r.curr⟩
  let next := m.vector ⟨index, r.next⟩
  match r.pc with
  | .source p =>
    match m.read p with
    | some v =>
      let neighborDist := topology.link index v.src
      if neighborDist = infDistance then some ({ r with pc := .failed }, m)
      else some ({ r with pc := .load p neighborDist ⟨0, index.pos⟩ }, m)
    | none => some ({ r with pc := .failed }, m)
  | .load p neighborDist i =>
    match m.read p with
    | some v => some ({ r with pc := .store p neighborDist i (addDistance neighborDist (v.dist i)) }, m)
    | none => some ({ r with pc := .failed }, m)
  | .store p neighborDist i newDist =>
    if newDist < next.dist i then
      some ({ r with changed := true }.relaxed p neighborDist i,
        m.write ⟨index, r.next⟩ { next with dist := Function.update next.dist i newDist })
    else some (r.relaxed p neighborDist i, m)
  | .cycle =>
    some ({ r with pc := .copy ⟨0, index.pos⟩ },
      m.write ⟨index, r.next⟩ { next with epoch := curr.epoch + 1 })
  | .copy i =>
    some (r.copied topology index i,
      m.write ⟨index, r.next⟩ { next with dist := Function.update next.dist i (curr.dist i) })
  | .exit =>
    some ({ r with pc := .exited }, { m with freed := Function.update m.freed index true })
  | _ => none

end Router

namespace Main
variable [NeZero n]

-- `check_done` begins
def restart (l : Main n) : Main n where
  pc := .flush false 0
  valid := true
  completed := fun _ => none
  rounds := l.rounds + 1

def flushed (l : Main n) (second : Bool) (i : Fin n) : Main n :=
  match after i with
  | some i' => { l with pc := .flush second i' }
  | none => { l with pc := .gather second 0 }

def gathered (l : Main n) (second : Bool) (i : Fin n) : Main n :=
  match after i with
  | some i' => { l with pc := .gather second i' }
  | none =>
    if l.valid then
      if second then { l with pc := .check 0 0 }
      else { l with pc := .flush true 0, rounds := l.rounds + 1 }
    else l.restart

def received (l : Main n) (second : Bool) (i : Fin n) (data : Message n) : Main n :=
  match data with
  | some p => { l with pc := .source second i p }
  | none => { l with valid := false }.gathered second i

def checked (l : Main n) (src dst : Fin n) : Main n :=
  match after dst, after src with
  | some dst', _ => { l with pc := .check src dst' }
  | none, some src' => { l with pc := .check src' 0 }
  | none, none => { l with pc := .closeDone }

def joined (l : Main n) (i : Fin n) : Main n :=
  match after i with
  | some i' => { l with pc := .join i' }
  | none => { l with pc := .closeCompleted }

def closed (l : Main n) (i : Fin n) : Main n :=
  match after i with
  | some i' => { l with pc := .closeNode i' }
  | none => { l with pc := .returned }

def ask (l : Main n) : Option (Call (Chan n) (Message n)) :=
  match l.pc with
  | .flush _ i => some (.send (.node i) none)
  | .gather _ _ => some (.receive .completed)
  | .closeDone => some (.close .done)
  | .closeCompleted => some (.close .completed)
  | .closeNode i => some (.close (.node i))
  | _ => none

def answer (l : Main n) (result : Result (Message n)) : Main n :=
  match l.pc, result.status, result.value with
  | .flush second i, .success, _ => l.flushed second i
  | .gather second i, .success, some data => l.received second i data
  | .closeDone, .success, _ => { l with pc := .join 0 }
  | .closeCompleted, .success, _ => { l with pc := .closeNode 0 }
  | .closeNode i, .success, _ => l.closed i
  | _, _, _ => { l with pc := .failed }

def move (solution : Matrix n) (l : Main n) (m : Memory n) : Option (Main n × Memory n) :=
  match l.pc with
  | .source second i p =>
    match m.read p with
    | some v =>
      if second then some ({ l with pc := .oldEpoch i p v.src }, m)
      else some
        ({ l with completed := Function.update l.completed v.src (some p) }.gathered false i, m)
    | none => some ({ l with pc := .failed }, m)
  | .oldEpoch i p index =>
    match (l.completed index).bind m.read with
    | some v => some ({ l with pc := .newEpoch i p v.epoch }, m)
    | none => some ({ l with pc := .failed }, m)
  | .newEpoch i p epoch =>
    match m.read p with
    | some v => some ({ l with valid := l.valid && epoch = v.epoch }.gathered true i, m)
    | none => some ({ l with pc := .failed }, m)
  | .check src dst =>
    match (l.completed src).bind m.read with
    | some v =>
      if v.dist dst = solution.getDistance src dst then some (l.checked src dst, m)
      else some ({ l with pc := .failed }, m)
    | none => some ({ l with pc := .failed }, m)
  | .join i => if m.freed i then some (l.joined i, m) else none
  | _ => none

end Main

def Memory.start (topology : Topology n) : Memory n where
  vector p := { src := p.owner, epoch := p.slot, dist := topology.link p.owner }
  freed _ := false

def Main.start [NeZero n] : Main n where
  pc := .flush false 0
  valid := true
  completed := fun _ => none
  rounds := 0

-- `run_stress` and its routers
def program [NeZero n] (topology : Topology n) :
    Program (Memory n) (Thread n) Local (Chan n) (Message n) where
  init l m := l .main = Main.start ∧ (∀ i, l (.router i) = Router.start topology i) ∧
    m = Memory.start topology
  ask
    | .main => Main.ask
    | .router i => Router.ask i
  answer
    | .main => Main.answer
    | .router _ => Router.answer
  move
    | .main => Main.move (floydWarshall topology)
    | .router i => Router.move topology i

abbrev Network (n : Nat) := World (Memory n) (Thread n) Local (Chan n) (Message n)

end OperatingSystems.Stress
