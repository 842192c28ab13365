import Mathlib.Algebra.Group.Nat.Defs
import Mathlib.Algebra.GroupWithZero.Nat
import Mathlib.Data.List.Sort
import OperatingSystems.Library.Transition

namespace OperatingSystems.Scheduling

-- `uint64_t` arithmetic
def wrap (n : Nat) : Nat := n % 2 ^ 64

theorem wrap_of_lt {n : Nat} (h : n < 2 ^ 64) : wrap n = n := Nat.mod_eq_of_lt h

-- `list_insert`, with the comparison function of the list
def listInsert {δ : Type} (compare : δ → δ → Int) (data : δ) : List δ → List δ
  | [] => [data]
  | cur :: rest =>
    if compare cur data < 0 then cur :: listInsert compare data rest else data :: cur :: rest

inductive EventType
  | completion
  | arrival
deriving DecidableEq

def EventType.code : EventType → Nat
  | .completion => 0
  | .arrival => 1

structure Event (β : Type) where
  timestamp : Nat
  type : EventType
  id : Nat
  callback : β
deriving DecidableEq

variable {σ β : Type}

def simulatorEventCompare (event1 event2 : Event β) : Int :=
  if event1.timestamp < event2.timestamp then -1
  else if event1.timestamp = event2.timestamp then
    if event1.type.code < event2.type.code then -1
    else if event1.type.code = event2.type.code then
      if event1.id < event2.id then -1
      else if event1.id = event2.id then 0
      else 1
    else 1
  else 1

-- a node of the queue is named by the number of the event in `scheduled`, the log of all events;
-- `removed` is the log of `simulatorRemoveEvent`
structure Simulator (β : Type) where
  queue : List (Nat × Event β)
  simTime : Nat
  id : Nat
  scheduled : List (Event β)
  removed : List Nat

def simulatorCreate : Simulator β where
  queue := []
  simTime := 0
  id := 0
  scheduled := []
  removed := []

namespace Simulator

-- the assertion fails on a timestamp in the past
def schedule (sim : Simulator β) (timestamp : Nat) (type : EventType) (callback : β) :
    Option (Nat × Simulator β) :=
  if sim.simTime ≤ timestamp then
    let event : Event β := ⟨timestamp, type, sim.id, callback⟩
    let node := sim.scheduled.length
    some (node, { sim with
      queue := listInsert (fun n₁ n₂ => simulatorEventCompare n₁.2 n₂.2) (node, event) sim.queue
      id := wrap (sim.id + 1)
      scheduled := sim.scheduled ++ [event] })
  else none

-- `list_remove`, undefined for a node that has been freed
def listRemove (sim : Simulator β) (node : Nat) : Option (Simulator β) :=
  if node ∈ sim.queue.map Prod.fst then
    some { sim with queue := sim.queue.eraseP fun n => n.1 = node }
  else none

def removeEvent (sim : Simulator β) (eventRef : Nat) : Option (Simulator β) :=
  (sim.listRemove eventRef).map fun sim => { sim with removed := sim.removed ++ [eventRef] }

end Simulator

-- what the callbacks do, on the data they share and on the simulator
abbrev Callbacks (σ β : Type) := β → σ × Simulator β → Option (σ × Simulator β)

-- one iteration of the loop of `simulatorRun`
def executeNext (call : Callbacks σ β) (w : σ × Simulator β) :
    Option ((Nat × Event β) × (σ × Simulator β)) :=
  match w.2.queue with
  | [] => none
  | (node, event) :: _ =>
    (call event.callback (w.1, { w.2 with simTime := event.timestamp })).bind fun w' =>
      (w'.2.listRemove node).map fun sim => ((node, event), (w'.1, sim))

def simulatorRun (call : Callbacks σ β) : Nat → σ × Simulator β → Option (σ × Simulator β)
  | 0, _ => none
  | fuel + 1, w =>
    if w.2.queue = [] then some w
    else (executeNext call w).bind fun r => simulatorRun call fuel r.2

end OperatingSystems.Scheduling
