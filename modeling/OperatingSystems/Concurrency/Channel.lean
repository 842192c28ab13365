import Mathlib.Tactic.Simps.Basic
import OperatingSystems.Concurrency.Buffer

namespace OperatingSystems.Concurrency

inductive Dir
  | send
  | recv
deriving DecidableEq

def Dir.flip : Dir → Dir
  | .send => .recv
  | .recv => .send

@[simp] theorem flip_flip (d : Dir) : d.flip.flip = d := by
  cases d <;> rfl

theorem flip_of_ne {d d' : Dir} (h : d' ≠ d) : d' = d.flip := by
  cases d <;> cases d' <;> first | rfl | exact absurd rfl h

-- `CHANNEL_EMPTY` and `CHANNEL_FULL` are one value, `0`
inductive Status
  | channelEmpty
  | success
  | genericError
  | closedError
  | destroyError
deriving DecidableEq

abbrev Status.channelFull : Status := .channelEmpty

inductive Cond
  | notFull
  | notEmpty
  | rendezvousWait
  | rendezvousComplete
deriving DecidableEq

-- the function that runs an operation: `channel_send` and `channel_receive`, their non-blocking
-- versions, or `channel_select` for one entry
inductive Mode
  | blocking
  | nonblocking
  | select
deriving DecidableEq

structure Op (χ : Type) where
  mode : Mode
  dir : Dir
  chan : χ
  index : Nat
deriving DecidableEq

-- the calls of `pthread_cond_wait`
inductive Wait
  | retry
  | loop
  | rendezvous
  | complete
deriving DecidableEq

def Wait.cond : Wait → Dir → Cond
  | .retry, .send => .notFull
  | .retry, .recv => .notEmpty
  | .loop, .send => .notEmpty
  | .loop, .recv => .notFull
  | .rendezvous, _ => .rendezvousWait
  | .complete, _ => .rendezvousComplete

def Dir.announces : Dir → Cond
  | .send => .notEmpty
  | .recv => .notFull

structure Channel (τ α : Type) where
  isUnbuffered : Bool
  buffer : Buffer α
  closedFlag : Bool
  selectors : Dir → List τ
  activeUnbufOp : Option Dir
  unbufStage : Nat
  unbufData : Option (τ × Nat)
  waiting : Dir → Nat
  chanMutex : Option τ

-- where a thread enters or continues its critical section on `chan_mutex`
inductive Point
  | lock
  | recheck
  | wait (w : Wait)
deriving DecidableEq

inductive Move (α : Type)
  | transfer (buffer : Buffer α) (value : α)
  | refuse
  | closed
  | block (w : Wait)
  | publish
  | exchange
  | hold
  | complete

namespace Channel
variable {τ χ α : Type}

-- an unbuffered channel has no buffer, and nothing reads the field there
def create (size : Nat) (garbage : Nat → α) : Channel τ α where
  isUnbuffered := size == 0
  buffer := .create size garbage
  closedFlag := false
  selectors := fun _ => []
  activeUnbufOp := none
  unbufStage := 0
  unbufData := none
  waiting := fun _ => 0
  chanMutex := none

def transfer (ch : Channel τ α) : Dir → α → Option (Buffer α × α)
  | .send, v => (ch.buffer.add v).map fun b => (b, v)
  | .recv, _ => ch.buffer.remove.map fun r => (r.2, r.1)

def partnerActive (ch : Channel τ α) (d : Dir) : Prop :=
  ch.unbufStage = 1 ∧ ch.activeUnbufOp = some d.flip

instance (ch : Channel τ α) (d : Dir) : Decidable (ch.partnerActive d) :=
  inferInstanceAs (Decidable (_ ∧ _))

def ready (ch : Channel τ α) (d : Dir) : Prop :=
  ch.partnerActive d ∨ 0 < (ch.selectors d.flip).length

instance (ch : Channel τ α) (d : Dir) : Decidable (ch.ready d) :=
  inferInstanceAs (Decidable (_ ∨ _))

def unbufferedSync (ch : Channel τ α) (d : Dir) : Move α :=
  if ch.unbufStage = 0 then .publish
  else if ch.unbufStage = 1 then
    if ch.activeUnbufOp = some d then .block .rendezvous else .exchange
  else .block .rendezvous

-- the `while` of the non-blocking operations
def nonBlockingLoop (ch : Channel τ α) (d : Dir) : Move α :=
  if 0 < ch.waiting d.flip ∧ ch.unbufStage = 0 ∧ ¬ 0 < (ch.selectors d.flip).length then
    .block .loop
  else .hold

def readySync (ch : Channel τ α) (d : Dir) : Move α :=
  if ch.ready d then ch.unbufferedSync d else .refuse

-- the `while` of the blocking operations, and the single attempt of the others
def buffered (ch : Channel τ α) (o : Op χ) (v : α) : Move α :=
  match ch.transfer o.dir v with
  | some (b, v) => .transfer b v
  | none =>
    match o.mode with
    | .blocking => if ch.closedFlag then .closed else .block .retry
    | .nonblocking => .refuse
    | .select => .refuse

def unbuffered (ch : Channel τ α) (o : Op χ) : Move α :=
  match o.mode with
  | .blocking => ch.unbufferedSync o.dir
  | .nonblocking => ch.nonBlockingLoop o.dir
  | .select => ch.readySync o.dir

def move (ch : Channel τ α) (o : Op χ) (v : α) : Point → Move α
  | .lock =>
    if ch.closedFlag then .closed
    else if ch.isUnbuffered then ch.unbuffered o
    else ch.buffered o v
  | .recheck => ch.readySync o.dir
  | .wait .retry => ch.buffered o v
  | .wait .loop => ch.nonBlockingLoop o.dir
  | .wait .rendezvous => ch.unbufferedSync o.dir
  | .wait .complete => .complete

@[simps]
def countWaiting (ch : Channel τ α) (d : Dir) (f : Nat → Nat) : Channel τ α :=
  { ch with waiting := Function.update ch.waiting d (f (ch.waiting d)) }

-- `waiting_senders--` or `waiting_receivers--` on the way back to `stage0`
def arrive (ch : Channel τ α) (d : Dir) : Point → Channel τ α
  | .wait .rendezvous => ch.countWaiting d (· - 1)
  | _ => ch

-- the channel as the critical section leaves it; the mutex stays taken across `hold` and `publish`
def after (ch : Channel τ α) (t : τ) (o : Op χ) : Move α → Channel τ α
  | .transfer b _ => { ch with buffer := b, chanMutex := none }
  | .refuse => { ch with chanMutex := none }
  | .closed => { ch with chanMutex := none }
  | .block .rendezvous => { ch.countWaiting o.dir (· + 1) with chanMutex := none }
  | .block _ => { ch with chanMutex := none }
  | .publish =>
    { ch with
      unbufStage := 1
      activeUnbufOp := some o.dir
      unbufData := some (t, o.index)
      chanMutex := some t }
  | .exchange => { ch with unbufStage := 2, chanMutex := none }
  | .hold => { ch with chanMutex := some t }
  | .complete => { ch with unbufStage := 0, chanMutex := none }

section
variable (ch : Channel τ α) (t : τ) (o : Op χ) (m : Move α)

@[simp] theorem after_isUnbuffered : (ch.after t o m).isUnbuffered = ch.isUnbuffered := by
  cases m with
  | block w => cases w <;> rfl
  | _ => rfl

@[simp] theorem after_closedFlag : (ch.after t o m).closedFlag = ch.closedFlag := by
  cases m with
  | block w => cases w <;> rfl
  | _ => rfl

@[simp] theorem after_selectors : (ch.after t o m).selectors = ch.selectors := by
  cases m with
  | block w => cases w <;> rfl
  | _ => rfl

theorem after_chanMutex : (ch.after t o m).chanMutex =
    match m with
    | .publish => some t
    | .hold => some t
    | _ => none := by
  cases m with
  | block w => cases w <;> rfl
  | _ => rfl

theorem after_buffer : (ch.after t o m).buffer =
    match m with
    | .transfer b _ => b
    | _ => ch.buffer := by
  cases m with
  | block w => cases w <;> rfl
  | _ => rfl

theorem after_unbufStage : (ch.after t o m).unbufStage =
    match m with
    | .publish => 1
    | .exchange => 2
    | .complete => 0
    | _ => ch.unbufStage := by
  cases m with
  | block w => cases w <;> rfl
  | _ => rfl

theorem after_activeUnbufOp : (ch.after t o m).activeUnbufOp =
    match m with
    | .publish => some o.dir
    | _ => ch.activeUnbufOp := by
  cases m with
  | block w => cases w <;> rfl
  | _ => rfl

theorem after_unbufData : (ch.after t o m).unbufData =
    match m with
    | .publish => some (t, o.index)
    | _ => ch.unbufData := by
  cases m with
  | block w => cases w <;> rfl
  | _ => rfl

end

section
variable (ch : Channel τ α) (d : Dir) (p : Point)

theorem arrive_eq : ∃ waiting, ch.arrive d p = { ch with waiting } := by
  unfold arrive
  split
  · exact ⟨_, rfl⟩
  · exact ⟨ch.waiting, rfl⟩

@[simp] theorem arrive_isUnbuffered : (ch.arrive d p).isUnbuffered = ch.isUnbuffered := by
  obtain ⟨waiting, h⟩ := arrive_eq ch d p
  rw [h]

@[simp] theorem arrive_buffer : (ch.arrive d p).buffer = ch.buffer := by
  obtain ⟨waiting, h⟩ := arrive_eq ch d p
  rw [h]

@[simp] theorem arrive_closedFlag : (ch.arrive d p).closedFlag = ch.closedFlag := by
  obtain ⟨waiting, h⟩ := arrive_eq ch d p
  rw [h]

@[simp] theorem arrive_selectors : (ch.arrive d p).selectors = ch.selectors := by
  obtain ⟨waiting, h⟩ := arrive_eq ch d p
  rw [h]

@[simp] theorem arrive_activeUnbufOp : (ch.arrive d p).activeUnbufOp = ch.activeUnbufOp := by
  obtain ⟨waiting, h⟩ := arrive_eq ch d p
  rw [h]

@[simp] theorem arrive_unbufStage : (ch.arrive d p).unbufStage = ch.unbufStage := by
  obtain ⟨waiting, h⟩ := arrive_eq ch d p
  rw [h]

@[simp] theorem arrive_unbufData : (ch.arrive d p).unbufData = ch.unbufData := by
  obtain ⟨waiting, h⟩ := arrive_eq ch d p
  rw [h]

@[simp] theorem arrive_chanMutex : (ch.arrive d p).chanMutex = ch.chanMutex := by
  obtain ⟨waiting, h⟩ := arrive_eq ch d p
  rw [h]

end

end Channel

end OperatingSystems.Concurrency
