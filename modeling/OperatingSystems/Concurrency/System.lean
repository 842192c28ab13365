import Mathlib.Data.Fintype.Basic
import Mathlib.Tactic.Simps.Basic
import OperatingSystems.Concurrency.Channel
import OperatingSystems.Library.Transition

namespace OperatingSystems.Concurrency
open Transition

structure Entry (χ α : Type) where
  channel : χ
  dir : Dir
  data : α
deriving DecidableEq

inductive Call (χ α : Type)
  | send (channel : χ) (data : α)
  | receive (channel : χ)
  | nonBlockingSend (channel : χ) (data : α)
  | nonBlockingReceive (channel : χ)
  | select (entries : List (Entry χ α))
  | close (channel : χ)
deriving DecidableEq

inductive Pc (χ : Type)
  | idle
  | enter (p : Point) (o : Op χ)
  | publish (o : Op χ)
  | notify (o : Op χ)
  | signal (o : Op χ)
  | closeLock (c : χ)
  | closeNotify (d : Dir) (c : χ)
  | closeBroadcast (k : Cond) (c : χ)
  | register (i : Nat)
  | semWait
  | cleanup (i : Nat) (o : Op χ) (st : Status)
  | ret (o : Option (Op χ)) (st : Status)
deriving DecidableEq

-- `data t i` is the cell that entry `i` of the call of `t` points to, `calls` counts the calls
structure State (τ χ α : Type) where
  chan : χ → Channel τ α
  pc : τ → Pc χ
  woken : τ → Bool
  sem : τ → Nat
  data : τ → Nat → α
  entries : τ → List (Entry χ α)
  selIdx : τ → Option Nat
  calls : τ → Nat

inductive Action (τ χ α : Type)
  | call (t : τ) (k : Call χ α)
  | run (t : τ) (wake : τ → Bool)
  | spurious (t : τ)

inductive Label (τ χ α : Type)
  | tau
  | called (t : τ) (n : Nat) (k : Call χ α)
  | took (t : τ) (n : Nat) (o : Op χ) (v : α)
  | refused (t : τ) (n : Nat) (o : Op χ)
  | denied (t : τ) (n : Nat) (o : Op χ)
  | paired (c : χ) (sender receiver : τ × Nat) (v : α)
  | shut (t : τ) (n : Nat) (c : χ)
  | returned (t : τ) (n : Nat) (o : Option (Op χ)) (st : Status)
deriving DecidableEq

section
variable {τ χ α : Type} [DecidableEq τ] [DecidableEq χ]

@[simps -fullyApplied]
def State.setChan (s : State τ χ α) (c : χ) (ch : Channel τ α) : State τ χ α :=
  { s with chan := Function.update s.chan c ch }

@[simps -fullyApplied]
def State.goto (s : State τ χ α) (t : τ) (p : Pc χ) : State τ χ α :=
  { s with pc := Function.update s.pc t p }

@[simps -fullyApplied]
def State.setData (s : State τ χ α) (t : τ) (i : Nat) (v : α) : State τ χ α :=
  { s with data := Function.update s.data t (Function.update (s.data t) i v) }

@[simps -fullyApplied]
def State.setSelIdx (s : State τ χ α) (t : τ) (i : Nat) : State τ χ α :=
  { s with selIdx := Function.update s.selIdx t (some i) }

@[simps -fullyApplied]
def State.sleep (s : State τ χ α) (t : τ) (w : Wait) (o : Op χ) : State τ χ α :=
  { s with
    pc := Function.update s.pc t (.enter (.wait w) o)
    woken := Function.update s.woken t false }

def Pc.waitsOn (c : χ) (k : Cond) : Pc χ → Bool
  | .enter (.wait w) o => o.chan = c ∧ w.cond o.dir = k
  | _ => false

def State.blockedOn (s : State τ χ α) (c : χ) (k : Cond) (u : τ) : Bool :=
  (s.pc u).waitsOn c k && !s.woken u

@[simps -fullyApplied]
def State.wake (s : State τ χ α) (c : χ) (k : Cond) (chosen : τ → Bool) : State τ χ α :=
  { s with woken := fun u => s.woken u || (s.blockedOn c k u && chosen u) }

def State.broadcast (s : State τ χ α) (c : χ) (k : Cond) : State τ χ α := s.wake c k fun _ => true

-- a signal wakes at least one of the threads that are blocked
def State.legal [Fintype τ] (s : State τ χ α) (c : χ) (k : Cond) (chosen : τ → Bool) : Prop :=
  (∃ u, s.blockedOn c k u) → ∃ u, s.blockedOn c k u ∧ chosen u

instance [Fintype τ] (s : State τ χ α) (c : χ) (k : Cond) (chosen : τ → Bool) :
    Decidable (s.legal c k chosen) := inferInstanceAs (Decidable (_ → _))

-- `notify_select_senders` and `notify_select_receivers`
@[simps -fullyApplied]
def State.notifySelect (s : State τ χ α) (d : Dir) (c : χ) : State τ χ α :=
  { s with sem := fun u => s.sem u + ((s.chan c).selectors d).count u }

def State.addSelect (s : State τ χ α) (t : τ) (e : Entry χ α) : State τ χ α :=
  let ch := s.chan e.channel
  s.setChan e.channel
    { ch with selectors := Function.update ch.selectors e.dir (ch.selectors e.dir ++ [t]) }

def State.removeSelect (s : State τ χ α) (t : τ) (e : Entry χ α) : State τ χ α :=
  let ch := s.chan e.channel
  s.setChan e.channel
    { ch with selectors := Function.update ch.selectors e.dir ((ch.selectors e.dir).erase t) }

-- the scan loop of `channel_select` at entry `i`
def State.scanAt (s : State τ χ α) (t : τ) (i : Nat) : Pc χ :=
  match (s.entries t)[i]? with
  | some e => .enter .lock ⟨.select, e.dir, e.channel, i⟩
  | none => .semWait

def Op.leave (o : Op χ) (st : Status) : Pc χ :=
  match o.mode with
  | .blocking => .ret (some o) st
  | .nonblocking => .ret (some o) st
  | .select => .cleanup 0 o st

def State.finish (s : State τ χ α) (t : τ) (o : Op χ) (st : Status) : State τ χ α :=
  match o.mode with
  | .blocking => s.goto t (o.leave st)
  | .nonblocking => s.goto t (o.leave st)
  | .select => (s.setSelIdx t o.index).goto t (o.leave st)

-- `CHANNEL_FULL` is returned, or makes the scan loop go on with the next entry
def State.refused (s : State τ χ α) (t : τ) (o : Op χ) : Pc χ :=
  match o.mode with
  | .blocking => .ret (some o) .channelFull
  | .nonblocking => .ret (some o) .channelFull
  | .select => s.scanAt t (o.index + 1)

def State.start (s : State τ χ α) (t : τ) (k : Call χ α) : State τ χ α :=
  let s := { s with
    calls := Function.update s.calls t (s.calls t + 1)
    selIdx := Function.update s.selIdx t none }
  let single := fun (s : State τ χ α) (m : Mode) (d : Dir) (c : χ) =>
    { s with
      entries := Function.update s.entries t [⟨c, d, s.data t 0⟩]
      pc := Function.update s.pc t (.enter .lock ⟨m, d, c, 0⟩) }
  match k with
  | .send c v => single (s.setData t 0 v) .blocking .send c
  | .receive c => single s .blocking .recv c
  | .nonBlockingSend c v => single (s.setData t 0 v) .nonblocking .send c
  | .nonBlockingReceive c => single s .nonblocking .recv c
  | .select es =>
    if es = [] then s.goto t (.ret none .genericError)
    else
      { s with
        entries := Function.update s.entries t es
        data := Function.update s.data t fun i => (es[i]?).elim (s.data t i) Entry.data
        sem := Function.update s.sem t 0
        pc := Function.update s.pc t (.register 0) }
  | .close c => s.goto t (.closeLock c)

-- the thread may take `chan_mutex`, or holds it since it last let go of the processor
def State.admitted (s : State τ χ α) (t : τ) (c : χ) : Point → Prop
  | .lock => (s.chan c).chanMutex = none
  | .recheck => (s.chan c).chanMutex = some t
  | .wait _ => s.woken t ∧ (s.chan c).chanMutex = none

instance (s : State τ χ α) (t : τ) (c : χ) (p : Point) : Decidable (s.admitted t c p) := by
  cases p <;> unfold State.admitted <;> infer_instance

-- `*data_ptr = *channel->unbuf_data`, or the other way
def State.exchangeData (s : State τ χ α) (t : τ) (o : Op χ) (partner : τ × Nat) : State τ χ α :=
  match o.dir with
  | .recv => s.setData t o.index (s.data partner.1 partner.2)
  | .send => s.setData partner.1 partner.2 (s.data t o.index)

def State.exchangeLabel (s : State τ χ α) (t : τ) (o : Op χ) (partner : τ × Nat) : Label τ χ α :=
  let self := (t, s.calls t)
  let other := (partner.1, s.calls partner.1)
  match o.dir with
  | .recv => .paired o.chan other self (s.data partner.1 partner.2)
  | .send => .paired o.chan self other (s.data t o.index)

variable [Fintype τ]

def State.act (s : State τ χ α) (t : τ) (o : Op χ) (ch : Channel τ α) (wake : τ → Bool)
    (m : Move α) : Option (Label τ χ α × State τ χ α) :=
  let left := s.setChan o.chan (ch.after t o m)
  match m with
  | .transfer _ v =>
    some (.took t (s.calls t) o v, (left.setData t o.index v).goto t (.notify o))
  | .refuse => some (.refused t (s.calls t) o, left.goto t (s.refused t o))
  | .closed =>
    -- the scan loop returns from a closed unbuffered channel without `*sel_idx = i`
    some (.denied t (s.calls t) o,
      if ch.isUnbuffered then left.goto t (o.leave .closedError) else left.finish t o .closedError)
  | .block w => some (.tau, left.sleep t w o)
  | .publish => some (.tau, left.goto t (.publish o))
  | .exchange =>
    if s.legal o.chan .rendezvousComplete wake then
      ch.unbufData.map fun partner =>
        let woken := left.wake o.chan .rendezvousComplete wake
        (s.exchangeLabel t o partner, (woken.exchangeData t o partner).finish t o .success)
    else none
  | .hold => some (.tau, left.goto t (.enter .recheck o))
  | .complete => some (.tau, (left.broadcast o.chan .rendezvousWait).finish t o .success)

def State.critical (s : State τ χ α) (t : τ) (p : Point) (o : Op χ) (wake : τ → Bool) :
    Option (Label τ χ α × State τ χ α) :=
  if s.admitted t o.chan p then
    let ch := (s.chan o.chan).arrive o.dir p
    s.act t o ch wake (ch.move o (s.data t o.index) p)
  else none

def Cond.nextInClose : Cond → Option Cond
  | .notEmpty => some .notFull
  | .notFull => some .rendezvousWait
  | .rendezvousWait => some .rendezvousComplete
  | .rendezvousComplete => none

def State.closeSection (s : State τ χ α) (t : τ) (c : χ) : Option (Label τ χ α × State τ χ α) :=
  if (s.chan c).chanMutex = none then
    if (s.chan c).closedFlag then some (.tau, s.goto t (.ret none .closedError))
    else some (.shut t (s.calls t) c,
      (s.setChan c { s.chan c with closedFlag := true }).goto t (.closeNotify .recv c))
  else none

def State.run (s : State τ χ α) (t : τ) (wake : τ → Bool) : Option (Label τ χ α × State τ χ α) :=
  match s.pc t with
  | .idle => none
  | .enter p o => s.critical t p o wake
  | .publish o =>
    let s := (s.notifySelect o.dir.flip o.chan).broadcast o.chan o.dir.announces
    some (.tau, (s.setChan o.chan { s.chan o.chan with chanMutex := none }).sleep t .complete o)
  | .notify o => some (.tau, (s.notifySelect o.dir.flip o.chan).goto t (.signal o))
  | .signal o =>
    if s.legal o.chan o.dir.announces wake then
      some (.tau, (s.wake o.chan o.dir.announces wake).finish t o .success)
    else none
  | .closeLock c => s.closeSection t c
  | .closeNotify .recv c => some (.tau, (s.notifySelect .recv c).goto t (.closeNotify .send c))
  | .closeNotify .send c =>
    some (.tau, (s.notifySelect .send c).goto t (.closeBroadcast .notEmpty c))
  | .closeBroadcast k c =>
    some (.tau, (s.broadcast c k).goto t
      ((k.nextInClose).elim (.ret none .success) (Pc.closeBroadcast · c)))
  | .register i =>
    match (s.entries t)[i]? with
    | some e => some (.tau, (s.addSelect t e).goto t (.register (i + 1)))
    | none => some (.tau, s.goto t (s.scanAt t 0))
  | .semWait =>
    if 0 < s.sem t then
      some (.tau, { s with sem := Function.update s.sem t (s.sem t - 1) }.goto t (s.scanAt t 0))
    else none
  | .cleanup i o st =>
    match (s.entries t)[i]? with
    | some e => some (.tau, (s.removeSelect t e).goto t (.cleanup (i + 1) o st))
    | none => some (.tau, s.goto t (.ret (some o) st))
  | .ret o st => some (.returned t (s.calls t) o st, s.goto t .idle)

def State.step (s : State τ χ α) : Action τ χ α → Option (Label τ χ α × State τ χ α)
  | .call t k =>
    match s.pc t with
    | .idle => some (.called t (s.calls t + 1) k, s.start t k)
    | _ => none
  | .run t wake => s.run t wake
  | .spurious t =>
    match s.pc t with
    | .enter (.wait _) _ =>
      if s.woken t then none else some (.tau, { s with woken := Function.update s.woken t true })
    | _ => none

end

end OperatingSystems.Concurrency
