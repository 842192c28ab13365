import OperatingSystems.Scheduling.EventLoop
import OperatingSystems.Scheduling.Scheduler

namespace OperatingSystems.Scheduling
open Transition

variable {ι : Type}

def jobsOf : Nat → List Record → List Job
  | _, [] => []
  | n, record :: rest =>
    jobCreate n record.arrivalTime record.jobTime record.id :: jobsOf (n + 1) rest

def arrived (history : List Turn) : List Job := history.filterMap Turn.arrived

def finished (history : List Turn) : List Job := history.filterMap Turn.finished

def started (history : List Turn) : List Job := history.filterMap Turn.started

@[simp] theorem arrived_append (h₁ h₂ : List Turn) :
    arrived (h₁ ++ h₂) = arrived h₁ ++ arrived h₂ := List.filterMap_append

@[simp] theorem finished_append (h₁ h₂ : List Turn) :
    finished (h₁ ++ h₂) = finished h₁ ++ finished h₂ := List.filterMap_append

@[simp] theorem started_append (h₁ h₂ : List Turn) :
    started (h₁ ++ h₂) = started h₁ ++ started h₂ := List.filterMap_append

@[simp] theorem arrived_singleton (turn : Turn) : arrived [turn] = turn.arrived.toList := by
  cases h : turn.arrived <;> simp [arrived, h]

@[simp] theorem finished_singleton (turn : Turn) : finished [turn] = turn.finished.toList := by
  cases h : turn.finished <;> simp [finished, h]

@[simp] theorem started_singleton (turn : Turn) : started [turn] = turn.started.toList := by
  cases h : turn.started <;> simp [started, h]

def unfinishedJobs (history : List Turn) : List Job :=
  (arrived history).filter fun job => job.ref ∉ (finished history).map Job.ref

def written (history : List Turn) : List (Nat × Nat) :=
  history.filterMap fun turn => turn.finished.map fun job => (job.id, turn.time)

@[simp] theorem written_append (h₁ h₂ : List Turn) :
    written (h₁ ++ h₂) = written h₁ ++ written h₂ := List.filterMap_append

-- the scheduler without the simulator: a processor with one completion to come
structure Machine (ι : Type) where
  now : Nat
  completion : Option Nat
  arrivals : List Job
  info : ι
  history : List Turn

namespace Machine

def create (p : Policy ι) (jobs : List Job) : Machine ι where
  now := 0
  completion := none
  arrivals := jobs
  info := p.create
  history := []

-- no answer when a request would be refused
def answer (now : Nat) : Option Nat → List Request → Option (Option Nat)
  | completion, [] => some completion
  | none, .scheduleNextCompletion timestamp :: rest =>
    if now ≤ timestamp then answer now (some timestamp) rest else none
  | some _, .cancelNextCompletion :: rest => answer now none rest
  | none, .cancelNextCompletion :: _ => none
  | some _, .scheduleNextCompletion _ :: _ => none

def arrive (p : Policy ι) (m : Machine ι) (job : Job) (rest : List Job) : Option (Machine ι) :=
  let now := job.arrivalTime
  let (info, requests) := p.scheduleJob m.info job now
  (answer now m.completion requests).map fun completion =>
    { now := now
      completion := completion
      arrivals := rest
      info := info
      history := m.history ++ [⟨now, some job, none, none, dispatched p info requests⟩] }

def complete (p : Policy ι) (m : Machine ι) (now : Nat) : Option (Machine ι) :=
  let (info, job, requests) := p.completeJob m.info now
  (answer now none requests).map fun completion =>
    { now := now
      completion := completion
      arrivals := m.arrivals
      info := info
      history :=
        m.history ++ [⟨now, none, p.running m.info, job, dispatched p info requests⟩] }

theorem arrive_eq (p : Policy ι) (m : Machine ι) (job : Job) (rest : List Job) :
    m.arrive p job rest =
      (answer job.arrivalTime m.completion (p.scheduleJob m.info job job.arrivalTime).2).map
        fun completion =>
          { now := job.arrivalTime
            completion := completion
            arrivals := rest
            info := (p.scheduleJob m.info job job.arrivalTime).1
            history := m.history ++ [⟨job.arrivalTime, some job, none, none,
              dispatched p (p.scheduleJob m.info job job.arrivalTime).1
                (p.scheduleJob m.info job job.arrivalTime).2⟩] } := rfl

theorem complete_eq (p : Policy ι) (m : Machine ι) (now : Nat) :
    m.complete p now =
      (answer now none (p.completeJob m.info now).2.2).map fun completion =>
        { now := now
          completion := completion
          arrivals := m.arrivals
          info := (p.completeJob m.info now).1
          history := m.history ++ [⟨now, none, p.running m.info, (p.completeJob m.info now).2.1,
            dispatched p (p.completeJob m.info now).1 (p.completeJob m.info now).2.2⟩] } := rfl

-- a completion comes before an arrival at the same time
def step (p : Policy ι) (m : Machine ι) : Option (Machine ι) :=
  match m.completion, m.arrivals with
  | none, [] => none
  | none, job :: rest => m.arrive p job rest
  | some now, [] => m.complete p now
  | some now, job :: rest => if now ≤ job.arrivalTime then m.complete p now else m.arrive p job rest

def system (p : Policy ι) (jobs : List Job) : System (Machine ι) Unit Unit where
  init := fun m => m = create p jobs
  step := fun m _ => (m.step p).map fun m' => ((), m')

inductive Next (p : Policy ι) (m : Machine ι) : Machine ι → Prop
  | arrival {m' : Machine ι} (job : Job) (rest : List Job) : m.arrivals = job :: rest →
      (∀ c ∈ m.completion, job.arrivalTime < c) → m.arrive p job rest = some m' → Next p m m'
  | completion {m' : Machine ι} (now : Nat) : m.completion = some now →
      (∀ job ∈ m.arrivals.head?, now ≤ job.arrivalTime) → m.complete p now = some m' → Next p m m'

theorem step_next {p : Policy ι} {m m' : Machine ι} (h : m.step p = some m') : Next p m m' := by
  unfold step at h
  split at h
  · cases h
  · rename_i job rest hc ha
    exact .arrival job rest ha (by simp [hc]) h
  · rename_i now hc ha
    exact .completion now hc (by simp [ha]) h
  · rename_i now job rest hc ha
    split at h
    · rename_i hle
      exact .completion now hc (by simpa [ha] using hle) h
    · rename_i hlt
      exact .arrival job rest ha (by simpa [hc] using hlt) h

theorem arrival_step {p : Policy ι} {m : Machine ι} {job : Job} {rest : List Job}
    (ha : m.arrivals = job :: rest) (hc : ∀ c ∈ m.completion, job.arrivalTime < c) :
    m.step p = m.arrive p job rest := by
  unfold step
  cases hm : m.completion with
  | none => simp [ha]
  | some c =>
    have hlt : ¬ c ≤ job.arrivalTime := by
      have := hc c hm
      omega
    simp [ha, hlt]

theorem completion_step {p : Policy ι} {m : Machine ι} {now : Nat} (hc : m.completion = some now)
    (ha : ∀ job ∈ m.arrivals.head?, now ≤ job.arrivalTime) : m.step p = m.complete p now := by
  unfold step
  cases hm : m.arrivals with
  | nil => simp [hc]
  | cons job rest =>
    have hle : now ≤ job.arrivalTime := ha job (by simp [hm])
    simp [hc, hle]

end Machine

end OperatingSystems.Scheduling
