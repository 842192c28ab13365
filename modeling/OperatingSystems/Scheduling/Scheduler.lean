import OperatingSystems.Scheduling.Simulator

namespace OperatingSystems.Scheduling
open Transition

-- `ref` is the address of the job
structure Job where
  ref : Nat
  arrivalTime : Nat
  jobTime : Nat
  remainingTime : Nat
  id : Nat
deriving DecidableEq

def jobCreate (ref arrivalTime jobTime id : Nat) : Job :=
  ⟨ref, arrivalTime, jobTime, jobTime, id⟩

-- what a policy asks of the scheduler; no policy looks at the answer
inductive Request
  | scheduleNextCompletion (timestamp : Nat)
  | cancelNextCompletion
deriving DecidableEq

-- `running` is read by the history alone
structure Policy (ι : Type) where
  create : ι
  scheduleJob : ι → Job → Nat → ι × List Request
  completeJob : ι → Nat → ι × Option Job × List Request
  running : ι → Option Job

inductive Callback
  | schedulerCompleteJob
  | traceArrivalCallback
deriving DecidableEq

-- `answers` logs what `schedulerScheduleNextCompletion` returns
structure Scheduler (ι : Type) where
  schedulerInfo : ι
  completionEvent : Option Nat
  answers : List Bool

-- a line of the trace file
structure Record where
  id : Nat
  arrivalTime : Nat
  jobTime : Nat
deriving DecidableEq

-- what one event did: the job that arrived, the job whose completion event it was, the job that
-- was completed, and the job that the next completion event was scheduled for
structure Turn where
  time : Nat
  arrived : Option Job
  ran : Option Job
  finished : Option Job
  started : Option Job
deriving DecidableEq

structure Trace (ι : Type) where
  traceFile : List Record
  outFile : List (Nat × Nat)
  scheduler : Scheduler ι
  currentJob : Option Job
  created : Nat
  history : List Turn

variable {ι : Type}

def schedulerCreate (p : Policy ι) : Scheduler ι where
  schedulerInfo := p.create
  completionEvent := none
  answers := []

def schedulerScheduleNextCompletion (timestamp : Nat) (w : Scheduler ι × Simulator Callback) :
    Option (Scheduler ι × Simulator Callback) :=
  match w.1.completionEvent with
  | some _ => some ({ w.1 with answers := w.1.answers ++ [false] }, w.2)
  | none =>
    (w.2.schedule timestamp .completion .schedulerCompleteJob).map fun r =>
      ({ w.1 with completionEvent := some r.1, answers := w.1.answers ++ [true] }, r.2)

def schedulerCancelNextCompletion (w : Scheduler ι × Simulator Callback) :
    Option (Scheduler ι × Simulator Callback) :=
  match w.1.completionEvent with
  | none => some w
  | some event =>
    (w.2.removeEvent event).map fun sim => ({ w.1 with completionEvent := none }, sim)

def serve : List Request → Scheduler ι × Simulator Callback →
    Option (Scheduler ι × Simulator Callback)
  | [], w => some w
  | .scheduleNextCompletion timestamp :: rest, w =>
    (schedulerScheduleNextCompletion timestamp w).bind (serve rest)
  | .cancelNextCompletion :: rest, w => (schedulerCancelNextCompletion w).bind (serve rest)

def dispatched (p : Policy ι) (info : ι) (requests : List Request) : Option Job :=
  if requests.any fun r => r ≠ .cancelNextCompletion then p.running info else none

abbrev World (ι : Type) := Trace ι × Simulator Callback

def schedulerScheduleJob (p : Policy ι) (job : Job) (w : World ι) : Option (World ι) :=
  let now := w.2.simTime
  let (info, requests) := p.scheduleJob w.1.scheduler.schedulerInfo job now
  (serve requests ({ w.1.scheduler with schedulerInfo := info }, w.2)).map fun r =>
    ({ w.1 with
      scheduler := r.1
      history := w.1.history ++ [⟨now, some job, none, none, dispatched p info requests⟩] }, r.2)

def traceCompletionCallback (job : Job) (w : World ι) : World ι :=
  ({ w.1 with outFile := w.1.outFile ++ [(job.id, w.2.simTime)] }, w.2)

def schedulerCompleteJob (p : Policy ι) (w : World ι) : Option (World ι) :=
  let now := w.2.simTime
  let ran := p.running w.1.scheduler.schedulerInfo
  let (info, job, requests) := p.completeJob w.1.scheduler.schedulerInfo now
  (serve requests
    ({ w.1.scheduler with schedulerInfo := info, completionEvent := none }, w.2)).map fun r =>
      let w' : World ι := ({ w.1 with
        scheduler := r.1
        history := w.1.history ++ [⟨now, none, ran, job, dispatched p info requests⟩] }, r.2)
      job.elim w' fun job => traceCompletionCallback job w'

def traceScheduleNextArrival (w : World ι) : Option (World ι) :=
  match w.1.traceFile with
  | [] => some w
  | record :: rest =>
    let job := jobCreate w.1.created record.arrivalTime record.jobTime record.id
    (w.2.schedule job.arrivalTime .arrival .traceArrivalCallback).map fun r =>
      ({ w.1 with traceFile := rest, currentJob := some job, created := w.1.created + 1 }, r.2)

def traceArrivalCallback (p : Policy ι) (w : World ι) : Option (World ι) :=
  w.1.currentJob.bind fun job => (schedulerScheduleJob p job w).bind traceScheduleNextArrival

def callbacks (p : Policy ι) : Callbacks (Trace ι) Callback
  | .schedulerCompleteJob => schedulerCompleteJob p
  | .traceArrivalCallback => traceArrivalCallback p

def traceStart (p : Policy ι) (records : List Record) : Option (World ι) :=
  traceScheduleNextArrival
    ({ traceFile := records
       outFile := []
       scheduler := schedulerCreate p
       currentJob := none
       created := 0
       history := [] }, simulatorCreate)

def traceRun (p : Policy ι) (records : List Record) (fuel : Nat) : Option (World ι) :=
  (traceStart p records).bind (simulatorRun (callbacks p) fuel)

-- the run of `traceRun`, seen between two events
def simulation (p : Policy ι) (records : List Record) :
    System (World ι) Unit (Nat × Event Callback) where
  init := fun w => traceStart p records = some w
  step := fun w _ => executeNext (callbacks p) w

end OperatingSystems.Scheduling
