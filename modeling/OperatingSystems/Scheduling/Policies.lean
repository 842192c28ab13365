import Mathlib.Data.List.FinRange
import Mathlib.Logic.Function.Basic
import OperatingSystems.Scheduling.Scheduler

namespace OperatingSystems.Scheduling

-- `list_remove` of the node that `list_find` gives for the job
def listRemoveJob (jobQueue : List Job) (job : Job) : List Job :=
  jobQueue.eraseP fun j => j.ref = job.ref

structure FCFSInfo where
  jobQueue : List Job
deriving DecidableEq

def schedulerFCFSCreate : FCFSInfo where
  jobQueue := []

def schedulerFCFSScheduleJob (info : FCFSInfo) (job : Job) (currentTime : Nat) :
    FCFSInfo × List Request :=
  let jobQueue := job :: info.jobQueue
  (⟨jobQueue⟩,
    if jobQueue.length = 1 then [.scheduleNextCompletion (wrap (currentTime + job.jobTime))]
    else [])

def schedulerFCFSCompleteJob (info : FCFSInfo) (currentTime : Nat) :
    FCFSInfo × Option Job × List Request :=
  match info.jobQueue.getLast? with
  | none => (info, none, [])
  | some finishedJob =>
    let jobQueue := info.jobQueue.dropLast
    (⟨jobQueue⟩, some finishedJob,
      match jobQueue.getLast? with
      | some nextJob => [.scheduleNextCompletion (wrap (currentTime + nextJob.remainingTime))]
      | none => [])

def fcfs : Policy FCFSInfo where
  create := schedulerFCFSCreate
  scheduleJob := schedulerFCFSScheduleJob
  completeJob := schedulerFCFSCompleteJob
  running := fun info => info.jobQueue.getLast?

structure LCFSInfo where
  jobQueue : List Job
  currentJob : Option Job
deriving DecidableEq

def schedulerLCFSCreate : LCFSInfo where
  jobQueue := []
  currentJob := none

def schedulerLCFSScheduleJob (info : LCFSInfo) (job : Job) (currentTime : Nat) :
    LCFSInfo × List Request :=
  let jobQueue := job :: info.jobQueue
  if jobQueue.length = 1 then
    (⟨jobQueue, some job⟩, [.scheduleNextCompletion (wrap (currentTime + job.jobTime))])
  else (⟨jobQueue, info.currentJob⟩, [])

def schedulerLCFSCompleteJob (info : LCFSInfo) (currentTime : Nat) :
    LCFSInfo × Option Job × List Request :=
  match info.currentJob with
  | none => (info, none, [])
  | some finished =>
    let jobQueue := listRemoveJob info.jobQueue finished
    match jobQueue.head? with
    | some next =>
      (⟨jobQueue, some next⟩, some finished,
        [.scheduleNextCompletion (wrap (currentTime + next.jobTime))])
    | none => (⟨jobQueue, none⟩, some finished, [])

def lcfs : Policy LCFSInfo where
  create := schedulerLCFSCreate
  scheduleJob := schedulerLCFSScheduleJob
  completeJob := schedulerLCFSCompleteJob
  running := LCFSInfo.currentJob

structure SJFInfo where
  jobQueue : List Job
  currentJob : Option Job
deriving DecidableEq

def schedulerSJFCreate : SJFInfo where
  jobQueue := []
  currentJob := none

def schedulerSJFScheduleJob (info : SJFInfo) (job : Job) (currentTime : Nat) :
    SJFInfo × List Request :=
  let jobQueue := job :: info.jobQueue
  match info.currentJob with
  | none => (⟨jobQueue, some job⟩, [.scheduleNextCompletion (wrap (currentTime + job.jobTime))])
  | some currentJob => (⟨jobQueue, some currentJob⟩, [])

def scanShortest (bestTime bestId : Nat) (nextJob : Option Job) : List Job → Option Job
  | [] => nextJob
  | candidate :: rest =>
    if candidate.jobTime < bestTime ∨ candidate.jobTime = bestTime ∧ candidate.id < bestId then
      scanShortest candidate.jobTime candidate.id (some candidate) rest
    else scanShortest bestTime bestId nextJob rest

def schedulerSJFCompleteJob (info : SJFInfo) (currentTime : Nat) :
    SJFInfo × Option Job × List Request :=
  let finished := info.currentJob
  let jobQueue := finished.elim info.jobQueue fun job => listRemoveJob info.jobQueue job
  match scanShortest (2 ^ 64 - 1) (2 ^ 64 - 1) none jobQueue with
  | some nextJob =>
    (⟨jobQueue, some nextJob⟩, finished,
      [.scheduleNextCompletion (wrap (currentTime + nextJob.jobTime))])
  | none => (⟨jobQueue, none⟩, finished, [])

def sjf : Policy SJFInfo where
  create := schedulerSJFCreate
  scheduleJob := schedulerSJFScheduleJob
  completeJob := schedulerSJFCompleteJob
  running := SJFInfo.currentJob

abbrev maxMLFQLevels : Nat := 10

instance : NeZero maxMLFQLevels := ⟨Nat.succ_ne_zero 9⟩

structure MLFQJob where
  job : Job
  level : Fin maxMLFQLevels
deriving DecidableEq

structure MLFQInfo where
  queues : Fin maxMLFQLevels → List MLFQJob
  running : Option MLFQJob
  lastTime : Nat

-- `list_insert` into the queue of the job's level, where `always_less` puts it at the end
def MLFQInfo.insert (info : MLFQInfo) (w : MLFQJob) : MLFQInfo :=
  { info with queues := Function.update info.queues w.level (info.queues w.level ++ [w]) }

def MLFQJob.demote (w : MLFQJob) : MLFQJob :=
  if h : w.level.val < maxMLFQLevels - 1 then { w with level := ⟨w.level.val + 1, by omega⟩ } else w

def MLFQJob.setRemainingTime (w : MLFQJob) (remainingTime : Nat) : MLFQJob :=
  { w with job := { w.job with remainingTime := remainingTime } }

def highest (queues : Fin maxMLFQLevels → List MLFQJob) :
    Option (Fin maxMLFQLevels × MLFQJob × List MLFQJob) :=
  (List.finRange maxMLFQLevels).findSome? fun lvl =>
    match queues lvl with
    | [] => none
    | next :: rest => some (lvl, next, rest)

def scheduleNext (info : MLFQInfo) (now : Nat) : MLFQInfo × List Request :=
  match highest info.queues with
  | none => ({ info with running := none }, [])
  | some (lvl, next, rest) =>
    let rem := next.job.remainingTime
    let run := if rem < 1 then rem else 1
    ({ queues := Function.update info.queues lvl rest, running := some next, lastTime := now },
      [.scheduleNextCompletion (wrap (now + run))])

def schedulerMLFQCreate : MLFQInfo where
  queues := fun _ => []
  running := none
  lastTime := 0

-- what `schedulerMLFQScheduleJob` does to a job that has run for `run` when it is displaced
def MLFQJob.displace (running : MLFQJob) (run : Nat) : MLFQJob :=
  if 0 < run then
    let rem := running.job.remainingTime
    let run := if rem < run then rem else run
    let running := running.setRemainingTime (rem - run)
    if 1 ≤ run then running.demote else running
  else running

def schedulerMLFQScheduleJob (info : MLFQInfo) (job : Job) (now : Nat) :
    MLFQInfo × List Request :=
  let info := info.insert ⟨job, 0⟩
  match info.running with
  | none => scheduleNext info now
  | some running =>
    if 0 < running.level.val then
      let running := running.displace (wrap (now + 2 ^ 64 - info.lastTime))
      let r := scheduleNext { info.insert running with running := none } now
      (r.1, .cancelNextCompletion :: r.2)
    else (info, [])

def schedulerMLFQCompleteJob (info : MLFQInfo) (now : Nat) :
    MLFQInfo × Option Job × List Request :=
  match info.running with
  | none =>
    let r := scheduleNext info now
    (r.1, none, r.2)
  | some w =>
    let info := { info with running := none }
    let rem := w.job.remainingTime
    if 1 < rem then
      let r := scheduleNext (info.insert (w.setRemainingTime (rem - 1)).demote) now
      (r.1, none, r.2)
    else
      let r := scheduleNext info now
      (r.1, some (w.setRemainingTime 0).job, r.2)

def mlfq : Policy MLFQInfo where
  create := schedulerMLFQCreate
  scheduleJob := schedulerMLFQScheduleJob
  completeJob := schedulerMLFQCompleteJob
  running := fun info => info.running.map MLFQJob.job

inductive SchedulerName
  | FCFS
  | LCFS
  | SJF
  | MLFQ
deriving DecidableEq

def SchedulerName.Info : SchedulerName → Type
  | .FCFS => FCFSInfo
  | .LCFS => LCFSInfo
  | .SJF => SJFInfo
  | .MLFQ => MLFQInfo

def SchedulerName.policy : (name : SchedulerName) → Policy name.Info
  | .FCFS => fcfs
  | .LCFS => lcfs
  | .SJF => sjf
  | .MLFQ => mlfq

end OperatingSystems.Scheduling
